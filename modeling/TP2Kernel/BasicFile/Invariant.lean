import TP2Kernel.BasicFile.Table
import TP2Kernel.Framework.Counting

/-! # What creating and destroying a file can do

    `numFiles` counts the named entries, their names are distinct and the entries without
    a name are clear.  Creation and destruction keep this, although destruction looks for
    the file among the first `numFiles` entries only and may miss it.
-/

namespace TP2Kernel

/-! ### Pages taken and given back -/

namespace PageStack

/-- The pages that can still be popped. -/
def Free (m : PageStack) (page : Addr) : Prop := page ≠ NULL ∧ page ∈ m.free

/-- There is exactly one page left to pop. -/
def LastPage (m : PageStack) : Prop :=
  m.initialized = true ∧ m.stackTop.toNat + 1 = STACK_SIZE

instance (m : PageStack) : Decidable m.LastPage := inferInstanceAs (Decidable (_ ∧ _))

/-- What `POP_PAGE` leaves, and the page it yields, into an uninitialised variable. -/
def pop (m : PageStack) : PageStack × Addr := m.pageManager .POP_PAGE NULL

theorem pop_eq_of_page {m : PageStack} (h : m.pop.2 ≠ NULL) :
    m.initialized = true ∧ m.stackTop.toNat < STACK_SIZE ∧ m.pop = m.popPage := by
  by_cases hinit : m.initialized = true
  · have hpop : m.pop = m.popPage := by simp [pop, pageManager, hinit]
    refine ⟨hinit, ?_, hpop⟩
    by_contra hlt
    rw [hpop, popPage_exhausted hlt] at h
    exact h rfl
  · exact absurd (by simp [pop, pageManager, hinit]) h

/-- A page that is given back at once goes to its old place, unless it was the last one:
    then it is lost. -/
theorem push_pop {m : PageStack} (h : m.pop.2 ≠ NULL) :
    (m.pop.1.pageManager .PUSH_PAGE m.pop.2).1 = if m.LastPage then m.pop.1 else m := by
  obtain ⟨hinit, hlt, hpop⟩ := pop_eq_of_page h
  have htop : (m.stackTop + 1).toNat = m.stackTop.toNat + 1 :=
    Word.uint16_toNat_succ (by unfold STACK_SIZE at hlt; omega)
  have hpop' : m.popPage = ({ m with stackTop := m.stackTop + 1 },
      m.pageStack m.stackTop.toNat) := by
    simp [popPage, hlt]
  have hpush : (m.pop.1.pageManager .PUSH_PAGE m.pop.2).1 = m.pop.1.pushPage m.pop.2 := by
    rw [hpop, hpop']
    simp [pageManager, hinit]
  rw [hpush]
  by_cases hlast : m.LastPage
  · rw [if_pos hlast]
    apply pushPage_refused
    rw [hpop, hpop']
    have := hlast.2
    simp only [htop]
    omega
  · rw [if_neg hlast, hpop, hpop']
    have hroom : m.stackTop.toNat + 1 < STACK_SIZE := by
      have : m.stackTop.toNat + 1 ≠ STACK_SIZE := fun h' => hlast ⟨hinit, h'⟩
      omega
    have hpos : (0 : UInt16) < m.stackTop + 1 := by
      rw [UInt16.lt_iff_toNat_lt, htop]
      exact Nat.succ_pos _
    have hback : m.stackTop + 1 - 1 = m.stackTop := by
      rw [← UInt16.toNat_inj, Word.uint16_toNat_pred (by omega), htop]
      omega
    simp [pushPage, hpos, htop, hroom, hback]

/-- The last page that is popped is not free any more. -/
theorem lastPage_free {m : PageStack} (h : m.pop.2 ≠ NULL) (hlast : m.LastPage) :
    m.Free m.pop.2 ∧ ¬ m.pop.1.Free m.pop.2 := by
  obtain ⟨-, hlt, hpop⟩ := pop_eq_of_page h
  have hfree := popPage_free hlt
  have htop : (m.stackTop + 1).toNat = STACK_SIZE := by
    rw [Word.uint16_toNat_succ (by unfold STACK_SIZE at hlt; omega)]
    exact hlast.2
  have hnone : m.popPage.1.free = [] := by
    simp [popPage, hlt, free, htop]
  rw [hpop]
  rw [hpop] at h
  constructor
  · exact ⟨h, by rw [hfree]; exact List.mem_cons_self⟩
  · intro h
    obtain ⟨-, hmem⟩ := h
    rw [hnone] at hmem
    exact absurd hmem List.not_mem_nil

/-- A `NULL` that is popped was no free page. -/
theorem pop_null_free {m : PageStack} (h : m.pop.2 = NULL) (page : Addr) :
    m.pop.1.Free page ↔ m.Free page := by
  by_cases hinit : m.initialized = true
  · have hpop : m.pop = m.popPage := by simp [pop, pageManager, hinit]
    by_cases hlt : m.stackTop.toNat < STACK_SIZE
    · rw [hpop] at h
      unfold Free
      rw [hpop, popPage_free hlt, h, List.mem_cons]
      constructor
      · intro h
        obtain ⟨hne, hmem⟩ := h
        exact ⟨hne, .inr hmem⟩
      · intro h
        obtain ⟨hne, rfl | hmem⟩ := h
        · exact absurd rfl hne
        · exact ⟨hne, hmem⟩
    · rw [hpop, popPage_exhausted hlt]
  · have hpop : m.pop = (m, NULL) := by simp [pop, pageManager, hinit]
    rw [hpop]

end PageStack

namespace FilesTable

variable {t t' : FilesTable}

/-! ### The invariant -/

/-- Entry `i` holds a file. -/
def Named (t : FilesTable) (i : Nat) : Prop := (t.filesTable i).name ≠ CString.empty

instance (t : FilesTable) : DecidablePred t.Named := fun i =>
  inferInstanceAs (Decidable ((t.filesTable i).name ≠ CString.empty))

structure Inv (t : FilesTable) : Prop where
  numFiles : t.numFiles.toNat = Counting.count t.Named maxFiles
  unused : ∀ i, i < maxFiles → ¬ t.Named i → t.filesTable i = .zero
  distinct : ∀ i j, i < maxFiles → j < maxFiles → t.Named i →
    (t.filesTable i).name = (t.filesTable j).name → i = j

theorem inv_cleared : FilesTable.cleared.Inv := by
  have hnone : ∀ i, ¬ FilesTable.cleared.Named i := fun i h => h rfl
  refine ⟨?_, fun _ _ _ => rfl, fun i _ _ _ h => absurd h (hnone i)⟩
  rw [Counting.count_eq_zero_iff.mpr fun i _ => hnone i]
  rfl

/-- The invariant says nothing of the indices of the circular arrays. -/
theorem Inv.congr (h : t.Inv) (hnum : t'.numFiles = t.numFiles)
    (hname : ∀ i, (t'.filesTable i).name = (t.filesTable i).name)
    (hunused : ∀ i, ¬ t.Named i → t'.filesTable i = t.filesTable i) : t'.Inv := by
  have hnamed : ∀ i, t'.Named i ↔ t.Named i := by
    intro i
    unfold Named
    rw [hname]
  refine ⟨?_, ?_, ?_⟩
  · rw [hnum, h.numFiles]
    exact Counting.count_congr fun i _ => (hnamed i).symm
  · intro i hi hn
    rw [hnamed] at hn
    rw [hunused i hn]
    exact h.unused i hi hn
  · intro i j hi hj hn heq
    rw [hname, hname] at heq
    exact h.distinct i j hi hj ((hnamed i).mp hn) heq

/-! ### Creation -/

/-- The entry of a new file with a page of its own. -/
def newEntry (name : CString) (stream : Addr) : BasicFileEntry where
  name := name
  stream := stream
  size := PAGE_SIZE
  place := .HEAP
  writeIndex := 0
  readIndex := 0

def withFile (t : FilesTable) (i : Nat) (e : BasicFileEntry) : FilesTable :=
  { t.setEntry i e with numFiles := t.numFiles + 1 }

/-- The name `createBasicFileWithName` rejects at once. -/
def BadName (name : CString) : Prop := name = CString.empty ∨ name.length > MAX_NAME

instance (name : CString) : Decidable (BadName name) := inferInstanceAs (Decidable (_ ∨ _))

/-- The table has room for a file of that name. -/
def Accepts (t : FilesTable) (name : CString) : Prop :=
  t.numFiles < UInt64.ofNat maxFiles ∧ name ≠ CString.empty ∧ name.length < MAX_NAME ∧
    t.findBasicFile name = none

instance (t : FilesTable) (name : CString) : Decidable (t.Accepts name) :=
  inferInstanceAs (Decidable (_ ∧ _ ∧ _ ∧ _))

def firstFree (t : FilesTable) : Nat :=
  Scan.scan (fun i => (t.filesTable i).name = CString.empty) maxFiles

theorem createBasicFile_eq (t : FilesTable) (name : CString) {stream : Addr}
    (hstream : stream ≠ NULL) : t.createBasicFile name stream PAGE_SIZE .HEAP =
      if t.Accepts name then
        (some t.firstFree, t.withFile t.firstFree (newEntry name stream))
      else (none, t) := by
  have hvalid : t.validateParams name stream PAGE_SIZE .HEAP = true ↔
      name ≠ CString.empty ∧ name.length < MAX_NAME ∧ t.findBasicFile name = none := by
    have hsize : ¬ PAGE_SIZE ≤ 0 := by decide
    unfold validateParams
    by_cases hempty : name = CString.empty
    · simp [hempty]
    by_cases hlen : name.length ≥ MAX_NAME
    · simp [hlen]
    · have hlen' : name.length < MAX_NAME := Nat.lt_of_not_le hlen
      simp [hempty, hlen, hlen', hstream, hsize]
  by_cases hfull : t.numFiles ≥ UInt64.ofNat maxFiles
  · have hno : ¬ t.Accepts name := fun h => absurd h.1 (by simpa using hfull)
    rw [if_neg hno]
    simp [createBasicFile, hfull]
  by_cases hacc : t.Accepts name
  · rw [if_pos hacc]
    simp only [createBasicFile, if_neg hfull, hvalid.mpr hacc.2]
    rfl
  · have hno : t.validateParams name stream PAGE_SIZE .HEAP = false := by
      rw [← Bool.not_eq_true, hvalid]
      exact fun h => hacc ⟨by simpa using hfull, h⟩
    rw [if_neg hacc]
    simp [createBasicFile, hfull, hno]

/-- What is left of the pages when the page for a file is given back at once. -/
def givenBack (pages : PageStack) : PageStack :=
  (pages.pop.1.pageManager .PUSH_PAGE pages.pop.2).1

theorem createBasicFileWithName_eq (t : FilesTable) (pages : PageStack) (name : CString) :
    t.createBasicFileWithName pages (some name) =
      if BadName name then (none, t, pages)
      else if pages.pop.2 = NULL then (none, t, pages.pop.1)
      else if t.Accepts name then
        (some t.firstFree, t.withFile t.firstFree (newEntry name pages.pop.2), pages.pop.1)
      else (none, t, givenBack pages) := by
  have hpop : pages.pageManager .POP_PAGE NULL = pages.pop := rfl
  simp only [createBasicFileWithName, hpop]
  by_cases hname : BadName name
  · have hname' : name = CString.empty ∨ name.length > MAX_NAME := hname
    rw [if_pos hname, if_pos hname']
  have hname' : ¬ (name = CString.empty ∨ name.length > MAX_NAME) := hname
  rw [if_neg hname, if_neg hname']
  by_cases hpage : pages.pop.2 = NULL
  · rw [if_pos hpage, if_pos hpage]
  rw [if_neg hpage, if_neg hpage, createBasicFile_eq t name hpage]
  by_cases hacc : t.Accepts name
  · rw [if_pos hacc, if_pos hacc]
  · rw [if_neg hacc, if_neg hacc]
    rfl

theorem findBasicFile_none_iff {name : CString} :
    t.findBasicFile name = none ↔ ∀ i, i < maxFiles → (t.filesTable i).name ≠ name := by
  have hle := Scan.scan_le (p := fun i => strcmp (t.filesTable i).name name = 0) maxFiles
  have hnone := Scan.scan_eq_iff_none
    (p := fun i => strcmp (t.filesTable i).name name = 0) (n := maxFiles)
  simp only [strcmp_eq_zero_iff] at hle hnone
  rw [← hnone]
  simp only [findBasicFile, strcmp_eq_zero_iff]
  constructor
  · intro h
    split at h
    · omega
    · cases h
  · intro h
    rw [if_pos (by omega)]

/-- A free entry is found when the count says that there is one. -/
theorem Inv.firstFree (h : t.Inv) (hroom : t.numFiles < UInt64.ofNat maxFiles) :
    t.firstFree < maxFiles ∧ ¬ t.Named t.firstFree ∧ ∀ j, j < t.firstFree → t.Named j := by
  have hlt : t.numFiles.toNat < maxFiles := UInt64.lt_iff_toNat_lt.mp hroom
  rw [h.numFiles] at hlt
  obtain ⟨j, hj, hfree⟩ := Counting.exists_of_count_lt hlt
  have hscan : t.firstFree < maxFiles :=
    Scan.scan_lt_iff.mpr ⟨j, hj, by simpa [Named] using hfree⟩
  refine ⟨hscan, ?_, fun k hk => Scan.not_of_lt_scan hk⟩
  exact not_not.mpr (Scan.scan_match hscan)

theorem named_withFile {i j : Nat} {e : BasicFileEntry} (hname : e.name ≠ CString.empty) :
    (t.withFile i e).Named j ↔ j = i ∨ t.Named j := by
  unfold Named withFile
  by_cases hji : j = i
  · subst hji
    simp [hname]
  · simp [hji]

theorem Inv.withFile (h : t.Inv) {i : Nat} {e : BasicFileEntry} (hi : i < maxFiles)
    (hfree : ¬ t.Named i) (hname : e.name ≠ CString.empty)
    (hnew : ∀ j, j < maxFiles → (t.filesTable j).name ≠ e.name) : (t.withFile i e).Inv := by
  have hother : ∀ j, j ≠ i → (t.withFile i e).filesTable j = t.filesTable j := by
    intro j hj
    simp [FilesTable.withFile, hj]
  have hself : (t.withFile i e).filesTable i = e := by
    simp [FilesTable.withFile]
  refine ⟨?_, ?_, ?_⟩
  · have hcount := Counting.count_update_set (fun e : BasicFileEntry => e.name ≠ CString.empty)
      t.filesTable e hi hfree hname
    -- the count stays below the size of the table
    have hlt : t.numFiles.toNat + 1 < 2 ^ 64 := by
      have := Counting.count_le (p := t.Named) (n := maxFiles)
      rw [← h.numFiles] at this
      unfold maxFiles at this
      omega
    show (t.numFiles + 1).toNat = _
    rw [Word.uint64_toNat_succ hlt, h.numFiles]
    exact hcount.symm
  · intro j hj hn
    rw [named_withFile hname, not_or] at hn
    rw [hother j hn.1]
    exact h.unused j hj hn.2
  · intro j k hj hk hn heq
    -- two files of one name would be two old ones
    by_cases hji : j = i <;> by_cases hki : k = i
    · rw [hji, hki]
    · rw [hji, hself, hother k hki] at heq
      exact absurd heq.symm (hnew k hk)
    · rw [hki, hself, hother j hji] at heq
      exact absurd heq (hnew j hj)
    · rw [hother j hji, hother k hki] at heq
      rw [named_withFile hname] at hn
      exact h.distinct j k hj hk (hn.resolve_left hji) heq

/-! ### Destruction -/

def withoutFile (t : FilesTable) (i : Nat) : FilesTable :=
  { t.setEntry i .zero with numFiles := t.numFiles - 1 }

theorem indexOfFile_some (h : t.Inv) {f k : Nat} (hf : f < maxFiles) (hn : t.Named f)
    (hk : t.indexOfFile (some f) = some k) : k = f := by
  obtain ⟨hlt, -, heq, -⟩ := Scan.countedScan_some hk
  rw [streql_iff] at heq
  exact (h.distinct f k hf hlt hn heq).symm

/-- The file is missed when it lies behind the first `numFiles` entries. -/
theorem destroyBasicFile_cases (h : t.Inv) (pages : PageStack) {f : Nat} (hf : f < maxFiles)
    (hn : t.Named f) :
    t.destroyBasicFile pages (some f) = (-1, t, pages) ∨
    (t.indexOfFile (some f) = some f ∧ t.destroyBasicFile pages (some f) =
      (0, t.withoutFile f,
        if (t.filesTable f).place = .HEAP then
          (pages.pageManager .PUSH_PAGE (t.filesTable f).stream).1
        else pages)) := by
  have hvalid : isValidFile (some f) = true := by simpa [isValidFile] using hf
  cases hindex : t.indexOfFile (some f) with
  | none =>
    left
    simp [destroyBasicFile, hvalid, hindex]
  | some k =>
    right
    obtain rfl := indexOfFile_some h hf hn hindex
    refine ⟨rfl, ?_⟩
    simp only [destroyBasicFile, hvalid, hindex, entry]
    rfl

theorem named_withoutFile {i j : Nat} : (t.withoutFile i).Named j ↔ j ≠ i ∧ t.Named j := by
  unfold Named withoutFile
  by_cases hji : j = i
  · subst hji
    simp [BasicFileEntry.zero]
  · simp [hji]

theorem Inv.withoutFile (h : t.Inv) {f : Nat} (hf : f < maxFiles) (hn : t.Named f) :
    (t.withoutFile f).Inv := by
  have hother : ∀ j, j ≠ f → (t.withoutFile f).filesTable j = t.filesTable j := by
    intro j hj
    simp [FilesTable.withoutFile, hj]
  refine ⟨?_, ?_, ?_⟩
  · have hcount := Counting.count_update_clear
      (fun e : BasicFileEntry => e.name ≠ CString.empty) t.filesTable .zero hf hn
      (fun hne => hne rfl)
    have hpos : 0 < t.numFiles.toNat := by
      rw [h.numFiles]
      exact Counting.count_pos_iff.mpr ⟨f, hf, hn⟩
    have hnum : t.numFiles.toNat =
        Counting.count (fun i => (t.filesTable i).name ≠ CString.empty) maxFiles := h.numFiles
    show (t.numFiles - 1).toNat = Counting.count
      (fun i => (Function.update t.filesTable f .zero i).name ≠ CString.empty) maxFiles
    rw [Word.uint64_toNat_pred hpos]
    omega
  · intro j hj hnj
    by_cases hjf : j = f
    · subst hjf
      simp [FilesTable.withoutFile]
    · rw [hother j hjf]
      rw [named_withoutFile, not_and] at hnj
      exact h.unused j hj (hnj hjf)
  · intro j k hj hk hnj heq
    rw [named_withoutFile] at hnj
    rw [hother j hnj.1] at heq
    by_cases hkf : k = f
    · subst hkf
      -- a cleared entry has no name to share
      simp [FilesTable.withoutFile] at heq
      exact absurd heq hnj.2
    · rw [hother k hkf] at heq
      exact h.distinct j k hj hk hnj.2 heq

/-- Destroying the file that was created last undoes its creation. -/
theorem Inv.withFile_withoutFile (h : t.Inv) {i : Nat} {e : BasicFileEntry}
    (hi : i < maxFiles) (hfree : ¬ t.Named i) : (t.withFile i e).withoutFile i = t := by
  have hzero := h.unused i hi hfree
  unfold FilesTable.withFile FilesTable.withoutFile setEntry
  simp [← hzero]

/-- A new file is always found again: all entries before it have names. -/
theorem Inv.indexOfFile_withFile (h : t.Inv) {i : Nat} {e : BasicFileEntry}
    (hi : i < maxFiles) (hbefore : ∀ j, j < i → t.Named j) (hfree : ¬ t.Named i)
    (hname : e.name ≠ CString.empty)
    (hnew : ∀ j, j < maxFiles → (t.filesTable j).name ≠ e.name) :
    (t.withFile i e).indexOfFile (some i) = some i := by
  have hinv := h.withFile hi hfree hname hnew
  -- the entries up to the new one all have names, so they are among those that count
  have hle : i + 1 ≤ (t.withFile i e).numFiles.toNat := by
    rw [hinv.numFiles]
    have hsub : Finset.range (i + 1) ⊆
        (Finset.range maxFiles).filter (t.withFile i e).Named := by
      intro j hj
      rw [Finset.mem_range] at hj
      rw [Finset.mem_filter, Finset.mem_range, named_withFile hname]
      refine ⟨by omega, ?_⟩
      by_cases hji : j = i
      · exact .inl hji
      · exact .inr (hbefore j (by omega))
    have := Finset.card_le_card hsub
    rwa [Finset.card_range] at this
  have hsome : ((t.withFile i e).indexOfFile (some i)).isSome := by
    apply Scan.countedScan_isSome (k := i) ?_ hi trivial (by rw [streql_iff]; rfl)
    rw [Finset.filter_true_of_mem (fun _ _ => trivial), Finset.card_range]
    exact hle
  obtain ⟨k, hk⟩ := Option.isSome_iff_exists.mp hsome
  have hself : (t.withFile i e).Named i := (named_withFile hname).mpr (.inl rfl)
  rw [hk, indexOfFile_some hinv hi hself hk]

/-- A file that is destroyed right after its creation leaves the table as it was. -/
theorem Inv.destroyBasicFile_new (h : t.Inv) {name : CString} (hacc : t.Accepts name)
    (pages : PageStack) (stream : Addr) :
    (t.withFile t.firstFree (newEntry name stream)).destroyBasicFile pages
        (some t.firstFree) = (0, t, (pages.pageManager .PUSH_PAGE stream).1) := by
  obtain ⟨hroom, hname, -, hfind⟩ := hacc
  have hnew := findBasicFile_none_iff.mp hfind
  obtain ⟨hlt, hfree, hbefore⟩ := h.firstFree hroom
  have hfound := Inv.indexOfFile_withFile h hlt hbefore hfree (e := newEntry name stream)
    hname hnew
  have hself : (t.withFile t.firstFree (newEntry name stream)).filesTable t.firstFree =
      newEntry name stream := Function.update_self _ _ _
  have hplace : (newEntry name stream).place = .HEAP := rfl
  rcases destroyBasicFile_cases (Inv.withFile h hlt hfree (e := newEntry name stream) hname hnew)
    pages hlt ((named_withFile hname).mpr (.inl rfl)) with hmiss | ⟨-, heq⟩
  · have hvalid : isValidFile (some t.firstFree) = true := by simpa [isValidFile] using hlt
    simp [destroyBasicFile, hvalid, hfound] at hmiss
  · rw [Inv.withFile_withoutFile h hlt hfree, hself, if_pos hplace] at heq
    exact heq

end FilesTable

end TP2Kernel
