import TP2Kernel.BasicFile.Invariant
import TP2Kernel.Memory.Ownership

/-! # Which files can be destroyed

    Files are created and destroyed in any order, while the rest of the kernel pops and
    pushes pages of its own.

    `indexOfFile` counts every entry it passes, free or not, and stops after `numFiles`
    of them.  Once a file is destroyed that lies before others, the last of these are out
    of its reach.
-/

namespace TP2Kernel

open Transition

/-- The table of files, and who holds which page. -/
structure Filing extends Ownership where
  files : FilesTable

inductive FilingAction where
  | createBasicFileWithName (name : CString)
  | destroyBasicFile (file : Nat)
  | other (request : PageRequest)

namespace Filing

/-- `page` is the page of a file. -/
def HasPage (s : Filing) (page : Addr) : Prop :=
  ∃ i, i < maxFiles ∧ s.files.Named i ∧ (s.files.filesTable i).stream = page

/-- The page of a file that is created is handed out. -/
def create (s : Filing) (name : CString) : Filing :=
  match s.files.createBasicFileWithName s.stack (some name) with
  | (file, files, stack) =>
    { files := files
      stack := stack
      outstanding := if file = none then s.outstanding else s.stack.pop.2 :: s.outstanding }

/-- The page of a file that is destroyed is given back. -/
def destroy (s : Filing) (i : Nat) : Filing :=
  match s.files.destroyBasicFile s.stack (some i) with
  | (result, files, stack) =>
    { files := files
      stack := stack
      outstanding := if result = 0 then s.outstanding.erase (s.files.filesTable i).stream
        else s.outstanding }

end Filing

/-- `initializePageStack` and `initializeBasicFiles`, and then any calls.  A file is
    destroyed at most once, and nobody else gives its page back. -/
def filing : System Filing FilingAction where
  init := fun s => s.files = .cleared ∧
    s.toOwnership = Ownership.pop ⟨PageStack.bss.initializePageStack, []⟩ NULL
  step := fun s action s' =>
    match action with
    | .createBasicFileWithName name => s' = s.create name
    | .destroyBasicFile i => i < maxFiles ∧ s.files.Named i ∧ s' = s.destroy i
    | .other .pop => ∃ old, s' = { s with toOwnership := s.pop old }
    | .other (.push page) => page ∈ s.outstanding ∧ ¬ s.HasPage page ∧
        s' = { s with toOwnership := s.push page }

/-! ### The invariant -/

namespace Filing

structure Inv (s : Filing) : Prop where
  pages : Exclusive s.toOwnership
  table : s.files.Inv
  name : ∀ i, i < maxFiles → s.files.Named i → (s.files.filesTable i).name.length < MAX_NAME
  place : ∀ i, i < maxFiles → s.files.Named i → (s.files.filesTable i).place = .HEAP
  held : ∀ i, i < maxFiles → s.files.Named i → (s.files.filesTable i).stream ∈ s.outstanding
  apart : ∀ i j, i < maxFiles → j < maxFiles → s.files.Named i → s.files.Named j →
    (s.files.filesTable i).stream = (s.files.filesTable j).stream → i = j

variable {s s' : Filing}

/-- Other pages do not matter. -/
theorem Inv.withPages (h : Inv s) {o : Ownership} (hpages : Exclusive o)
    (hheld : ∀ page, s.HasPage page → page ∈ o.outstanding) :
    Inv { s with toOwnership := o } :=
  ⟨hpages, h.table, h.name, h.place, fun i hi hn => hheld _ ⟨i, hi, hn, rfl⟩, h.apart⟩

theorem inv_init (h : filing.init s) : Inv s := by
  obtain ⟨hfiles, hpages⟩ := h
  have hnone : ∀ i, ¬ s.files.Named i := by
    intro i hn
    rw [hfiles] at hn
    exact hn rfl
  refine ⟨?_, ?_, ?_, ?_, ?_, ?_⟩
  · rw [hpages]
    exact exclusive_pop (exclusive_init ⟨rfl, rfl⟩) NULL
  · rw [hfiles]
    exact FilesTable.inv_cleared
  all_goals
    intro i
  · exact fun _ hn => absurd hn (hnone i)
  · exact fun _ hn => absurd hn (hnone i)
  · exact fun _ hn => absurd hn (hnone i)
  · exact fun _ _ _ hn => absurd hn (hnone i)

/-! ### Creation -/

/-- Three things can happen: nothing, a page that is popped and pushed again, or a file. -/
theorem create_eq (s : Filing) (name : CString) :
    s.create name = s ∨
    (s.stack.pop.2 = NULL ∧ s.create name = { s with toOwnership := s.pop NULL }) ∨
    (s.stack.pop.2 ≠ NULL ∧
      s.create name = { s with toOwnership := (s.pop NULL).push s.stack.pop.2 }) ∨
    (s.stack.pop.2 ≠ NULL ∧ s.files.Accepts name ∧
      s.create name = ⟨s.pop NULL, s.files.withFile s.files.firstFree
        (FilesTable.newEntry name s.stack.pop.2)⟩) := by
  unfold create
  rw [FilesTable.createBasicFileWithName_eq]
  by_cases hname : FilesTable.BadName name
  · left
    simp [hname]
  by_cases hpage : s.stack.pop.2 = NULL
  · right
    left
    have hpop : s.stack.pageManager .POP_PAGE NULL = s.stack.pop := rfl
    simp [hname, hpage, Ownership.pop, hpop]
  have hpop : s.stack.pageManager .POP_PAGE NULL = s.stack.pop := rfl
  by_cases hacc : s.files.Accepts name
  · right
    right
    right
    refine ⟨hpage, hacc, ?_⟩
    simp [hname, hpage, hacc, Ownership.pop, hpop]
  · right
    right
    left
    refine ⟨hpage, ?_⟩
    simp [hname, hpage, hacc, Ownership.pop, Ownership.push, hpop, FilesTable.givenBack]

/-- What it takes to create a file. -/
theorem create_accepted {name : CString} (hpage : s.stack.pop.2 ≠ NULL)
    (hacc : s.files.Accepts name) : s.create name = ⟨s.pop NULL,
      s.files.withFile s.files.firstFree (FilesTable.newEntry name s.stack.pop.2)⟩ := by
  have hgood : ¬ FilesTable.BadName name := by
    intro h
    rcases h with hempty | hlong
    · exact hacc.2.1 hempty
    · have := hacc.2.2.1
      omega
  have hpop : s.stack.pageManager .POP_PAGE NULL = s.stack.pop := rfl
  unfold create
  rw [FilesTable.createBasicFileWithName_eq, if_neg hgood, if_neg hpage, if_pos hacc]
  simp [Ownership.pop, hpop, hpage]

theorem Inv.create (h : Inv s) (name : CString) : Inv (s.create name) := by
  have hpop : s.stack.pageManager .POP_PAGE NULL = s.stack.pop := rfl
  have hheld : ∀ page, s.HasPage page → page ∈ s.outstanding := by
    intro page h
    obtain ⟨i, hi, hn, rfl⟩ := h
    exact h.held i hi hn
  -- the name is refused, no page is left, the page is given back, or the file is created
  rcases s.create_eq name with heq | ⟨hpage, heq⟩ | ⟨hpage, heq⟩ | ⟨hpage, hacc, heq⟩
  · rw [heq]
    exact h
  · rw [heq]
    apply h.withPages (exclusive_pop h.pages NULL)
    intro page hp
    simpa [Ownership.pop, hpop, hpage] using hheld page hp
  · rw [heq]
    have hout : (s.pop NULL).outstanding = s.stack.pop.2 :: s.outstanding := by
      simp [Ownership.pop, hpop, hpage]
    apply h.withPages
    · apply exclusive_push (exclusive_pop h.pages NULL)
      rw [hout]
      exact List.mem_cons_self
    · intro page hp
      simpa [Ownership.push, hout] using hheld page hp
  · -- the page of the new file was nobody's
    have hout : (s.pop NULL).outstanding = s.stack.pop.2 :: s.outstanding := by
      simp [Ownership.pop, hpop, hpage]
    have hpages := exclusive_pop h.pages NULL
    have hfresh : s.stack.pop.2 ∉ s.outstanding := by
      have hdist := hpages.distinct
      rw [hout, List.cons_append, List.nodup_cons] at hdist
      exact fun hmem => hdist.1 (List.mem_append_left _ hmem)
    obtain ⟨hroom, hname, hlen, hfind⟩ := hacc
    obtain ⟨hlt, hfree, -⟩ := h.table.firstFree hroom
    have hnew := FilesTable.findBasicFile_none_iff.mp hfind
    have hself : (s.files.withFile s.files.firstFree
        (FilesTable.newEntry name s.stack.pop.2)).filesTable s.files.firstFree =
        FilesTable.newEntry name s.stack.pop.2 := Function.update_self _ _ _
    have hother : ∀ j, j ≠ s.files.firstFree → (s.files.withFile s.files.firstFree
        (FilesTable.newEntry name s.stack.pop.2)).filesTable j = s.files.filesTable j :=
      fun j hj => Function.update_of_ne hj _ _
    have hnamed : ∀ j, (s.files.withFile s.files.firstFree
        (FilesTable.newEntry name s.stack.pop.2)).Named j ↔
        j = s.files.firstFree ∨ s.files.Named j := fun j => FilesTable.named_withFile hname
    rw [heq]
    refine ⟨hpages, h.table.withFile (e := FilesTable.newEntry name s.stack.pop.2) hlt hfree
      hname hnew, ?_, ?_, ?_, ?_⟩
    -- the names are short
    · intro i hi hn
      show ((s.files.withFile _ _).filesTable i).name.length < MAX_NAME
      by_cases hif : i = s.files.firstFree
      · rw [hif, hself]
        exact hlen
      · rw [hother i hif]
        exact h.name i hi (((hnamed i).mp hn).resolve_left hif)
    -- the pages are on the heap
    · intro i hi hn
      show ((s.files.withFile _ _).filesTable i).place = .HEAP
      by_cases hif : i = s.files.firstFree
      · rw [hif, hself]
        rfl
      · rw [hother i hif]
        exact h.place i hi (((hnamed i).mp hn).resolve_left hif)
    -- the pages are held
    · intro i hi hn
      show ((s.files.withFile _ _).filesTable i).stream ∈ (s.pop NULL).outstanding
      rw [hout]
      by_cases hif : i = s.files.firstFree
      · rw [hif, hself]
        exact List.mem_cons_self
      · rw [hother i hif]
        exact List.mem_cons_of_mem _ (h.held i hi (((hnamed i).mp hn).resolve_left hif))
    -- no two files share a page: the new one was not held before
    · intro i j hi hj hni hnj hstream
      change ((s.files.withFile _ _).filesTable i).stream =
        ((s.files.withFile _ _).filesTable j).stream at hstream
      by_cases hif : i = s.files.firstFree <;> by_cases hjf : j = s.files.firstFree
      · rw [hif, hjf]
      · rw [hif, hself, hother j hjf] at hstream
        have hmem := h.held j hj (((hnamed j).mp hnj).resolve_left hjf)
        rw [← hstream] at hmem
        exact absurd hmem hfresh
      · rw [hjf, hself, hother i hif] at hstream
        have hmem := h.held i hi (((hnamed i).mp hni).resolve_left hif)
        rw [hstream] at hmem
        exact absurd hmem hfresh
      · rw [hother i hif, hother j hjf] at hstream
        exact h.apart i j hi hj (((hnamed i).mp hni).resolve_left hif)
          (((hnamed j).mp hnj).resolve_left hjf) hstream

/-! ### Destruction -/

/-- The lookup reaches the first `numFiles` entries. -/
theorem indexOfFile_iff {t : FilesTable} (h : t.Inv) {f : Nat} (hf : f < maxFiles)
    (hn : t.Named f) : t.indexOfFile (some f) = some f ↔ f < t.numFiles.toNat := by
  constructor
  · exact fun hindex => Scan.countedScan_lt (fun _ => trivial) hindex
  · intro hlt
    have hsome : (t.indexOfFile (some f)).isSome := by
      apply Scan.countedScan_isSome (k := f) ?_ hf trivial (by rw [streql_iff]; rfl)
      rw [Finset.filter_true_of_mem (fun _ _ => trivial), Finset.card_range]
      exact hlt
    obtain ⟨k, hk⟩ := Option.isSome_iff_exists.mp hsome
    rw [hk, FilesTable.indexOfFile_some h hf hn hk]

theorem Inv.destroyed (h : Inv s) {f : Nat} (hf : f < maxFiles) (hn : s.files.Named f)
    (hlt : f < s.files.numFiles.toNat) :
    s.files.destroyBasicFile s.stack (some f) =
      (0, s.files.withoutFile f,
        (s.stack.pageManager .PUSH_PAGE (s.files.filesTable f).stream).1) := by
  have hindex := (indexOfFile_iff h.table hf hn).mpr hlt
  rcases FilesTable.destroyBasicFile_cases h.table s.stack hf hn with hmiss | ⟨-, heq⟩
  · have hvalid : FilesTable.isValidFile (some f) = true := by
      simpa [FilesTable.isValidFile] using hf
    simp [FilesTable.destroyBasicFile, hvalid, hindex] at hmiss
  · rw [heq, if_pos (h.place f hf hn)]

theorem Inv.missed (h : Inv s) {f : Nat} (hf : f < maxFiles) (hn : s.files.Named f)
    (hge : ¬ f < s.files.numFiles.toNat) :
    s.files.destroyBasicFile s.stack (some f) = (-1, s.files, s.stack) := by
  rcases FilesTable.destroyBasicFile_cases h.table s.stack hf hn with hmiss | ⟨hindex, -⟩
  · exact hmiss
  · exact absurd ((indexOfFile_iff h.table hf hn).mp hindex) hge

theorem Inv.destroy (h : Inv s) {f : Nat} (hf : f < maxFiles) (hn : s.files.Named f) :
    Inv (s.destroy f) := by
  by_cases hlt : f < s.files.numFiles.toNat
  -- the file is found by the search of `destroyBasicFile`
  · have heq : s.destroy f =
        ⟨s.push (s.files.filesTable f).stream, s.files.withoutFile f⟩ := by
      unfold Filing.destroy
      rw [h.destroyed hf hn hlt]
      rfl
    have hother : ∀ j, (s.files.withoutFile f).Named j → j ≠ f ∧ s.files.Named j ∧
        (s.files.withoutFile f).filesTable j = s.files.filesTable j := by
      intro j hj
      obtain ⟨hjf, hnj⟩ := FilesTable.named_withoutFile.mp hj
      exact ⟨hjf, hnj, Function.update_of_ne hjf _ _⟩
    rw [heq]
    refine ⟨exclusive_push h.pages (h.held f hf hn), h.table.withoutFile hf hn, ?_, ?_, ?_, ?_⟩
    · intro i hi hni
      obtain ⟨-, hn', heq⟩ := hother i hni
      show ((s.files.withoutFile f).filesTable i).name.length < MAX_NAME
      rw [heq]
      exact h.name i hi hn'
    · intro i hi hni
      obtain ⟨-, hn', heq⟩ := hother i hni
      show ((s.files.withoutFile f).filesTable i).place = .HEAP
      rw [heq]
      exact h.place i hi hn'
    · intro i hi hni
      obtain ⟨hif, hn', heq⟩ := hother i hni
      show ((s.files.withoutFile f).filesTable i).stream ∈ s.outstanding.erase _
      rw [heq]
      apply (List.mem_erase_of_ne _).mpr (h.held i hi hn')
      exact fun hstream => hif (h.apart i f hi hf hn' hn hstream)
    · intro i j hi hj hni hnj hstream
      obtain ⟨-, hni', heqi⟩ := hother i hni
      obtain ⟨-, hnj', heqj⟩ := hother j hnj
      change ((s.files.withoutFile f).filesTable i).stream =
        ((s.files.withoutFile f).filesTable j).stream at hstream
      rw [heqi, heqj] at hstream
      exact h.apart i j hi hj hni' hnj' hstream
  -- the search ends before it
  · have heq : s.destroy f = s := by
      unfold Filing.destroy
      rw [h.missed hf hn hlt]
      rfl
    rw [heq]
    exact h

/-! ### Runs -/

theorem inv_step (action : FilingAction) (h : Inv s) (hstep : filing.step s action s') :
    Inv s' := by
  have hheld : ∀ page, s.HasPage page → page ∈ s.outstanding := by
    intro page h
    obtain ⟨i, hi, hn, rfl⟩ := h
    exact h.held i hi hn
  cases action with
  | createBasicFileWithName name =>
    obtain rfl := hstep
    exact h.create name
  | destroyBasicFile i =>
    obtain ⟨hi, hn, rfl⟩ := hstep
    exact h.destroy hi hn
  -- the rest of the kernel may take pages, and give back what it holds
  | other request =>
    cases request with
    | pop =>
      obtain ⟨old, rfl⟩ := hstep
      apply h.withPages (exclusive_pop h.pages old)
      intro page hp
      simp only [Ownership.pop]
      split
      · exact hheld page hp
      · exact List.mem_cons_of_mem _ (hheld page hp)
    | push page =>
      obtain ⟨hmem, hno, rfl⟩ := hstep
      apply h.withPages (exclusive_push h.pages hmem)
      intro p hp
      apply (List.mem_erase_of_ne _).mpr (hheld p hp)
      exact fun heq => hno (heq ▸ hp)

theorem inv_reachable (h : filing.Reachable s) : Inv s := by
  apply h.invariant Inv
  · exact fun s hinit => inv_init hinit
  · exact fun s action s' hinv hstep => inv_step action hinv hstep

/-! ### The property -/

/-- `destroyBasicFile` does its work on file `f`.  With room on the page stack, the name is
    free again. -/
structure Destroyed (s : Filing) (f : Nat) : Prop where
  result : (s.files.destroyBasicFile s.stack (some f)).1 = 0
  cleared : (s.files.destroyBasicFile s.stack (some f)).2.1.filesTable f = .zero
  kept : ∀ j, j ≠ f → (s.files.destroyBasicFile s.stack (some f)).2.1.filesTable j =
    s.files.filesTable j
  numFiles : (s.files.destroyBasicFile s.stack (some f)).2.1.numFiles.toNat + 1 =
    s.files.numFiles.toNat
  page : s.stack.stackTop.toNat < STACK_SIZE →
    (s.files.destroyBasicFile s.stack (some f)).2.2.free =
      (s.files.filesTable f).stream :: s.stack.free
  again : s.stack.stackTop.toNat < STACK_SIZE →
    ((s.files.destroyBasicFile s.stack (some f)).2.1.createBasicFileWithName
      (s.files.destroyBasicFile s.stack (some f)).2.2
      (some (s.files.filesTable f).name)).1 ≠ none

theorem Inv.destroyed_of_lt (h : Inv s) {f : Nat} (hf : f < maxFiles) (hn : s.files.Named f)
    (hlt : f < s.files.numFiles.toNat) : Destroyed s f := by
  have heq := h.destroyed hf hn hlt
  have hpush : (s.stack.pageManager .PUSH_PAGE (s.files.filesTable f).stream).1 =
      s.stack.pushPage (s.files.filesTable f).stream := by
    simp [PageStack.pageManager, h.pages.ready]
  have hpos := h.pages.stackTop_pos (h.held f hf hn)
  refine ⟨?_, ?_, ?_, ?_, ?_, ?_⟩
  · rw [heq]
  · rw [heq]
    exact Function.update_self _ _ _
  · intro j hj
    rw [heq]
    exact Function.update_of_ne hj _ _
  · rw [heq]
    show (s.files.numFiles - 1).toNat + 1 = _
    rw [Word.uint64_toNat_pred (by omega)]
    omega
  · intro htop
    rw [heq, hpush]
    exact PageStack.pushPage_free hpos htop
  · intro htop
    rw [heq, hpush, FilesTable.createBasicFileWithName_eq]
    have hlen := h.name f hf hn
    have hgood : ¬ FilesTable.BadName (s.files.filesTable f).name := by
      intro h
      rcases h with hempty | hlong
      · exact hn hempty
      · omega
    -- the page on top is the one that came back
    have hpage : (s.stack.pushPage (s.files.filesTable f).stream).pop.2 ≠ NULL := by
      have htop' : (s.stack.pushPage (s.files.filesTable f).stream).stackTop.toNat <
          STACK_SIZE := by
        have hfree : (s.stack.pushPage (s.files.filesTable f).stream).free =
            (s.files.filesTable f).stream :: s.stack.free := PageStack.pushPage_free hpos htop
        have := congrArg List.length hfree
        simp only [PageStack.free, List.length_map, List.length_range', List.length_cons] at this
        omega
      have hfree := PageStack.popPage_free htop'
      rw [PageStack.pushPage_free hpos htop] at hfree
      have hready : (s.stack.pushPage (s.files.filesTable f).stream).initialized = true := by
        unfold PageStack.pushPage
        split <;> exact h.pages.ready
      have hpop : (s.stack.pushPage (s.files.filesTable f).stream).pop =
          (s.stack.pushPage (s.files.filesTable f).stream).popPage := by
        simp [PageStack.pop, PageStack.pageManager, hready]
      rw [hpop, ← (List.cons.inj hfree).1]
      intro hnull
      apply PageStack.NULL_not_mem_initialPages
      rw [← hnull]
      exact h.pages.fromPool _ (List.mem_append_left _ (h.held f hf hn))
    have hacc : (s.files.withoutFile f).Accepts (s.files.filesTable f).name := by
      refine ⟨?_, hn, hlen, ?_⟩
      · rw [UInt64.lt_iff_toNat_lt]
        show (s.files.numFiles - 1).toNat < 128
        have hcount := Counting.count_le (p := s.files.Named) (n := maxFiles)
        rw [← h.table.numFiles] at hcount
        rw [Word.uint64_toNat_pred (by omega)]
        unfold maxFiles at hcount
        omega
      · apply FilesTable.findBasicFile_none_iff.mpr
        intro i hi hname
        have hni : (s.files.withoutFile f).Named i := by
          unfold FilesTable.Named
          rw [hname]
          exact hn
        obtain ⟨hif, hni'⟩ := FilesTable.named_withoutFile.mp hni
        have hsame : (s.files.withoutFile f).filesTable i = s.files.filesTable i :=
          Function.update_of_ne hif _ _
        rw [hsame] at hname
        exact hif (h.table.distinct i f hi hf hni' hname)
    rw [if_neg hgood, if_neg hpage, if_pos hacc]
    exact Option.some_ne_none _

/-! ### Two files -/

def nameA : CString := ⟨[97], by simp⟩
def nameB : CString := ⟨[98], by simp⟩

/-- A file of that name can be created in a table of other names. -/
theorem accepts_of_names {t : FilesTable} {name : CString}
    (hroom : t.numFiles < UInt64.ofNat maxFiles) (hempty : name ≠ CString.empty)
    (hlen : name.length < MAX_NAME)
    (hnames : ∀ i, i < maxFiles → (t.filesTable i).name ≠ name) : t.Accepts name :=
  ⟨hroom, hempty, hlen, FilesTable.findBasicFile_none_iff.mpr hnames⟩

/-- One file, in entry 0. -/
theorem one_file : ∃ s, filing.Reachable s ∧ s.files.numFiles = 1 ∧
    s.stack = .popped 2 ∧ (s.files.filesTable 0).name = nameA ∧
    ∀ i, i ≠ 0 → s.files.filesTable i = .zero := by
  -- after the boot one page is taken, by the table itself
  obtain ⟨s, hs⟩ : ∃ s : Filing, s =
    ⟨Ownership.pop ⟨PageStack.bss.initializePageStack, []⟩ NULL, .cleared⟩ := ⟨_, rfl⟩
  have hstack : s.stack = .popped 1 := by
    rw [hs]
    rfl
  have hpop : s.stack.pop = (.popped 2, PageStack.pageAddress 1) := by
    rw [hstack]
    exact PageStack.popped_pop (by decide) NULL
  have hpage : s.stack.pop.2 ≠ NULL := by
    rw [hpop]
    exact PageStack.pageAddress_ne_null (by decide)
  have hfiles : s.files = .cleared := by rw [hs]
  have hacc : s.files.Accepts nameA := by
    rw [hfiles]
    exact accepts_of_names (by decide) (by decide) (by decide)
      (fun _ _ => (show CString.empty ≠ nameA by decide))
  have hfirst : s.files.firstFree = 0 := by
    rw [hfiles]
    rfl
  have hreach : filing.Reachable s := .init (by rw [hs]; exact ⟨rfl, rfl⟩)
  refine ⟨s.create nameA, .step (.createBasicFileWithName nameA) hreach rfl, ?_⟩
  rw [create_accepted hpage hacc, hfirst]
  refine ⟨?_, ?_, ?_, ?_⟩
  · show s.files.numFiles + 1 = 1
    rw [hfiles]
    rfl
  · have hpop' : s.stack.pageManager .POP_PAGE NULL = s.stack.pop := rfl
    simp [Ownership.pop, hpop', hpop]
  · show ((s.files.withFile 0 _).filesTable 0).name = nameA
    simp [FilesTable.withFile, FilesTable.newEntry]
  · intro i hi
    show (s.files.withFile 0 _).filesTable i = .zero
    simp [FilesTable.withFile, hi, hfiles, FilesTable.cleared]

/-- A file can be destroyed if and only if it is one of the first `numFiles` entries. -/
theorem destroyed_iff (h : filing.Reachable s) {f : Nat} (hf : f < maxFiles)
    (hn : s.files.Named f) : Destroyed s f ↔ f < s.files.numFiles.toNat := by
  have hinv := inv_reachable h
  constructor
  · intro hdestroyed
    by_contra hge
    have hresult := hdestroyed.result
    rw [hinv.missed hf hn hge] at hresult
    exact absurd hresult (show ¬ (-1 : Int) = 0 by decide)
  · exact hinv.destroyed_of_lt hf hn

/-- The only file can be destroyed. -/
theorem destroyed_iff_only_file : ∃ s, filing.Reachable s ∧ s.files.Named 0 ∧ Destroyed s 0 := by
  obtain ⟨s, hreach, hnum, -, hzero, -⟩ := one_file
  have hnamed : s.files.Named 0 := by
    unfold FilesTable.Named
    rw [hzero]
    decide
  refine ⟨s, hreach, hnamed, (destroyed_iff hreach (by decide) hnamed).mpr ?_⟩
  rw [hnum]
  decide

/-- Two files are created and the first one is destroyed. -/
theorem second_file : ∃ s, filing.Reachable s ∧ s.files.numFiles = 1 ∧ s.files.Named 1 := by
  obtain ⟨s, hreach, hnum, hstack, hzero, hrest⟩ := one_file
  have hpage : s.stack.pop.2 ≠ NULL := by
    have hpop : s.stack.pop = (.popped 3, PageStack.pageAddress 2) := by
      rw [hstack]
      exact PageStack.popped_pop (by decide) NULL
    rw [hpop]
    exact PageStack.pageAddress_ne_null (by decide)
  have hacc : s.files.Accepts nameB := by
    apply accepts_of_names (by rw [hnum]; decide) (by decide) (by decide)
    intro i _
    by_cases hi : i = 0
    · rw [hi, hzero]
      decide
    · rw [hrest i hi]
      decide
  -- the second file goes to the entry behind the first
  have hfirst : s.files.firstFree = 1 := by
    obtain ⟨-, hfree, hbefore⟩ := (inv_reachable hreach).table.firstFree hacc.1
    have hne : s.files.firstFree ≠ 0 := by
      intro heq
      rw [heq] at hfree
      apply hfree
      unfold FilesTable.Named
      rw [hzero]
      decide
    by_contra hone
    have hnamed := hbefore 1 (by omega)
    unfold FilesTable.Named at hnamed
    rw [hrest 1 (by decide)] at hnamed
    exact hnamed rfl
  have hcreated := create_accepted hpage hacc
  have hreach₂ : filing.Reachable (s.create nameB) :=
    .step (.createBasicFileWithName nameB) hreach rfl
  have hnum₂ : (s.create nameB).files.numFiles = 2 := by
    rw [hcreated]
    show s.files.numFiles + 1 = 2
    rw [hnum]
    rfl
  -- both files are there
  have hnamed₀ : (s.create nameB).files.Named 0 := by
    rw [hcreated]
    apply (FilesTable.named_withFile (e := FilesTable.newEntry nameB _)
      (show nameB ≠ CString.empty by decide)).mpr
    right
    unfold FilesTable.Named
    rw [hzero]
    decide
  have hnamed₁ : (s.create nameB).files.Named 1 := by
    rw [hcreated]
    exact (FilesTable.named_withFile (e := FilesTable.newEntry nameB _)
      (show nameB ≠ CString.empty by decide)).mpr
      (.inl hfirst.symm)
  have hinv₂ := inv_reachable hreach₂
  have hlt : 0 < (s.create nameB).files.numFiles.toNat := by
    rw [hnum₂]
    decide
  -- the first one is found and destroyed; the other stays where it is
  have hreach₃ : filing.Reachable ((s.create nameB).destroy 0) :=
    .step (.destroyBasicFile 0) hreach₂ ⟨by decide, hnamed₀, rfl⟩
  have hfiles₃ : ((s.create nameB).destroy 0).files = (s.create nameB).files.withoutFile 0 := by
    unfold destroy
    rw [hinv₂.destroyed (by decide) hnamed₀ hlt]
  refine ⟨_, hreach₃, ?_, ?_⟩
  · rw [hfiles₃]
    show (s.create nameB).files.numFiles - 1 = 1
    rw [hnum₂]
    rfl
  · rw [hfiles₃]
    exact FilesTable.named_withoutFile.mpr ⟨by decide, hnamed₁⟩

/-- The second of two files can not be destroyed after the first one. -/
theorem destroyBasicFile_misses : ¬ ∀ s, filing.Reachable s → ∀ f, f < maxFiles →
    s.files.Named f → Destroyed s f := by
  intro hclaim
  obtain ⟨s, hreach, hnum, hnamed⟩ := second_file
  have hresult := (hclaim s hreach 1 (by decide) hnamed).result
  have hge : ¬ 1 < s.files.numFiles.toNat := by
    rw [hnum]
    decide
  rw [(inv_reachable hreach).missed (by decide) hnamed hge] at hresult
  exact absurd hresult (show ¬ (-1 : Int) = 0 by decide)

end Filing

end TP2Kernel
