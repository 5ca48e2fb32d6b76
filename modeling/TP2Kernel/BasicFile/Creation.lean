import TP2Kernel.BasicFile.Invariant
import TP2Kernel.Framework.Transition

/-! # The names of the table

    Files are created with a page of their own or on any other buffer, and destroyed.  The
    search for a free entry has no bound: it stays inside the table because `numFiles`
    counts exactly the entries that have a name.
-/

namespace TP2Kernel

open Transition

/-! ### What a creation does to the table -/

namespace FilesTable

variable {t : FilesTable} {name : CString} {stream : Addr} {size : UInt64} {place : Place}

/-- The entry of a new file. -/
def createdEntry (name : CString) (stream : Addr) (size : UInt64) (place : Place) :
    BasicFileEntry where
  name := name
  stream := stream
  size := size
  place := place
  writeIndex := 0
  readIndex := 0

theorem of_validateParams (h : t.validateParams name stream size place = true) :
    name ≠ CString.empty ∧ name.length < MAX_NAME ∧ t.findBasicFile name = none ∧ 0 < size := by
  unfold validateParams at h
  split at h
  · cases h
  · rename_i hname
    split at h
    · cases h
    · rename_i hvalues
      split at h
      · cases h
      · rename_i hfind
        rw [not_or] at hname hvalues
        rw [not_or] at hvalues
        refine ⟨hname.1, Nat.lt_of_not_le hname.2, not_not.mp hfind, ?_⟩
        exact UInt64.not_le.mp hvalues.2.1

theorem createBasicFile_cases (t : FilesTable) (name : CString) (stream : Addr) (size : UInt64)
    (place : Place) :
    t.createBasicFile name stream size place = (none, t) ∨
    (t.Accepts name ∧ 0 < size ∧ t.createBasicFile name stream size place =
      (some t.firstFree, t.withFile t.firstFree (createdEntry name stream size place))) := by
  unfold createBasicFile
  by_cases hfull : t.numFiles ≥ UInt64.ofNat maxFiles
  · left
    rw [if_pos hfull]
  · rw [if_neg hfull]
    by_cases hvalid : t.validateParams name stream size place = true
    · right
      obtain ⟨hname, hlen, hfind, hsize⟩ := of_validateParams hvalid
      refine ⟨⟨UInt64.not_le.mp hfull, hname, hlen, hfind⟩, hsize, ?_⟩
      simp only [hvalid, Bool.not_true, Bool.false_eq_true, if_false]
      rfl
    · left
      simp [hvalid]

theorem createBasicFileWithName_cases (t : FilesTable) (pages : PageStack)
    (name : Option CString) :
    ((t.createBasicFileWithName pages name).1 = none ∧
      (t.createBasicFileWithName pages name).2.1 = t) ∨
    ∃ name', name = some name' ∧ t.Accepts name' ∧
      (t.createBasicFileWithName pages name).1 = some t.firstFree ∧
      (t.createBasicFileWithName pages name).2.1 =
        t.withFile t.firstFree (newEntry name' pages.pop.2) := by
  cases name with
  | none => exact Or.inl ⟨rfl, rfl⟩
  | some name =>
    rw [createBasicFileWithName_eq]
    by_cases hname : BadName name
    · rw [if_pos hname]
      exact Or.inl ⟨rfl, rfl⟩
    by_cases hpage : pages.pop.2 = NULL
    · rw [if_neg hname, if_pos hpage]
      exact Or.inl ⟨rfl, rfl⟩
    by_cases hacc : t.Accepts name
    · rw [if_neg hname, if_neg hpage, if_pos hacc]
      exact Or.inr ⟨name, rfl, hacc, rfl, rfl⟩
    · rw [if_neg hname, if_neg hpage, if_neg hacc]
      exact Or.inl ⟨rfl, rfl⟩

end FilesTable

/-! ### The system -/

/-- The table of files, and the free pages. -/
structure Catalog where
  files : FilesTable
  pages : PageStack

inductive CatalogAction where
  | createBasicFileWithName (name : Option CString)
  | createBasicFile (name : CString) (stream : Addr) (size : UInt64) (place : Place)
  | destroyBasicFile (file : Nat)
  | other

/-- Creation with any arguments, destruction of any file that exists.  In between the rest of
    the kernel takes and gives pages, and reads and writes the files. -/
def cataloging : System Catalog CatalogAction where
  init := fun s => s.files = .cleared
  step := fun s action s' =>
    match action with
    | .createBasicFileWithName name =>
      s' = ⟨(s.files.createBasicFileWithName s.pages name).2.1,
        (s.files.createBasicFileWithName s.pages name).2.2⟩
    | .createBasicFile name stream size place =>
      s' = ⟨(s.files.createBasicFile name stream size place).2, s.pages⟩
    | .destroyBasicFile i => i < maxFiles ∧ s.files.Named i ∧
      s' = ⟨(s.files.destroyBasicFile s.pages (some i)).2.1,
        (s.files.destroyBasicFile s.pages (some i)).2.2⟩
    | .other => s'.files.numFiles = s.files.numFiles ∧
      (∀ i, (s'.files.filesTable i).name = (s.files.filesTable i).name) ∧
      ∀ i, ¬ s.files.Named i → s'.files.filesTable i = s.files.filesTable i

/-! ### The invariant -/

namespace Catalog

/-- The table is consistent and its names are short. -/
structure Inv (s : Catalog) : Prop where
  table : s.files.Inv
  short : ∀ i, i < maxFiles → s.files.Named i → (s.files.filesTable i).name.length < MAX_NAME

variable {s s' : Catalog}

theorem inv_init (h : cataloging.init s) : Inv s := by
  have hfiles : s.files = .cleared := h
  constructor
  · rw [hfiles]
    exact FilesTable.inv_cleared
  · intro i _ hn
    rw [hfiles] at hn
    exact absurd rfl hn

/-- A name that is accepted goes to an entry without a name. -/
theorem Inv.created (h : Inv s) {e : BasicFileEntry} (hacc : s.files.Accepts e.name)
    (pages : PageStack) : Inv ⟨s.files.withFile s.files.firstFree e, pages⟩ := by
  obtain ⟨hroom, hname, hlen, hfind⟩ := hacc
  obtain ⟨hlt, hfree, -⟩ := h.table.firstFree hroom
  constructor
  · exact h.table.withFile hlt hfree hname (FilesTable.findBasicFile_none_iff.mp hfind)
  · intro i hi hn
    show ((s.files.withFile s.files.firstFree e).filesTable i).name.length < MAX_NAME
    by_cases hif : i = s.files.firstFree
    · subst hif
      simpa [FilesTable.withFile] using hlen
    · have hold := ((FilesTable.named_withFile hname).mp hn).resolve_left hif
      have heq : (s.files.withFile s.files.firstFree e).filesTable i = s.files.filesTable i :=
        Function.update_of_ne hif _ _
      rw [heq]
      exact h.short i hi hold

/-- A file that is destroyed takes its name with it. -/
theorem Inv.destroyed (h : Inv s) {i : Nat} (hi : i < maxFiles) (hn : s.files.Named i)
    (pages : PageStack) : Inv ⟨s.files.withoutFile i, pages⟩ := by
  constructor
  · exact h.table.withoutFile hi hn
  · intro j hj hnj
    obtain ⟨hji, hold⟩ := FilesTable.named_withoutFile.mp hnj
    have heq : (s.files.withoutFile i).filesTable j = s.files.filesTable j :=
      Function.update_of_ne hji _ _
    show ((s.files.withoutFile i).filesTable j).name.length < MAX_NAME
    rw [heq]
    exact h.short j hj hold

theorem inv_step (action : CatalogAction) (h : Inv s) (hstep : cataloging.step s action s') :
    Inv s' := by
  cases action with
  | createBasicFileWithName name =>
    obtain rfl := hstep
    rcases s.files.createBasicFileWithName_cases s.pages name with
      ⟨-, heq⟩ | ⟨name', -, hacc, -, heq⟩
    · rw [heq]
      exact ⟨h.table, h.short⟩
    · rw [heq]
      exact h.created (e := FilesTable.newEntry name' s.pages.pop.2) hacc _
  | createBasicFile name stream size place =>
    obtain rfl := hstep
    rcases s.files.createBasicFile_cases name stream size place with heq | ⟨hacc, -, heq⟩
    · rw [heq]
      exact ⟨h.table, h.short⟩
    · rw [heq]
      exact h.created (e := FilesTable.createdEntry name stream size place) hacc _
  | destroyBasicFile i =>
    obtain ⟨hi, hn, rfl⟩ := hstep
    -- the file may be out of reach, and stays then
    rcases FilesTable.destroyBasicFile_cases h.table s.pages hi hn with heq | ⟨-, heq⟩
    · rw [heq]
      exact h
    · rw [heq]
      exact h.destroyed hi hn _
  | other =>
    obtain ⟨hnum, hname, hunused⟩ := hstep
    constructor
    · exact h.table.congr hnum hname hunused
    · intro i hi hn
      unfold FilesTable.Named at hn
      rw [hname] at hn ⊢
      exact h.short i hi hn

theorem inv_reachable (h : cataloging.Reachable s) : Inv s := by
  apply h.invariant Inv
  · intro s hinit
    exact inv_init hinit
  · intro s action s' hinv hstep
    exact inv_step action hinv hstep

/-! ### The table of a run -/

/-- What the functions on files rely on.  A name of fewer than `MAX_NAME` characters ends
    with its NUL inside the field of `MAX_NAME + 1` bytes. -/
structure Consistent (t : FilesTable) : Prop where
  numFiles : t.numFiles.toNat = Counting.count t.Named maxFiles
  bounded : t.numFiles.toNat ≤ maxFiles
  distinct : ∀ i j, i < maxFiles → j < maxFiles → t.Named i → t.Named j →
    (t.filesTable i).name = (t.filesTable j).name → i = j
  short : ∀ i, i < maxFiles → t.Named i → (t.filesTable i).name.length < MAX_NAME
  /-- The search of `createBasicFile` passes only entries with a name, and stops at one of the
      table. -/
  stops : t.numFiles < UInt64.ofNat maxFiles →
    t.firstFree < maxFiles ∧ ¬ t.Named t.firstFree ∧ ∀ j, j < t.firstFree → t.Named j
  /-- `findBasicFile` finds the file of a name, the only one. -/
  found : ∀ name i, name ≠ CString.empty → (t.findBasicFile name = some i ↔
    i < maxFiles ∧ (t.filesTable i).name = name)

/-- The scan of `findBasicFile` stops at the first entry of the name. -/
theorem Inv.findBasicFile_iff (h : Inv s) {name : CString} (hname : name ≠ CString.empty)
    (i : Nat) : s.files.findBasicFile name = some i ↔
      i < maxFiles ∧ (s.files.filesTable i).name = name := by
  have hmatch : ∀ j, s.files.findBasicFile name = some j →
      j < maxFiles ∧ (s.files.filesTable j).name = name := by
    intro j hj
    simp only [FilesTable.findBasicFile, strcmp_eq_zero_iff] at hj
    split at hj
    · cases hj
    · rename_i hlt
      have hscan := Nat.lt_of_not_le hlt
      rw [← Option.some.inj hj]
      exact ⟨hscan, Scan.scan_match hscan⟩
  constructor
  · exact hmatch i
  · intro hi
    cases hfind : s.files.findBasicFile name with
    | none => exact absurd hi.2 (FilesTable.findBasicFile_none_iff.mp hfind i hi.1)
    | some j =>
      obtain ⟨hj, hjname⟩ := hmatch j hfind
      have hnamed : s.files.Named j := by
        unfold FilesTable.Named
        rw [hjname]
        exact hname
      rw [h.table.distinct j i hj hi.1 hnamed (hjname.trans hi.2.symm)]

/-- **The table is consistent in every run**, also where files could not be destroyed. -/
theorem table_consistent (h : cataloging.Reachable s) : Consistent s.files := by
  have hinv := inv_reachable h
  refine ⟨hinv.table.numFiles, ?_, ?_, hinv.short, hinv.table.firstFree, ?_⟩
  · rw [hinv.table.numFiles]
    exact Counting.count_le
  · intro i j hi hj hn _ heq
    exact hinv.table.distinct i j hi hj hn heq
  · intro name i hname
    exact hinv.findBasicFile_iff hname i

/-- A file on a buffer of the kernel. -/
def screen : CString := ⟨[115, 99, 114], by simp⟩

/-- The table with that file. -/
@[irreducible] def oneFile : FilesTable :=
  (FilesTable.cleared.createBasicFile screen 0x100000 4000 .KERNEL).2

theorem createBasicFile_oneFile :
    FilesTable.cleared.createBasicFile screen 0x100000 4000 .KERNEL = (some 0, oneFile) := by
  have hindex : (FilesTable.cleared.createBasicFile screen 0x100000 4000 .KERNEL).1 = some 0 := by
    decide +kernel
  unfold oneFile
  generalize FilesTable.cleared.createBasicFile screen 0x100000 4000 .KERNEL = result at hindex ⊢
  exact Prod.ext hindex rfl

theorem oneFile_reachable (pages : PageStack) : cataloging.Reachable ⟨oneFile, pages⟩ := by
  have hinit : cataloging.Reachable ⟨.cleared, pages⟩ := .init rfl
  unfold oneFile
  exact .step (.createBasicFile screen 0x100000 4000 .KERNEL) hinit rfl

theorem oneFile_name : (oneFile.filesTable 0).name = screen := by decide +kernel

theorem oneFile_named : oneFile.Named 0 := by decide +kernel

/-- The table after one creation. -/
theorem table_consistent_oneFile : oneFile.Named 0 ∧ Consistent oneFile := by
  have hconsistent := table_consistent (oneFile_reachable .bss)
  exact ⟨oneFile_named, hconsistent⟩

/-! ### Creation as documented -/

/-- What the documentation asks for: a name of 1 to `MAX_NAME` characters that no file has
    yet, a free entry and a page. -/
structure Documented (t : FilesTable) (pages : PageStack) (name : CString) : Prop where
  length : 1 ≤ name.length ∧ name.length ≤ MAX_NAME
  fresh : ∀ i, i < maxFiles → (t.filesTable i).name ≠ name
  room : ∃ i, i < maxFiles ∧ ¬ t.Named i
  page : pages.pop.2 ≠ NULL

/-- A file is created exactly when that holds, and otherwise nothing changes. -/
structure CreatesAsDocumented (t : FilesTable) (pages : PageStack) (name : CString) : Prop where
  created : (t.createBasicFileWithName pages (some name)).1 ≠ none ↔ Documented t pages name
  table : (t.createBasicFileWithName pages (some name)).1 = none →
    (t.createBasicFileWithName pages (some name)).2.1 = t
  free : (t.createBasicFileWithName pages (some name)).1 = none → ∀ page,
    (t.createBasicFileWithName pages (some name)).2.2.Free page ↔ pages.Free page

/-- The name has the length that only one of the two checks accepts, or the page popped
    for a file that is refused is the last one, and cannot be pushed again. -/
def Mistreated (t : FilesTable) (pages : PageStack) (name : CString) : Prop :=
  (Documented t pages name ∧ name.length = MAX_NAME) ∨
  (1 ≤ name.length ∧ name.length ≤ MAX_NAME ∧ pages.pop.2 ≠ NULL ∧ pages.LastPage ∧
    (name.length = MAX_NAME ∨ (∃ i, i < maxFiles ∧ (t.filesTable i).name = name) ∨
      ∀ i, i < maxFiles → t.Named i))

theorem badName_iff {name : CString} : FilesTable.BadName name ↔
    ¬ (1 ≤ name.length ∧ name.length ≤ MAX_NAME) := by
  have hempty : name = CString.empty ↔ name.length = 0 := by
    constructor
    · intro h
      rw [h]
      rfl
    · intro h
      exact CString.ext (List.eq_nil_of_length_eq_zero h)
  unfold FilesTable.BadName
  rw [hempty]
  omega

/-- The second check refuses exactly these. -/
theorem Inv.accepts_iff (h : Inv s) {name : CString} (hname : 1 ≤ name.length) :
    s.files.Accepts name ↔ name.length ≠ MAX_NAME ∧ name.length ≤ MAX_NAME ∧
      (∀ i, i < maxFiles → (s.files.filesTable i).name ≠ name) ∧
      ∃ i, i < maxFiles ∧ ¬ s.files.Named i := by
  have hempty : name ≠ CString.empty := by
    intro h
    rw [h] at hname
    exact absurd hname (by decide)
  have hroom : s.files.numFiles < UInt64.ofNat maxFiles ↔
      ∃ i, i < maxFiles ∧ ¬ s.files.Named i := by
    rw [UInt64.lt_iff_toNat_lt, h.table.numFiles]
    exact Counting.count_lt_iff
  unfold FilesTable.Accepts
  rw [hroom, FilesTable.findBasicFile_none_iff]
  constructor
  · intro h
    obtain ⟨hfree, -, hlen, hfresh⟩ := h
    exact ⟨hlen.ne, hlen.le, hfresh, hfree⟩
  · intro h
    obtain ⟨hne, hle, hfresh, hfree⟩ := h
    exact ⟨hfree, hempty, lt_of_le_of_ne hle hne, hfresh⟩

/-- A file is created when the name is also shorter than the documentation asks for. -/
theorem Inv.created_iff (h : Inv s) (pages : PageStack) (name : CString) :
    (s.files.createBasicFileWithName pages (some name)).1 ≠ none ↔
      Documented s.files pages name ∧ name.length ≠ MAX_NAME := by
  rw [FilesTable.createBasicFileWithName_eq]
  by_cases hname : FilesTable.BadName name
  · rw [if_pos hname]
    constructor
    · intro hcreated
      exact absurd rfl hcreated
    · intro hdoc
      exact absurd hdoc.1.length (badName_iff.mp hname)
  have hlen := not_not.mp (mt badName_iff.mpr hname)
  by_cases hpage : pages.pop.2 = NULL
  · rw [if_neg hname, if_pos hpage]
    constructor
    · intro hcreated
      exact absurd rfl hcreated
    · intro hdoc
      exact absurd hpage hdoc.1.page
  have haccepts := h.accepts_iff hlen.1
  by_cases hacc : s.files.Accepts name
  · obtain ⟨hne, -, hfresh, hroom⟩ := haccepts.mp hacc
    rw [if_neg hname, if_neg hpage, if_pos hacc]
    constructor
    · intro _
      exact ⟨⟨hlen, hfresh, hroom, hpage⟩, hne⟩
    · intro _
      exact Option.some_ne_none _
  · rw [if_neg hname, if_neg hpage, if_neg hacc]
    constructor
    · intro hcreated
      exact absurd rfl hcreated
    · intro hdoc
      exact absurd (haccepts.mpr ⟨hdoc.2, hlen.2, hdoc.1.fresh, hdoc.1.room⟩) hacc

/-- A refused file leaves the free pages alone unless the page popped for it was the last. -/
theorem free_iff {t : FilesTable} {pages : PageStack} {name : CString}
    (hnone : (t.createBasicFileWithName pages (some name)).1 = none) :
    (∀ page, (t.createBasicFileWithName pages (some name)).2.2.Free page ↔ pages.Free page) ↔
      ¬ (1 ≤ name.length ∧ name.length ≤ MAX_NAME ∧ pages.pop.2 ≠ NULL ∧ pages.LastPage) := by
  rw [FilesTable.createBasicFileWithName_eq] at hnone ⊢
  by_cases hname : FilesTable.BadName name
  · have hbad := badName_iff.mp hname
    rw [if_pos hname]
    constructor
    · intro _ h
      obtain ⟨hpos, hle, -⟩ := h
      exact hbad ⟨hpos, hle⟩
    · intro _ page
      exact Iff.rfl
  have hlen := not_not.mp (mt badName_iff.mpr hname)
  by_cases hpage : pages.pop.2 = NULL
  · rw [if_neg hname, if_pos hpage]
    constructor
    · intro _ h
      obtain ⟨-, -, hpop, -⟩ := h
      exact hpop hpage
    · intro _ page
      exact PageStack.pop_null_free hpage page
  by_cases hacc : t.Accepts name
  · rw [if_neg hname, if_neg hpage, if_pos hacc] at hnone
    cases hnone
  -- the page is pushed again
  rw [if_neg hname, if_neg hpage, if_neg hacc]
  have hback : FilesTable.givenBack pages = if pages.LastPage then pages.pop.1 else pages :=
    PageStack.push_pop hpage
  rw [hback]
  by_cases hlast : pages.LastPage
  · obtain ⟨hfree, hlost⟩ := PageStack.lastPage_free hpage hlast
    rw [if_pos hlast]
    constructor
    · intro hsame
      exact absurd ((hsame _).mpr hfree) hlost
    · intro hok
      exact absurd ⟨hlen.1, hlen.2, hpage, hlast⟩ hok
  · rw [if_neg hlast]
    constructor
    · intro _ h
      obtain ⟨-, -, -, hlast'⟩ := h
      exact hlast hlast'
    · intro _ page
      exact Iff.rfl

/-- **Files are created as documented, except when the name is as long as allowed or the last
    page is popped for a file that is refused.** -/
theorem createBasicFileWithName_documented (h : cataloging.Reachable s) (pages : PageStack)
    (name : CString) :
    CreatesAsDocumented s.files pages name ↔ ¬ Mistreated s.files pages name := by
  have hcreated := (inv_reachable h).created_iff pages name
  constructor
  · intro hdoc h
    rcases h with ⟨hdocumented, hmax⟩ | ⟨hpos, hle, hpage, hlast, hrefused⟩
    · exact (hcreated.mp (hdoc.created.mpr hdocumented)).2 hmax
    · -- the file is refused, so the last page is lost
      have hnone : (s.files.createBasicFileWithName pages (some name)).1 = none := by
        by_contra hsome
        obtain ⟨hdocumented, hne⟩ := hcreated.mp hsome
        rcases hrefused with hmax | ⟨i, hi, hsame⟩ | hall
        · exact hne hmax
        · exact hdocumented.fresh i hi hsame
        · obtain ⟨i, hi, hfree⟩ := hdocumented.room
          exact hfree (hall i hi)
      exact (free_iff hnone).mp (hdoc.free hnone) ⟨hpos, hle, hpage, hlast⟩
  · intro hok
    constructor
    · rw [hcreated]
      constructor
      · intro hboth
        exact hboth.1
      · intro hdocumented
        exact ⟨hdocumented, fun hmax => hok (Or.inl ⟨hdocumented, hmax⟩)⟩
    · intro hnone
      rcases s.files.createBasicFileWithName_cases pages (some name) with
        ⟨-, heq⟩ | ⟨-, -, -, hsome, -⟩
      · exact heq
      · rw [hsome] at hnone
        cases hnone
    · intro hnone
      rw [free_iff hnone]
      intro h
      obtain ⟨hpos, hle, hpage, hlast⟩ := h
      -- one of the three reasons holds, or the file would have been created
      apply hok
      right
      refine ⟨hpos, hle, hpage, hlast, ?_⟩
      by_contra hno
      rw [not_or, not_or] at hno
      obtain ⟨hne, hfresh, hroom⟩ := hno
      push Not at hfresh hroom
      exact hcreated.mpr ⟨⟨⟨hpos, hle⟩, hfresh, hroom, hpage⟩, hne⟩ hnone

/-- A name of `MAX_NAME` characters. -/
def longName : CString where
  bytes := List.replicate MAX_NAME 97
  noNul := by
    intro b hb
    rw [List.eq_of_mem_replicate hb]
    decide

/-- A table without files, a short name and a fresh stack of pages. -/
theorem createBasicFileWithName_documented_fresh :
    CreatesAsDocumented .cleared (.popped 1) screen := by
  have hreach : cataloging.Reachable ⟨.cleared, .popped 1⟩ := .init rfl
  apply (createBasicFileWithName_documented hreach (.popped 1) screen).mpr
  have hne : screen.length ≠ MAX_NAME := by decide
  have hlast : ¬ (PageStack.popped 1).LastPage := by decide
  intro h
  rcases h with ⟨-, hmax⟩ | ⟨-, -, -, hl, -⟩
  · exact hne hmax
  · exact hlast hl

/-- A name of `MAX_NAME` characters is refused, and the last page is lost to a name that is
    in use. -/
theorem creation_not_documented : (∀ pages, cataloging.Reachable ⟨.cleared, pages⟩ ∧
      cataloging.Reachable ⟨oneFile, pages⟩) ∧
    ¬ CreatesAsDocumented .cleared (.popped 1) longName ∧
    ¬ CreatesAsDocumented oneFile (.popped 32767) screen := by
  have hreach : ∀ pages, cataloging.Reachable ⟨.cleared, pages⟩ := fun pages => .init rfl
  refine ⟨fun pages => ⟨hreach pages, oneFile_reachable pages⟩, ?_, ?_⟩
  · intro hdoc
    have hpop : (PageStack.popped 1).pop = (.popped 2, PageStack.pageAddress 1) :=
      PageStack.popped_pop (by decide) NULL
    have hdocumented : Documented .cleared (.popped 1) longName := by
      refine ⟨by decide, ?_, ⟨0, by decide, by decide⟩, ?_⟩
      · intro i _
        exact (show CString.empty ≠ longName by decide)
      · rw [hpop]
        exact PageStack.pageAddress_ne_null (by decide)
    have hlen : longName.length = MAX_NAME := by decide
    have hcreated := (inv_reachable (hreach .bss)).created_iff (.popped 1) longName
    exact (hcreated.mp (hdoc.created.mpr hdocumented)).2 hlen
  · intro hdoc
    have hpop : (PageStack.popped 32767).pop = (.popped 32768, PageStack.pageAddress 32767) :=
      PageStack.popped_pop (by decide) NULL
    have hnone : (oneFile.createBasicFileWithName (.popped 32767) (some screen)).1 = none := by
      by_contra hsome
      have hinv := inv_reachable (oneFile_reachable .bss)
      have hcreated := (hinv.created_iff (.popped 32767) screen).mp hsome
      exact hcreated.1.fresh 0 (by decide) oneFile_name
    apply (free_iff hnone).mp (hdoc.free hnone)
    refine ⟨by decide, by decide, ?_, by decide⟩
    rw [hpop]
    exact PageStack.pageAddress_ne_null (by decide)

end Catalog

end TP2Kernel
