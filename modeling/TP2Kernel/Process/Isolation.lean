import TP2Kernel.Mutex.CallerMemory
import TP2Kernel.Process.HeapWrites
import TP2Kernel.Process.Pool

/-! # Memory of one's own

    There is no protection: every process, and the kernel, can write everywhere.  What a
    process may rely on is that the others keep to their own memory, and that the kernel's
    calls keep to theirs.

    The memory of a process is its stack page and the blocks that `malloc` gave it, that of a
    file is its page, and the rest of the kernel has its pages and what is no page of the
    pool.  All that is assumed here is that nobody writes elsewhere; that the headers of the
    heaps stay follows from it.
-/

namespace TP2Kernel

open Transition PageStack Machine

/-- Who has memory of his own; `kernel` is the rest of the kernel. -/
inductive Agent where
  | kernel
  | file (i : Nat)
  | process (i : Nat)
  deriving DecidableEq

def Block.Covers (b : Block) (x : Addr) : Prop := (x - b.start).toNat < b.size.toNat

namespace PagePool

/-- The byte at `x` is the agent's own. -/
def Belongs (s : PagePool) (x : Addr) : Agent → Prop
  | .kernel => (∀ page ∈ initialPages, ¬ Write.InPage page x) ∨
      ∃ page ∈ s.reserved, Write.InPage page x
  | .file i => i < maxFiles ∧ s.files.Named i ∧ Write.InPage (s.files.filesTable i).stream x
  | .process i => (i < pcbEntries ∧ (s.pcb.entries i).occupied ≠ 0 ∧
        Write.InPage (s.pcb.entries i).stackPage x) ∨
      ∃ b ∈ s.blocks, b.owner = i ∧ b.Covers x

/-- `basicFileWriteChar` on file `i`. -/
def writeChar (s : PagePool) (c : UInt8) (i : Nat) : PagePool :=
  let answer := (s.files.basicFileWriteChar s.mem c (some i)).2
  { s with files := answer.1, mem := answer.2 }

/-- `basicFileReadChar` on file `i`. -/
def readChar (s : PagePool) (i : Nat) : PagePool :=
  { s with files := (s.files.basicFileReadChar s.mem (some i)).2 }

end PagePool

inductive MemoryAction where
  /-- A call of the pool, or a write, by `agent` or on its behalf. -/
  | call (agent : Agent) (action : PoolAction)
  | writeChar (c : UInt8) (i : Nat)
  | readChar (i : Nat)

/-- Memory is written by the one it belongs to, or by a call on his behalf; the arguments of a
    process fit in its stack page. -/
def isolation : System PagePool MemoryAction where
  init := pagePool.init
  step := fun s action s' =>
    match action with
    | .call agent (.createProcess a) => ∃ r m', s.createProcess a = some (r, m') ∧
        Fits s.toMachine a ∧
        (∀ i < a.argc.toNat, ∀ x, SlotByte a.argv i x → s.Belongs x agent) ∧ s' = s.created m'
    | .call agent (.write mem) =>
        (∀ x, ¬ s.Belongs x agent → mem x = s.mem x) ∧ s' = { s with mem := mem }
    | .call _ action => pagePool.step s action s'
    | .writeChar c i => i < maxFiles ∧ s.files.Named i ∧ s' = s.writeChar c i
    | .readChar i => i < maxFiles ∧ s.files.Named i ∧ s' = s.readChar i

/-- At least one page is free for a call, and two when a file is created. -/
def MemoryLeft (s : PagePool) : MemoryAction → Prop
  | .call _ action => PagesLeft s action
  | _ => True

/-- Whose memory an action may change or give back. -/
def concerned : MemoryAction → Option Agent
  | .call agent (.createProcess _) => some agent
  | .call agent (.write _) => some agent
  | .call _ (.destroyProcess PCBIndex) => some (.process PCBIndex.toNat)
  | .call _ (.destroyBasicFile i) => some (.file i)
  | .call _ (.push _) => some .kernel
  | .writeChar _ i => some (.file i)
  | _ => none

/-! ### A byte has one owner -/

/-- Whose pages these are. -/
def PageOwner.agent : PageOwner → Option Agent
  | .free => none
  | .reserved => some .kernel
  | .file i => some (.file i)
  | .stack i => some (.process i)
  | .heap i => some (.process i)

theorem inPage_iff {page x : Addr} (hpage : page ∈ initialPages) :
    Write.InPage page x ↔ page.toNat ≤ x.toNat ∧ x.toNat < page.toNat + 0x2000 := by
  have hbounds := initialPages_bounds hpage
  have hsize : PAGE_SIZE.toNat = 0x2000 := rfl
  rw [Write.InPage, hsize, addr_sub_toNat_lt_iff (by omega)]

theorem inPage_unique {p q x : Addr} (hp : p ∈ initialPages) (hq : q ∈ initialPages)
    (hpx : Write.InPage p x) (hqx : Write.InPage q x) : p = q := by
  by_contra hne
  have hapart := initialPages_apart hp hq hne
  rw [inPage_iff hp] at hpx
  rw [inPage_iff hq] at hqx
  omega

theorem InHeader.inPage {page x : Addr} (h : InHeader page x) : Write.InPage page x :=
  Nat.lt_trans h (by decide)

/-! ### The files -/

namespace FilesTable

variable {t t' : FilesTable} {i : Nat}

/-- The files of both tables differ in their indices at most. -/
structure SameFiles (t t' : FilesTable) : Prop where
  numFiles : t'.numFiles = t.numFiles
  name : ∀ i, (t'.filesTable i).name = (t.filesTable i).name
  stream : ∀ i, (t'.filesTable i).stream = (t.filesTable i).stream
  place : ∀ i, (t'.filesTable i).place = (t.filesTable i).place
  unused : ∀ i, ¬ t.Named i → t'.filesTable i = t.filesTable i

theorem SameFiles.refl (t : FilesTable) : SameFiles t t :=
  ⟨rfl, fun _ => rfl, fun _ => rfl, fun _ => rfl, fun _ _ => rfl⟩

theorem SameFiles.named_iff (h : SameFiles t t') (i : Nat) :
    t'.Named i ↔ t.Named i := by
  unfold Named
  rw [h.name]

/-- An index of a file moves. -/
theorem sameFiles_setEntry {e : BasicFileEntry} (hn : t.Named i)
    (hname : e.name = (t.filesTable i).name) (hstream : e.stream = (t.filesTable i).stream)
    (hplace : e.place = (t.filesTable i).place) : SameFiles t (t.setEntry i e) := by
  have hother : ∀ j ≠ i, (t.setEntry i e).filesTable j = t.filesTable j :=
    fun j hj => Function.update_of_ne hj ..
  have hself : (t.setEntry i e).filesTable i = e := setEntry_self t i e
  constructor
  · rfl
  · intro j
    by_cases hj : j = i
    · rw [hj, hself, hname]
    · rw [hother j hj]
  · intro j
    by_cases hj : j = i
    · rw [hj, hself, hstream]
    · rw [hother j hj]
  · intro j
    by_cases hj : j = i
    · rw [hj, hself, hplace]
    · rw [hother j hj]
  · intro j hj
    exact hother j fun heq => hj (heq ▸ hn)

/-- The files have a page each, and write inside of it. -/
def Sized (t : FilesTable) : Prop := ∀ i < maxFiles, t.Named i →
  (t.filesTable i).size = PAGE_SIZE ∧ (t.filesTable i).writeIndex.toNat < PAGE_SIZE.toNat

theorem sized_setEntry (h : t.Sized) {e : BasicFileEntry} (hname : e.name = (t.filesTable i).name)
    (he : (t.filesTable i).size = PAGE_SIZE →
      (t.filesTable i).writeIndex.toNat < PAGE_SIZE.toNat →
      e.size = PAGE_SIZE ∧ e.writeIndex.toNat < PAGE_SIZE.toNat) : (t.setEntry i e).Sized := by
  intro j hj hn
  by_cases hji : j = i
  · subst hji
    unfold Named at hn
    rw [setEntry_self] at hn ⊢
    obtain ⟨hsize, hwrite⟩ := h j hj (by unfold Named; rwa [← hname])
    exact he hsize hwrite
  · have hother : (t.setEntry i e).filesTable j = t.filesTable j := Function.update_of_ne hji ..
    unfold Named at hn
    rw [hother] at hn ⊢
    exact h j hj hn

theorem sized_createBasicFileWithName (h : t.Sized) (pages : PageStack) (name : Option CString) :
    (t.createBasicFileWithName pages name).2.1.Sized := by
  cases name with
  | none => exact h
  | some name =>
    rw [createBasicFileWithName_eq]
    split
    · exact h
    · split
      · exact h
      · split
        · intro j hj hn
          by_cases hjf : j = t.firstFree
          · subst hjf
            have hself : (t.withFile t.firstFree (newEntry name pages.pop.2)).filesTable
                t.firstFree = newEntry name pages.pop.2 := Function.update_self ..
            rw [hself]
            exact ⟨rfl, show (0 : Nat) < 0x2000 by decide⟩
          · have hother : (t.withFile t.firstFree (newEntry name pages.pop.2)).filesTable j =
                t.filesTable j := Function.update_of_ne hjf ..
            unfold Named at hn
            rw [hother] at hn ⊢
            exact h j hj hn
        · exact h

theorem sized_withoutFile (h : t.Sized) : (t.withoutFile i).Sized := by
  intro j hj hn
  obtain ⟨hji, hn⟩ := named_withoutFile.mp hn
  have hother : (t.withoutFile i).filesTable j = t.filesTable j := Function.update_of_ne hji ..
  rw [hother]
  exact h j hj hn

end FilesTable

namespace PagePool

variable {s : PagePool} {i : Nat}

theorem readChar_cases (hn : s.files.Named i) :
    ∃ files, s.readChar i = { s with files := files } ∧ s.files.SameFiles files ∧
      (s.files.Sized → files.Sized) := by
  by_cases hfails : (!FilesTable.isValidFile (some i) || s.files.basicFileIsEmpty (some i)) = true
  · refine ⟨s.files, ?_, .refl s.files, id⟩
    simp only [readChar, FilesTable.basicFileReadChar, if_pos hfails]
  · refine ⟨s.files.setEntry i { s.files.filesTable i with
      readIndex := if (s.files.filesTable i).readIndex ≥ (s.files.filesTable i).size - 1 then 0
        else (s.files.filesTable i).readIndex + 1 }, ?_,
      FilesTable.sameFiles_setEntry hn rfl rfl rfl,
      fun h => FilesTable.sized_setEntry h rfl fun hsize hwrite => ⟨hsize, hwrite⟩⟩
    simp only [readChar, FilesTable.basicFileReadChar, if_neg hfails]

/-- A write changes one byte of the page of the file. -/
theorem writeChar_cases (hi : i < maxFiles) (hn : s.files.Named i) (hsized : s.files.Sized)
    (c : UInt8) : ∃ files mem, s.writeChar c i = { s with files := files, mem := mem } ∧
      s.files.SameFiles files ∧ files.Sized ∧
      ∀ x, mem x ≠ s.mem x → Write.InPage (s.files.filesTable i).stream x := by
  obtain ⟨hsize, hwrite⟩ := hsized i hi hn
  by_cases hfails : (!FilesTable.isValidFile (some i) || s.files.basicFileIsFull (some i)) = true
  · refine ⟨s.files, s.mem, ?_, .refl s.files, hsized, fun _ hx => absurd rfl hx⟩
    simp only [writeChar, FilesTable.basicFileWriteChar, if_pos hfails]
  · refine ⟨s.files.setEntry i { s.files.filesTable i with
        writeIndex := if (s.files.filesTable i).writeIndex ≥ (s.files.filesTable i).size - 1 then 0
          else (s.files.filesTable i).writeIndex + 1 },
      Function.update s.mem
        ((s.files.filesTable i).stream + (s.files.filesTable i).writeIndex) c, ?_,
      FilesTable.sameFiles_setEntry hn rfl rfl rfl,
      FilesTable.sized_setEntry hsized rfl fun _ _ => ⟨hsize, ?_⟩, ?_⟩
    · simp only [writeChar, FilesTable.basicFileWriteChar, if_neg hfails]
    · rw [hsize]
      split
      · exact show (0 : Nat) < 0x2000 by decide
      · next hlast =>
        have hlt : (s.files.filesTable i).writeIndex.toNat < 0x2000 - 1 :=
          UInt64.lt_iff_toNat_lt.mp (UInt64.not_le.mp hlast)
        have hpage : PAGE_SIZE.toNat = 0x2000 := rfl
        rw [Word.uint64_toNat_succ (by omega)]
        omega
    · intro x hx
      have hat : x = (s.files.filesTable i).stream + (s.files.filesTable i).writeIndex := by
        by_contra hne
        exact hx (Function.update_of_ne hne ..)
      rw [hat, Write.InPage, add_sub_cancel_left]
      exact hwrite

end PagePool

namespace PoolInv

variable {s s' : PagePool} {chain : Nat → List Addr} {page x : Addr} {agent other : Agent}

/-- A block is in a page of the heap, behind the header. -/
theorem block_page (h : PoolInv s chain) {b : Block} (hb : b ∈ s.blocks) (hx : b.Covers x) :
    ∃ hi : b.owner < pcbEntries, ∃ page, page ∈ s.holds chain (.heap ⟨b.owner, hi⟩) ∧
      Write.InPage page x ∧ ¬ InHeader page x := by
  obtain ⟨hi, page, hpage, hlow, hhigh⟩ := h.processes.inside b hb
  have hpool := h.processes.pool hi hpage
  have hbounds := initialPages_bounds hpool
  have hused := (h.processes.used b.owner hi page hpage).2
  rw [Block.Covers, addr_sub_toNat_lt_iff (by omega)] at hx
  refine ⟨hi, page, Multiset.mem_coe.mpr hpage, ?_, ?_⟩
  · rw [inPage_iff hpool]
    omega
  · rw [InHeader, addr_sub_toNat_lt_iff (by omega)]
    omega

/-- The page of a byte that belongs to somebody. -/
theorem belongs_page (h : PoolInv s chain) (hx : s.Belongs x agent) :
    (agent = .kernel ∧ ∀ page ∈ initialPages, ¬ Write.InPage page x) ∨
    ∃ page owner, page ∈ s.holds chain owner ∧ owner.agent = some agent ∧
      Write.InPage page x := by
  cases agent with
  | kernel =>
    rcases hx with hout | ⟨page, hpage, hin⟩
    · exact .inl ⟨rfl, hout⟩
    · exact .inr ⟨page, .reserved, Multiset.mem_coe.mpr hpage, rfl, hin⟩
  | file i =>
    obtain ⟨hi, hn, hin⟩ := hx
    exact .inr ⟨_, .file ⟨i, hi⟩, (h.mem_holds_iff _).mpr ⟨hn, rfl⟩, rfl, hin⟩
  | process i =>
    right
    rcases hx with ⟨hi, hocc, hin⟩ | ⟨b, hb, rfl, hx⟩
    · exact ⟨_, .stack ⟨i, hi⟩, (h.mem_holds_iff _).mpr ⟨hocc, rfl⟩, rfl, hin⟩
    · obtain ⟨hi, page, hpage, hin, -⟩ := h.block_page hb hx
      exact ⟨page, .heap ⟨b.owner, hi⟩, hpage, rfl, hin⟩

/-- A byte of a page belongs to the owner of the page, if it belongs to anybody. -/
theorem agent_of_page (h : PoolInv s chain) (hx : s.Belongs x agent) {owner : PageOwner}
    (hpage : page ∈ s.holds chain owner) (hin : Write.InPage page x) :
    owner.agent = some agent := by
  have hpool : page ∈ initialPages := Multiset.mem_coe.mp (h.balanced.mem_pool hpage)
  rcases h.belongs_page hx with ⟨-, hout⟩ | ⟨page', owner', hpage', hagent, hin'⟩
  · exact absurd hin (hout page hpool)
  · have hpool' : page' ∈ initialPages := Multiset.mem_coe.mp (h.balanced.mem_pool hpage')
    obtain rfl := inPage_unique hpool hpool' hin hin'
    have howner : owner = owner' := by
      by_contra hne
      exact h.balanced.disjoint hne hpage hpage'
    rw [howner]
    exact hagent

/-- **Nobody shares a byte.** -/
theorem belongs_unique (h : PoolInv s chain) (hx : s.Belongs x agent) (hx' : s.Belongs x other) :
    agent = other := by
  rcases h.belongs_page hx with ⟨rfl, hout⟩ | ⟨page, owner, hpage, hagent, hin⟩
  · rcases h.belongs_page hx' with ⟨rfl, -⟩ | ⟨page, owner, hpage, -, hin⟩
    · rfl
    · have hpool : page ∈ initialPages := Multiset.mem_coe.mp (h.balanced.mem_pool hpage)
      exact absurd hin (hout page hpool)
  · have hother := h.agent_of_page hx' hpage hin
    exact Option.some.inj (hagent.symm.trans hother)

/-- Free pages are nobody's. -/
theorem not_free (h : PoolInv s chain) (hx : s.Belongs x agent) (hpage : page ∈ s.pages.free) :
    ¬ Write.InPage page x := by
  intro hin
  have hholds : page ∈ s.holds chain .free := Multiset.mem_coe.mpr hpage
  cases h.agent_of_page hx hholds hin

/-- The headers of the heaps are nobody's. -/
theorem not_header (h : PoolInv s chain) (hx : s.Belongs x agent) {i : Nat}
    (hi : i < pcbEntries) (hpage : page ∈ chain i) : ¬ InHeader page x := by
  intro hheader
  have hholds : page ∈ s.holds chain (.heap ⟨i, hi⟩) := Multiset.mem_coe.mpr hpage
  have hin := hheader.inPage
  obtain rfl : agent = .process i :=
    (Option.some.inj (h.agent_of_page hx hholds hin)).symm
  have hpool := h.processes.pool hi hpage
  rcases hx with ⟨-, hocc, hstack⟩ | ⟨b, hb, rfl, hcovers⟩
  -- the stack page is not in the heap
  · have hholds' : (s.pcb.entries i).stackPage ∈ s.holds chain (.stack ⟨i, hi⟩) :=
      (h.mem_holds_iff _).mpr ⟨hocc, rfl⟩
    have hpool' := Multiset.mem_coe.mp (h.balanced.mem_pool hholds')
    rw [← inPage_unique hpool hpool' hin hstack] at hholds'
    exact h.balanced.disjoint (by simp) hholds hholds'
  · obtain ⟨hown, page', hpage', hin', hbehind⟩ := h.block_page hb hcovers
    have hpool' := Multiset.mem_coe.mp (h.balanced.mem_pool hpage')
    rw [inPage_unique hpool hpool' hin hin'] at hheader
    exact hbehind hheader

/-! ### One step -/

/-- The headers stay when only free pages and somebody's own memory are written. -/
theorem keepsHeaders (h : PoolInv s chain) {mem : Memory}
    (hown : ∀ x, mem x ≠ s.mem x →
      (∃ page ∈ s.pages.free, Write.InPage page x) ∨ s.Belongs x agent) :
    s.KeepsHeaders mem := by
  intro i pages hi hlinked page hpage k hk
  have hlt : i < pcbEntries := h.processes.toNat_maxProcesses ▸ hi
  rw [LinkedChain.Chain.unique hlinked (h.processes.linked i hlt)] at hpage
  have hheader : InHeader page (page + UInt64.ofNat k) := inHeader_iff.mpr ⟨k, hk, rfl⟩
  by_contra hchanged
  rcases hown _ hchanged with ⟨q, hq, hin⟩ | hx
  · have hholds : page ∈ s.holds chain (.heap ⟨i, hlt⟩) := Multiset.mem_coe.mpr hpage
    have hfree : q ∈ s.holds chain .free := Multiset.mem_coe.mpr hq
    have hpool := Multiset.mem_coe.mp (h.balanced.mem_pool hholds)
    have hpool' := Multiset.mem_coe.mp (h.balanced.mem_pool hfree)
    rw [inPage_unique hpool hpool' hheader.inPage hin] at hholds
    exact h.balanced.disjoint (by simp) hholds hfree
  · exact h.not_header hx hlt hpage hheader

theorem keepsHeaders_of_own (h : PoolInv s chain) {mem : Memory}
    (hown : ∀ x, ¬ s.Belongs x agent → mem x = s.mem x) : s.KeepsHeaders mem := by
  have hchanged : ∀ x, mem x ≠ s.mem x →
      (∃ page ∈ s.pages.free, Write.InPage page x) ∨ s.Belongs x agent := by
    intro x hx
    right
    by_contra hno
    exact hx (hown x hno)
  exact h.keepsHeaders hchanged

/-- A creation writes the page that is popped for it, and the creator's `argv`. -/
theorem creation_own (h : PoolInv s chain) (hfree : s.pages.free ≠ []) {a : ProcessParams}
    {r : UInt64} {m' : Machine} (hcreate : s.createProcess a = some (r, m'))
    (hfits : Fits s.toMachine a)
    (hslots : ∀ i < a.argc.toNat, ∀ x, SlotByte a.argv i x → s.Belongs x agent) (x : Addr)
    (hx : m'.mem x ≠ s.mem x) :
    (∃ page ∈ s.pages.free, Write.InPage page x) ∨ s.Belongs x agent := by
  obtain ⟨page, stack, hpop, hcons, -⟩ := pop_of_free h.exclusive hfree
  have hpage : s.nextStackPage = page := congrArg Prod.snd (hpop _)
  have halone := (createProcess_created hcreate).leavesAlone hfits
  by_cases hin : Write.InPage s.nextStackPage x
  · rw [hpage] at hin
    exact .inl ⟨page, hcons ▸ List.mem_cons_self, hin⟩
  · right
    by_contra hown
    exact hx (halone.memory x hin fun i hi hslot => hown (hslots i hi x hslot))

/-- The step is one of the pool. -/
theorem pool_step (h : PoolInv s chain) {action : PoolAction} (hleft : PagesLeft s action)
    (hstep : isolation.step s (.call agent action) s') : pagePool.step s action s' := by
  cases action with
  | createProcess a =>
    obtain ⟨r, m', hcreate, hfits, hslots, rfl⟩ := hstep
    exact ⟨r, m', hcreate, hfits, h.keepsHeaders (h.creation_own hleft hcreate hfits hslots), rfl⟩
  | write mem =>
    obtain ⟨hown, rfl⟩ := hstep
    exact ⟨h.keepsHeaders_of_own hown, rfl⟩
  | malloc | destroyProcess | createBasicFileWithName | destroyBasicFile | pop | push =>
    exact hstep

theorem occupied_of_belongs (h : PoolInv s chain) {i : Nat} (hx : s.Belongs x (.process i)) :
    i < pcbEntries ∧ (s.pcb.entries i).occupied ≠ 0 := by
  rcases hx with ⟨hi, hocc, -⟩ | ⟨b, hb, rfl, hcovers⟩
  · exact ⟨hi, hocc⟩
  · obtain ⟨hi, page, hpage, -, -⟩ := h.block_page hb hcovers
    refine ⟨hi, fun hocc => ?_⟩
    have hmem : page ∈ chain b.owner := Multiset.mem_coe.mp hpage
    rw [h.unused b.owner hi hocc] at hmem
    exact List.not_mem_nil hmem

/-- What was one's own and has not been given back. -/
theorem belongs_mono (hx : s.Belongs x agent)
    (hkernel : agent = .kernel → ∀ page ∈ s.reserved, page ∈ s'.reserved)
    (hfile : ∀ i, agent = .file i → s.files.Named i → s'.files.Named i ∧
      (s'.files.filesTable i).stream = (s.files.filesTable i).stream)
    (hprocess : ∀ i, agent = .process i →
      ((s.pcb.entries i).occupied ≠ 0 → (s'.pcb.entries i).occupied ≠ 0 ∧
        (s'.pcb.entries i).stackPage = (s.pcb.entries i).stackPage) ∧
      ∀ b ∈ s.blocks, b.owner = i → b ∈ s'.blocks) : s'.Belongs x agent := by
  cases agent with
  | kernel =>
    rcases hx with hout | ⟨page, hpage, hin⟩
    · exact .inl hout
    · exact .inr ⟨page, hkernel rfl page hpage, hin⟩
  | file i =>
    obtain ⟨hi, hn, hin⟩ := hx
    obtain ⟨hn', hstream⟩ := hfile i rfl hn
    rw [← hstream] at hin
    exact ⟨hi, hn', hin⟩
  | process i =>
    obtain ⟨hentry, hblocks⟩ := hprocess i rfl
    rcases hx with ⟨hi, hocc, hin⟩ | ⟨b, hb, howner, hcovers⟩
    · obtain ⟨hocc', hstack⟩ := hentry hocc
      rw [← hstack] at hin
      exact .inl ⟨hi, hocc', hin⟩
    · exact .inr ⟨b, hblocks b hb howner, howner, hcovers⟩

theorem createProcess_stays (h : PoolInv s chain) (hfree : s.pages.free ≠ [])
    {a : ProcessParams} {r : UInt64} {m' : Machine}
    (hcreate : s.createProcess a = some (r, m')) (hfits : Fits s.toMachine a)
    (hslots : ∀ i < a.argc.toNat, ∀ x, SlotByte a.argv i x → s.Belongs x other)
    (hne : other ≠ agent) (hx : s.Belongs x agent) :
    (s.created m').Belongs x agent ∧ (s.created m').mem x = s.mem x := by
  have hmem : m'.mem x = s.mem x := by
    by_contra hchanged
    rcases h.creation_own hfree hcreate hfits hslots x hchanged with ⟨page, hpage, hin⟩ | hx'
    · exact h.not_free hx hpage hin
    · exact hne (h.belongs_unique hx' hx)
  have halone := (createProcess_created hcreate).leavesAlone hfits
  -- the new entry was not one of a process
  have hentry : ∀ i, agent = .process i → i ≠ freeEntry s.pcb := by
    rintro i rfl
    obtain ⟨hi, hocc⟩ := h.occupied_of_belongs hx
    rintro rfl
    exact hocc (freeEntry_unoccupied (h.processes.toNat_maxProcesses ▸ hi))
  unfold PagePool.created
  split
  · refine ⟨belongs_mono hx (fun _ _ hp => hp) (fun _ _ hn => ⟨hn, rfl⟩) ?_, hmem⟩
    intro i hagent
    have hold := halone.entries i (hentry i hagent)
    refine ⟨fun hocc => ?_, ?_⟩
    · show (m'.pcb.entries i).occupied ≠ 0 ∧ (m'.pcb.entries i).stackPage = _
      rw [hold]
      exact ⟨hocc, rfl⟩
    · intro b hb howner
      apply List.mem_filter.mpr
      exact ⟨hb, by simpa [howner] using hentry i hagent⟩
  · refine ⟨belongs_mono hx (fun _ _ hp => hp) (fun _ _ hn => ⟨hn, rfl⟩) ?_, hmem⟩
    intro i hagent
    have hold := halone.entries i (hentry i hagent)
    refine ⟨fun hocc => ?_, fun b hb _ => hb⟩
    show (m'.pcb.entries i).occupied ≠ 0 ∧ (m'.pcb.entries i).stackPage = _
    rw [hold]
    exact ⟨hocc, rfl⟩

theorem malloc_stays (h : PoolInv s chain) (hfree : s.pages.free ≠ []) {k : UInt64} {n : Int64}
    (hstep : pagePool.step s (.malloc k n) s') (hx : s.Belongs x agent) :
    s'.Belongs x agent ∧ s'.mem x = s.mem x := by
  obtain ⟨hlive, ⟨hk, p, m', hmalloc, hheaps⟩, hfiles, hreserved⟩ := hstep
  have hi := h.processes.toNat_lt hk
  have hmem : m'.mem x = s.mem x :=
    h.processes.malloc_frame hfree hk hmalloc
      (fun page hpage => h.not_header hx hi hpage)
      (fun page hpage hheader => h.not_free hx hpage hheader.inPage)
  have hblocks : ∀ b ∈ s.blocks, b ∈ s'.blocks := by
    intro b hb
    show b ∈ s'.toHeaps.blocks
    rw [hheaps]
    dsimp only
    split
    · exact hb
    · exact List.mem_cons_of_mem _ hb
  have hentries : ∀ i, (m'.pcb.entries i).occupied = (s.pcb.entries i).occupied ∧
      (m'.pcb.entries i).stackPage = (s.pcb.entries i).stackPage := by
    intro i
    rcases h.processes.malloc_cases hfree hk n with
      ⟨-, hnull⟩ | ⟨-, taken, target, start, m'', heq, -, ha⟩
    · obtain ⟨-, rfl⟩ := Prod.mk.inj (Option.some.inj (hnull.symm.trans hmalloc))
      exact ⟨rfl, rfl⟩
    · obtain ⟨-, rfl⟩ := Prod.mk.inj (Option.some.inj (heq.symm.trans hmalloc))
      obtain ⟨head, hpcb⟩ := ha.entry
      rw [hpcb, Pcb.modifyProcess_entries]
      split
      · next hik =>
        rw [hik]
        exact ⟨rfl, rfl⟩
      · exact ⟨rfl, rfl⟩
  constructor
  · apply belongs_mono hx
    · rw [hreserved]
      exact fun _ _ hp => hp
    · rw [hfiles]
      exact fun _ _ hn => ⟨hn, rfl⟩
    · intro i _
      refine ⟨fun hocc => ?_, fun b hb _ => hblocks b hb⟩
      show (s'.toHeaps.pcb.entries i).occupied ≠ 0 ∧ (s'.toHeaps.pcb.entries i).stackPage = _
      rw [hheaps]
      exact ⟨(hentries i).1 ▸ hocc, (hentries i).2⟩
  · show s'.toHeaps.mem x = s.mem x
    rw [hheaps]
    exact hmem

theorem destroyProcess_stays (h : PoolInv s chain) {k : UInt64}
    (hstep : pagePool.step s (.destroyProcess k) s') (hne : Agent.process k.toNat ≠ agent)
    (hx : s.Belongs x agent) : s'.Belongs x agent ∧ s'.mem x = s.mem x := by
  obtain ⟨⟨hlive, m', hdestroy, hheaps⟩, hfiles, hreserved⟩ := hstep
  rw [h.processes.destroyProcess_eq hlive.1] at hdestroy
  obtain rfl := (Prod.mk.inj (Option.some.inj hdestroy)).2
  constructor
  · apply belongs_mono hx
    · rw [hreserved]
      exact fun _ _ hp => hp
    · rw [hfiles]
      exact fun _ _ hn => ⟨hn, rfl⟩
    · rintro i rfl
      have hik : i ≠ k.toNat := fun heq => hne (by rw [heq])
      constructor
      · intro hocc
        show (s'.toHeaps.pcb.entries i).occupied ≠ 0 ∧ (s'.toHeaps.pcb.entries i).stackPage = _
        rw [hheaps]
        show ((s.pcb.setProcess k.toNat .zero).entries i).occupied ≠ 0 ∧
          ((s.pcb.setProcess k.toNat .zero).entries i).stackPage = _
        rw [Pcb.setProcess_ne _ _ _ hik]
        exact ⟨hocc, rfl⟩
      · intro b hb howner
        show b ∈ s'.toHeaps.blocks
        rw [hheaps]
        apply List.mem_filter.mpr
        exact ⟨hb, by simpa [howner] using hik⟩
  · show s'.toHeaps.mem x = s.mem x
    rw [hheaps]

/-- A file that is there keeps its page when another one is created. -/
theorem named_stays (h : PoolInv s chain) (name : Option CString) {i : Nat}
    (hn : s.files.Named i) :
    (s.withFiles (s.files.createBasicFileWithName s.pages name).2).files.Named i ∧
    ((s.withFiles (s.files.createBasicFileWithName s.pages name).2).files.filesTable i).stream =
      (s.files.filesTable i).stream := by
  have hsame : s.files.Named i ∧
      (s.files.filesTable i).stream = (s.files.filesTable i).stream := ⟨hn, rfl⟩
  cases name with
  | none => exact hsame
  | some name =>
    rw [FilesTable.createBasicFileWithName_eq]
    split
    · exact hsame
    · split
      · exact hsame
      · split
        · next hacc =>
          obtain ⟨hroom, hname, -, -⟩ := hacc
          obtain ⟨-, hunnamed, -⟩ := h.table.firstFree hroom
          have hne : i ≠ s.files.firstFree := fun heq => hunnamed (heq ▸ hn)
          refine ⟨(FilesTable.named_withFile hname).mpr (.inr hn), ?_⟩
          have hother : (s.files.withFile s.files.firstFree
              (FilesTable.newEntry name s.pages.pop.2)).filesTable i = s.files.filesTable i :=
            Function.update_of_ne hne ..
          exact congrArg BasicFileEntry.stream hother
        · exact hsame

theorem indices (h : PoolInv s chain) {files : FilesTable} {mem : Memory}
    (hsame : s.files.SameFiles files) (hkeep : s.KeepsHeaders mem) :
    PoolInv { s with files := files, mem := mem } chain := by
  refine ⟨h.processes.write hkeep, h.unused,
    h.table.congr hsame.numFiles hsame.name hsame.unused, ?_, ?_⟩
  · intro i hi hn
    rw [hsame.place]
    exact h.place i hi ((hsame.named_iff i).mp hn)
  · have hholds : PagePool.holds { s with files := files, mem := mem } chain = s.holds chain := by
      funext owner
      cases owner with
      | file i => simp only [PagePool.holds, hsame.named_iff, hsame.stream]
      | free | reserved | stack | heap => rfl
    rw [hholds]
    exact h.balanced

theorem destroyBasicFile_withFiles (h : PoolInv s chain) {f : Nat} (hf : f < maxFiles)
    (hn : s.files.Named f) :
    s.withFiles (s.files.destroyBasicFile s.pages (some f)).2 = s ∨
    ∃ pages, s.withFiles (s.files.destroyBasicFile s.pages (some f)).2 =
      { s with files := s.files.withoutFile f, pages := pages } := by
  rcases FilesTable.destroyBasicFile_cases h.table s.pages hf hn with hmiss | ⟨-, heq⟩
  · left
    rw [hmiss]
    rfl
  · right
    rw [heq]
    exact ⟨_, rfl⟩

/-- The byte that is written to a file is the file's own. -/
theorem writeChar_own {i : Nat} (hi : i < maxFiles) (hn : s.files.Named i)
    (hsized : s.files.Sized) (c : UInt8) : ∃ files mem,
      s.writeChar c i = { s with files := files, mem := mem } ∧ s.files.SameFiles files ∧
      files.Sized ∧ ∀ x, mem x ≠ s.mem x → s.Belongs x (.file i) := by
  obtain ⟨files, mem, heq, hsame, hsized', hin⟩ := PagePool.writeChar_cases hi hn hsized c
  exact ⟨files, mem, heq, hsame, hsized', fun x hx => ⟨hi, hn, hin x hx⟩⟩

theorem sameFiles_stays {files : FilesTable} (hsame : s.files.SameFiles files) {mem : Memory}
    (hmem : mem x = s.mem x) (hx : s.Belongs x agent) :
    PagePool.Belongs { s with files := files, mem := mem } x agent ∧ mem x = s.mem x :=
  ⟨belongs_mono hx (fun _ _ hp => hp)
    (fun i _ hn => ⟨(hsame.named_iff i).mpr hn, hsame.stream i⟩)
    (fun _ _ => ⟨fun hocc => ⟨hocc, rfl⟩, fun _ hb _ => hb⟩), hmem⟩

/-- **What others do to one's memory**: nothing. -/
theorem stays (h : PoolInv s chain) (hsized : s.files.Sized) {action : MemoryAction}
    (hleft : MemoryLeft s action) (hstep : isolation.step s action s')
    (hne : concerned action ≠ some agent) (hx : s.Belongs x agent) :
    s'.Belongs x agent ∧ s'.mem x = s.mem x := by
  cases action with
  | writeChar c i =>
    obtain ⟨hi, hn, rfl⟩ := hstep
    obtain ⟨files, mem, heq, hsame, -, hown⟩ := writeChar_own hi hn hsized c
    rw [heq]
    apply sameFiles_stays hsame _ hx
    by_contra hchanged
    exact hne (congrArg some (h.belongs_unique (hown x hchanged) hx))
  | readChar i =>
    obtain ⟨-, hn, rfl⟩ := hstep
    obtain ⟨files, heq, hsame, -⟩ := PagePool.readChar_cases hn
    rw [heq]
    exact sameFiles_stays hsame rfl hx
  | call other action =>
    cases action with
    | createProcess a =>
      obtain ⟨r, m', hcreate, hfits, hslots, rfl⟩ := hstep
      exact h.createProcess_stays hleft hcreate hfits hslots (fun heq => hne (congrArg some heq)) hx
    | malloc k n => exact h.malloc_stays hleft hstep hx
    | destroyProcess k =>
      exact h.destroyProcess_stays hstep (fun heq => hne (congrArg some heq)) hx
    | write mem =>
      obtain ⟨hown, rfl⟩ := hstep
      refine ⟨belongs_mono hx (fun _ _ hp => hp) (fun _ _ hn => ⟨hn, rfl⟩)
        (fun _ _ => ⟨fun hocc => ⟨hocc, rfl⟩, fun _ hb _ => hb⟩), hown x ?_⟩
      exact fun hx' => hne (congrArg some (h.belongs_unique hx' hx))
    | createBasicFileWithName name =>
      obtain rfl := hstep
      exact ⟨belongs_mono hx (fun _ _ hp => hp) (fun _ _ hn => h.named_stays name hn)
        (fun _ _ => ⟨fun hocc => ⟨hocc, rfl⟩, fun _ hb _ => hb⟩), rfl⟩
    | destroyBasicFile f =>
      obtain ⟨hf, hn, rfl⟩ := hstep
      rcases h.destroyBasicFile_withFiles hf hn with heq | ⟨pages, heq⟩
      · rw [heq]
        exact ⟨hx, rfl⟩
      · rw [heq]
        refine ⟨belongs_mono hx (fun _ _ hp => hp) ?_
          (fun _ _ => ⟨fun hocc => ⟨hocc, rfl⟩, fun _ hb _ => hb⟩), rfl⟩
        rintro i rfl hn
        have hif : i ≠ f := fun heq => hne (by rw [heq]; rfl)
        have hother : (s.files.withoutFile f).filesTable i = s.files.filesTable i :=
          Function.update_of_ne hif ..
        exact ⟨FilesTable.named_withoutFile.mpr ⟨hif, hn⟩, congrArg BasicFileEntry.stream hother⟩
    | pop =>
      obtain rfl := hstep
      refine ⟨belongs_mono hx (fun _ q hq => ?_) (fun _ _ hn => ⟨hn, rfl⟩)
        (fun _ _ => ⟨fun hocc => ⟨hocc, rfl⟩, fun _ hb _ => hb⟩), rfl⟩
      show q ∈ s.popped.reserved
      unfold PagePool.popped
      dsimp only
      split
      · exact hq
      · exact List.mem_cons_of_mem _ hq
    | push page =>
      obtain ⟨-, rfl⟩ := hstep
      exact ⟨belongs_mono hx (fun heq => absurd (congrArg some heq.symm) hne)
        (fun _ _ hn => ⟨hn, rfl⟩) (fun _ _ => ⟨fun hocc => ⟨hocc, rfl⟩, fun _ hb _ => hb⟩), rfl⟩

end PoolInv

/-! ### All runs -/

structure IsolationInv (s : PagePool) (chain : Nat → List Addr) : Prop where
  pool : PoolInv s chain
  sized : s.files.Sized

theorem isolationInv_step {s s' : PagePool} {action : MemoryAction} {chain : Nat → List Addr}
    (h : IsolationInv s chain) (hleft : MemoryLeft s action) (hstep : isolation.step s action s') :
    ∃ chain', IsolationInv s' chain' := by
  cases action with
  | writeChar c i =>
    obtain ⟨hi, hn, rfl⟩ := hstep
    obtain ⟨files, mem, heq, hsame, hsized, hown⟩ := PoolInv.writeChar_own hi hn h.sized c
    rw [heq]
    exact ⟨chain, h.pool.indices hsame (h.pool.keepsHeaders fun x hx => .inr (hown x hx)), hsized⟩
  | readChar i =>
    obtain ⟨-, hn, rfl⟩ := hstep
    obtain ⟨files, heq, hsame, hsized⟩ := PagePool.readChar_cases hn
    rw [heq]
    exact ⟨chain, h.pool.indices hsame fun _ _ _ _ _ _ _ _ => rfl, hsized h.sized⟩
  | call agent action =>
    obtain ⟨chain', hpool⟩ := poolInv_step h.pool hleft (h.pool.pool_step hleft hstep)
    refine ⟨chain', hpool, ?_⟩
    cases action with
    | createProcess a =>
      obtain ⟨r, m', -, -, -, rfl⟩ := hstep
      have hfiles : (s.created m').files = s.files := by
        unfold PagePool.created
        split <;> rfl
      rw [hfiles]
      exact h.sized
    | malloc k n =>
      obtain ⟨-, -, hfiles, -⟩ := hstep
      rw [hfiles]
      exact h.sized
    | destroyProcess k =>
      obtain ⟨-, hfiles, -⟩ := hstep
      rw [hfiles]
      exact h.sized
    | write mem =>
      obtain ⟨-, rfl⟩ := hstep
      exact h.sized
    | createBasicFileWithName name =>
      obtain rfl := hstep
      exact FilesTable.sized_createBasicFileWithName h.sized s.pages name
    | destroyBasicFile f =>
      obtain ⟨hf, hn, rfl⟩ := hstep
      rcases h.pool.destroyBasicFile_withFiles hf hn with heq | ⟨pages, heq⟩
      · rw [heq]
        exact h.sized
      · rw [heq]
        exact FilesTable.sized_withoutFile h.sized
    | pop =>
      obtain rfl := hstep
      exact h.sized
    | push page =>
      obtain ⟨-, rfl⟩ := hstep
      exact h.sized

theorem isolationInv_reachable {s : PagePool} (h : (isolation.restrict MemoryLeft).Reachable s) :
    ∃ chain, IsolationInv s chain := by
  apply h.invariant fun s => ∃ chain, IsolationInv s chain
  · intro s hinit
    refine ⟨_, poolInv_init hinit, ?_⟩
    rw [hinit.2.1]
    exact fun i _ hn => absurd rfl hn
  · rintro s action s' ⟨chain, hinv⟩ ⟨hleft, hstep⟩
    exact isolationInv_step hinv hleft hstep

/-- **Memory is isolated.**  As long as there are pages and everybody writes his own memory
    only, nobody shares a byte, no header of a heap is overwritten, and what an agent has in
    its memory stays there through any calls and writes of the others, and through its own
    calls of `malloc`. -/
theorem memory_isolated {s : PagePool} (h : (isolation.restrict MemoryLeft).Reachable s) :
    (∀ x agent other, s.Belongs x agent → s.Belongs x other → agent = other) ∧
    (∀ agent mem, (∀ x, ¬ s.Belongs x agent → mem x = s.mem x) → s.KeepsHeaders mem) ∧
    ∀ agent actions s', (∀ action ∈ actions, concerned action ≠ some agent) →
      (isolation.restrict MemoryLeft).StepsFrom s actions s' →
      ∀ x, s.Belongs x agent → s'.Belongs x agent ∧ s'.mem x = s.mem x := by
  obtain ⟨chain, hinv⟩ := isolationInv_reachable h
  refine ⟨fun x agent other hx hx' => hinv.pool.belongs_unique hx hx', ?_, ?_⟩
  · exact fun agent mem hown => hinv.pool.keepsHeaders_of_own hown
  · intro agent actions s' hothers hrun x hx
    clear hinv
    induction hrun with
    | nil s => exact ⟨hx, rfl⟩
    | @cons s s₁ s' action actions hstep hrest ih =>
      obtain ⟨chain, hinv⟩ := isolationInv_reachable h
      obtain ⟨hx₁, hmem₁⟩ :=
        hinv.pool.stays hinv.sized hstep.1 hstep.2 (hothers _ List.mem_cons_self) hx
      have hnext := ih (.step action h hstep)
        (fun action ha => hothers action (List.mem_cons_of_mem _ ha)) hx₁
      exact ⟨hnext.1, hnext.2.trans hmem₁⟩

/-- A process keeps what it wrote while a file is created and written. -/
theorem memory_isolated_file : ∃ s s' x, (isolation.restrict MemoryLeft).Reachable s ∧
    s.Belongs x (.process 0) ∧ s.mem x = 7 ∧
    (isolation.restrict MemoryLeft).StepsFrom s
      [.call .kernel (.createBasicFileWithName (some Filing.nameA)), .writeChar 65 0] s' ∧
    s'.Belongs x (.process 0) ∧ s'.mem x = 7 := by
  obtain ⟨hfits, m', hcreate, -⟩ := createProcess_redirects separate_good separate_apart
  have hcan := separate_good.canCreate
  obtain ⟨mem, sp, -, -, hm'⟩ := (createProcess_created hcreate).of_canCreate hcan
  let s₀ : PagePool := ⟨⟨separate, fun _ => [], []⟩, .cleared,
    (Ownership.pop ⟨bss.initializePageStack, []⟩ NULL).outstanding⟩
  have hinit : pagePool.init s₀ := ⟨⟨⟨bss.initializePageStack, []⟩, separate.mem, fun _ => .zero,
    .init ⟨rfl, rfl⟩, rfl, fun _ => rfl, rfl⟩, rfl, ⟨bss.initializePageStack, []⟩, separate.mem,
    fun _ => .zero, .init ⟨rfl, rfl⟩, conserved_init ⟨rfl, rfl⟩, rfl, rfl⟩
  have hfree : s₀.pages.free ≠ [] := by
    apply free_ne_nil (n := 0)
    rw [length_free]
    decide
  -- the arguments lie below the pages
  have hslots : ∀ i < (callWith 2).argc.toNat, ∀ x, SlotByte (callWith 2).argv i x →
      s₀.Belongs x .kernel := by
    intro i hi x hx
    refine .inl fun page hpage hin => ?_
    have hbounds := initialPages_bounds hpage
    rw [inPage_iff hpage] at hin
    have hi : i < 2 := hi
    have hslot : (argvSlot 0x1000 i).toNat = 0x1000 + 8 * i := addr_add_toNat (by
      show 0x1000 + 8 * i < 2 ^ 64
      omega)
    have hx : (x - argvSlot 0x1000 i).toNat < 8 := hx
    rw [addr_sub_toNat_lt_iff (by omega)] at hx
    omega
  have h₁ : (isolation.restrict MemoryLeft).Reachable (s₀.created m') :=
    .step (.call .kernel (.createProcess (callWith 2))) (.init hinit)
      ⟨hfree, _, m', hcreate, hfits, hslots, rfl⟩
  -- its stack page is the next one
  have hpop : separate.stackPageFor 0 = (.popped 2, pageAddress 1) := popped_pop (by decide) NULL
  have hindex : freeEntry separate.pcb = 0 := by decide
  rw [hindex, hpop] at hm'
  obtain ⟨s₁, hs₁⟩ : ∃ s₁, s₁ = s₀.created m' := ⟨_, rfl⟩
  have hmachine : s₁.toMachine = m' ∧ s₁.files = .cleared := by
    have hlt : freeEntry s₀.pcb < s₀.pcb.maxProcesses.toNat := by decide
    rw [hs₁, PagePool.created, if_pos hlt]
    exact ⟨rfl, rfl⟩
  rw [← hs₁] at h₁
  have hentry : (s₁.pcb.entries 0).occupied = 1 ∧
      (s₁.pcb.entries 0).stackPage = pageAddress 1 := by
    rw [hmachine.1, hm']
    simp [withNewProcess_entries_self, createdEntry, claimedEntry, hpop]
  have hpages : s₁.pages = .popped 2 := by
    rw [hmachine.1, hm']
  have hx : s₁.Belongs (pageAddress 1) (.process 0) := by
    refine .inl ⟨by decide, ?_, ?_⟩
    · rw [hentry.1]
      decide
    · rw [hentry.2, Write.InPage, sub_self]
      decide
  -- it writes there
  obtain ⟨s₂, hs₂⟩ : ∃ s₂ : PagePool,
      s₂ = { s₁ with mem := Function.update s₁.mem (pageAddress 1) 7 } := ⟨_, rfl⟩
  have hsame : s₂.pages = .popped 2 ∧ s₂.files = .cleared ∧
      s₂.Belongs (pageAddress 1) (.process 0) ∧ s₂.mem (pageAddress 1) = 7 := by
    rw [hs₂]
    exact ⟨hpages, hmachine.2, hx, Function.update_self (pageAddress 1) 7 s₁.mem⟩
  obtain ⟨hpages₂, hfiles₂, hx₂, hmem₂⟩ := hsame
  have hleft : s₁.pages.free ≠ [] ∧ 2 ≤ s₂.pages.free.length := by
    constructor
    · apply free_ne_nil (n := 0)
      rw [hpages, length_free]
      decide
    · rw [hpages₂, length_free]
      decide
  have h₂ : (isolation.restrict MemoryLeft).Reachable s₂ := by
    refine .step (.call (.process 0) (.write (Function.update s₁.mem (pageAddress 1) 7))) h₁
      ⟨hleft.1, ?_, hs₂⟩
    intro x hno
    apply Function.update_of_ne
    rintro rfl
    exact hno hx
  -- the file
  have hpop₂ : s₂.pages.pop = (.popped 3, pageAddress 2) := by
    rw [hpages₂]
    exact popped_pop (by decide) NULL
  have hpage : s₂.pages.pop.2 ≠ NULL := by
    rw [hpop₂]
    exact pageAddress_ne_null (by decide)
  have hacc : s₂.files.Accepts Filing.nameA := by
    rw [hfiles₂]
    exact Filing.accepts_of_names (by decide) (by decide) (by decide)
      (fun _ _ => (show CString.empty ≠ Filing.nameA by decide))
  have hnamed : (s₂.withFiles (s₂.files.createBasicFileWithName s₂.pages
      (some Filing.nameA)).2).files.Named 0 := by
    rw [FilesTable.createBasicFileWithName_eq, if_neg (by decide), if_neg hpage, if_pos hacc,
      hfiles₂]
    exact (FilesTable.named_withFile
      (show Filing.nameA ≠ CString.empty by decide)).mpr (.inl rfl)
  have hrun : (isolation.restrict MemoryLeft).StepsFrom s₂
      [.call .kernel (.createBasicFileWithName (some Filing.nameA)), .writeChar 65 0]
      (PagePool.writeChar _ 65 0) :=
    .cons _ _ ⟨hleft.2, rfl⟩ (.cons _ _ ⟨trivial, by decide, hnamed, rfl⟩ (.nil _))
  obtain ⟨hx', hmem'⟩ := (memory_isolated h₂).2.2 (.process 0) _ _ (by simp [concerned]) hrun _ hx₂
  exact ⟨_, _, _, h₂, hx₂, hmem₂, hrun, hx', hmem'.trans hmem₂⟩

end TP2Kernel
