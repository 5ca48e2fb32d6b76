import Mathlib.Algebra.BigOperators.Fin
import Mathlib.Tactic.DeriveFintype
import TP2Kernel.Framework.Ledger
import TP2Kernel.Memory.Conservation
import TP2Kernel.BasicFile.Destruction
import TP2Kernel.Process.Accounting

/-! # Who owns the pages of the kernel

    Processes take pages for their stacks and their heaps, files take one page each, and
    the rest of the kernel takes pages for its tables.  All of it comes from one stack of
    pages and goes back to it.

    `pages_owned`: at any time each page of the pool has exactly one owner.
-/

namespace TP2Kernel

open Transition LinkedChain PageStack Ledger

/-- The heaps, the files and the pages that the rest of the kernel took. -/
structure PagePool extends Heaps where
  files : FilesTable
  reserved : List Addr

inductive PoolAction where
  | createProcess (a : ProcessParams)
  | malloc (PCBIndex : UInt64) (size : Int64)
  | destroyProcess (PCBIndex : UInt64)
  /-- A process uses its memory. -/
  | write (mem : Memory)
  | createBasicFileWithName (name : Option CString)
  | destroyBasicFile (i : Nat)
  /-- The rest of the kernel pops a page. -/
  | pop
  /-- It pushes one of its pages. -/
  | push (page : Addr)

namespace PagePool

/-- The entry that a creation takes, if there is one, holds the page it got. -/
def created (s : PagePool) (m' : Machine) : PagePool :=
  if Machine.freeEntry s.pcb < s.pcb.maxProcesses.toNat then
    { s with
      toMachine := m'
      held := Function.update s.held (Machine.freeEntry s.pcb) (s.account m' [])
      blocks := s.blocks.filter fun b => b.owner ≠ Machine.freeEntry s.pcb }
  else { s with toMachine := m' }

/-- What a call of `basicFile.c` leaves. -/
def withFiles (s : PagePool) (answer : FilesTable × PageStack) : PagePool :=
  { s with files := answer.1, pages := answer.2 }

/-- `POP_PAGE` for the rest of the kernel. -/
def popped (s : PagePool) : PagePool :=
  let answer := s.pages.pop
  { s with
    pages := answer.1
    reserved := if answer.2 = NULL then s.reserved else answer.2 :: s.reserved }

end PagePool

/-- Calls with any answer, in any order, from `initializePCB` on: the pages popped until
    then belong to the rest of the kernel.  The frames of new processes fit in their pages. -/
def pagePool : System PagePool PoolAction where
  init := fun s => heaps.init s.toHeaps ∧ s.files = .cleared ∧ ∃ o mem entries,
    pageOwnership.Reachable o ∧ Conserved o ∧
    Machine.initializePCB { mem := mem, pages := o.stack, pcb := .bss entries } =
      (0, s.toMachine) ∧ s.reserved = (o.pop NULL).outstanding
  step := fun s action s' =>
    match action with
    | .createProcess a => ∃ r m', s.createProcess a = some (r, m') ∧ s.Fits a ∧
        s.KeepsHeaders m'.mem ∧ s' = s.created m'
    | .malloc PCBIndex size => s.Live PCBIndex ∧
        heaps.step s.toHeaps (.malloc PCBIndex size) s'.toHeaps ∧ s'.files = s.files ∧
        s'.reserved = s.reserved
    | .destroyProcess PCBIndex =>
        heaps.step s.toHeaps (.destroyProcess PCBIndex) s'.toHeaps ∧ s'.files = s.files ∧
        s'.reserved = s.reserved
    | .write mem => s.KeepsHeaders mem ∧ s' = { s with mem := mem }
    | .createBasicFileWithName name =>
        s' = s.withFiles (s.files.createBasicFileWithName s.pages name).2
    | .destroyBasicFile i => i < maxFiles ∧ s.files.Named i ∧
        s' = s.withFiles (s.files.destroyBasicFile s.pages (some i)).2
    | .pop => s' = s.popped
    | .push page => page ∈ s.reserved ∧
        s' = { s with
          pages := (s.pages.pageManager .PUSH_PAGE page).1
          reserved := s.reserved.erase page }

/-- At least one page is free, and two when a file is created: the page of a file that is
    refused comes back. -/
def PagesLeft (s : PagePool) : PoolAction → Prop
  | .createBasicFileWithName _ => 2 ≤ s.pages.free.length
  | _ => s.pages.free ≠ []

/-! ### Owners -/

inductive PageOwner where
  | free
  | reserved
  | file (i : Fin maxFiles)
  | stack (i : Fin pcbEntries)
  | heap (i : Fin pcbEntries)
  deriving DecidableEq, Fintype

namespace PagePool

/-- The pages that may be popped, those of the rest of the kernel, the circular arrays of
    the files, the stacks and the heaps of the processes. -/
def Owns (s : PagePool) (page : Addr) : PageOwner → Prop
  | .free => page ∈ s.pages.free
  | .reserved => page ∈ s.reserved
  | .file i => s.files.Named i ∧ page = (s.files.filesTable i).stream
  | .stack i => (s.pcb.entries i).occupied ≠ 0 ∧ page = (s.pcb.entries i).stackPage
  | .heap i => ∃ pages, s.HeapChain i pages ∧ page ∈ pages

/-- The same with the pages of the heaps given. -/
def holds (s : PagePool) (chain : Nat → List Addr) : PageOwner → Multiset Addr
  | .free => s.pages.free
  | .reserved => s.reserved
  | .file i => if s.files.Named i then {(s.files.filesTable i).stream} else 0
  | .stack i =>
    if (s.pcb.entries i).occupied = 0 then 0 else {(s.pcb.entries i).stackPage}
  | .heap i => chain i

end PagePool

/-- The pages are balanced, over the invariants of the parts. -/
structure PoolInv (s : PagePool) (chain : Nat → List Addr) : Prop where
  processes : HeapsInv s.toHeaps chain
  unused : ∀ i < pcbEntries, (s.pcb.entries i).occupied = 0 → chain i = []
  table : s.files.Inv
  place : ∀ i < maxFiles, s.files.Named i → (s.files.filesTable i).place = .HEAP
  balanced : Balanced (s.holds chain) initialPages

namespace PoolInv

variable {s s' : PagePool} {chain chain' : Nat → List Addr} {page : Addr}

theorem exclusive (h : PoolInv s chain) : Exclusive ⟨s.pages, []⟩ :=
  (h.processes.exclusive 0 (by decide)).sublist (List.nil_sublist _)

theorem mem_holds_iff (h : PoolInv s chain) (owner : PageOwner) :
    page ∈ s.holds chain owner ↔ s.Owns page owner := by
  cases owner with
  | free | reserved => exact Multiset.mem_coe
  | file i => by_cases hn : s.files.Named i <;> simp [PagePool.holds, PagePool.Owns, hn]
  | stack i =>
    by_cases hocc : (s.pcb.entries i).occupied = 0 <;>
      simp [PagePool.holds, PagePool.Owns, hocc]
  | heap i =>
    have hlinked := h.processes.linked i i.isLt
    constructor
    · intro hmem
      exact ⟨chain i, hlinked, Multiset.mem_coe.mp hmem⟩
    · rintro ⟨pages, hchain, hmem⟩
      rw [Chain.unique hchain hlinked] at hmem
      exact Multiset.mem_coe.mpr hmem

/-! ### Pages that come back -/

/-- A page of another owner goes on the stack. -/
theorem push_free (h : PoolInv s chain) (hfree : s.pages.free ≠ []) {owner : PageOwner}
    (howner : owner ≠ .free) (hpage : page ∈ s.holds chain owner) :
    (s.pages.pageManager .PUSH_PAGE page).1.free = page :: s.pages.free := by
  have hpool : page ∈ initialPages := Multiset.mem_coe.mp (h.balanced.mem_pool hpage)
  have hnot : page ∉ s.pages.free := fun hmem =>
    h.balanced.disjoint howner hpage (Multiset.mem_coe.mpr hmem)
  have hexcl : Exclusive ⟨s.pages, [page] ++ []⟩ := by
    refine ⟨h.exclusive.ready, List.nodup_cons.mpr ⟨hnot, h.exclusive.distinct⟩, ?_⟩
    intro p hp
    rcases List.mem_cons.mp hp with rfl | hp
    · exact hpool
    · exact h.exclusive.fromPool p hp
  exact (exclusive_give hexcl hfree).1

theorem not_held (h : PoolInv s chain) {owner : PageOwner} (hstack : ∀ i, owner ≠ .stack i)
    (hheap : ∀ i, owner ≠ .heap i) (hpage : page ∈ s.holds chain owner) {i : Nat}
    (hi : i < pcbEntries) : page ∉ s.held i := by
  intro hmem
  have hpages := (h.processes.held i hi).mem_iff.mp hmem
  have hin : page ∈ s.holds chain (.stack ⟨i, hi⟩) ∨ page ∈ s.holds chain (.heap ⟨i, hi⟩) := by
    unfold PcbEntry.pages at hpages
    split at hpages
    · exact .inr (Multiset.mem_coe.mpr hpages)
    · next hocc =>
      rcases List.mem_cons.mp hpages with rfl | hpages
      · left
        simp [PagePool.holds, hocc]
      · exact .inr (Multiset.mem_coe.mpr hpages)
  rcases hin with hin | hin
  · exact h.balanced.disjoint (hstack _) hpage hin
  · exact h.balanced.disjoint (hheap _) hpage hin

/-- The heaps, when a page of the files or of the rest of the kernel comes back. -/
theorem heaps_push (h : PoolInv s chain) {owner : PageOwner} (howner : owner ≠ .free)
    (hstack : ∀ i, owner ≠ .stack i) (hheap : ∀ i, owner ≠ .heap i)
    (hpage : page ∈ s.holds chain owner) :
    HeapsInv { s.toHeaps with pages := (s.pages.pageManager .PUSH_PAGE page).1 } chain :=
  h.processes.push (Multiset.mem_coe.mp (h.balanced.mem_pool hpage))
    (fun hmem => h.balanced.disjoint howner hpage (Multiset.mem_coe.mpr hmem))
    (fun _ hi => h.not_held hstack hheap hpage hi)

/-! ### One step -/

theorem pop (h : PoolInv s chain) (hfree : s.pages.free ≠ []) : PoolInv s.popped chain := by
  obtain ⟨page, stack, hpop, hcons, -⟩ := Machine.pop_of_free h.exclusive hfree
  have hpool : page ∈ initialPages := h.exclusive.fromPool page (by simp [hcons])
  have hne : page ≠ NULL := fun heq => NULL_not_mem_initialPages (heq ▸ hpool)
  have hpop' : s.pages.pop = (stack, page) := hpop NULL
  have hpopped : s.popped = { s with pages := stack, reserved := page :: s.reserved } := by
    simp only [PagePool.popped, hpop', if_neg hne]
  have hheaps := h.processes.pop
  rw [hpop NULL] at hheaps
  rw [hpopped]
  refine ⟨hheaps, h.unused, h.table, h.place, ?_, h.balanced.nodup⟩
  rw [← h.balanced.total]
  apply total_transfer_pair (i := .free) (j := .reserved) (by decide)
  · intro k hfree hreserved
    cases k with
    | free => exact absurd rfl hfree
    | reserved => exact absurd rfl hreserved
    | file | stack | heap => rfl
  · show (↑stack.free + ↑(page :: s.reserved) : Multiset Addr) = ↑s.pages.free + ↑s.reserved
    rw [hcons, ← Multiset.cons_coe, ← Multiset.cons_coe, Multiset.add_cons, Multiset.cons_add]

theorem push (h : PoolInv s chain) (hfree : s.pages.free ≠ []) (hpage : page ∈ s.reserved) :
    PoolInv { s with
      pages := (s.pages.pageManager .PUSH_PAGE page).1
      reserved := s.reserved.erase page } chain := by
  have hholds : page ∈ s.holds chain .reserved := Multiset.mem_coe.mpr hpage
  have hback := h.push_free hfree (by decide) hholds
  have hheaps := h.heaps_push (by decide) (by decide) (by decide) hholds
  refine ⟨hheaps, h.unused, h.table, h.place, ?_, h.balanced.nodup⟩
  rw [← h.balanced.total]
  apply total_transfer_pair (i := .free) (j := .reserved) (by decide)
  · intro k hfree hreserved
    cases k with
    | free => exact absurd rfl hfree
    | reserved => exact absurd rfl hreserved
    | file | stack | heap => rfl
  · show (↑(s.pages.pageManager .PUSH_PAGE page).1.free + ↑(s.reserved.erase page) :
      Multiset Addr) = ↑s.pages.free + ↑s.reserved
    rw [hback, ← Multiset.cons_coe, ← Multiset.coe_erase, Multiset.cons_add,
      ← Multiset.add_cons, Multiset.cons_erase (Multiset.mem_coe.mpr hpage)]

/-! ### Files -/

/-- The page of a new file was the next free one. -/
theorem withFile (h : PoolInv s chain) {name : CString} {stack : PageStack}
    (hacc : s.files.Accepts name) (hpop : ∀ old, s.pages.pageManager .POP_PAGE old = (stack, page))
    (hcons : s.pages.free = page :: stack.free) :
    PoolInv (s.withFiles (s.files.withFile s.files.firstFree
      (FilesTable.newEntry name page), stack)) chain := by
  obtain ⟨hroom, hname, -, hfind⟩ := hacc
  obtain ⟨hlt, hunnamed, -⟩ := h.table.firstFree hroom
  have hheaps := h.processes.pop
  rw [hpop NULL] at hheaps
  have hself : (s.files.withFile s.files.firstFree
      (FilesTable.newEntry name page)).filesTable s.files.firstFree =
        FilesTable.newEntry name page := Function.update_self ..
  have hother : ∀ j ≠ s.files.firstFree, (s.files.withFile s.files.firstFree
      (FilesTable.newEntry name page)).filesTable j = s.files.filesTable j :=
    fun j hj => Function.update_of_ne hj ..
  have hnamed : ∀ j, (s.files.withFile s.files.firstFree (FilesTable.newEntry name page)).Named j ↔
      j = s.files.firstFree ∨ s.files.Named j := fun j => FilesTable.named_withFile hname
  refine ⟨hheaps, h.unused, ?_, ?_, ?_, h.balanced.nodup⟩
  · exact h.table.withFile hlt hunnamed hname (FilesTable.findBasicFile_none_iff.mp hfind)
  · intro i hi hn
    by_cases hif : i = s.files.firstFree
    · subst hif
      exact congrArg BasicFileEntry.place hself
    · show ((s.files.withFile _ _).filesTable i).place = .HEAP
      rw [hother i hif]
      exact h.place i hi (((hnamed i).mp hn).resolve_left hif)
  · rw [← h.balanced.total]
    apply total_transfer_pair (i := .free) (j := .file ⟨_, hlt⟩) (by simp)
    · intro k hfree hfile
      cases k with
      | free => exact absurd rfl hfree
      | file j =>
        have hj : j.val ≠ s.files.firstFree := fun heq => hfile (by simp [← heq])
        simp only [PagePool.holds, PagePool.withFiles, hother _ hj, hnamed, hj, false_or]
      | reserved | stack | heap => rfl
    · simp only [PagePool.holds, PagePool.withFiles, hself, hnamed, hunnamed, true_or, if_true,
        if_false, hcons, ← Multiset.cons_coe, add_zero]
      rw [add_comm, Multiset.singleton_add]
      rfl

theorem createBasicFileWithName (h : PoolInv s chain) (hfree : 2 ≤ s.pages.free.length)
    (name : Option CString) :
    PoolInv (s.withFiles (s.files.createBasicFileWithName s.pages name).2) chain := by
  cases name with
  | none => exact h
  | some name =>
    have hne : s.pages.free ≠ [] := List.ne_nil_of_length_pos (by omega)
    obtain ⟨page, stack, hpop, hcons, -⟩ := Machine.pop_of_free h.exclusive hne
    have hpop' : s.pages.pop = (stack, page) := hpop NULL
    have hpool : page ∈ initialPages := h.exclusive.fromPool page (by simp [hcons])
    have hnull : s.pages.pop.2 ≠ NULL := by
      rw [hpop']
      exact fun heq => NULL_not_mem_initialPages (heq ▸ hpool)
    -- the page of a refused file is not the last one
    have hback : FilesTable.givenBack s.pages = s.pages := by
      have hlen := length_free s.pages
      unfold FilesTable.givenBack
      rw [push_pop hnull, if_neg]
      intro hlast
      have htop := hlast.2
      omega
    rw [FilesTable.createBasicFileWithName_eq]
    by_cases hname : FilesTable.BadName name
    · rw [if_pos hname]
      exact h
    · rw [if_neg hname, if_neg hnull]
      by_cases hacc : s.files.Accepts name
      · rw [if_pos hacc, hpop']
        exact h.withFile hacc hpop hcons
      · rw [if_neg hacc, hback]
        exact h

theorem destroyBasicFile (h : PoolInv s chain) (hfree : s.pages.free ≠ []) {f : Nat}
    (hf : f < maxFiles) (hn : s.files.Named f) :
    PoolInv (s.withFiles (s.files.destroyBasicFile s.pages (some f)).2) chain := by
  rcases FilesTable.destroyBasicFile_cases h.table s.pages hf hn with hmiss | ⟨-, heq⟩
  · rw [hmiss]
    exact h
  · have hholds : (s.files.filesTable f).stream ∈ s.holds chain (.file ⟨f, hf⟩) := by
      simp [PagePool.holds, hn]
    have hback := h.push_free hfree (by simp) hholds
    have hheaps := h.heaps_push (by simp) (by simp) (by simp) hholds
    have hself : ¬ (s.files.withoutFile f).Named f := by simp [FilesTable.named_withoutFile]
    have hother : ∀ j ≠ f, (s.files.withoutFile f).filesTable j = s.files.filesTable j :=
      fun j hj => Function.update_of_ne hj ..
    rw [heq, if_pos (h.place f hf hn)]
    refine ⟨hheaps, h.unused, h.table.withoutFile hf hn, ?_, ?_, h.balanced.nodup⟩
    · intro i hi hni
      have hif := (FilesTable.named_withoutFile.mp hni)
      show ((s.files.withoutFile f).filesTable i).place = .HEAP
      rw [hother i hif.1]
      exact h.place i hi hif.2
    · rw [← h.balanced.total]
      apply total_transfer_pair (i := .free) (j := .file ⟨f, hf⟩) (by simp)
      · intro k hfree hfile
        cases k with
        | free => exact absurd rfl hfree
        | file j =>
          have hj : j.val ≠ f := fun heq => hfile (by simp [← heq])
          simp only [PagePool.holds, PagePool.withFiles, hother _ hj,
            FilesTable.named_withoutFile, ne_eq, hj, not_false_eq_true, true_and]
        | reserved | stack | heap => rfl
      · simp only [PagePool.holds, PagePool.withFiles, hself, hn, hback, if_true, if_false,
          ← Multiset.cons_coe, add_zero]
        rw [add_comm, Multiset.singleton_add]

/-! ### Processes -/

/-- Entry `i` has pages that it took from the stack, or gives pages back. -/
theorem withHeaps (h : PoolInv s chain) {i : Nat} (hi : i < pcbEntries) {heaps' : Heaps}
    {heap : List Addr} (hheaps : HeapsInv heaps' (Function.update chain i heap))
    (hentries : ∀ j ≠ i, heaps'.pcb.entries j = s.pcb.entries j)
    (hunused : (heaps'.pcb.entries i).occupied = 0 → heap = [])
    (hpages : (heaps'.pages.free : Multiset Addr) + (heaps'.pcb.entries i).pages heap =
      s.pages.free + (s.pcb.entries i).pages (chain i)) :
    PoolInv ⟨heaps', s.files, s.reserved⟩ (Function.update chain i heap) := by
  have hof : ∀ (s : PagePool) (chain : Nat → List Addr), s.holds chain (.stack ⟨i, hi⟩) +
      s.holds chain (.heap ⟨i, hi⟩) = (s.pcb.entries i).pages (chain i) := by
    intro s chain
    unfold PagePool.holds PcbEntry.pages
    by_cases hocc : (s.pcb.entries i).occupied = 0
    · simp [hocc]
    · simp [hocc]
  refine ⟨hheaps, ?_, h.table, h.place, ?_, h.balanced.nodup⟩
  · intro j hj hocc
    by_cases hji : j = i
    · subst hji
      rw [Function.update_self]
      exact hunused hocc
    · rw [Function.update_of_ne hji]
      rw [hentries j hji] at hocc
      exact h.unused j hj hocc
  · rw [← h.balanced.total]
    apply total_transfer {.free, .stack ⟨i, hi⟩, .heap ⟨i, hi⟩}
    · intro k hk
      simp only [Finset.mem_insert, Finset.mem_singleton, not_or] at hk
      cases k with
      | free => exact absurd rfl hk.1
      | stack j =>
        have hj : j.val ≠ i := fun heq => hk.2.1 (by simp [← heq])
        simp only [PagePool.holds, hentries _ hj]
      | heap j =>
        have hj : j.val ≠ i := fun heq => hk.2.2 (by simp [← heq])
        simp only [PagePool.holds, Function.update_of_ne hj]
      | file | reserved => rfl
    · rw [Finset.sum_insert (by simp), Finset.sum_pair (by simp), Finset.sum_insert (by simp),
        Finset.sum_pair (by simp), hof, hof, Function.update_self]
      exact hpages

/-- An entry that a creation took, whether the creation went through or not. -/
theorem claimed (h : PoolInv s chain) {e : PcbEntry} {stack : PageStack} {mem : Memory}
    (hindex : Machine.freeEntry s.pcb < s.pcb.maxProcesses.toNat) (hoccupied : e.occupied ≠ 0)
    (hstack : e.stackPage = page) (hheap : e.heapPage = NULL)
    (hcons : s.pages.free = [page] ++ stack.free) (hready : stack.initialized = true)
    (hkeep : s.KeepsHeaders mem) :
    PoolInv (s.created ⟨mem, stack, s.withNewProcess (Machine.freeEntry s.pcb) e⟩)
      (Function.update chain (Machine.freeEntry s.pcb) []) := by
  have hi : Machine.freeEntry s.pcb < pcbEntries := h.processes.toNat_maxProcesses ▸ hindex
  have hheaps := h.processes.claimed hi hoccupied hstack hheap hcons hready hkeep
  have hentry := Machine.withNewProcess_entries_self s.toMachine (Machine.freeEntry s.pcb) e
  have hbefore := Machine.freeEntry_unoccupied hindex
  have haccount : s.account ⟨mem, stack, s.withNewProcess (Machine.freeEntry s.pcb) e⟩ [] =
      [page] := by
    rw [Machine.account_take h.exclusive hcons, List.append_nil]
  unfold PagePool.created
  rw [if_pos hindex, haccount]
  apply h.withHeaps hi hheaps
  · intro j hj
    exact Pcb.setProcess_ne _ _ _ hj
  · exact fun _ => rfl
  · simp only [hentry]
    unfold PcbEntry.pages
    rw [if_neg hoccupied, if_pos hbefore, h.unused _ hi hbefore, hstack, hcons,
      Multiset.coe_nil, add_zero, Multiset.coe_add]
    exact Multiset.coe_eq_coe.mpr List.perm_append_comm

theorem createProcess (h : PoolInv s chain) (hfree : s.pages.free ≠ []) {a : ProcessParams}
    {r : UInt64} {m' : Machine} (hcreate : s.createProcess a = some (r, m'))
    (hkeep : s.KeepsHeaders m'.mem) : ∃ chain', PoolInv (s.created m') chain' := by
  obtain ⟨page, stack, hpop, hcons, hready⟩ := Machine.pop_of_free h.exclusive hfree
  have hcons' : s.pages.free = [page] ++ stack.free := hcons
  have hpool : page ∈ initialPages := h.exclusive.fromPool page (by simp [hcons])
  cases Machine.createProcess_created hcreate with
  | noPcb hnull => exact absurd hnull h.processes.pcb
  -- no entry is free
  | noEntry _ hfull =>
    unfold PagePool.created
    rw [if_neg (by rw [hfull]; exact Nat.lt_irrefl _)]
    exact ⟨chain, h⟩
  -- a page is free
  | noPage index _ _ _ hnull =>
    rw [Machine.stackPageFor, hpop] at hnull
    exact absurd (hnull ▸ hpool) NULL_not_mem_initialPages
  -- the entry and its page stay, although there is no process
  | noArguments index _ hindex hlt _ _ =>
    subst hindex
    rw [Machine.stackPageFor, hpop] at hkeep ⊢
    have hi : Machine.freeEntry s.pcb < pcbEntries := h.processes.toNat_maxProcesses ▸ hlt
    have hbefore := h.unused _ hi (Machine.freeEntry_unoccupied hlt)
    have hheap : (s.pcb.entries (Machine.freeEntry s.pcb)).heapPage = NULL := by
      have hlinked := h.processes.linked _ hi
      rw [hbefore] at hlinked
      exact hlinked
    refine ⟨_, h.claimed hlt ?_ rfl hheap hcons' hready hkeep⟩
    show (1 : UInt64) ≠ 0
    decide
  | ok index mem sp _ hindex hlt =>
    subst hindex
    rw [Machine.createdEntry, Machine.stackPageFor, hpop] at *
    refine ⟨_, h.claimed hlt ?_ rfl rfl hcons' hready hkeep⟩
    show (1 : UInt64) ≠ 0
    decide

theorem malloc (h : PoolInv s chain) (hfree : s.pages.free ≠ []) {k : UInt64} {n : Int64}
    (hlive : s.Live k) {heaps' : Heaps} (hstep : heaps.step s.toHeaps (.malloc k n) heaps') :
    ∃ chain', PoolInv ⟨heaps', s.files, s.reserved⟩ chain' := by
  obtain ⟨hk, p, m', hmalloc, rfl⟩ := hstep
  have hi := h.processes.toNat_lt hk
  rcases h.processes.malloc_cases hfree hk n with
    ⟨-, hnull⟩ | ⟨-, taken, target, start, m'', heq, hne, ha⟩
  · obtain ⟨rfl, rfl⟩ := Prod.mk.inj (Option.some.inj (hnull.symm.trans hmalloc))
    have hnone : s.pages.free = [] ++ s.pages.free := rfl
    have hsame : s.account s.toMachine (s.held k.toNat) = s.held k.toNat :=
      Machine.account_take (h.processes.exclusive _ hi) hnone
    rw [hsame, Function.update_eq_self, if_pos rfl]
    exact ⟨chain, h⟩
  · obtain ⟨rfl, rfl⟩ := Prod.mk.inj (Option.some.inj (heq.symm.trans hmalloc))
    obtain ⟨head, hpcb⟩ := ha.entry
    have hentry : m''.pcb.entries k.toNat = { s.pcb.entries k.toNat with heapPage := head } := by
      rw [hpcb, Pcb.modifyProcess_entries, if_pos rfl]
    rw [if_neg hne]
    refine ⟨_, h.withHeaps hi (h.processes.malloc hi ha) ?_ ?_ ?_⟩
    · intro j hj
      rw [hpcb, Pcb.modifyProcess_entries, if_neg hj]
    · intro hocc
      rw [hentry] at hocc
      exact absurd hocc hlive.2
    -- what was taken is in the heap now
    · rw [hentry, HeapsInv.pages_heapPage, ha.free]
      have hperm := HeapsInv.pages_append (s.pcb.entries k.toNat) (chain k.toNat) taken
      rw [Multiset.coe_eq_coe.mpr hperm, ← Multiset.coe_add, ← Multiset.coe_add,
        add_left_comm, add_assoc]

theorem destroyProcess (h : PoolInv s chain) (hfree : s.pages.free ≠ []) {k : UInt64}
    {heaps' : Heaps} (hstep : heaps.step s.toHeaps (.destroyProcess k) heaps') :
    ∃ chain', PoolInv ⟨heaps', s.files, s.reserved⟩ chain' := by
  obtain ⟨hlive, m', hdestroy, rfl⟩ := hstep
  have hi := h.processes.toNat_lt hlive.1
  obtain ⟨hback, hheaps⟩ := h.processes.destroyProcess hlive hfree hdestroy
  rw [h.processes.destroyProcess_eq hlive.1] at hdestroy
  obtain rfl := (Prod.mk.inj (Option.some.inj hdestroy)).2
  refine ⟨_, h.withHeaps hi hheaps ?_ (fun _ => rfl) ?_⟩
  · intro j hj
    exact Pcb.setProcess_ne _ _ _ hj
  · have hold : (s.pcb.entries k.toNat).pages (chain k.toNat) =
        (s.pcb.process k).stackPage :: chain k.toNat := if_neg hlive.2
    have hnew : ((s.pcb.setProcess k.toNat .zero).entries k.toNat).pages [] = [] := by
      rw [Pcb.setProcess_self]
      rfl
    rw [hold, hnew, Multiset.coe_nil, add_zero, Multiset.coe_add]
    apply Multiset.coe_eq_coe.mpr
    apply (List.Perm.of_eq hback).trans
    exact ((List.reverse_perm _).append_right _).trans List.perm_append_comm

end PoolInv

/-! ### All runs -/

/-- From the start no page is missing. -/
theorem poolInv_init {s : PagePool} (h : pagePool.init s) : PoolInv s fun _ => [] := by
  obtain ⟨hheaps, hfiles, o, mem, entries, ho, hconserved, hboot, hreserved⟩ := h
  have hinv := heapsInv_init hheaps
  obtain ⟨-, -, -, hzero⟩ := initializePCB_ok hboot
  have hexcl := exclusive_pop (exclusive_reachable ho) NULL
  have hlen := (hexcl.conserved_iff).mp (conserved_pop (exclusive_reachable ho) hconserved NULL)
  have hpages : s.pages = (o.pop NULL).stack := initializePCB_pages hboot
  have hnone : ∀ i, ¬ s.files.Named i := by
    intro i hn
    rw [hfiles] at hn
    exact hn rfl
  refine ⟨hinv, fun _ _ _ => rfl, ?_, fun i _ hn => absurd hn (hnone i), ?_,
    Multiset.coe_nodup.mpr initialPages_nodup⟩
  · rw [hfiles]
    exact FilesTable.inv_cleared
  · -- what is neither free nor handed out until now does not exist
    have hperm : (s.pages.free ++ s.reserved).Perm initialPages := by
      rw [hpages, hreserved]
      apply List.perm_append_comm.trans
      apply List.Subperm.perm_of_length_le
      · exact List.subperm_of_subset hexcl.distinct fun p hp => hexcl.fromPool p hp
      · rw [List.length_append, Nat.add_comm, hlen, initialPages, List.length_map,
          List.length_range]
    have hrest : ∀ k, k ≠ .free → k ≠ .reserved → s.holds (fun _ => []) k = 0 := by
      intro k hfree hres
      cases k with
      | free => exact absurd rfl hfree
      | reserved => exact absurd rfl hres
      | file i => simp [PagePool.holds, hnone]
      | stack i =>
        have hocc : (s.pcb.entries i).occupied = 0 := by
          rw [hzero i i.isLt]
          rfl
        simp [PagePool.holds, hocc]
      | heap i => rfl
    rw [← Multiset.coe_eq_coe.mpr hperm, ← Multiset.coe_add]
    unfold total
    rw [← Finset.sum_subset (Finset.subset_univ {PageOwner.free, .reserved}),
      Finset.sum_pair (by decide)]
    · rfl
    · intro k _ hk
      simp only [Finset.mem_insert, Finset.mem_singleton, not_or] at hk
      exact hrest k hk.1 hk.2

/-- Every step keeps the balance. -/
theorem poolInv_step {s s' : PagePool} {action : PoolAction} {chain : Nat → List Addr}
    (h : PoolInv s chain) (hleft : PagesLeft s action) (hstep : pagePool.step s action s') :
    ∃ chain', PoolInv s' chain' := by
  cases action with
  | createProcess a =>
    obtain ⟨r, m', hcreate, -, hkeep, rfl⟩ := hstep
    exact h.createProcess hleft hcreate hkeep
  | malloc k n =>
    obtain ⟨hlive, hstep, hfiles, hreserved⟩ := hstep
    obtain ⟨chain', hinv⟩ := h.malloc hleft hlive hstep
    rw [← hfiles, ← hreserved] at hinv
    exact ⟨chain', hinv⟩
  | destroyProcess k =>
    obtain ⟨hstep, hfiles, hreserved⟩ := hstep
    obtain ⟨chain', hinv⟩ := h.destroyProcess hleft hstep
    rw [← hfiles, ← hreserved] at hinv
    exact ⟨chain', hinv⟩
  | write mem =>
    obtain ⟨hkeep, rfl⟩ := hstep
    exact ⟨chain, h.processes.write hkeep, h.unused, h.table, h.place, h.balanced⟩
  | createBasicFileWithName name =>
    obtain rfl := hstep
    exact ⟨chain, h.createBasicFileWithName hleft name⟩
  | destroyBasicFile f =>
    obtain ⟨hf, hn, rfl⟩ := hstep
    exact ⟨chain, h.destroyBasicFile hleft hf hn⟩
  | pop =>
    obtain rfl := hstep
    exact ⟨chain, h.pop hleft⟩
  | push page =>
    obtain ⟨hpage, rfl⟩ := hstep
    exact ⟨chain, h.push hleft hpage⟩

theorem poolInv_reachable {s : PagePool} (h : (pagePool.restrict PagesLeft).Reachable s) :
    ∃ chain, PoolInv s chain := by
  apply h.invariant fun s => ∃ chain, PoolInv s chain
  · exact fun s hinit => ⟨_, poolInv_init hinit⟩
  · rintro s action s' ⟨chain, hinv⟩ ⟨hleft, hstep⟩
    exact poolInv_step hinv hleft hstep

/-! ### Memory in numbers -/

/-- The owners, kind after kind. -/
def PageOwner.kinds :
    PageOwner ≃ (Unit ⊕ Unit) ⊕ Fin maxFiles ⊕ Fin pcbEntries ⊕ Fin pcbEntries where
  toFun
    | .free => .inl (.inl ())
    | .reserved => .inl (.inr ())
    | .file i => .inr (.inl i)
    | .stack i => .inr (.inr (.inl i))
    | .heap i => .inr (.inr (.inr i))
  invFun
    | .inl (.inl ()) => .free
    | .inl (.inr ()) => .reserved
    | .inr (.inl i) => .file i
    | .inr (.inr (.inl i)) => .stack i
    | .inr (.inr (.inr i)) => .heap i
  left_inv k := by cases k <;> rfl
  right_inv k := by rcases k with (⟨⟩ | ⟨⟩) | (_ | (_ | _)) <;> rfl

theorem sum_owners (f : PageOwner → Nat) : ∑ k, f k = f .free + f .reserved +
    (∑ i : Fin maxFiles, f (.file i) +
      (∑ i : Fin pcbEntries, f (.stack i) + ∑ i : Fin pcbEntries, f (.heap i))) := by
  rw [← Equiv.sum_comp PageOwner.kinds.symm, Fintype.sum_sum_type, Fintype.sum_sum_type,
    Fintype.sum_sum_type, Fintype.sum_sum_type, Fintype.sum_unique, Fintype.sum_unique]
  rfl

/-- The entries that are taken. -/
def Machine.entriesUsed (m : Machine) : Finset Nat :=
  (Finset.range pcbEntries).filter fun i => (m.pcb.entries i).occupied ≠ 0

namespace PoolInv

variable {s : PagePool} {chain : Nat → List Addr}

theorem getProcessMemoryAmount_eq (h : PoolInv s chain) {k : UInt64} (hk : s.Live k) :
    s.getProcessMemoryAmount k = some (PAGE_SIZE * (1 + UInt64.ofNat (chain k.toNat).length)) := by
  have hi := h.processes.toNat_lt hk.1
  have hcount : Machine.recursiveGetProcessMemoryAmount s.mem (s.pcb.process k).heapPage
      (walkBound + 1) = some (UInt64.ofNat (chain k.toNat).length) :=
    Machine.recursiveGetProcessMemoryAmount_chain (h.processes.linked _ hi)
      (Machine.length_lt_walkBound (h.processes.exclusive_chain hi))
  simp only [Machine.getProcessMemoryAmount, h.processes.badIndex_eq hk.1, Bool.false_eq_true,
    if_false, hcount]

/-- Nothing wraps around: a heap has at most as many pages as the pool. -/
theorem toNat_amount (h : PoolInv s chain) {i : Nat} (hi : i < pcbEntries) :
    (PAGE_SIZE * (1 + UInt64.ofNat (chain i).length)).toNat =
      PAGE_SIZE.toNat * (1 + (chain i).length) := by
  have hle : (chain i).length + (STACK_SIZE - s.pages.stackTop.toNat) ≤ STACK_SIZE :=
    (h.processes.exclusive_chain hi).length_le
  have hsmall : (chain i).length ≤ 32768 := (Nat.le_add_right _ _).trans hle
  have hone : UInt64.ofNat 1 = 1 := rfl
  have hsize : PAGE_SIZE.toNat = 0x2000 := by decide
  rw [← hone, ← UInt64.ofNat_add, UInt64.toNat_mul,
    UInt64.toNat_ofNat_of_lt' (by show _ < 2 ^ 64; omega), hsize]
  exact Nat.mod_eq_of_lt (by omega)

/-- The pages of all owners, counted. -/
theorem count_pages (h : PoolInv s chain) : s.pages.free.length + s.reserved.length +
    s.files.numFiles.toNat + ∑ i ∈ s.entriesUsed, (1 + (chain i).length) = STACK_SIZE := by
  have hcard := h.balanced.card
  have hfiles : ∑ i : Fin maxFiles, (s.holds chain (.file i)).card = s.files.numFiles.toNat := by
    have hone : ∀ i : Fin maxFiles, (s.holds chain (.file i)).card =
        if s.files.Named i then 1 else 0 := by
      intro i
      by_cases hn : s.files.Named i <;> simp [PagePool.holds, hn]
    rw [h.table.numFiles, Counting.count, Finset.card_filter, Finset.sum_range]
    exact Finset.sum_congr rfl fun i _ => hone i
  have hprocesses : ∑ i : Fin pcbEntries, (s.holds chain (.stack i)).card +
      ∑ i : Fin pcbEntries, (s.holds chain (.heap i)).card =
        ∑ i ∈ s.entriesUsed, (1 + (chain i).length) := by
    have hone : ∀ i : Fin pcbEntries, (s.holds chain (.stack i)).card +
        (s.holds chain (.heap i)).card =
          if (s.pcb.entries i).occupied ≠ 0 then 1 + (chain i).length else 0 := by
      intro i
      by_cases hocc : (s.pcb.entries i).occupied = 0
      · simp [PagePool.holds, hocc, h.unused i i.isLt hocc]
      · simp [PagePool.holds, hocc]
    rw [← Finset.sum_add_distrib, Machine.entriesUsed, Finset.sum_filter, Finset.sum_range]
    exact Finset.sum_congr rfl fun i _ => hone i
  have hpool : (↑initialPages : Multiset Addr).card = STACK_SIZE := by
    rw [Multiset.coe_card, initialPages, List.length_map, List.length_range]
  rw [sum_owners, hfiles, hprocesses, hpool] at hcard
  rw [← hcard, ← Nat.add_assoc]
  rfl

end PoolInv

/-- **Every page has one owner.**  In every run of the kernel's calls, whatever they
    answer, in which the frames of new processes fit in their pages, each page of the pool
    can be popped, or belongs to exactly one of the rest of the kernel, a file, the stack of
    a process and its heap; nothing else belongs to anybody.  So the memory of the
    processes, as `getProcessMemoryAmount` reports it, and the other pages are all of the
    pool. -/
theorem pages_owned {s : PagePool} (h : (pagePool.restrict PagesLeft).Reachable s) :
    (∀ page, page ∈ initialPages ↔ ∃! owner, s.Owns page owner) ∧ s.pages.free.Nodup ∧
    ∃ amount : Nat → UInt64,
      (∀ PCBIndex, s.Live PCBIndex →
        s.getProcessMemoryAmount PCBIndex = some (amount PCBIndex.toNat)) ∧
      PAGE_SIZE.toNat *
        (s.pages.free.length + s.reserved.length + s.files.numFiles.toNat) +
          ∑ i ∈ s.entriesUsed, (amount i).toNat = PAGE_SIZE.toNat * STACK_SIZE := by
  obtain ⟨chain, hinv⟩ := poolInv_reachable h
  refine ⟨?_, ?_, fun i => PAGE_SIZE * (1 + UInt64.ofNat (chain i).length),
    fun k hk => hinv.getProcessMemoryAmount_eq hk, ?_⟩
  · intro page
    rw [← Multiset.mem_coe, hinv.balanced.mem_pool_iff]
    exact existsUnique_congr fun owner => hinv.mem_holds_iff owner
  · exact Multiset.coe_nodup.mp (hinv.balanced.holds_nodup .free)
  · have hamount : ∀ i ∈ s.entriesUsed,
        (PAGE_SIZE * (1 + UInt64.ofNat (chain i).length)).toNat =
          PAGE_SIZE.toNat * (1 + (chain i).length) := by
      intro i hi
      exact hinv.toNat_amount (Finset.mem_range.mp (Finset.mem_filter.mp hi).1)
    rw [Finset.sum_congr rfl hamount, ← Finset.mul_sum, ← Nat.mul_add, hinv.count_pages]

/-- A process and a file. -/
theorem pages_owned_process_file : ∃ s, (pagePool.restrict PagesLeft).Reachable s ∧
    s.Live 0 ∧ s.Owns (pageAddress 1) (.stack ⟨0, by decide⟩) ∧
    s.Owns (pageAddress 2) (.file ⟨0, by decide⟩) ∧
    (∃! owner, s.Owns (pageAddress 2) owner) ∧ s.pages.free.Nodup := by
  obtain ⟨m', hcreate, hpages, hmax, hoccupied, -, hstack⟩ := Machine.fresh_createProcess
  let s₀ : PagePool := ⟨⟨Machine.fresh, fun _ => [], []⟩, .cleared,
    (Ownership.pop ⟨bss.initializePageStack, []⟩ NULL).outstanding⟩
  have hinit : pagePool.init s₀ := ⟨heaps_fresh, rfl, ⟨bss.initializePageStack, []⟩, fun _ => 0,
    fun _ => .zero, .init ⟨rfl, rfl⟩, conserved_init ⟨rfl, rfl⟩, rfl, rfl⟩
  have hfree : s₀.pages.free ≠ [] := by
    apply free_ne_nil (n := 0)
    rw [length_free]
    decide
  have h₁ : (pagePool.restrict PagesLeft).Reachable (s₀.created m') :=
    .step (.createProcess ⟨0, NULL, NULL, 1, NULL⟩) (.init hinit)
      ⟨hfree, 0, m', hcreate, Machine.fresh_fits, keepsHeaders_init heaps_fresh _, rfl⟩
  have hindex : Machine.freeEntry s₀.pcb < s₀.pcb.maxProcesses.toNat := by decide
  obtain ⟨s₁, hs₁⟩ : ∃ s₁, s₁ = s₀.created m' := ⟨_, rfl⟩
  have hmachine : s₁.toMachine = m' ∧ s₁.files = .cleared := by
    rw [hs₁, PagePool.created, if_pos hindex]
    exact ⟨rfl, rfl⟩
  rw [← hs₁] at h₁
  -- the file gets the next page
  have hpop : s₁.pages.pop = (.popped 3, pageAddress 2) := by
    rw [hmachine.1, hpages]
    exact popped_pop (by decide) NULL
  have hpage : s₁.pages.pop.2 ≠ NULL := by
    rw [hpop]
    exact pageAddress_ne_null (by decide)
  have hacc : s₁.files.Accepts Filing.nameA := by
    rw [hmachine.2]
    exact Filing.accepts_of_names (by decide) (by decide) (by decide)
      (fun _ _ => (show CString.empty ≠ Filing.nameA by decide))
  have hleft : PagesLeft s₁ (.createBasicFileWithName (some Filing.nameA)) := by
    show 2 ≤ s₁.pages.free.length
    rw [hmachine.1, hpages, length_free]
    decide
  have h₂ : (pagePool.restrict PagesLeft).Reachable (s₁.withFiles
      (s₁.files.createBasicFileWithName s₁.pages (some Filing.nameA)).2) :=
    .step (.createBasicFileWithName (some Filing.nameA)) h₁ ⟨hleft, rfl⟩
  have hfile : s₁.files.createBasicFileWithName s₁.pages (some Filing.nameA) =
      (some 0, s₁.files.withFile 0 (FilesTable.newEntry Filing.nameA (pageAddress 2)),
        .popped 3) := by
    rw [FilesTable.createBasicFileWithName_eq, if_neg (by decide), if_neg hpage, if_pos hacc,
      hpop, hmachine.2]
    rfl
  rw [hfile] at h₂
  have howned := pages_owned h₂
  have hpool : pageAddress 2 ∈ initialPages :=
    List.mem_map.mpr ⟨2, List.mem_range.mpr (by decide), rfl⟩
  refine ⟨_, h₂, ⟨?_, ?_⟩, ⟨?_, ?_⟩, ⟨?_, rfl⟩, (howned.1 _).mp hpool, howned.2.1⟩
  · show 0 < s₁.pcb.maxProcesses
    rw [hmachine.1, hmax]
    decide
  · show (s₁.pcb.entries 0).occupied ≠ 0
    rw [hmachine.1, hoccupied]
    decide
  · show (s₁.pcb.entries 0).occupied ≠ 0
    rw [hmachine.1, hoccupied]
    decide
  · show pageAddress 1 = (s₁.pcb.entries 0).stackPage
    rw [hmachine.1, hstack]
  · exact (FilesTable.named_withFile (show Filing.nameA ≠ CString.empty by decide)).mpr (.inl rfl)

end TP2Kernel
