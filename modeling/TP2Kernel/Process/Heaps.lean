import TP2Kernel.Framework.Transition
import TP2Kernel.Process.Allocation
import TP2Kernel.Process.StackWrites

/-! # The heaps of all processes

    Processes come, allocate and go, and use their memory in between; other clients of the
    page allocator pop and push pages of their own.  Nobody writes the headers of the pages
    of a heap, and the frames of new processes fit in their pages.

    Two ghosts are kept: for each entry the pages that were popped for it and have not come
    back, and the blocks that `malloc` returned to the processes there are.
-/

namespace TP2Kernel

open Transition LinkedChain PageStack

/-- What `malloc` returned, and to which entry. -/
structure Block where
  owner : Nat
  start : Addr
  size : UInt64

/-- The bytes of one block all lie below those of the other. -/
def Block.Disjoint (b c : Block) : Prop :=
  b.start.toNat + b.size.toNat ≤ c.start.toNat ∨ c.start.toNat + c.size.toNat ≤ b.start.toNat

structure Heaps extends Machine where
  held : Nat → List Addr
  blocks : List Block

inductive HeapAction where
  | createProcess (a : ProcessParams)
  | malloc (PCBIndex : UInt64) (size : Int64)
  | destroyProcess (PCBIndex : UInt64)
  /-- The memory changes. -/
  | write (mem : Memory)
  /-- Another client pops a page. -/
  | pop
  /-- Another client pushes a page. -/
  | push (page : Addr)

namespace Machine

/-- In memory `mem` the pages of the heaps have the headers they had before. -/
def KeepsHeaders (m : Machine) (mem : Memory) : Prop :=
  ∀ i pages, i < m.pcb.maxProcesses.toNat → m.HeapChain i pages → ∀ page ∈ pages, ∀ k < 16,
    mem (page + UInt64.ofNat k) = m.mem (page + UInt64.ofNat k)

/-- Which pages are held after a call that led from `m` to `m'`: those that were held and
    those that were popped, less those that are free now. -/
def account (m m' : Machine) (held : List Addr) : List Addr :=
  (m.pages.free ++ held).filter fun page => page ∉ m'.pages.free

def Live (m : Machine) (PCBIndex : UInt64) : Prop :=
  PCBIndex < m.pcb.maxProcesses ∧ (m.pcb.process PCBIndex).occupied ≠ 0

end Machine

/-- Successful calls, in any order.  The entries are valid ones. -/
def heaps : System Heaps HeapAction where
  init := fun s => ∃ o mem entries, pageOwnership.Reachable o ∧
    Machine.initializePCB { mem := mem, pages := o.stack, pcb := .bss entries } =
      (0, s.toMachine) ∧ (∀ i, s.held i = []) ∧ s.blocks = []
  step := fun s action s' =>
    match action with
    | .createProcess a => ∃ index m', index < s.pcb.maxProcesses.toNat ∧
        s.createProcess a = some (UInt64.ofNat index, m') ∧ s.Fits a ∧ s.KeepsHeaders m'.mem ∧
        s' = { toMachine := m'
               held := Function.update s.held index (s.account m' [])
               blocks := s.blocks.filter fun b => b.owner ≠ index }
    | .malloc PCBIndex size => PCBIndex < s.pcb.maxProcesses ∧
        ∃ p m', s.malloc PCBIndex size = some (p, m') ∧
        s' = { toMachine := m'
               held := Function.update s.held PCBIndex.toNat
                (s.account m' (s.held PCBIndex.toNat))
               blocks := if p = NULL then s.blocks
                else ⟨PCBIndex.toNat, p, size.toUInt64⟩ :: s.blocks }
    | .destroyProcess PCBIndex => s.Live PCBIndex ∧
        ∃ m', s.destroyProcess PCBIndex = some (0, m') ∧
        s' = { toMachine := m'
               held := Function.update s.held PCBIndex.toNat
                (s.account m' (s.held PCBIndex.toNat))
               blocks := s.blocks.filter fun b => b.owner ≠ PCBIndex.toNat }
    | .write mem => s.KeepsHeaders mem ∧ s' = { s with mem := mem }
    | .pop => s' = { s with pages := (s.pages.pageManager .POP_PAGE NULL).1 }
    | .push page => page ∈ initialPages ∧ page ∉ s.pages.free ∧
        (∀ i < s.pcb.maxProcesses.toNat, page ∉ s.held i) ∧
        s' = { s with pages := (s.pages.pageManager .PUSH_PAGE page).1 }

/-- At least one page is free. -/
def PageFree (s : Heaps) (_ : HeapAction) : Prop := s.pages.free ≠ []

/-! ### The invariant -/

/-- The pages of an entry with these heap pages. -/
def PcbEntry.pages (e : PcbEntry) (heap : List Addr) : List Addr :=
  if e.occupied = 0 then heap else e.stackPage :: heap

/-- The block lies in the used part of the data of `page`. -/
def Block.In (b : Block) (m : Machine) (page : Addr) : Prop :=
  page.toNat + 16 ≤ b.start.toNat ∧ b.start.toNat + b.size.toNat ≤ page.toNat + (m.used page).toNat

/-- `chain i` are the pages of the heap of entry `i`. -/
structure HeapsInv (s : Heaps) (chain : Nat → List Addr) : Prop where
  pcb : s.pcb.pcb ≠ NULL
  maxProcesses : s.pcb.maxProcesses = UInt64.ofNat pcbEntries
  linked : ∀ i < pcbEntries, s.HeapChain i (chain i)
  held : ∀ i < pcbEntries, (s.held i).Perm ((s.pcb.entries i).pages (chain i))
  exclusive : ∀ i < pcbEntries, Exclusive ⟨s.pages, s.held i⟩
  apart : ∀ i j, i < pcbEntries → j < pcbEntries → i ≠ j → (s.held i).Disjoint (s.held j)
  used : ∀ i < pcbEntries, ∀ page ∈ chain i, 16 ≤ (s.used page).toNat ∧ (s.used page).toNat ≤ 0x2000
  inside : ∀ b ∈ s.blocks, b.owner < pcbEntries ∧ ∃ page ∈ chain b.owner, b.In s.toMachine page
  disjoint : s.blocks.Pairwise Block.Disjoint

/-! ### What a call accounts for -/

namespace Machine

variable {m m' : Machine} {held taken pages : List Addr}

theorem account_take (h : Exclusive ⟨m.pages, held⟩)
    (hfree : m.pages.free = taken ++ m'.pages.free) : m.account m' held = taken ++ held := by
  have hnd := h.distinct
  rw [hfree] at hnd
  have hheld : ∀ p ∈ held, p ∉ m'.pages.free := by
    intro p hp hfree'
    exact List.disjoint_of_nodup_append hnd hp (List.mem_append_right _ hfree')
  have htaken : ∀ p ∈ taken, p ∉ m'.pages.free := fun p hp hfree' =>
    List.disjoint_of_nodup_append (List.nodup_append.mp hnd).2.1 hp hfree'
  unfold account
  rw [hfree, List.filter_append, List.filter_append]
  -- what is gone from the stack is `taken`, and nothing held has come back
  have hold : (m'.pages.free.filter fun page => page ∉ m'.pages.free) = [] := by
    apply List.filter_eq_nil_iff.mpr
    intro p hp
    simpa using hp
  have htaken' : (taken.filter fun page => page ∉ m'.pages.free) = taken := by
    apply List.filter_eq_self.mpr
    intro p hp
    simpa using htaken p hp
  have hheld' : (held.filter fun page => page ∉ m'.pages.free) = held := by
    apply List.filter_eq_self.mpr
    intro p hp
    simpa using hheld p hp
  rw [hold, htaken', hheld', List.append_nil]

theorem account_give (hfree : m'.pages.free = pages ++ m.pages.free)
    (hheld : ∀ p ∈ held, p ∈ pages) : m.account m' held = [] := by
  apply List.filter_eq_nil_iff.mpr
  intro p hp
  rw [hfree]
  rcases List.mem_append.mp hp with hp | hp
  · simp [hp]
  · simp [hheld p hp]

end Machine

/-! ### One step -/

namespace HeapsInv

variable {s : Heaps} {chain : Nat → List Addr} {i j : Nat} {page : Addr}

theorem mem_held (h : HeapsInv s chain) (hi : i < pcbEntries) (hpage : page ∈ chain i) :
    page ∈ s.held i := by
  apply (h.held i hi).mem_iff.mpr
  unfold PcbEntry.pages
  split
  · exact hpage
  · exact List.mem_cons_of_mem _ hpage

theorem pool (h : HeapsInv s chain) (hi : i < pcbEntries) (hpage : page ∈ chain i) :
    page ∈ initialPages :=
  (h.exclusive i hi).fromPool page (List.mem_append_left _ (h.mem_held hi hpage))

/-- The pages of the heap alone. -/
theorem exclusive_chain (h : HeapsInv s chain) (hi : i < pcbEntries) :
    Exclusive ⟨s.pages, chain i⟩ := by
  have hexcl := (h.exclusive i hi).perm (h.held i hi).symm
  unfold PcbEntry.pages at hexcl
  split at hexcl
  · exact hexcl
  · exact hexcl.sublist (List.sublist_cons_self _ _)

theorem toNat_maxProcesses (h : HeapsInv s chain) : s.pcb.maxProcesses.toNat = pcbEntries := by
  rw [h.maxProcesses]
  rfl

/-- A call on behalf of entry `i` that leaves the other entries and the pages of their heaps
    alone. -/
theorem update (h : HeapsInv s chain) (hi : i < pcbEntries) {m' : Machine}
    {held' heap : List Addr} {blocks : List Block}
    (hpcb : m'.pcb.pcb = s.pcb.pcb) (hmax : m'.pcb.maxProcesses = s.pcb.maxProcesses)
    (hentries : ∀ j ≠ i, m'.pcb.entries j = s.pcb.entries j)
    (hpages : ∀ j, j < pcbEntries → j ≠ i → ∀ page ∈ chain j,
      m'.mem.readWord page = s.mem.readWord page ∧ m'.used page = s.used page)
    (hlinked : m'.HeapChain i heap) (hheld : held'.Perm ((m'.pcb.entries i).pages heap))
    (hexclusive : Exclusive ⟨m'.pages, held'⟩)
    (hothers : ∀ j, j < pcbEntries → j ≠ i →
      Exclusive ⟨m'.pages, s.held j⟩ ∧ held'.Disjoint (s.held j))
    (hused : ∀ page ∈ heap, 16 ≤ (m'.used page).toNat ∧ (m'.used page).toNat ≤ 0x2000)
    (hinside : ∀ b ∈ blocks, (b.owner = i ∧ ∃ page ∈ heap, b.In m' page) ∨
      (b.owner ≠ i ∧ b ∈ s.blocks))
    (hdisjoint : blocks.Pairwise Block.Disjoint) :
    HeapsInv ⟨m', Function.update s.held i held', blocks⟩ (Function.update chain i heap) := by
  have hheld' : ∀ j ≠ i, Function.update s.held i held' j = s.held j :=
    fun j hj => Function.update_of_ne hj _ _
  have hchain' : ∀ j ≠ i, Function.update chain i heap j = chain j :=
    fun j hj => Function.update_of_ne hj _ _
  refine ⟨hpcb ▸ h.pcb, hmax.trans h.maxProcesses, ?_, ?_, ?_, ?_, ?_, ?_, hdisjoint⟩
  -- the chains
  · intro j hj
    by_cases hji : j = i
    · subst hji
      rw [Function.update_self]
      exact hlinked
    · rw [hchain' j hji]
      show Chain m'.mem.readWord NULL (m'.pcb.entries j).heapPage (chain j)
      rw [hentries j hji]
      exact Chain.congr (h.linked j hj) fun page hpage => (hpages j hj hji page hpage).1
  -- the pages taken and not given back are those of the entry
  · intro j hj
    by_cases hji : j = i
    · subst hji
      simp only [Function.update_self]
      exact hheld
    · simp only [hheld' j hji, hchain' j hji, hentries j hji]
      exact h.held j hj
  -- they are nobody else's
  · intro j hj
    by_cases hji : j = i
    · subst hji
      simp only [Function.update_self]
      exact hexclusive
    · simp only [hheld' j hji]
      exact (hothers j hj hji).1
  · intro j k hj hk hjk
    by_cases hji : j = i
    · subst hji
      simp only [Function.update_self, hheld' k (Ne.symm hjk)]
      exact (hothers k hk (Ne.symm hjk)).2
    · by_cases hki : k = i
      · subst hki
        simp only [Function.update_self, hheld' j hji]
        exact (hothers j hj hji).2.symm
      · simp only [hheld' j hji, hheld' k hki]
        exact h.apart j k hj hk hjk
  -- the counters
  · intro j hj page hpage
    by_cases hji : j = i
    · subst hji
      rw [Function.update_self] at hpage
      exact hused page hpage
    · rw [hchain' j hji] at hpage
      show 16 ≤ (m'.used page).toNat ∧ (m'.used page).toNat ≤ 0x2000
      rw [(hpages j hj hji page hpage).2]
      exact h.used j hj page hpage
  -- the blocks
  · intro b hb
    rcases hinside b hb with ⟨howner, page, hpage, hin⟩ | ⟨howner, hb⟩
    · refine ⟨howner ▸ hi, page, ?_, hin⟩
      rw [howner, Function.update_self]
      exact hpage
    · obtain ⟨hlt, page, hpage, hin⟩ := h.inside b hb
      refine ⟨hlt, page, ?_, ?_⟩
      · rw [hchain' b.owner howner]
        exact hpage
      · unfold Block.In
        rw [(hpages b.owner hlt howner page hpage).2]
        exact hin

/-! ### `malloc` -/

theorem disjoint_of_pages {b c : Block} {m m' : Machine} {p q : Addr} (hp : p ∈ initialPages)
    (hq : q ∈ initialPages) (hpq : p ≠ q) (hb : b.In m p) (hc : c.In m' q)
    (hused : (m.used p).toNat ≤ 0x2000) (hused' : (m'.used q).toNat ≤ 0x2000) :
    b.Disjoint c := by
  have hapart := initialPages_apart hp hq hpq
  unfold Block.In at hb hc
  unfold Block.Disjoint
  omega

theorem pages_heapPage (e : PcbEntry) (head : Addr) (heap : List Addr) :
    PcbEntry.pages { e with heapPage := head } heap = e.pages heap := rfl

theorem pages_append (e : PcbEntry) (heap taken : List Addr) :
    (e.pages (heap ++ taken)).Perm (taken ++ e.pages heap) := by
  unfold PcbEntry.pages
  split
  · exact List.perm_append_comm
  · exact (List.perm_append_comm.cons _).trans List.perm_middle.symm

variable {size : UInt64} {taken : List Addr} {target : Addr} {start : UInt64} {m' : Machine}

/-- What `malloc` takes is new to every entry. -/
theorem taken_new (h : HeapsInv s chain) (ha : s.Allocated i (chain i) size taken target start m')
    (hj : j < pcbEntries) : Exclusive ⟨m'.pages, taken ++ s.held j⟩ :=
  exclusive_take (h.exclusive j hj) ha.free ha.ready

/-- The block that `malloc` returns. -/
theorem block_in (h : HeapsInv s chain) (hi : i < pcbEntries)
    (ha : s.Allocated i (chain i) size taken target start m') :
    target ∈ initialPages ∧ (m'.used target).toNat = start.toNat + size.toNat ∧
    (target + start).toNat = target.toNat + start.toNat ∧
    (⟨i, target + start, size⟩ : Block).In m' target := by
  have hpool : target ∈ initialPages := by
    rcases List.mem_append.mp ha.inHeap with hmem | hmem
    · exact h.pool hi hmem
    · exact (h.taken_new ha hi).fromPool target
        (List.mem_append_left _ (List.mem_append_left _ hmem))
  -- a page lies far below the end of memory, so nothing wraps
  have hbounds := initialPages_bounds hpool
  have hheader := ha.header
  have hfits := ha.fits
  have hused : (m'.used target).toNat = start.toNat + size.toNat := by
    rw [ha.used, UInt64.toNat_add]
    exact Nat.mod_eq_of_lt (by omega)
  have hstart : (target + start).toNat = target.toNat + start.toNat := by
    rw [UInt64.toNat_add]
    exact Nat.mod_eq_of_lt (by omega)
  refine ⟨hpool, hused, hstart, ?_⟩
  unfold Block.In
  simp only [hstart, hused]
  omega

/-- Every block there is lies below the new one or in another page. -/
theorem block_new (h : HeapsInv s chain) (hi : i < pcbEntries)
    (ha : s.Allocated i (chain i) size taken target start m') {b : Block} (hb : b ∈ s.blocks) :
    (⟨i, target + start, size⟩ : Block).Disjoint b := by
  obtain ⟨hpool, hused, hstart, hin⟩ := h.block_in hi ha
  obtain ⟨howner, page, hpage, hbin⟩ := h.inside b hb
  have hle := (h.used b.owner howner page hpage).2
  by_cases hpt : page = target
  · -- the page was there before, and in use up to `start`
    have hmem : target ∈ chain i := by
      by_cases hbi : b.owner = i
      · rw [← hbi, ← hpt]
        exact hpage
      · rcases List.mem_append.mp ha.inHeap with hmem | hmem
        · exact hmem
        · have hnd := (List.nodup_append.mp (h.taken_new ha howner).distinct).1
          exact absurd (hpt ▸ h.mem_held howner hpage) (List.disjoint_of_nodup_append hnd hmem)
    have hbefore := ha.usedBefore hmem
    unfold Block.In at hbin
    rw [hpt, ← hbefore] at hbin
    right
    show b.start.toNat + b.size.toNat ≤ (target + start).toNat
    rw [hstart]
    exact hbin.2
  · apply disjoint_of_pages hpool (h.pool howner hpage) (Ne.symm hpt) hin hbin _ hle
    rw [hused]
    exact ha.fits

theorem badIndex_eq (h : HeapsInv s chain) {k : UInt64} (hk : k < s.pcb.maxProcesses) :
    s.pcb.badIndex k = false := by
  have hle : ¬ k > s.pcb.maxProcesses := by
    intro hgt
    have h₁ := UInt64.lt_iff_toNat_lt.mp hgt
    have h₂ := UInt64.lt_iff_toNat_lt.mp hk
    omega
  simp [Pcb.badIndex, h.pcb, hle]

theorem toNat_lt (h : HeapsInv s chain) {k : UInt64} (hk : k < s.pcb.maxProcesses) :
    k.toNat < pcbEntries := by
  rw [← h.toNat_maxProcesses]
  exact UInt64.lt_iff_toNat_lt.mp hk

/-- `malloc` refuses the size or finds room. -/
theorem malloc_cases (h : HeapsInv s chain) (hfree : s.pages.free ≠ []) {k : UInt64}
    (hk : k < s.pcb.maxProcesses) (n : Int64) :
    ((n.toInt < 0 ∨ 0x2000 - 16 < n.toInt) ∧ s.malloc k n = some (NULL, s.toMachine)) ∨
    (¬ (n.toInt < 0 ∨ 0x2000 - 16 < n.toInt) ∧ ∃ taken target start m',
      s.malloc k n = some (target + start, m') ∧ target + start ≠ NULL ∧
      s.Allocated k.toNat (chain k.toNat) n.toUInt64 taken target start m') := by
  have hi := h.toNat_lt hk
  by_cases hsize : n < 0 ∨ n.toUInt64 > PAGE_SIZE - pageHeaderSize
  · exact Or.inl ⟨(Machine.size_refused_iff n).mp hsize, Machine.malloc_refused k hsize⟩
  · have hle : n.toUInt64 ≤ PAGE_SIZE - pageHeaderSize := by
      rw [not_or] at hsize
      exact UInt64.not_lt.mp hsize.2
    obtain ⟨taken, target, start, m', heq, halloc⟩ := Machine.mallocRecursive_allocated
      (h.linked k.toNat hi) (h.exclusive_chain hi) hfree (h.used k.toNat hi) hle
    refine Or.inr ⟨fun hno => hsize ((Machine.size_refused_iff n).mpr hno), taken, target, start,
      m', (Machine.malloc_accepted (h.badIndex_eq hk) hsize).trans heq, ?_, halloc⟩
    -- a block is not `NULL`, for its page is one of the pool
    intro hnull
    obtain ⟨hpool, -, hstart, -⟩ := h.block_in hi halloc
    have hbounds := initialPages_bounds hpool
    rw [hnull] at hstart
    have hzero : NULL.toNat = 0 := rfl
    omega

/-- A successful `malloc` keeps the invariant. -/
theorem malloc (h : HeapsInv s chain) (hi : i < pcbEntries)
    (ha : s.Allocated i (chain i) size taken target start m') :
    HeapsInv ⟨m', Function.update s.held i (s.account m' (s.held i)),
      ⟨i, target + start, size⟩ :: s.blocks⟩ (Function.update chain i (chain i ++ taken)) := by
  obtain ⟨hpool, hused, -, hin⟩ := h.block_in hi ha
  obtain ⟨head, hpcb⟩ := ha.entry
  have hheld : s.account m' (s.held i) = taken ++ s.held i :=
    Machine.account_take (h.exclusive i hi) ha.free
  have hentry : m'.pcb.entries i = { s.pcb.entries i with heapPage := head } := by
    rw [hpcb, Pcb.modifyProcess_entries, if_pos rfl]
  have htakenPool : ∀ p ∈ taken, p ∈ initialPages := fun p hp =>
    (h.taken_new ha hi).fromPool p (List.mem_append_left _ (List.mem_append_left _ hp))
  -- a page of another heap is none of those that changed
  have hother : ∀ j, j < pcbEntries → j ≠ i → ∀ page ∈ chain j, page ∉ chain i ++ taken := by
    intro j hj hji page hpage hmem
    have hheldj := h.mem_held hj hpage
    rcases List.mem_append.mp hmem with hmem | hmem
    · exact h.apart j i hj hi hji hheldj (h.mem_held hi hmem)
    · have hnd := (List.nodup_append.mp (h.taken_new ha hj).distinct).1
      exact List.disjoint_of_nodup_append hnd hmem hheldj
  rw [hheld]
  apply h.update hi
  · rw [hpcb]
    rfl
  · rw [hpcb]
    rfl
  · intro j hj
    rw [hpcb, Pcb.modifyProcess_entries, if_neg hj]
  · intro j hj hji page hpage
    have hnot := hother j hj hji page hpage
    refine ⟨ha.linksElsewhere page (h.pool hj hpage) hnot,
      ha.usedElsewhere page (h.pool hj hpage) ?_⟩
    rintro rfl
    exact hnot ha.inHeap
  · exact ha.chain
  · rw [hentry, pages_heapPage]
    exact ((h.held i hi).append_left taken).trans (pages_append _ _ _).symm
  · exact h.taken_new ha hi
  · intro j hj hji
    have hexcl := h.taken_new ha hj
    refine ⟨hexcl.sublist (List.sublist_append_right _ _), ?_⟩
    intro page hpage hmem
    rcases List.mem_append.mp hpage with hpage | hpage
    · have hnd := (List.nodup_append.mp hexcl.distinct).1
      exact List.disjoint_of_nodup_append hnd hpage hmem
    · exact h.apart i j hi hj (Ne.symm hji) hpage hmem
  · intro page hpage
    by_cases hpt : page = target
    · rw [hpt, hused]
      have hheader := ha.header
      have hfits := ha.fits
      omega
    · rcases List.mem_append.mp hpage with hpage | hpage
      · rw [ha.usedElsewhere page (h.pool hi hpage) hpt]
        exact h.used i hi page hpage
      · rcases ha.onlyTaken with htaken | htaken
        · exact absurd (htaken ▸ hpage) List.not_mem_nil
        · exact absurd (List.mem_singleton.mp (htaken ▸ hpage)) hpt
  · intro b hb
    rcases List.mem_cons.mp hb with rfl | hb
    · exact Or.inl ⟨rfl, target, ha.inHeap, hin⟩
    · by_cases hbi : b.owner = i
      · obtain ⟨howner, page, hpage, hbin⟩ := h.inside b hb
        rw [hbi] at hpage
        refine Or.inl ⟨hbi, page, List.mem_append_left _ hpage, hbin.1, ?_⟩
        have hend := hbin.2
        by_cases hpt : page = target
        · have hbefore := ha.usedBefore (hpt ▸ hpage)
          rw [hpt, hused, hbefore]
          rw [hpt] at hend
          omega
        · rw [ha.usedElsewhere page (h.pool hi hpage) hpt]
          exact hend
      · exact Or.inr ⟨hbi, hb⟩
  · exact List.pairwise_cons.mpr ⟨fun b hb => h.block_new hi ha hb, h.disjoint⟩

/-! ### `destroyProcess` -/

/-- The pages of a live process: the one of its stack and those of its heap. -/
theorem held_of_live (h : HeapsInv s chain) {k : UInt64} (hlive : s.Live k) :
    (s.held k.toNat).Perm ((s.pcb.process k).stackPage :: chain k.toNat) := by
  have hheld := h.held k.toNat (h.toNat_lt hlive.1)
  have hpages : (s.pcb.entries k.toNat).pages (chain k.toNat) =
      (s.pcb.process k).stackPage :: chain k.toNat := if_neg hlive.2
  rwa [hpages] at hheld

/-- `destroyProcess` pushes the page of the stack and the pages of the heap. -/
theorem destroyProcess_eq (h : HeapsInv s chain) {k : UInt64} (hk : k < s.pcb.maxProcesses) :
    s.destroyProcess k = some (0, { s.toMachine with
      pages := s.pages.pushAll ((s.pcb.process k).stackPage :: chain k.toNat)
      pcb := s.pcb.setProcess k.toNat .zero }) := by
  have hi := h.toNat_lt hk
  have hbound := Machine.length_lt_walkBound (h.exclusive_chain hi)
  have hfree : Machine.freePages s.mem
      (s.pages.pageManager .PUSH_PAGE (s.pcb.process k).stackPage).1 (s.pcb.process k).heapPage
      (walkBound + 1) = some (s.pages.pushAll ((s.pcb.process k).stackPage :: chain k.toNat)) :=
    Machine.freePages_chain (h.linked k.toNat hi) hbound
  simp only [Machine.destroyProcess, h.badIndex_eq hk, Bool.false_eq_true, if_false, hfree]

/-- A successful `destroyProcess` keeps the invariant. -/
theorem destroyProcess (h : HeapsInv s chain) {k : UInt64} (hlive : s.Live k)
    (hfree : s.pages.free ≠ []) (hm' : s.destroyProcess k = some (0, m')) :
    m'.pages.free = ((s.pcb.process k).stackPage :: chain k.toNat).reverse ++ s.pages.free ∧
    HeapsInv ⟨m', Function.update s.held k.toNat (s.account m' (s.held k.toNat)),
      s.blocks.filter fun b => b.owner ≠ k.toNat⟩ (Function.update chain k.toNat []) := by
  have hi := h.toNat_lt hlive.1
  have hheld := h.held_of_live hlive
  rw [h.destroyProcess_eq hlive.1] at hm'
  obtain rfl := (Prod.mk.inj (Option.some.inj hm')).2
  -- with the pages of any other entry, those of this one are handed out
  have hgive : ∀ held, Exclusive ⟨s.pages, held⟩ → (s.held k.toNat).Disjoint held →
      (s.pages.pushAll ((s.pcb.process k).stackPage :: chain k.toNat)).free =
        ((s.pcb.process k).stackPage :: chain k.toNat).reverse ++ s.pages.free ∧
      Exclusive ⟨s.pages.pushAll ((s.pcb.process k).stackPage :: chain k.toNat), held⟩ := by
    intro held hexcl hdisjoint
    have hboth := (h.exclusive k.toNat hi).append hexcl hdisjoint
    exact exclusive_give (hboth.perm (hheld.symm.append_right _)) hfree
  have hnone : Exclusive ⟨s.pages, []⟩ := (h.exclusive k.toNat hi).sublist (List.nil_sublist _)
  obtain ⟨hback, hrest⟩ := hgive [] hnone (List.disjoint_nil_right _)
  refine ⟨hback, ?_⟩
  have haccount : ∀ m' : Machine, m'.pages.free =
      ((s.pcb.process k).stackPage :: chain k.toNat).reverse ++ s.pages.free →
      s.account m' (s.held k.toNat) = [] := by
    intro m' hback
    apply Machine.account_give hback
    intro p hp
    exact List.mem_reverse.mpr (hheld.mem_iff.mp hp)
  rw [haccount _ hback]
  apply h.update hi
  · rfl
  · rfl
  · intro j hj
    exact Pcb.setProcess_ne _ _ _ hj
  · exact fun _ _ _ _ _ => ⟨rfl, rfl⟩
  · show ((s.pcb.setProcess k.toNat .zero).entries k.toNat).heapPage = NULL
    rw [Pcb.setProcess_self]
    rfl
  · show [].Perm (((s.pcb.setProcess k.toNat .zero).entries k.toNat).pages [])
    rw [Pcb.setProcess_self]
    exact List.Perm.refl _
  · exact hrest
  · intro j hj hji
    exact ⟨(hgive _ (h.exclusive j hj) (h.apart k.toNat j hi hj (Ne.symm hji))).2,
      List.disjoint_nil_left _⟩
  · exact fun page hpage => absurd hpage List.not_mem_nil
  · intro b hb
    have hmem := List.mem_filter.mp hb
    exact Or.inr ⟨by simpa using hmem.2, hmem.1⟩
  · exact h.disjoint.filter _

/-! ### `createProcess` -/

/-- The words of the headers, when the bytes stay. -/
theorem words_of_keepsHeaders (h : HeapsInv s chain) {mem : Memory}
    (hkeep : s.KeepsHeaders mem) (hj : j < pcbEntries) (hpage : page ∈ chain j) :
    mem.readWord page = s.mem.readWord page ∧ mem.readWord (page + 8) = s.used page := by
  rw [← h.toNat_maxProcesses] at hj
  have hbytes := hkeep j _ hj (h.linked j (h.toNat_maxProcesses ▸ hj)) page hpage
  constructor
  · apply Memory.readWord_congr
    intro k hk
    exact hbytes k (by omega)
  · apply Memory.readWord_congr
    intro k hk
    have hbyte := hbytes (8 + k) (by omega)
    rw [UInt64.ofNat_add, ← UInt64.add_assoc] at hbyte
    exact hbyte

/-- A free page goes to entry `index` for a stack, and its heap is empty. -/
theorem claimed (h : HeapsInv s chain) {index : Nat} (hi : index < pcbEntries) {e : PcbEntry}
    {page : Addr} {stack : PageStack} {mem : Memory} (hoccupied : e.occupied ≠ 0)
    (hstack : e.stackPage = page) (hheap : e.heapPage = NULL)
    (hfree : s.pages.free = [page] ++ stack.free) (hready : stack.initialized = true)
    (hkeep : s.KeepsHeaders mem) :
    HeapsInv ⟨⟨mem, stack, s.withNewProcess index e⟩, Function.update s.held index [page],
      s.blocks.filter fun b => b.owner ≠ index⟩ (Function.update chain index []) := by
  have hnone : Exclusive ⟨s.pages, []⟩ := (h.exclusive index hi).sublist (List.nil_sublist _)
  have hnew : ∀ j, j < pcbEntries → Exclusive ⟨stack, [page] ++ s.held j⟩ :=
    fun j hj => exclusive_take (h.exclusive j hj) hfree hready
  have hentry : (s.withNewProcess index e).entries index = e :=
    Machine.withNewProcess_entries_self _ _ _
  apply h.update hi
  · rfl
  · rfl
  · intro j hj
    exact Pcb.setProcess_ne _ _ _ hj
  · exact fun j hj _ page hpage => h.words_of_keepsHeaders hkeep hj hpage
  · show ((s.withNewProcess index e).entries index).heapPage = NULL
    rw [hentry]
    exact hheap
  · simp only [hentry]
    unfold PcbEntry.pages
    rw [hstack, if_neg hoccupied]
  · exact exclusive_take hnone hfree hready
  · intro j hj _
    have hexcl := hnew j hj
    refine ⟨hexcl.sublist (List.sublist_append_right _ _), ?_⟩
    exact List.disjoint_of_nodup_append (List.nodup_append.mp hexcl.distinct).1
  · exact fun page hpage => absurd hpage List.not_mem_nil
  -- blocks of a former process of that entry are forgotten
  · intro b hb
    have hmem := List.mem_filter.mp hb
    exact Or.inr ⟨by simpa using hmem.2, hmem.1⟩
  · exact h.disjoint.filter _

/-- A successful `createProcess` keeps the invariant. -/
theorem createProcess (h : HeapsInv s chain) {a : ProcessParams} {index : Nat}
    (hindex : index < s.pcb.maxProcesses.toNat) (hfree : s.pages.free ≠ [])
    (hcreate : s.createProcess a = some (UInt64.ofNat index, m'))
    (hkeep : s.KeepsHeaders m'.mem) :
    HeapsInv ⟨m', Function.update s.held index (s.account m' []),
      s.blocks.filter fun b => b.owner ≠ index⟩ (Function.update chain index []) := by
  have hi : index < pcbEntries := h.toNat_maxProcesses ▸ hindex
  have htoNat : (UInt64.ofNat index).toNat = index :=
    UInt64.toNat_ofNat_of_lt' (hindex.trans s.pcb.maxProcesses.toNat_lt)
  have hnone : Exclusive ⟨s.pages, []⟩ := (h.exclusive index hi).sublist (List.nil_sublist _)
  obtain ⟨page, stack, hpop, hcons, hready⟩ := Machine.pop_of_free hnone hfree
  -- the index returned is no error code, so the creation went through
  obtain ⟨e, rfl, hpcb, hoccupied, hstack, hheap⟩ : ∃ e, m'.pages = stack ∧
      m'.pcb = s.withNewProcess index e ∧ e.occupied = 1 ∧ e.stackPage = page ∧
      e.heapPage = NULL := by
    have hcreated := Machine.createProcess_created hcreate
    generalize hr : UInt64.ofNat index = r at hcreated
    have hsmall : r.toNat < 16 := by
      rw [← hr, htoNat]
      exact hi
    cases hcreated with
    | noPcb | noEntry | noPage | noArguments => exact absurd hsmall (by decide)
    | ok index' mem sp _ _ hlt =>
      have hsame : index' = index := by
        have htoNat' : (UInt64.ofNat index').toNat = index' :=
          UInt64.toNat_ofNat_of_lt' (hlt.trans s.pcb.maxProcesses.toNat_lt)
        rw [← htoNat', ← hr, htoNat]
      subst hsame
      exact ⟨_, congrArg Prod.fst (hpop _), rfl, rfl, congrArg Prod.snd (hpop _), rfl⟩
  have hfree' : s.pages.free = [page] ++ m'.pages.free := hcons
  rw [Machine.account_take hnone hfree', List.append_nil]
  have hclaimed := h.claimed hi (by rw [hoccupied]; decide) hstack hheap hfree' hready
    hkeep
  rw [← hpcb] at hclaimed
  exact hclaimed

/-! ### Steps of others -/

/-- The machine changes outside of the heaps. -/
theorem frame (h : HeapsInv s chain) (hpcb : m'.pcb = s.pcb)
    (hpages : ∀ j, j < pcbEntries → ∀ page ∈ chain j,
      m'.mem.readWord page = s.mem.readWord page ∧ m'.used page = s.used page)
    (hexclusive : ∀ j, j < pcbEntries → Exclusive ⟨m'.pages, s.held j⟩) :
    HeapsInv ⟨m', s.held, s.blocks⟩ chain := by
  refine ⟨hpcb ▸ h.pcb, hpcb ▸ h.maxProcesses, ?_, ?_, hexclusive, h.apart, ?_, ?_, h.disjoint⟩
  · intro j hj
    show Chain m'.mem.readWord NULL (m'.pcb.entries j).heapPage (chain j)
    rw [hpcb]
    exact Chain.congr (h.linked j hj) fun page hpage => (hpages j hj page hpage).1
  · intro j hj
    rw [hpcb]
    exact h.held j hj
  · intro j hj page hpage
    show 16 ≤ (m'.used page).toNat ∧ (m'.used page).toNat ≤ 0x2000
    rw [(hpages j hj page hpage).2]
    exact h.used j hj page hpage
  · intro b hb
    obtain ⟨hlt, page, hpage, hin⟩ := h.inside b hb
    refine ⟨hlt, page, hpage, ?_⟩
    unfold Block.In
    rw [(hpages b.owner hlt page hpage).2]
    exact hin

theorem write (h : HeapsInv s chain) {mem : Memory} (hkeep : s.KeepsHeaders mem) :
    HeapsInv { s with mem := mem } chain :=
  h.frame rfl (fun _ hj _ hpage => h.words_of_keepsHeaders hkeep hj hpage) h.exclusive

theorem withPages (h : HeapsInv s chain) {stack : PageStack}
    (hexclusive : ∀ j, j < pcbEntries → Exclusive ⟨stack, s.held j⟩) :
    HeapsInv { s with pages := stack } chain := by
  show HeapsInv ⟨{ s.toMachine with pages := stack }, s.held, s.blocks⟩ chain
  exact h.frame rfl (fun _ _ _ _ => ⟨rfl, rfl⟩) hexclusive

theorem pop (h : HeapsInv s chain) :
    HeapsInv { s with pages := (s.pages.pageManager .POP_PAGE NULL).1 } chain := by
  apply h.withPages
  intro j hj
  have hpop := exclusive_pop (h.exclusive j hj) NULL
  simp only [Ownership.pop] at hpop
  split at hpop
  · exact hpop
  · exact hpop.sublist (List.sublist_cons_self _ _)

theorem push (h : HeapsInv s chain) (hpage : page ∈ initialPages) (hfree : page ∉ s.pages.free)
    (hheld : ∀ i, i < pcbEntries → page ∉ s.held i) :
    HeapsInv { s with pages := (s.pages.pageManager .PUSH_PAGE page).1 } chain := by
  apply h.withPages
  intro j hj
  have hexcl := h.exclusive j hj
  -- as if the entry had held the page
  have hboth : Exclusive ⟨s.pages, page :: s.held j⟩ := by
    refine ⟨hexcl.ready, List.nodup_cons.mpr ⟨?_, hexcl.distinct⟩, ?_⟩
    · intro hmem
      rcases List.mem_append.mp hmem with hmem | hmem
      · exact hheld j hj hmem
      · exact hfree hmem
    · intro p hp
      rcases List.mem_cons.mp hp with rfl | hp
      · exact hpage
      · exact hexcl.fromPool p hp
  have hpush := exclusive_push hboth List.mem_cons_self
  simp only [Ownership.push, List.erase_cons_head] at hpush
  exact hpush

end HeapsInv

/-! ### All runs -/

theorem heapsInv_init {s : Heaps} (h : heaps.init s) : HeapsInv s fun _ => [] := by
  obtain ⟨o, mem, entries, ho, hboot, hheld, hblocks⟩ := h
  obtain ⟨hpcb, hmax, -, hzero⟩ := initializePCB_ok hboot
  have hexcl : Exclusive ⟨s.pages, []⟩ := by
    have hpages := initializePCB_pages hboot
    have hpop := exclusive_pop (exclusive_reachable ho) NULL
    rw [hpages]
    exact Exclusive.sublist hpop (List.nil_sublist _)
  refine ⟨hpcb, hmax, ?_, ?_, ?_, ?_, ?_, ?_, ?_⟩
  · intro i hi
    show (s.pcb.entries i).heapPage = NULL
    rw [hzero i hi]
    rfl
  · intro i hi
    rw [hheld, hzero i hi]
    exact List.Perm.refl _
  · intro i _
    rw [hheld]
    exact hexcl
  · intro i j _ _ _
    rw [hheld]
    exact List.disjoint_nil_left _
  · exact fun i _ page hpage => absurd hpage List.not_mem_nil
  · rw [hblocks]
    exact fun b hb => absurd hb List.not_mem_nil
  · rw [hblocks]
    exact List.Pairwise.nil

/-- Every step keeps the invariant. -/
theorem heapsInv_step {s s' : Heaps} {action : HeapAction} {chain : Nat → List Addr}
    (h : HeapsInv s chain) (hfree : s.pages.free ≠ []) (hstep : heaps.step s action s') :
    ∃ chain', HeapsInv s' chain' := by
  cases action with
  | createProcess a =>
    obtain ⟨index, m', hindex, hcreate, -, hkeep, rfl⟩ := hstep
    exact ⟨_, h.createProcess hindex hfree hcreate hkeep⟩
  | malloc PCBIndex size =>
    obtain ⟨hk, p, m', hmalloc, rfl⟩ := hstep
    have hi := h.toNat_lt hk
    -- a refused size changes nothing; else pages may be linked and a counter grows
    rcases h.malloc_cases hfree hk size with
      ⟨-, hnull⟩ | ⟨-, taken, target, start, m'', heq, hne, ha⟩
    · -- nothing has happened
      obtain ⟨rfl, rfl⟩ := Prod.mk.inj (Option.some.inj (hnull.symm.trans hmalloc))
      have hnone : s.pages.free = [] ++ s.pages.free := rfl
      have hsame : s.account s.toMachine (s.held PCBIndex.toNat) = s.held PCBIndex.toNat :=
        Machine.account_take (h.exclusive _ hi) hnone
      rw [hsame, Function.update_eq_self, if_pos rfl]
      exact ⟨chain, h⟩
    · obtain ⟨rfl, rfl⟩ := Prod.mk.inj (Option.some.inj (heq.symm.trans hmalloc))
      rw [if_neg hne]
      exact ⟨_, h.malloc hi ha⟩
  | destroyProcess PCBIndex =>
    obtain ⟨hlive, m', hdestroy, rfl⟩ := hstep
    exact ⟨_, (h.destroyProcess hlive hfree hdestroy).2⟩
  | write mem =>
    obtain ⟨hkeep, rfl⟩ := hstep
    exact ⟨_, h.write hkeep⟩
  | pop =>
    obtain rfl : s' = _ := hstep
    exact ⟨_, h.pop⟩
  | push page =>
    obtain ⟨hpage, hnot, hheld, rfl⟩ := hstep
    exact ⟨_, h.push hpage hnot fun i hi => hheld i (h.toNat_maxProcesses ▸ hi)⟩

theorem heapsInv_reachable {s : Heaps} (h : (heaps.restrict PageFree).Reachable s) :
    ∃ chain, HeapsInv s chain := by
  apply h.invariant fun s => ∃ chain, HeapsInv s chain
  · exact fun s hinit => ⟨_, heapsInv_init hinit⟩
  · rintro s action s' ⟨chain, hinv⟩ ⟨hfree, hstep⟩
    exact heapsInv_step hinv hfree hstep

end TP2Kernel
