import TP2Kernel.Process.Accounting

/-! # `malloc` when no page is left

    After `POP_PAGE` the code tests the pointer to the pointer, which is never `NULL`, and
    goes on with the page that it did not get: the header is stored at address 0, and the
    block lies behind it.
-/

namespace TP2Kernel

open Transition LinkedChain PageStack

namespace Machine

/-- No page of the heap has `size` bytes left, and there is none to pop. -/
structure OutOfMemory (m : Machine) (PCBIndex : UInt64) (size : Int64) : Prop where
  good : m.pcb.badIndex PCBIndex = false
  accepted : 0 ≤ size.toInt ∧ size.toInt ≤ 0x2000 - 16
  noRoom : ∃ pages, m.HeapChain PCBIndex.toNat pages ∧ ∀ page ∈ pages, page ∈ initialPages ∧
    (m.used page).toNat ≤ 0x2000 ∧ 0x2000 < (m.used page).toNat + size.toInt.toNat
  noPage : (m.pages.pageManager .POP_PAGE NULL).2 = NULL

/-- `malloc` returns `NULL` and changes neither a heap nor memory. -/
def ReportsExhaustion (m : Machine) (PCBIndex : UInt64) (size : Int64) : Prop :=
  ∃ m', m.malloc PCBIndex size = some (NULL, m') ∧ m'.pcb = m.pcb ∧ m'.mem = m.mem

variable {m : Machine} {PCBIndex : UInt64} {size : Int64} {current : PagePointer} {n : UInt64}
  {fuel : Nat}

/-! ### The page that is not there -/

/-- The words at 0 and 8 are in no page. -/
theorem null_apart {page : Addr} (hpage : page ∈ initialPages) {a : Addr}
    (ha : a = NULL ∨ a = NULL + 8) : Memory.Apart a page := by
  have hbounds := initialPages_bounds hpage
  have hnull : NULL.toNat = 0 := rfl
  have height : (NULL + 8).toNat = 8 := rfl
  unfold Memory.Apart
  rcases ha with rfl | rfl
  · omega
  · omega

/-- The header of the page that is not there leaves the pointer `NULL`. -/
theorem storeWord_null_load (hcurrent : ∀ page, current = .next page → page ∈ initialPages)
    {a : Addr} (ha : a = NULL ∨ a = NULL + 8) (v : UInt64) :
    (m.storeWord a v).load current = m.load current := by
  cases current with
  | heapPage i => rfl
  | next page => exact Memory.readWord_writeWord_of_apart _ _ (null_apart (hcurrent page rfl) ha)

/-- Without a page, the header goes to address 0. -/
theorem addHeapPage_null (hnull : m.load current = NULL)
    (hpop : (m.pages.pageManager .POP_PAGE NULL).2 = NULL)
    (hcurrent : ∀ page, current = .next page → page ∈ initialPages) :
    (m.addHeapPage current).load current = NULL ∧
    (m.addHeapPage current).mem.readWord (NULL + 8) = pageHeaderSize := by
  obtain ⟨stack, hpop'⟩ : ∃ stack, m.pages.pageManager .POP_PAGE (m.load current) =
      (stack, NULL) := by
    rw [hnull]
    exact ⟨_, Prod.ext rfl hpop⟩
  generalize hm₁ : ({ m with pages := stack } : Machine).store NULL current = m₁
  have hload : m₁.load current = NULL := by
    rw [← hm₁]
    exact store_load NULL
  have hload' : (m₁.storeWord NULL NULL).load current = NULL := by
    rw [storeWord_null_load hcurrent (Or.inl rfl)]
    exact hload
  have hadd : m.addHeapPage current =
      (m₁.storeWord NULL NULL).storeWord (NULL + 8) pageHeaderSize := by
    simp only [addHeapPage, hpop', hm₁, hload, hload']
  rw [hadd]
  constructor
  · rw [storeWord_null_load hcurrent (Or.inr rfl)]
    exact hload'
  · exact Memory.readWord_writeWord _ _ _

/-- The walk along the heap comes to its end. -/
theorem OutOfMemory.walk (h : m.OutOfMemory PCBIndex size) : ∃ current rest,
    m.load current = NULL ∧ (∀ page, current = .next page → page ∈ initialPages) ∧
    m.malloc PCBIndex size = m.mallocRecursive current size.toUInt64 (rest + 1) := by
  obtain ⟨pages, hchain, hroom⟩ := h.noRoom
  have haccepted : ¬ (size < 0 ∨ size.toUInt64 > PAGE_SIZE - pageHeaderSize) := by
    rw [size_refused_iff]
    have hle := h.accepted
    omega
  have hnonneg : 0 ≤ size := Int64.le_iff_toInt_le.mpr h.accepted.1
  have hsize : size.toUInt64.toNat = size.toInt.toNat := Int64.toNat_toUInt64_of_le hnonneg
  have hfuel : pages.length < walkBound + 1 := by
    have hle := (List.subperm_of_subset hchain.nodup fun page hp => (hroom page hp).1).length_le
    rw [initialPages, List.length_map, List.length_range] at hle
    exact Nat.lt_of_le_of_lt hle (by decide)
  rw [malloc_accepted h.good haccepted]
  rcases @mallocRecursive_walk m (.heapPage PCBIndex.toNat) pages size.toUInt64 _ hchain hfuel with
    ⟨page, hpage, hfits, -⟩ | ⟨hnull, rest, heq⟩
  · -- no page has room
    obtain ⟨-, hused, hno⟩ := hroom page hpage
    have hsub : (PAGE_SIZE - m.used page).toNat = 0x2000 - (m.used page).toNat :=
      UInt64.toNat_sub_of_le _ _ (UInt64.le_iff_toNat_le.mpr hused)
    have hle := UInt64.le_iff_toNat_le.mp hfits
    rw [hsub, hsize] at hle
    omega
  · refine ⟨_, rest, hnull, ?_, heq⟩
    intro page hcur
    have hlast := @lastPointer_cases (lastPointer (.heapPage PCBIndex.toNat) pages) pages
      PCBIndex.toNat rfl
    rw [hcur] at hlast
    rcases hlast with ⟨-, hno⟩ | ⟨last, -, hmem, heq⟩
    · cases hno
    · cases heq
      exact (hroom _ hmem).1

/-! ### What comes back instead -/

/-- The block that comes back lies behind the header at address 0. -/
theorem OutOfMemory.malloc_eq (h : m.OutOfMemory PCBIndex size) :
    ∃ m', m.malloc PCBIndex size = some (pageHeaderSize, m') ∧
      m'.mem.readWord 8 = pageHeaderSize + size.toUInt64 := by
  obtain ⟨current, rest, hnull, hcurrent, heq⟩ := h.walk
  obtain ⟨hload, hheader⟩ := addHeapPage_null hnull h.noPage hcurrent
  have hsize : size.toUInt64 ≤ PAGE_SIZE - pageHeaderSize := by
    have haccepted : ¬ (size < 0 ∨ size.toUInt64 > PAGE_SIZE - pageHeaderSize) := by
      rw [size_refused_iff]
      have hle := h.accepted
      omega
    exact UInt64.not_lt.mp (not_or.mp haccepted).2
  rw [heq]
  simp only [mallocRecursive, if_pos hnull, hload, hheader, if_pos hsize]
  refine ⟨_, rfl, ?_⟩
  exact Memory.readWord_writeWord _ _ _

/-- **Exhaustion is not reported.**  The block that comes back lies at address 16, whoever
    asks, and the word at address 8 counts it as used. -/
theorem malloc_outOfMemory (h : m.OutOfMemory PCBIndex size) :
    ¬ m.ReportsExhaustion PCBIndex size ∧
    ∃ m', m.malloc PCBIndex size = some (pageHeaderSize, m') ∧
      m'.mem.readWord 8 = pageHeaderSize + size.toUInt64 ∧
      ∀ other size', m'.OutOfMemory other size' →
        ∃ m'', m'.malloc other size' = some (pageHeaderSize, m'') := by
  obtain ⟨m', heq, hused⟩ := h.malloc_eq
  refine ⟨?_, m', heq, hused, ?_⟩
  · intro h
    obtain ⟨m'', hnull, -⟩ := h
    have hblock : pageHeaderSize = NULL :=
      congrArg Prod.fst (Option.some.inj (heq.symm.trans hnull))
    exact absurd hblock (by decide)
  · intro other size' hother
    obtain ⟨m'', heq', -⟩ := hother.malloc_eq
    exact ⟨m'', heq'⟩

end Machine

/-! ### A process that is out of memory -/

/-- Other clients pop all pages that are free. -/
theorem heaps_exhausted {s : Heaps} (h : (heaps.restrict PageFree).Reachable s) :
    ∃ stack : PageStack, (heaps.restrict PageFree).Reachable { s with pages := stack } ∧
      stack.free = [] ∧ stack.initialized = true := by
  obtain ⟨n, hn⟩ : ∃ n, s.pages.free.length = n := ⟨_, rfl⟩
  have hready : s.pages.initialized = true := by
    obtain ⟨chain, hinv⟩ := heapsInv_reachable h
    exact (hinv.exclusive 0 (by decide)).ready
  induction n generalizing s with
  | zero => exact ⟨s.pages, h, List.eq_nil_of_length_eq_zero hn, hready⟩
  | succ n ih =>
    have hne := free_ne_nil hn.ge
    have hlt : s.pages.stackTop.toNat < STACK_SIZE := by
      rw [length_free] at hn
      omega
    have hpop : s.pages.pageManager .POP_PAGE NULL = s.pages.popPage := by
      simp [pageManager, hready]
    have hnext : (heaps.restrict PageFree).Reachable { s with pages := s.pages.popPage.1 } :=
      .step .pop h ⟨hne, by rw [← hpop]; rfl⟩
    apply ih hnext
    · show s.pages.popPage.1.free.length = n
      rw [popPage_free hlt, List.length_cons] at hn
      omega
    · show s.pages.popPage.1.initialized = true
      simp [popPage, hlt, hready]

/-- The first process is left without a page. -/
theorem first_outOfMemory : ∃ s : Heaps, heaps.Reachable s ∧ s.OutOfMemory 0 8176 := by
  obtain ⟨s, h, hlive, -, -, hchain⟩ := heaps_firstProcess
  obtain ⟨stack, h', hfree, hready⟩ := heaps_exhausted h
  obtain ⟨chain, hinv⟩ := heapsInv_reachable h'
  refine ⟨_, h'.of_restrict, hinv.badIndex_eq hlive.1, by decide, ?_, ?_⟩
  · exact ⟨[], hchain, fun page hpage => absurd hpage List.not_mem_nil⟩
  · exact ((hinv.exclusive 0 (by decide)).pop_null_iff NULL).mpr hfree

/-- The block that the first process gets without a page. -/
theorem malloc_outOfMemory_first : ∃ s : Heaps, heaps.Reachable s ∧ s.OutOfMemory 0 8176 ∧
    ¬ s.ReportsExhaustion 0 8176 := by
  obtain ⟨s, h, hout⟩ := first_outOfMemory
  exact ⟨s, h, hout, (Machine.malloc_outOfMemory hout).1⟩

/-- Exhaustion goes unreported in a run. -/
theorem exhaustion_not_reported : ¬ ∀ s : Heaps, heaps.Reachable s → ∀ PCBIndex size,
    s.OutOfMemory PCBIndex size → s.ReportsExhaustion PCBIndex size := by
  intro hclaim
  obtain ⟨s, h, hout⟩ := first_outOfMemory
  obtain ⟨m', hnull, -⟩ := hclaim s h 0 8176 hout
  obtain ⟨m'', heq, -⟩ := hout.malloc_eq
  have hblock : pageHeaderSize = NULL := congrArg Prod.fst (Option.some.inj (heq.symm.trans hnull))
  exact absurd hblock (by decide)

end TP2Kernel
