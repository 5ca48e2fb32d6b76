import TP2Kernel.Process.Failure
import TP2Kernel.Process.Heaps

/-! # What processes get and give back

    Over all runs of the heaps in which a page stays free: the blocks that `malloc`
    returns never overlap, and a process gives back the pages it took.
-/

namespace TP2Kernel

open Transition LinkedChain PageStack

/-! ### A process that allocates -/

theorem free_ne_nil {s : Heaps} {n : Nat} (h : n + 1 ≤ s.pages.free.length) :
    s.pages.free ≠ [] := by
  intro hnil
  rw [hnil] at h
  exact absurd h (Nat.not_succ_le_zero n)

/-- A call of `malloc` with a good size. -/
theorem malloc_step {s : Heaps} (h : (heaps.restrict PageFree).Reachable s) {k : UInt64}
    (hlive : s.Live k) {free : Nat} (hfree : free + 1 ≤ s.pages.free.length) {n : Int64}
    (hn : ¬ (n.toInt < 0 ∨ 0x2000 - 16 < n.toInt)) :
    ∃ s' p, (heaps.restrict PageFree).Reachable s' ∧ s'.Live k ∧ free ≤ s'.pages.free.length ∧
      s'.blocks = ⟨k.toNat, p, n.toUInt64⟩ :: s.blocks := by
  obtain ⟨chain, hinv⟩ := heapsInv_reachable h
  have hne := free_ne_nil hfree
  rcases hinv.malloc_cases hne hlive.1 n with
    ⟨hrefused, -⟩ | ⟨-, taken, target, start, m', heq, hp, ha⟩
  · exact absurd hrefused hn
  · refine ⟨_, target + start, .step (.malloc k n) h ⟨hne, hlive.1, _, m', heq, rfl⟩, ?_, ?_,
      if_neg hp⟩
    · obtain ⟨head, hpcb⟩ := ha.entry
      refine ⟨?_, ?_⟩
      · show k < m'.pcb.maxProcesses
        rw [hpcb]
        exact hlive.1
      · show (m'.pcb.entries k.toNat).occupied ≠ 0
        rw [hpcb, Pcb.modifyProcess_entries, if_pos rfl]
        exact hlive.2
    · have hlen := congrArg List.length ha.free
      rw [List.length_append] at hlen
      show free ≤ m'.pages.free.length
      rcases ha.onlyTaken with htaken | htaken
      · rw [htaken, List.length_nil] at hlen
        omega
      · rw [htaken, List.length_singleton] at hlen
        omega

/-- The first process gets the first entry and the second page. -/
theorem Machine.fresh_createProcess : ∃ m', Machine.fresh.createProcess ⟨0, NULL, NULL, 1, NULL⟩ =
    some (0, m') ∧ m'.pages = .popped 2 ∧ m'.pcb.maxProcesses = 16 ∧
    (m'.pcb.entries 0).occupied = 1 ∧ (m'.pcb.entries 0).heapPage = NULL ∧
    (m'.pcb.entries 0).stackPage = PageStack.pageAddress 1 := by
  let a : ProcessParams := ⟨0, NULL, NULL, 1, NULL⟩
  have hcan : Machine.CanCreate Machine.fresh a := by
    refine ⟨by decide, by decide, by decide, by decide⟩
  obtain ⟨r, m', hcreate⟩ := Machine.createProcess_isSome Machine.fresh (a := a) rfl
  obtain ⟨mem, sp, hr, -, hm'⟩ := (Machine.createProcess_created hcreate).of_canCreate hcan
  have hindex : Machine.freeEntry Machine.fresh.pcb = 0 := by decide
  rw [hindex] at hr hm'
  subst hr
  refine ⟨m', hcreate, ?_, ?_, ?_, ?_, ?_⟩
  all_goals
    rw [hm']
    rfl

theorem heaps_fresh : heaps.init ⟨Machine.fresh, fun _ => [], []⟩ :=
  ⟨⟨bss.initializePageStack, []⟩, fun _ => 0, fun _ => .zero, .init ⟨rfl, rfl⟩, rfl,
    fun _ => rfl, rfl⟩

theorem Machine.fresh_fits : Machine.fresh.Fits ⟨0, NULL, NULL, 1, NULL⟩ :=
  Machine.fits_of_nullArgument rfl (fun _ _ => rfl)

/-- No entry has a heap yet. -/
theorem keepsHeaders_init {s : Heaps} (h : heaps.init s) (mem : Memory) : s.KeepsHeaders mem := by
  intro i pages hi hchain page hpage
  have hinv := heapsInv_init h
  have hnil := Chain.unique hchain (hinv.linked i (hinv.toNat_maxProcesses ▸ hi))
  rw [hnil] at hpage
  exact absurd hpage List.not_mem_nil

/-- The first process. -/
theorem heaps_firstProcess : ∃ s, (heaps.restrict PageFree).Reachable s ∧ s.Live 0 ∧
    3 ≤ s.pages.free.length ∧ s.blocks = [] ∧ s.HeapChain 0 [] := by
  obtain ⟨m', hcreate, hpages, hmax, hoccupied, hheap, -⟩ := Machine.fresh_createProcess
  have hfree : PageFree ⟨Machine.fresh, fun _ => [], []⟩
      (.createProcess ⟨0, NULL, NULL, 1, NULL⟩) := by
    apply free_ne_nil (n := 0)
    rw [length_free]
    decide
  refine ⟨_, .step (.createProcess _) (.init heaps_fresh)
    ⟨hfree, 0, m', by decide, hcreate, Machine.fresh_fits, keepsHeaders_init heaps_fresh _, rfl⟩,
    ⟨?_, ?_⟩, ?_, rfl, hheap⟩
  · show 0 < m'.pcb.maxProcesses
    rw [hmax]
    decide
  · show (m'.pcb.entries 0).occupied ≠ 0
    rw [hoccupied]
    decide
  · show 3 ≤ m'.pages.free.length
    rw [hpages, length_free]
    decide

/-! ### Blocks -/

/-- The block lies in the data part of a page of the heap of entry `i`. -/
def Machine.InHeap (m : Machine) (i : Nat) (b : Block) : Prop :=
  ∃ pages page, m.HeapChain i pages ∧ page ∈ pages ∧ page.toNat + 16 ≤ b.start.toNat ∧
    b.start.toNat + b.size.toNat ≤ page.toNat + PAGE_SIZE.toNat

/-- In every run in which a page stays free, a call of `malloc` returns: `NULL`, and
    changes nothing, exactly when it refuses the size, and else a block in the heap of the
    process that overlaps none of those returned before.  The counters stay in range. -/
theorem malloc_blocks_disjoint {s : Heaps} (h : (heaps.restrict PageFree).Reachable s) :
    (∀ i pages page, i < s.pcb.maxProcesses.toNat → s.HeapChain i pages → page ∈ pages →
      16 ≤ (s.used page).toNat ∧ s.used page ≤ PAGE_SIZE) ∧
    ∀ PCBIndex size, PCBIndex < s.pcb.maxProcesses → s.pages.free ≠ [] →
      ∃ p m', s.malloc PCBIndex size = some (p, m') ∧
        (p = NULL ↔ size.toInt < 0 ∨ 0x2000 - 16 < size.toInt) ∧
        (p = NULL → m' = s.toMachine) ∧
        (p ≠ NULL → m'.InHeap PCBIndex.toNat ⟨PCBIndex.toNat, p, size.toUInt64⟩ ∧
          ∀ b ∈ s.blocks, (⟨PCBIndex.toNat, p, size.toUInt64⟩ : Block).Disjoint b) := by
  obtain ⟨chain, hinv⟩ := heapsInv_reachable h
  constructor
  · intro i pages page hi hchain hpage
    rw [hinv.toNat_maxProcesses] at hi
    rw [Chain.unique hchain (hinv.linked i hi)] at hpage
    have hused := hinv.used i hi page hpage
    exact ⟨hused.1, UInt64.le_iff_toNat_le.mpr hused.2⟩
  · intro PCBIndex size hk hfree
    have hi := hinv.toNat_lt hk
    rcases hinv.malloc_cases hfree hk size with
      ⟨hrefused, hnull⟩ | ⟨haccepted, taken, target, start, m', heq, hne, ha⟩
    · exact ⟨_, _, hnull, iff_of_true rfl hrefused, fun _ => rfl, fun hno => absurd rfl hno⟩
    · refine ⟨_, _, heq, iff_of_false hne haccepted, fun hnull => absurd hnull hne, fun _ => ?_⟩
      obtain ⟨hpool, hused, hstart, hin⟩ := hinv.block_in hi ha
      refine ⟨⟨_, target, ha.chain, ha.inHeap, hin.1, ?_⟩, fun b hb => hinv.block_new hi ha hb⟩
      have hfits := ha.fits
      have hsize : PAGE_SIZE.toNat = 0x2000 := by decide
      show (target + start).toNat + size.toUInt64.toNat ≤ target.toNat + PAGE_SIZE.toNat
      omega

/-- The second block of a process. -/
theorem malloc_blocks_disjoint_second : ∃ s b, (heaps.restrict PageFree).Reachable s ∧
    s.Live 0 ∧ s.blocks = [b] ∧ b.size = 8000 ∧
    ∃ p m', s.malloc 0 5000 = some (p, m') ∧ p ≠ NULL ∧ Block.Disjoint ⟨0, p, 5000⟩ b := by
  obtain ⟨s, h, hlive, hfree, hblocks, -⟩ := heaps_firstProcess
  have hsize : ¬ ((8000 : Int64).toInt < 0 ∨ 0x2000 - 16 < (8000 : Int64).toInt) := by decide
  obtain ⟨s', p, h', hlive', hfree', hblocks'⟩ := malloc_step h hlive hfree hsize
  rw [hblocks] at hblocks'
  obtain ⟨p', m', hmalloc, hnull, -, hdone⟩ := (malloc_blocks_disjoint h').2 0 5000 hlive'.1
    (free_ne_nil hfree')
  have hp' : p' ≠ NULL := fun h0 => absurd (hnull.mp h0) (by decide)
  refine ⟨s', _, h', hlive', hblocks', rfl, p', m', hmalloc, hp', ?_⟩
  apply (hdone hp').2
  rw [hblocks']
  exact List.mem_cons_self

/-! ### Pages -/

end TP2Kernel
