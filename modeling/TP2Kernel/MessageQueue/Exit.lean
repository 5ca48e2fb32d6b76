import TP2Kernel.MessageQueue.Invariant
import TP2Kernel.MessageQueue.Operations

/-! # Message queues of processes that terminate

    A terminated process is removed by the `nextProcess` that comes to its node.
    `destroyProcess` gives back its pages and clears its entry, descriptors included, but
    closes none of its message queues: their pids and links stay for good.
-/

namespace TP2Kernel

open Transition Scheduler FileDescriptorsMap

namespace Kernel

/-- The number of descriptors of slot `i` that live processes hold. -/
def holders (s : Kernel) (i : Nat) : Nat :=
  ((Finset.range pcbEntries ×ˢ Finset.range MAX_FILES).filter fun p =>
    (s.pcb.entries p.1).occupied ≠ 0 ∧
      PointsTo ((s.pcb.entries p.1).fileDescriptors.entries p.2) i).card

/-- No slot remembers a process that was there and is gone. -/
structure NoneLeft (s : Kernel) : Prop where
  pids : ∀ i, i < MAX_MQS → ∀ p : UInt64, 0 < p.toNat → p.toNat < s.pcb.nextPid.toNat →
    ¬ IsPid s.pcb.entries p → (s.mqs i).readPID ≠ p ∧ (s.mqs i).writePID ≠ p
  links : ∀ i, i < MAX_MQS → (s.mqs i).links.toNat = s.holders i
  destroyed : ∀ i, i < MAX_MQS → s.holders i = 0 → ¬ s.Live i

/-- The processes removed between `s` and `s'` have released their queues. -/
structure Released (s s' : Kernel) : Prop where
  pids : ∀ e, s.toTasks.Leaves e → ∀ i, i < MAX_MQS →
    (s'.mqs i).readPID ≠ (s.pcb.entries e).pid ∧ (s'.mqs i).writePID ≠ (s.pcb.entries e).pid
  links : ∀ i, i < MAX_MQS → (s'.mqs i).links.toNat = s'.holders i
  destroyed : ∀ i, i < MAX_MQS → s'.holders i = 0 → ¬ s'.Live i
  pages : ∀ i f, i < MAX_MQS → (s.mqs i).file = some f → s'.holders i = 0 →
    s'.pages.Free (s.files.filesTable f).stream

variable {s s' : Kernel} {currentRSP : Addr}

/-! ### When the ledger is right -/

theorem Ledger.holders_eq (h : s.Ledger) {i : Nat} (hi : i < MAX_MQS) :
    s.holders i = s.descriptorsOf i := by
  unfold holders descriptorsOf
  congr 1
  apply Finset.filter_congr
  intro h hp
  obtain ⟨e, fd⟩ := h
  obtain ⟨he, hfd⟩ := Finset.mem_product.mp hp
  rw [Finset.mem_range] at he hfd
  constructor
  · exact fun hpoints => hpoints.2
  · intro hpoints
    have hpos := links_pos_iff.mpr ⟨fd, hfd, hpoints⟩
    exact ⟨(h.held_of_links he hi hpos).2.1, hpoints⟩

/-- A slot without a queue has no descriptors. -/
theorem Ledger.holders_dead (h : s.Ledger) {i : Nat} (hi : i < MAX_MQS) (hdead : ¬ s.Live i) :
    s.holders i = 0 := by
  have hfile : ¬ (s.mqs i).file ≠ none := hdead
  rw [h.holders_eq hi, descriptorsOf_eq_sum]
  apply Finset.sum_eq_zero
  intro e he
  rw [h.share e i (Finset.mem_range.mp he) hi, if_neg (fun hand => hfile hand.1)]

theorem Ledger.noneLeft (h : s.Ledger) : s.NoneLeft := by
  have hlinks : ∀ i, i < MAX_MQS → (s.mqs i).links.toNat = s.holders i := by
    intro i hi
    by_cases hlive : s.Live i
    · rw [h.holders_eq hi, h.descriptorsOf_eq hi hlive]
      exact h.links i hi hlive
    · rw [h.holders_dead hi hlive]
      rcases h.dead i hi (not_not.mp hlive) with heq | heq <;> rw [heq] <;> rfl
  refine ⟨?_, hlinks, ?_⟩
  · intro i hi p hpos hlt hgone
    -- -1 stands for nobody
    have hne : p ≠ -1 := by
      rintro rfl
      have := s.pcb.nextPid.toNat_lt
      have hmax : (-1 : UInt64).toNat = 2 ^ 64 - 1 := rfl
      omega
    by_cases hlive : s.Live i
    · -- an end of a live queue belongs to a process
      have howner := h.owner i hi hlive p hne
      exact ⟨fun hr => hgone (howner (MessageQueue.held_pos_iff.mpr (.inl hr))),
        fun hw => hgone (howner (MessageQueue.held_pos_iff.mpr (.inr hw)))⟩
    · have hzero : (0 : UInt64) ≠ p := by
        rintro rfl
        exact absurd hpos (by decide)
      rcases h.dead i hi (not_not.mp hlive) with heq | heq <;> rw [heq]
      · exact ⟨hzero, hzero⟩
      · exact ⟨hne.symm, hne.symm⟩
  · intro i hi hnone hlive
    have hpos := h.isOpen i hi hlive
    rw [← h.descriptorsOf_eq hi hlive, ← h.holders_eq hi, hnone] at hpos
    exact Nat.lt_irrefl 0 hpos

/-! ### The turn that removes processes -/

/-- A process that is removed was there. -/
theorem QueueInv.leaves_occupied (h : QueueInv s) {e : Nat} (hl : s.toTasks.Leaves e) :
    e < pcbEntries ∧ (s.pcb.entries e).occupied ≠ 0 := by
  obtain ⟨n, hn, hgood, rfl⟩ := hl
  have hmem : n ∈ s.sched.queue := List.mem_rotate.mp ((List.takeWhile_sublist _).subset hn)
  exact h.tasks.refers n hmem hgood

theorem nextProcess_mqs (hstep : messaging.step s (.task (.nextProcess currentRSP)) s') :
    s'.mqs = s.mqs := by
  rw [show s' = { s with toTasks := s'.toTasks } from hstep.2]

/-- A queue that is open when its process is removed stays with the pid. -/
theorem not_released_of_holdsQueue (hinv : QueueInv s) (h : s.Ledger)
    (hstep : messaging.step s (.task (.nextProcess currentRSP)) s') {e : Nat}
    (hl : s.toTasks.Leaves e) (hholds : s.HoldsQueue e) : ¬ Released s s' := by
  intro hreleased
  obtain ⟨he, -⟩ := hinv.leaves_occupied hl
  obtain ⟨fd, hfd, hocc, htype⟩ := hholds
  have hi := (hinv.tables e he).2 fd hfd hocc
  obtain ⟨-, -, hheld⟩ :=
    h.held_of_links he hi (links_pos_iff.mpr ⟨fd, hfd, hocc, htype, rfl⟩)
  obtain ⟨hread, hwrite⟩ := hreleased.pids e hl _ hi
  rw [nextProcess_mqs hstep] at hread hwrite
  rcases MessageQueue.held_pos_iff.mp hheld with hr | hw
  · exact hread hr
  · exact hwrite hw

theorem released_of_closed (hinv : QueueInv s) (h : s.Ledger)
    (hstep : messaging.step s (.task (.nextProcess currentRSP)) s')
    (hclosed : ∀ e, s.toTasks.Leaves e → ¬ s.HoldsQueue e) : Released s s' := by
  -- the ledger survives the removal of processes without queues
  have hledger := ledger_step (.task (.nextProcess currentRSP)) h hinv hclosed hstep
  have hnone := hledger.noneLeft
  obtain ⟨rsp, hnext⟩ := hstep.1
  have hent := nextProcess_entries hinv.tasks hnext
  refine ⟨?_, hnone.links, hnone.destroyed, ?_⟩
  · intro e hl i hi
    obtain ⟨he, hocc⟩ := hinv.leaves_occupied hl
    obtain ⟨hpos, hlt⟩ := h.pids.bounds e he hocc
    apply hnone.pids i hi _ hpos
    · rw [hent.nextPid]
      exact hlt
    · -- another process with that pid would have been there before
      intro h
      obtain ⟨e', he', hocc', hpid⟩ := h
      by_cases hl' : s.toTasks.Leaves e'
      · rw [hent.left e' hl'] at hocc'
        exact hocc' rfl
      · obtain ⟨stack, heq⟩ := hent.stays e' hl'
        rw [heq] at hocc' hpid
        obtain rfl := h.pids.distinct e' e he' he hocc' hocc hpid
        exact hl' hl
  · intro i f hi hf hholders
    have hlive : s'.Live i := by
      unfold Live
      rw [nextProcess_mqs hstep, hf]
      exact Option.some_ne_none f
    exact absurd hlive (hnone.destroyed i hi hholders)

/-! ### A process that terminates -/

/-- The only process terminates and is removed by the next turn. -/
theorem only_terminates {f : Nat} (h : (messaging.restrict WellBehaved).Reachable s)
    (hqueue : s.sched.queue = [f])
    (hgood : s.pcb.badIndex s.sched.getCurrentPCBIndex = false) : ∃ s₁ s₂ : Kernel,
    messaging.step s (.task .finishProcess) s₁ ∧
    (messaging.restrict WellBehaved).Reachable s₁ ∧
    messaging.step s₁ (.task (.nextProcess NULL)) s₂ ∧
    s₁ = { s with toTasks := s.toTasks.finishProcess.2 } ∧
    s₁.toTasks.Leaves s.sched.getCurrentPCBIndex.toNat := by
  obtain ⟨hinv, -⟩ := ledger h
  have htasks : TaskInv s.toTasks [f] := hqueue ▸ hinv.tasks
  have hfinished := taskInv_finishProcess htasks
  have hfinish : messaging.step s (.task .finishProcess)
      { s with toTasks := s.toTasks.finishProcess.2 } := ⟨rfl, rfl⟩
  have hreach : (messaging.restrict WellBehaved).Reachable
      { s with toTasks := s.toTasks.finishProcess.2 } :=
    .step (.task .finishProcess) h ⟨trivial, hfinish⟩
  obtain ⟨t, hnext, -, -⟩ := taskInv_nextProcess hfinished NULL
  refine ⟨_, { s with toTasks := t }, hfinish, hreach, ⟨⟨_, hnext⟩, rfl⟩, rfl, f, ?_, ?_⟩
  · show f ∈ (s.toTasks.finishProcess.2.sched.queue.rotate 1).takeWhile _
    rw [hfinished.queue_eq, Tasks.finishProcess_eq htasks.ring htasks.running]
    simp [Scheduler.isFinished]
  · rw [(htasks.getCurrentPCBIndex_eq).2] at hgood ⊢
    rw [Tasks.finishProcess_eq htasks.ring htasks.running]
    constructor
    · simpa using hgood
    · simp

/-- Without a queue in the table nobody holds one. -/
theorem not_holdsQueue_of_no_queue (hinv : QueueInv s) (h : s.Ledger) (hnum : s.numMQs = 0)
    {e : Nat} (he : e < pcbEntries) : ¬ s.HoldsQueue e := by
  intro h
  obtain ⟨fd, hfd, hocc, htype⟩ := h
  have hi := (hinv.tables e he).2 fd hfd hocc
  obtain ⟨hlive, -⟩ := h.held_of_links he hi (links_pos_iff.mpr ⟨fd, hfd, hocc, htype, rfl⟩)
  have hcount := hinv.slots.numMQs
  rw [hnum] at hcount
  exact Counting.count_eq_zero_iff.mp hcount.symm _ hi hlive

/-- The process that has queues open holds them. -/
theorem Stocked.holdsQueue (h : Stocked s 1) : s.HoldsQueue s.sched.getCurrentPCBIndex.toNat := by
  obtain ⟨hinv, hledger⟩ := ledger h.reachable
  obtain ⟨i, hreads⟩ := h.queues 0 Nat.one_pos
  obtain ⟨he, hocc⟩ := hinv.tasks.current_entry h.good
  have hshare := LedgerInv.share hledger _ i he hreads.lt
  rw [if_pos ⟨hreads.live, hocc⟩] at hshare
  have hpos : 0 < (s.mqs i).held (s.pcb.entries s.sched.getCurrentPCBIndex.toNat).pid := by
    rw [MessageQueue.held_pos_iff, ← getCurrentPID_eq h.good]
    exact .inl hreads.readPID
  rw [← hshare] at hpos
  obtain ⟨fd, hfd, hfocc, htype, -⟩ := links_pos_iff.mp hpos
  exact ⟨fd, hfd, hfocc, htype⟩

/-- It closes its only queue, which is destroyed. -/
theorem Stocked.closes (h : Stocked s 1) : ∃ fd s', messaging.step s (.close fd) s' ∧
    (messaging.restrict WellBehaved).Reachable s' ∧ s'.numMQs = 0 ∧ s'.sched = s.sched ∧
    s'.pcb.badIndex s.sched.getCurrentPCBIndex = false := by
  obtain ⟨hinv, hledger⟩ := ledger h.reachable
  obtain ⟨i, hreads⟩ := h.queues 0 Nat.one_pos
  obtain ⟨fd, hfd, hentry⟩ := hreads.descriptor
  have hfd' : (UInt64.ofNat fd).toNat = fd := by
    apply UInt64.toNat_ofNat_of_lt'
    unfold MAX_FILES at hfd
    show fd < 2 ^ 64
    omega
  have hdescriptor : s.descriptor s.sched.getCurrentPCBIndex (UInt64.ofNat fd) =
      ⟨1, UInt32.ofNat i, FileType.MESSAGE_QUEUE.code, F_READ⟩ := by
    unfold descriptor
    rw [hfd', hentry]
  have hend : s.EndAt s.sched.getCurrentPCBIndex (UInt64.ofNat fd) i := by
    refine ⟨h.good, hfd'.trans_lt hfd, ?_, ?_, ?_, hreads.lt⟩
    · rw [hdescriptor]
      show (1 : UInt32) ≠ 0
      decide
    · rw [hdescriptor]
    · rw [hdescriptor]
      exact toNat_ofNat_slot hreads.lt
  have hmine : (s.mqs i).readPID = s.getCurrentPID := hreads.readPID
  -- reading is the only link
  have hlinks : (s.mqs i).links = 1 := by
    have hends := LedgerInv.links hledger i hreads.lt hreads.live
    have hopen := LedgerInv.isOpen hledger i hreads.lt hreads.live
    have hone : (s.mqs i).ends = 1 := by
      by_cases hnobody : (s.mqs i).readPID = -1
      · simp [MessageQueue.ends, hreads.writePID, hnobody] at hopen
      · simp [MessageQueue.ends, hreads.writePID, hnobody]
    exact UInt64.toNat_inj.mp (hends.trans hone)
  have hunmarked : ((s.mqs i).unmarked s.getCurrentPID).links = 0 := by
    unfold MessageQueue.unmarked
    simp only [hlinks]
    decide
  have hclose : s.MQclose i = (1, s.withoutMQ i ((s.mqs i).unmarked s.getCurrentPID)) := by
    rw [MQclose_eq, if_neg (not_or.mpr ⟨hreads.live, fun h => h.1 hmine⟩), if_pos hunmarked]
  have hstep : messaging.step s (.close (UInt64.ofNat fd))
      (s.operateFile s.sched.getCurrentPCBIndex (UInt64.ofNat fd) .CLOSE 0).2.2 :=
    ⟨hfd'.trans_lt hfd, rfl⟩
  rw [hend.operateFile_close hreads.live (.inl hmine), hclose] at hstep
  refine ⟨_, _, hstep, .step (.close (UInt64.ofNat fd)) h.reachable ⟨trivial, hstep⟩, ?_, rfl,
    h.good⟩
  show s.numMQs - 1 = 0
  have hone : s.numMQs = 1 := UInt64.toNat_inj.mp h.numMQs
  rw [hone]
  rfl

/-- Terminated processes release their queues exactly when they have closed them: in every
    state of a well-behaved run no slot remembers a process that is gone, and a turn goes
    on with that if and only if nobody is removed with a queue open. -/
theorem released_iff_closed (h : (messaging.restrict WellBehaved).Reachable s) :
    s.NoneLeft ∧ ∀ currentRSP s', messaging.step s (.task (.nextProcess currentRSP)) s' →
      (Released s s' ↔ ∀ e, s.toTasks.Leaves e → ¬ s.HoldsQueue e) := by
  obtain ⟨hinv, hledger⟩ := ledger h
  refine ⟨hledger.noneLeft, ?_⟩
  intro currentRSP s' hstep
  constructor
  · intro hreleased e hl hholds
    exact not_released_of_holdsQueue hinv hledger hstep hl hholds hreleased
  · exact released_of_closed hinv hledger hstep

/-- The first process opens a queue, closes it and terminates. -/
theorem released_iff_closed_first_process : ∃ (s₀ s₁ s₂ s₃ : Kernel) (fd : UInt64) (e : Nat),
    (messaging.restrict WellBehaved).Reachable s₀ ∧ s₀.HoldsQueue e ∧
    messaging.step s₀ (.close fd) s₁ ∧ messaging.step s₁ (.task .finishProcess) s₂ ∧
    messaging.step s₂ (.task (.nextProcess NULL)) s₃ ∧ s₂.toTasks.Leaves e ∧
    Released s₂ s₃ := by
  obtain ⟨s₀, hs⟩ := stocked 1 (by decide)
  obtain ⟨fd, s₁, hclose, hreach₁, hnum, hsched, hgood⟩ := hs.closes
  obtain ⟨f, hqueue, -⟩ := hs.queue
  obtain ⟨s₂, s₃, hfinish, hreach₂, hstep, heq, hl⟩ :=
    only_terminates hreach₁ (hsched ▸ hqueue) (hsched ▸ hgood)
  obtain ⟨hinv, hledger⟩ := ledger hreach₂
  rw [hsched] at hl
  refine ⟨s₀, s₁, s₂, s₃, fd, _, hs.reachable, hs.holdsQueue, hclose, hfinish, hstep, hl,
    ((released_iff_closed hreach₂).2 NULL s₃ hstep).mpr ?_⟩
  intro e he
  apply not_holdsQueue_of_no_queue hinv hledger _ (hinv.leaves_occupied he).1
  rw [heq]
  exact hnum

/-- The first process opens a queue and terminates: the queue stays, open for nobody. -/
theorem terminated_holds_queue :
    ¬ ∀ s s' : Kernel, messaging.Reachable s →
      messaging.step s (.task (.nextProcess NULL)) s' → Released s s' := by
  intro h
  obtain ⟨s, hs⟩ := stocked 1 (by decide)
  obtain ⟨f, hqueue, -⟩ := hs.queue
  obtain ⟨s₁, s₂, -, hreach, hstep, rfl, hl⟩ := only_terminates hs.reachable hqueue hs.good
  obtain ⟨hinv, hledger⟩ := ledger hreach
  have hholds : HoldsQueue { s with toTasks := s.toTasks.finishProcess.2 }
      s.sched.getCurrentPCBIndex.toNat := hs.holdsQueue
  exact not_released_of_holdsQueue hinv hledger hstep hl hholds
    (h _ s₂ (System.Reachable.of_restrict hreach) hstep)

end Kernel

end TP2Kernel
