import TP2Kernel.MessageQueue.Occupancy

/-! # The table of message queues

    In well-behaved runs the number of queues, the links, the pids, the descriptors and
    the files agree in every state, and a name is looked up exactly.
-/

namespace TP2Kernel

open Transition Scheduler FileDescriptorsMap

namespace Kernel

/-- The number of descriptors, in all entries of the PCB, that point to slot `i`. -/
def descriptorsOf (s : Kernel) (i : Nat) : Nat :=
  ((Finset.range pcbEntries ×ˢ Finset.range MAX_FILES).filter fun p =>
    PointsTo ((s.pcb.entries p.1).fileDescriptors.entries p.2) i).card

structure QueueTable (s : Kernel) : Prop where
  numMQs : s.numMQs.toNat = Counting.count s.Live MAX_MQS
  names : ∀ i j, i < MAX_MQS → j < MAX_MQS → s.Live i → s.Live j → i ≠ j →
    s.nameOf i ≠ s.nameOf j
  files : ∀ i j, i < MAX_MQS → j < MAX_MQS → s.Live i → s.Live j → i ≠ j →
    (s.mqs i).file ≠ (s.mqs j).file
  linked : ∀ i, i < MAX_MQS → s.Live i → 1 ≤ (s.mqs i).links.toNat
  descriptors : ∀ i, i < MAX_MQS → s.Live i → (s.mqs i).links.toNat = s.descriptorsOf i
  ends : ∀ i, i < MAX_MQS → s.Live i → (s.mqs i).links.toNat = (s.mqs i).ends
  noDangling : ∀ e fd, e < pcbEntries → fd < MAX_FILES →
    ((s.pcb.entries e).fileDescriptors.entries fd).occupied ≠ 0 →
    ((s.pcb.entries e).fileDescriptors.entries fd).fileType = FileType.MESSAGE_QUEUE.code →
    ((s.pcb.entries e).fileDescriptors.entries fd).index.toNat < MAX_MQS ∧
      s.Live ((s.pcb.entries e).fileDescriptors.entries fd).index.toNat
  lookup : ∀ name i, s.indexOfMQ name = some i ↔ i < MAX_MQS ∧ s.Live i ∧ s.nameOf i = name

variable {s : Kernel} {i : Nat}

/-! ### Counting the descriptors -/

theorem descriptorsOf_eq_sum (s : Kernel) (i : Nat) : s.descriptorsOf i =
    ∑ e ∈ Finset.range pcbEntries, (s.pcb.entries e).fileDescriptors.links i :=
  Counting.card_product_filter
    (fun e fd => PointsTo ((s.pcb.entries e).fileDescriptors.entries fd) i) _ _

/-- One process has pid `p`, or nobody has it when `p` is none. -/
theorem LedgerInv.count_pid {entries : Nat → PcbEntry} {nextPid : UInt64}
    (h : PidsInv entries nextPid) {p : UInt64} (howner : p ≠ -1 → IsPid entries p) :
    Counting.count (fun e => (entries e).occupied ≠ 0 ∧ p = (entries e).pid) pcbEntries =
      if p ≠ -1 then 1 else 0 := by
  by_cases hp : p = -1
  · rw [if_neg (not_not.mpr hp), Counting.count_eq_zero_iff]
    intro e he h
    obtain ⟨ho, heq⟩ := h
    exact h.ne_none he ho (heq.symm.trans hp)
  · rw [if_pos hp]
    apply Nat.le_antisymm
    · apply Counting.count_le_one
      rintro e e' he he' ⟨ho, heq⟩ ⟨ho', heq'⟩
      exact h.distinct e e' he he' ho ho' (heq.symm.trans heq')
    · obtain ⟨e, he, ho, heq⟩ := howner hp
      exact Counting.count_pos_iff.mpr ⟨e, he, ho, heq.symm⟩

/-- The descriptors of a queue are as many as its open ends. -/
theorem Ledger.descriptorsOf_eq (h : s.Ledger) (hi : i < MAX_MQS) (hlive : s.Live i) :
    s.descriptorsOf i = (s.mqs i).ends := by
  have howner : ∀ p, 0 < (s.mqs i).held p → p ≠ -1 → IsPid s.pcb.entries p :=
    fun p hpos hp => h.owner i hi hlive p hp hpos
  have hread := LedgerInv.count_pid h.pids
    (howner (s.mqs i).readPID (MessageQueue.held_pos_iff.mpr (.inl rfl)))
  have hwrite := LedgerInv.count_pid h.pids
    (howner (s.mqs i).writePID (MessageQueue.held_pos_iff.mpr (.inr rfl)))
  rw [descriptorsOf_eq_sum]
  unfold MessageQueue.ends
  rw [← hread, ← hwrite]
  unfold Counting.count
  rw [Finset.card_filter, Finset.card_filter, ← Finset.sum_add_distrib]
  apply Finset.sum_congr rfl
  intro e he
  rw [h.share e i (Finset.mem_range.mp he) hi]
  have hfile : (s.mqs i).file ≠ none := hlive
  by_cases ho : (s.pcb.entries e).occupied = 0 <;>
    simp [MessageQueue.held, hfile, ho]

/-! ### The invariant -/

/-- In every state of a well-behaved run: no table overflows, nobody is removed with a queue
    open, and processes are created only while the pid counter is not at -1, which stands for
    no pid. -/
theorem queueTable_of_wellBehaved (h : (messaging.restrict WellBehaved).Reachable s) :
    s.QueueTable := by
  obtain ⟨hinv, hledger⟩ := ledger h
  refine ⟨hinv.slots.numMQs, ?_, ?_, ?_, ?_, hledger.links, ?_, hinv.slots.indexOfMQ_iff⟩
  · intro i j hi hj hli hlj hne heq
    exact hne (hinv.slots.nameOf_eq hi hj hli hlj heq)
  · intro i j hi hj hli _ hne heq
    obtain ⟨f, hf⟩ := Option.ne_none_iff_exists'.mp hli
    exact hne (hinv.slots.apart i j f hi hj hf (heq ▸ hf))
  · intro i hi hlive
    rw [hledger.links i hi hlive]
    exact hledger.isOpen i hi hlive
  · intro i hi hlive
    rw [hledger.descriptorsOf_eq hi hlive]
    exact hledger.links i hi hlive
  · intro e fd he hfd hocc htype
    have hlt := (hinv.tables e he).2 fd hfd hocc
    refine ⟨hlt, ?_⟩
    exact (hledger.held_of_links he hlt (links_pos_iff.mpr ⟨fd, hfd, hocc, htype, rfl⟩)).1

/-- The first process opens a queue. -/
theorem queueTable_of_wellBehaved_first_queue :
    ∃ s : Kernel, (messaging.restrict WellBehaved).Reachable s ∧
      (∃ i, i < MAX_MQS ∧ s.Live i) ∧ s.QueueTable := by
  obtain ⟨s, hs⟩ := stocked 1 (by decide)
  obtain ⟨i, hreads⟩ := hs.queues 0 (by decide)
  exact ⟨s, hs.reachable, ⟨i, hreads.lt, hreads.live⟩, queueTable_of_wellBehaved hs.reachable⟩

end Kernel

end TP2Kernel
