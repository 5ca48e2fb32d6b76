import TP2Kernel.Framework.LinkedRing
import TP2Kernel.Framework.RoundRobin
import TP2Kernel.Process.Outcome
import TP2Kernel.Scheduler.Queue

/-! # The ring stands for a queue

    `Scheduler.queue` reads the nodes off the ring; `RingInv s q` says that the ring,
    the bitmap of used nodes and the counter all agree that the queue is `q`.

    One lemma for each operation on the ring: attaching, detaching, rotating, marking as
    finished.  `nextProcessRecursive_swept` is the one for the removal of the finished
    nodes, which also destroys their processes.
-/

namespace TP2Kernel

namespace Scheduler

/-- The ring's successor function. -/
def next (s : Scheduler) (i : Nat) : Nat := (s.nodes i).next

/-- The nodes from `last->next` round to `last`. -/
def queue (s : Scheduler) : List Nat :=
  match s.last with
  | none => []
  | some last => LinkedRing.ringFrom s.next last (s.next last) MAX_PROCESSES

def isFinished (s : Scheduler) (i : Nat) : Bool := (s.nodes i).state = .FINISHED

/-- The queue as a round-robin queue of nodes. -/
def tasks (s : Scheduler) : List (RoundRobin.Task Nat) :=
  s.queue.map fun i => ⟨i, s.isFinished i⟩

/-- Ring, bitmap and counter agree that the queue is `q`. -/
structure RingInv (s : Scheduler) (q : List Nat) : Prop where
  ring : LinkedRing.Ring s.next s.last q
  used : ∀ i, i < MAX_PROCESSES → (s.usedNodes i = 1 ↔ i ∈ q)
  inBounds : ∀ i ∈ q, i < MAX_PROCESSES
  position : ∀ i ∈ q, (s.nodes i).index = UInt64.ofNat i
  count : s.processesQuantity.toNat = q.length

section
variable {s : Scheduler} {q : List Nat}

theorem RingInv.length_le (h : RingInv s q) : q.length ≤ MAX_PROCESSES := by
  have hsub : q ⊆ List.range MAX_PROCESSES := by
    intro i hi
    exact List.mem_range.mpr (h.inBounds i hi)
  have := (List.subperm_of_subset h.ring.nodup hsub).length_le
  rwa [List.length_range] at this

/-- The queue is determined by the ring. -/
theorem RingInv.queue_eq (h : RingInv s q) : s.queue = q := by
  cases hlast : s.last with
  | none => simp [queue, hlast, h.ring.last_eq_none_iff.mp hlast]
  | some l =>
    have hring := h.ring
    rw [hlast] at hring
    simpa [queue, hlast] using hring.ringFrom_eq h.length_le

theorem RingInv.last_eq_none_iff (h : RingInv s q) : s.last = none ↔ q = [] :=
  h.ring.last_eq_none_iff

/-- The node of the current process is the front of the queue. -/
theorem RingInv.current_eq (h : RingInv s q) (hrun : s.running = true) :
    s.current = q.head? := by
  cases hlast : s.last with
  | none => simp [current, hrun, hlast, h.last_eq_none_iff.mp hlast]
  | some l =>
    have hring := h.ring
    rw [hlast] at hring
    simp [current, hrun, hlast, hring.head?, next]

theorem RingInv.index_toNat (h : RingInv s q) {i : Nat} (hi : i ∈ q) :
    (s.nodes i).index.toNat = i := by
  rw [h.position i hi]
  refine UInt64.toNat_ofNat_of_lt' ?_
  have := h.inBounds i hi
  unfold MAX_PROCESSES at this
  show i < 2 ^ 64
  omega

/-! ### Empty ring -/

theorem ringInv_empty (hlast : s.last = none) (hcount : s.processesQuantity = 0)
    (hused : ∀ i, i < MAX_PROCESSES → s.usedNodes i = 0) : RingInv s [] where
  ring := by
    rw [hlast]
    rfl
  used i hi := by simp [hused i hi]
  inBounds := by simp
  position := by simp
  count := by simp [hcount]

/-! ### Reserving and attaching a node -/

/-- `getFreeNode` reserves an unused node, or finds all of them used. -/
theorem getFreeNode_cases (s : Scheduler) :
    (s.getFreeNode = (none, s) ∧ ∀ i, i < MAX_PROCESSES → s.usedNodes i = 1) ∨
    ∃ i, i < MAX_PROCESSES ∧ s.usedNodes i ≠ 1 ∧
      s.getFreeNode = (some i, { s with usedNodes := Function.update s.usedNodes i 1 }) := by
  by_cases hlt : Scan.scan (fun i => ¬ s.usedNodes i = 1) MAX_PROCESSES < MAX_PROCESSES
  · exact .inr ⟨_, hlt, Scan.scan_match hlt, if_pos hlt⟩
  · have hle := Scan.scan_le (p := fun i => ¬ s.usedNodes i = 1) MAX_PROCESSES
    have heq : Scan.scan (fun i => ¬ s.usedNodes i = 1) MAX_PROCESSES = MAX_PROCESSES := by
      omega
    refine .inl ⟨if_neg hlt, fun i hi => ?_⟩
    exact not_not.mp (Scan.scan_eq_iff_none.mp heq i hi)

section attach
variable (s) (i : Nat) (k : UInt64)

@[simp] theorem attachNode_last : (s.attachNode i k).last = some i := rfl
@[simp] theorem attachNode_usedNodes :
    (s.attachNode i k).usedNodes = Function.update s.usedNodes i 1 := rfl
@[simp] theorem attachNode_processesQuantity :
    (s.attachNode i k).processesQuantity = s.processesQuantity + 1 := rfl

theorem attachNode_self :
    (s.attachNode i k).nodes i =
      { PCBIndex := k, state := .RUNNING, index := UInt64.ofNat i
        next := if s.last.getD i = i then i else (s.nodes (s.last.getD i)).next } := by
  by_cases haux : s.last.getD i = i
  · simp [attachNode, setNode, haux]
  · simp [attachNode, setNode, haux, Ne.symm haux]

theorem attachNode_ne {j : Nat} (hj : j ≠ i) :
    (s.attachNode i k).nodes j =
      { s.nodes j with next := if j = s.last.getD i then i else (s.nodes j).next } := by
  by_cases haux : j = s.last.getD i
  · subst haux
    simp [attachNode, setNode, hj]
  · simp [attachNode, setNode, haux, hj]

@[simp] theorem attachNode_isFinished_self : (s.attachNode i k).isFinished i = false := by
  simp [isFinished, attachNode_self]

theorem attachNode_isFinished_ne {j : Nat} (hj : j ≠ i) :
    (s.attachNode i k).isFinished j = s.isFinished j := by
  simp [isFinished, attachNode_ne s i k hj]

end attach

/-- Attaching a node that is not in use appends it to the queue. -/
theorem RingInv.attachNode (h : RingInv s q) {i : Nat} (hi : i < MAX_PROCESSES)
    (hnew : i ∉ q) (k : UInt64) : RingInv (s.attachNode i k) (q ++ [i]) where
  ring := by
    have hring := h.ring
    -- the first node is a ring by itself; a later one comes after the last
    cases hlast : s.last with
    | none =>
      have hq : q = [] := h.last_eq_none_iff.mp hlast
      subst hq
      exact LinkedRing.Ring.singleton (by simp [next, attachNode_self, hlast])
    | some l =>
      rw [hlast] at hring
      have hl : l ∈ q := List.mem_of_getLast? hring.getLast?
      have hli : l ≠ i := fun hli => hnew (hli ▸ hl)
      refine hring.append hnew ?_ ?_ ?_
      · simp [next, attachNode_self, hlast, hli]
      · simp [next, attachNode_ne s i k hli, hlast]
      · intro x hx hxl
        have hxi : x ≠ i := fun hxi => hnew (hxi ▸ hx)
        simp [next, attachNode_ne s i k hxi, hlast, hxl]
  used j hj := by
    by_cases hji : j = i
    · simp [hji]
    · simp [hji, h.used j hj]
  inBounds j hj := by
    rcases List.mem_append.mp hj with hj | hj
    · exact h.inBounds j hj
    · rwa [List.mem_singleton.mp hj]
  position j hj := by
    by_cases hji : j = i
    · simp [hji, attachNode_self]
    · have hj' : j ∈ q := by simpa [hji] using hj
      rw [attachNode_ne s i k hji]
      exact h.position j hj'
  count := by
    have hlt := h.length_le
    unfold MAX_PROCESSES at hlt
    rw [attachNode_processesQuantity, Word.uint64_toNat_succ (by rw [h.count]; omega),
      h.count, List.length_append, List.length_singleton]

/-! ### Marking, rotating and detaching -/

/-- Writes to nodes that keep `next` and `index` do not change the queue. -/
theorem RingInv.congr_nodes (h : RingInv s q) {nodes : Nat → Node}
    (hnext : ∀ i ∈ q, (nodes i).next = (s.nodes i).next)
    (hindex : ∀ i ∈ q, (nodes i).index = (s.nodes i).index) :
    RingInv { s with nodes := nodes } q where
  ring := h.ring.congr hnext
  used := h.used
  inBounds := h.inBounds
  position i hi := (hindex i hi).trans (h.position i hi)
  count := h.count

/-- The tail pointer moves on: the front goes to the back. -/
theorem RingInv.rotate {i : Nat} (h : RingInv s (i :: q)) :
    RingInv { s with last := some i } (q ++ [i]) := by
  have hring : LinkedRing.Ring s.next (some i) (q ++ [i]) := by
    cases hlast : s.last with
    | none => exact absurd (h.last_eq_none_iff.mp hlast) (by simp)
    | some l =>
      have hring := h.ring
      rw [hlast] at hring
      exact hring.advance
  have hmem : ∀ j, j ∈ q ++ [i] ↔ j ∈ i :: q := by
    intro j
    simp [or_comm]
  refine ⟨hring, fun j hj => (h.used j hj).trans (hmem j).symm,
    fun j hj => h.inBounds j ((hmem j).mp hj), fun j hj => h.position j ((hmem j).mp hj), ?_⟩
  simpa using h.count

/-- What `dequeueProcess` leaves of the scheduler. -/
def dequeued (s : Scheduler) (last : Nat) : Scheduler :=
  { (s.detachNode last).2 with
    processesQuantity := (s.detachNode last).2.processesQuantity - 1 }

section detach
variable (s) (l : Nat)

@[simp] theorem dequeued_running : (s.dequeued l).running = s.running := by
  simp only [dequeued, detachNode]
  split <;> rfl

@[simp] theorem dequeued_firstIteration :
    (s.dequeued l).firstIteration = s.firstIteration := by
  simp only [dequeued, detachNode]
  split <;> rfl

@[simp] theorem dequeued_returnToKernelRSP :
    (s.dequeued l).returnToKernelRSP = s.returnToKernelRSP := by
  simp only [dequeued, detachNode]
  split <;> rfl

@[simp] theorem dequeued_PCBIndex (j : Nat) :
    ((s.dequeued l).nodes j).PCBIndex = (s.nodes j).PCBIndex := by
  by_cases hjl : j = l <;> simp only [dequeued, detachNode] <;> split <;>
    simp [setNode, hjl]

@[simp] theorem dequeued_state (j : Nat) :
    ((s.dequeued l).nodes j).state = (s.nodes j).state := by
  by_cases hjl : j = l <;> simp only [dequeued, detachNode] <;> split <;>
    simp [setNode, hjl]

@[simp] theorem dequeued_index (j : Nat) :
    ((s.dequeued l).nodes j).index = (s.nodes j).index := by
  by_cases hjl : j = l <;> simp only [dequeued, detachNode] <;> split <;>
    simp [setNode, hjl]

@[simp] theorem dequeued_isFinished (j : Nat) :
    (s.dequeued l).isFinished j = s.isFinished j := by
  simp [isFinished]

end detach

/-- Dequeueing takes the front off the queue. -/
theorem RingInv.dequeued {f l : Nat} (h : RingInv s (f :: q)) (hlast : s.last = some l) :
    (s.nodes l).next = f ∧ RingInv (s.dequeued l) q := by
  have hring := h.ring
  rw [hlast] at hring
  have hfront : (s.nodes l).next = f := by
    have := hring.head?
    simpa [next] using this.symm
  have hnd := List.nodup_cons.mp hring.nodup
  -- the index in the node is its place, so the right bit is cleared
  have hindex : (s.nodes f).index.toNat = f := h.index_toNat (by simp)
  have hused : (s.dequeued l).usedNodes = Function.update s.usedNodes f 0 := by
    simp only [Scheduler.dequeued, detachNode, hfront, hindex]
    split <;> rfl
  have hquantity : (s.dequeued l).processesQuantity = s.processesQuantity - 1 := by
    simp only [Scheduler.dequeued, detachNode]
    split <;> rfl
  refine ⟨hfront, ?_, ?_, fun i hi => h.inBounds i (List.mem_cons_of_mem f hi), ?_, ?_⟩
  -- the last node leaves an empty ring
  · by_cases hfl : l = f
    · subst hfl
      obtain rfl := hring.eq_nil_of_head_eq_last
      have hnone : (s.dequeued l).last = none := by
        simp [Scheduler.dequeued, detachNode, hfront]
      rw [hnone]
      rfl
    · have hsome : (s.dequeued l).last = some l := by
        simp [Scheduler.dequeued, detachNode, hfront, hfl, hlast]
      rw [hsome]
      refine hring.unlink (Ne.symm hfl) ?_ ?_
      · simp [next, Scheduler.dequeued, detachNode, hfront, hfl]
      · intro x hx hxl
        simp [next, Scheduler.dequeued, detachNode, hfront, hfl, setNode, hxl]
  · intro i hi
    by_cases hif : i = f
    · simp [hused, hif, hnd.1]
    · simp [hused, hif, h.used i hi]
  · intro i hi
    rw [dequeued_index]
    exact h.position i (List.mem_cons_of_mem f hi)
  · have hpos : 0 < s.processesQuantity.toNat := by
      rw [h.count]
      simp
    rw [hquantity, Word.uint64_toNat_pred hpos, h.count]
    simp

end

end Scheduler

end TP2Kernel
