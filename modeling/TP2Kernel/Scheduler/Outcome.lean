import TP2Kernel.Scheduler.Ring

/-! # What the calls of the scheduler can do

    `addProcess`, `finishProcess` and `nextProcess`, each with the results it can have and
    the state it leaves.  The runs of the scheduler are reasoned about with these only.
-/

namespace TP2Kernel

namespace Tasks

open Scheduler

/-! ### addProcess -/

/-- The results of `addProcess`.  `PCBIndex < 0` is false of any unsigned number, so the
    node is attached whatever `createProcess` reports. -/
inductive Added (t : Tasks) (a : ProcessParams) : Int → Tasks → Prop where
  | noNode : (∀ i, i < MAX_PROCESSES → t.sched.usedNodes i = 1) → Added t a (-1) t
  | ok (i : Nat) (k : UInt64) (m : Machine) : i < MAX_PROCESSES →
      t.sched.usedNodes i ≠ 1 → t.toMachine.createProcess a = some (k, m) →
      Added t a
        (if (m.pcb.getProcessPID k).toInt64.toInt < 0 then -1
          else (m.pcb.getProcessPID k).toInt64.toInt)
        { toMachine := m, sched := t.sched.attachNode i k }

theorem addProcess_added {t t' : Tasks} {a : ProcessParams} {r : Int}
    (h : t.addProcess a = some (r, t')) : Added t a r t' := by
  unfold addProcess enqueueProcess at h
  obtain ⟨hnone, hfull⟩ | ⟨i, hi, hfree, hsome⟩ := t.sched.getFreeNode_cases
  · obtain ⟨rfl, rfl⟩ : -1 = r ∧ t = t' := by simpa [hnone] using h
    exact .noNode hfull
  · simp only [hsome] at h
    cases hc : t.toMachine.createProcess a with
    | none => simp [hc] at h
    | some result =>
      obtain ⟨k, m⟩ := result
      have hk : ¬ k < 0 := by
        rw [UInt64.lt_iff_toNat_lt]
        simp
      have hattach : ({ t.sched with
          usedNodes := Function.update t.sched.usedNodes i 1 } : Scheduler).attachNode i k =
            t.sched.attachNode i k := by
        simp [attachNode, setNode]
      simp only [hc, if_neg hk, hattach] at h
      split at h
      · next hpid =>
        obtain ⟨rfl, rfl⟩ := Prod.mk.inj (Option.some.inj h)
        have := Added.ok i k m hi hfree hc
        rwa [if_pos hpid] at this
      · next hpid =>
        obtain ⟨rfl, rfl⟩ := Prod.mk.inj (Option.some.inj h)
        have := Added.ok i k m hi hfree hc
        rwa [if_neg hpid] at this

/-- `addProcess` returns when `createProcess` does. -/
theorem addProcess_isSome {t : Tasks} {a : ProcessParams}
    (h : ∃ k m, t.toMachine.createProcess a = some (k, m)) :
    ∃ r t', t.addProcess a = some (r, t') := by
  obtain ⟨k, m, hc⟩ := h
  have henqueue : ∃ r t', t.enqueueProcess a = some (r, t') := by
    unfold enqueueProcess
    obtain ⟨hnone, -⟩ | ⟨i, -, -, hsome⟩ := t.sched.getFreeNode_cases
    · exact ⟨-1, t, by rw [hnone]⟩
    · simp only [hsome, hc]
      split <;> exact ⟨_, _, rfl⟩
  obtain ⟨r, t', henq⟩ := henqueue
  unfold addProcess
  rw [henq]
  by_cases hr : r < 0
  · exact ⟨-1, t', by simp [hr]⟩
  · exact ⟨r, t', by simp [hr]⟩

/-! ### finishProcess -/

/-- The front is marked; nothing else is written. -/
theorem finishProcess_eq {t : Tasks} {f : Nat} {q : List Nat}
    (h : RingInv t.sched (f :: q)) (hrun : t.sched.running = true) :
    t.finishProcess =
      (0, { t with
        sched := t.sched.setNode f { t.sched.nodes f with state := .FINISHED } }) := by
  have hcur : t.sched.current = some f := h.current_eq hrun
  simp [finishProcess, Scheduler.finishProcess, hcur]

theorem finishProcess_empty {t : Tasks} (h : RingInv t.sched []) :
    t.finishProcess = (-1, t) := by
  have hlast : t.sched.last = none := h.last_eq_none_iff.mpr rfl
  simp [finishProcess, Scheduler.finishProcess, current, hlast]

theorem finishProcess_pcb (t : Tasks) : t.finishProcess.2.pcb = t.pcb := rfl

theorem RingInv.finish {s : Scheduler} {q : List Nat} (h : RingInv s q) (f : Nat) :
    RingInv (s.setNode f { s.nodes f with state := .FINISHED }) q := by
  refine h.congr_nodes ?_ ?_ <;>
  · intro i _
    by_cases hif : i = f <;> simp [hif]

/-! ### The removal of the finished nodes -/

/-- The state after the finished nodes at the front of `q` are gone. -/
structure Swept (t : Tasks) (q : List Nat) (t' : Tasks) : Prop where
  ring : RingInv t'.sched (q.dropWhile t.sched.isFinished)
  machine : t'.toMachine = t.toMachine.withoutProcesses
    ((q.takeWhile t.sched.isFinished).map fun i => (t.sched.nodes i).PCBIndex)
  pcbIndex : ∀ i, (t'.sched.nodes i).PCBIndex = (t.sched.nodes i).PCBIndex
  state : ∀ i, (t'.sched.nodes i).state = (t.sched.nodes i).state
  running : t'.sched.running = t.sched.running
  firstIteration : t'.sched.firstIteration = t.sched.firstIteration
  returnToKernelRSP : t'.sched.returnToKernelRSP = t.sched.returnToKernelRSP

/-- The stack pointer `nextProcessRecursive` ends with: the front's, or the kernel's when
    nobody is left. -/
def answer (t : Tasks) (q : List Nat) : Addr :=
  match q with
  | [] => t.sched.returnToKernelRSP
  | f :: _ => t.pcb.getProcessStack (t.sched.nodes f).PCBIndex

/-- The processes of the nodes in `q` have no heap. -/
def NoHeap (t : Tasks) (q : List Nat) : Prop :=
  ∀ i ∈ q, t.pcb.badIndex (t.sched.nodes i).PCBIndex = false →
    (t.pcb.process (t.sched.nodes i).PCBIndex).heapPage = NULL

/-- `dequeueProcess` on a non-empty ring. -/
theorem dequeueProcess_eq {t : Tasks} {f : Nat} {q : List Nat}
    (h : RingInv t.sched (f :: q)) (hheap : t.NoHeap (f :: q)) :
    ∃ l, t.sched.last = some l ∧ t.dequeueProcess = some (0,
      { toMachine := t.toMachine.withoutProcess (t.sched.nodes f).PCBIndex
        sched := t.sched.dequeued l }) := by
  cases hlast : t.sched.last with
  | none => exact absurd (h.last_eq_none_iff.mp hlast) (by simp)
  | some l =>
    refine ⟨l, rfl, ?_⟩
    obtain ⟨hfront, -⟩ := h.dequeued hlast
    have hdetached : (t.sched.detachNode l).1.PCBIndex = (t.sched.nodes f).PCBIndex := by
      have := t.sched.dequeued_PCBIndex l f
      simpa [detachNode, hfront, Scheduler.dequeued] using this
    obtain ⟨r, hdestroy⟩ := Machine.destroyProcess_of_no_heap (hheap f (by simp))
    simp only [dequeueProcess, hlast, hdetached, hdestroy]
    rfl

/-- The front `f` of the ring behind `l` is gone, and its process with it. -/
def withoutFront (t : Tasks) (f l : Nat) : Tasks where
  toMachine := t.toMachine.withoutProcess (t.sched.nodes f).PCBIndex
  sched := t.sched.dequeued l

section withoutFront
variable (t : Tasks) (f l : Nat)

theorem withoutFront_toMachine : (t.withoutFront f l).toMachine =
    t.toMachine.withoutProcess (t.sched.nodes f).PCBIndex := rfl

@[simp] theorem withoutFront_sched : (t.withoutFront f l).sched = t.sched.dequeued l := rfl

theorem withoutFront_isFinished :
    (t.withoutFront f l).sched.isFinished = t.sched.isFinished := by
  funext i
  simp

end withoutFront

theorem NoHeap.withoutFront {t : Tasks} {f : Nat} {r : List Nat} (h : t.NoHeap (f :: r))
    (l : Nat) : (t.withoutFront f l).NoHeap r := by
  intro i hi hbad
  rw [withoutFront_sched, dequeued_PCBIndex] at hbad ⊢
  rw [Pcb.process, withoutFront_toMachine, Machine.withoutProcess_entries]
  split
  · rfl
  · refine h i (List.mem_cons_of_mem f hi) ?_
    rwa [withoutFront_toMachine, Machine.withoutProcess_badIndex] at hbad

/-- A finished front is removed, and the recursion goes on unless it was the last one. -/
theorem nextProcessRecursive_finished {t : Tasks} {f : Nat} {r : List Nat}
    (h : RingInv t.sched (f :: r)) (hheap : t.NoHeap (f :: r))
    (hfin : t.sched.isFinished f = true) (fuel : Nat) :
    ∃ l, (t.sched.nodes l).next = f ∧ RingInv (t.withoutFront f l).sched r ∧
      t.nextProcessRecursive (fuel + 1) =
        if r = [] then some ((t.withoutFront f l).sched.returnToKernelRSP, t.withoutFront f l)
        else (t.withoutFront f l).nextProcessRecursive fuel := by
  obtain ⟨l, hlast, hdequeue⟩ := dequeueProcess_eq h hheap
  obtain ⟨hfront, hring⟩ := h.dequeued hlast
  have hring' : RingInv (t.withoutFront f l).sched r := hring
  refine ⟨l, hfront, hring', ?_⟩
  have hdequeue : t.dequeueProcess = some (0, t.withoutFront f l) := hdequeue
  have hstate : (t.sched.nodes f).state = .FINISHED := by
    simpa [isFinished] using hfin
  rw [nextProcessRecursive]
  simp only [hlast, hfront, hstate, if_true, hdequeue, hring'.last_eq_none_iff]

/-- A front that has not finished has the turn. -/
theorem nextProcessRecursive_unfinished {t : Tasks} {f : Nat} {r : List Nat}
    (h : RingInv t.sched (f :: r)) (hfin : ¬ t.sched.isFinished f = true) (fuel : Nat) :
    t.nextProcessRecursive (fuel + 1) =
      some (t.pcb.getProcessStack (t.sched.nodes f).PCBIndex, t) := by
  have hstate : (t.sched.nodes f).state ≠ .FINISHED := by
    simpa [isFinished] using hfin
  cases hlast : t.sched.last with
  | none => exact absurd (h.last_eq_none_iff.mp hlast) (by simp)
  | some l =>
    rw [nextProcessRecursive]
    simp [hlast, (h.dequeued hlast).1, hstate]

/-- The recursion ends, and removes exactly the finished nodes at the front. -/
theorem nextProcessRecursive_swept {q : List Nat} {t : Tasks} {fuel : Nat}
    (h : RingInv t.sched q) (hq : q ≠ []) (hfuel : q.length ≤ fuel) (hheap : t.NoHeap q) :
    ∃ t', t.nextProcessRecursive fuel =
        some (t'.answer (q.dropWhile t.sched.isFinished), t') ∧ Swept t q t' := by
  induction q generalizing t fuel with
  | nil => exact absurd rfl hq
  | cons f r ih =>
    obtain ⟨fuel, rfl⟩ : ∃ k, fuel = k + 1 := ⟨fuel - 1, by simp at hfuel; omega⟩
    by_cases hfin : t.sched.isFinished f = true
    · obtain ⟨l, -, hring₁, hstep⟩ := nextProcessRecursive_finished h hheap hfin fuel
      -- the state after the front is dequeued
      obtain ⟨t₁, ht₁⟩ : ∃ t₁ : Tasks, t₁ = t.withoutFront f l := ⟨_, rfl⟩
      rw [← ht₁] at hring₁ hstep
      have hsame : t₁.sched.isFinished = t.sched.isFinished := by
        rw [ht₁, withoutFront_isFinished]
      have hmachine : t₁.toMachine =
          t.toMachine.withoutProcess (t.sched.nodes f).PCBIndex := by
        rw [ht₁, withoutFront_toMachine]
      have hindex : ∀ i, (t₁.sched.nodes i).PCBIndex = (t.sched.nodes i).PCBIndex := by
        intro i
        rw [ht₁, withoutFront_sched, dequeued_PCBIndex]
      by_cases hr : r = []
      · subst hr
        refine ⟨t₁, by simp [hstep, hfin, answer], ?_⟩
        have hring : RingInv (t.sched.dequeued l) [] := by
          rw [ht₁] at hring₁
          exact hring₁
        constructor <;> simp [hfin, hring, ht₁, withoutFront_toMachine]
      · have hheap₁ : t₁.NoHeap r := by
          rw [ht₁]
          exact hheap.withoutFront l
        obtain ⟨t', hrec, hswept⟩ := ih hring₁ hr (by simpa using hfuel) hheap₁
        refine ⟨t', ?_, ?_⟩
        · rw [hstep, if_neg hr, hrec, hsame, List.dropWhile_cons_of_pos hfin]
        · refine ⟨?_, ?_, fun i => ?_, fun i => ?_, ?_, ?_, ?_⟩
          · simpa [hfin, hsame] using hswept.ring
          · simpa [hfin, hsame, hmachine, hindex] using hswept.machine
          · rw [hswept.pcbIndex, hindex]
          · rw [hswept.state, ht₁]
            exact t.sched.dequeued_state l i
          · rw [hswept.running, ht₁]
            exact t.sched.dequeued_running l
          · rw [hswept.firstIteration, ht₁]
            exact t.sched.dequeued_firstIteration l
          · rw [hswept.returnToKernelRSP, ht₁]
            exact t.sched.dequeued_returnToKernelRSP l
    · refine ⟨t, ?_, ?_⟩
      · rw [nextProcessRecursive_unfinished h hfin]
        simp [hfin, answer]
      · constructor <;> simp [hfin, h]

/-! ### nextProcess -/

section rotate
variable (t : Tasks) (f : Nat) (rsp : Addr)

@[simp] theorem rotate_nodes : (t.rotate f rsp).sched.nodes = t.sched.nodes := by
  unfold rotate
  split <;> rfl

@[simp] theorem rotate_isFinished :
    (t.rotate f rsp).sched.isFinished = t.sched.isFinished := by
  funext i
  simp [isFinished]

@[simp] theorem rotate_running : (t.rotate f rsp).sched.running = t.sched.running := by
  unfold rotate
  split <;> rfl

@[simp] theorem rotate_firstIteration : (t.rotate f rsp).sched.firstIteration = false := by
  unfold rotate
  split
  · next h => simpa using h
  · rfl

@[simp] theorem rotate_mem : (t.rotate f rsp).mem = t.mem := by
  unfold rotate
  split <;> rfl

@[simp] theorem rotate_pages : (t.rotate f rsp).pages = t.pages := by
  unfold rotate
  split <;> rfl

theorem rotate_pcb : (t.rotate f rsp).pcb =
    if t.sched.firstIteration then t.pcb
    else (t.pcb.setProcessStack (t.sched.nodes f).PCBIndex rsp).2 := by
  unfold rotate
  split <;> simp_all

@[simp] theorem rotate_badIndex (k : UInt64) :
    (t.rotate f rsp).pcb.badIndex k = t.pcb.badIndex k := by
  rw [rotate_pcb]
  split <;> simp

/-- The stack pointer goes to the front's process, except on the first iteration. -/
theorem rotate_entries (i : Nat) : (t.rotate f rsp).pcb.entries i =
    if t.sched.firstIteration = false ∧
        t.pcb.badIndex (t.sched.nodes f).PCBIndex = false ∧
        (t.sched.nodes f).PCBIndex.toNat = i then
      { t.pcb.entries i with stack := rsp }
    else t.pcb.entries i := by
  rw [rotate_pcb]
  by_cases hfirst : t.sched.firstIteration = true
  · simp [hfirst]
  · simp only [hfirst, Bool.false_eq_true, if_false, Pcb.setProcessStack_entries, true_and]

@[simp] theorem rotate_heapPage (i : Nat) :
    ((t.rotate f rsp).pcb.entries i).heapPage = (t.pcb.entries i).heapPage := by
  rw [rotate_entries]
  split <;> rfl

@[simp] theorem rotate_stackPage (i : Nat) :
    ((t.rotate f rsp).pcb.entries i).stackPage = (t.pcb.entries i).stackPage := by
  rw [rotate_entries]
  split <;> rfl

@[simp] theorem rotate_occupied (i : Nat) :
    ((t.rotate f rsp).pcb.entries i).occupied = (t.pcb.entries i).occupied := by
  rw [rotate_entries]
  split <;> rfl

@[simp] theorem rotate_pid (i : Nat) :
    ((t.rotate f rsp).pcb.entries i).pid = (t.pcb.entries i).pid := by
  rw [rotate_entries]
  split <;> rfl

@[simp] theorem rotate_fileDescriptors (i : Nat) :
    ((t.rotate f rsp).pcb.entries i).fileDescriptors = (t.pcb.entries i).fileDescriptors := by
  rw [rotate_entries]
  split <;> rfl

end rotate

theorem RingInv.rotated {t : Tasks} {f : Nat} {q : List Nat} (h : RingInv t.sched (f :: q))
    (rsp : Addr) : RingInv (t.rotate f rsp).sched (q ++ [f]) := by
  have hrot := RingInv.rotate h
  unfold Tasks.rotate
  split
  · exact hrot
  · exact ⟨hrot.ring, hrot.used, hrot.inBounds, hrot.position, hrot.count⟩

/-- `nextProcess` on a non-empty queue: the front's stack is saved, the front goes to the
    back, and the finished nodes then in front leave. -/
theorem nextProcess_swept {t : Tasks} {f : Nat} {q : List Nat} (rsp : Addr)
    (h : RingInv t.sched (f :: q)) (hrun : t.sched.running = true)
    (hheap : t.NoHeap (f :: q)) :
    ∃ t', t.nextProcess rsp =
        some (t'.answer ((q ++ [f]).dropWhile t.sched.isFinished), t') ∧
      Swept (t.rotate f rsp) (q ++ [f]) t' := by
  have hheap' : (t.rotate f rsp).NoHeap (q ++ [f]) := by
    intro i hi hbad
    have hi' : i ∈ f :: q := by simpa [or_comm] using hi
    rw [rotate_nodes] at hbad ⊢
    rw [rotate_badIndex] at hbad
    rw [Pcb.process, rotate_heapPage]
    exact hheap i hi' hbad
  have hbound : (q ++ [f]).length ≤ walkBound := by
    have := h.length_le
    unfold MAX_PROCESSES at this
    unfold walkBound
    simp at this ⊢
    omega
  obtain ⟨t', hrec, hswept⟩ := nextProcessRecursive_swept (RingInv.rotated h rsp) (by simp)
    hbound hheap'
  refine ⟨t', ?_, hswept⟩
  rw [nextProcess, h.current_eq hrun]
  simpa using hrec

theorem nextProcess_empty {t : Tasks} {rsp : Addr} (h : RingInv t.sched []) :
    t.nextProcess rsp = some (t.sched.returnToKernelRSP, t) := by
  have hlast : t.sched.last = none := h.last_eq_none_iff.mpr rfl
  simp [nextProcess, current, hlast]

end Tasks

end TP2Kernel
