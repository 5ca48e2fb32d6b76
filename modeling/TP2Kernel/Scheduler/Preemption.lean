import TP2Kernel.Scheduler.Runs

/-! # Preemption

    The timer can take the turn away from a process between any two of its steps.  All
    that the process can notice is that others had the turn: while nobody terminates,
    `nextProcess` moves the ring and saves a stack pointer, and that is all.
-/

namespace TP2Kernel

/-- Somebody else may have the turn now, and stack pointers were saved. -/
structure Preempted (t t' : Tasks) : Prop where
  mem : t'.mem = t.mem
  pages : t'.pages = t.pages
  pcb : t'.pcb.pcb = t.pcb.pcb
  maxProcesses : t'.pcb.maxProcesses = t.pcb.maxProcesses
  nextPid : t'.pcb.nextPid = t.pcb.nextPid
  entries : ∀ i, ∃ stack, t'.pcb.entries i = { t.pcb.entries i with stack := stack }

variable {t t' : Tasks}

/-- The scheduler's own step is one. -/
theorem nextProcess_preempted {q : List Nat} {currentRSP rsp : Addr} (h : TaskInv t q)
    (hnext : t.nextProcess currentRSP = some (rsp, t'))
    (hrunning : ∀ i ∈ q, t.sched.isFinished i = false) : Preempted t t' := by
  cases q with
  | nil =>
    rw [Tasks.nextProcess_empty h.ring] at hnext
    obtain ⟨-, rfl⟩ := Prod.mk.inj (Option.some.inj hnext)
    exact ⟨rfl, rfl, rfl, rfl, rfl, fun i => ⟨_, rfl⟩⟩
  | cons f q =>
    have hturn := nextProcess_inv h hnext
    have hent := nextProcess_entries h hnext
    -- nobody is taken off the ring
    have hnone : (q ++ [f]).takeWhile t.sched.isFinished = [] := by
      have hhead : ∀ l : List Nat, (∀ i ∈ l, t.sched.isFinished i = false) →
          l.takeWhile t.sched.isFinished = [] := by
        intro l hl
        cases l with
        | nil => rfl
        | cons i l => simp [hl i List.mem_cons_self]
      apply hhead
      intro i hi
      apply hrunning
      simpa [or_comm] using hi
    have hmachine := hturn.machine
    rw [hnone, List.map_nil, Machine.withoutProcesses_nil] at hmachine
    refine ⟨?_, ?_, ?_, ?_, hturn.nextPid, ?_⟩
    · rw [hmachine, Tasks.rotate_mem]
    · rw [hmachine, Tasks.rotate_pages]
    · rw [hmachine, Tasks.rotate_pcb]
      split
      · rfl
      · rw [Pcb.setProcessStack_pcb]
    · rw [hturn.inv.maxProcesses, h.maxProcesses]
    · intro i
      apply hent.stays
      intro h
      obtain ⟨n, hn, -⟩ := h
      rw [h.queue_eq, List.rotate_cons_succ, List.rotate_zero, hnone] at hn
      exact absurd hn List.not_mem_nil

namespace Preempted

theorem badIndex (h : Preempted t t') (k : UInt64) : t'.pcb.badIndex k = t.pcb.badIndex k := by
  unfold Pcb.badIndex
  rw [h.pcb, h.maxProcesses]

theorem fileDescriptors (h : Preempted t t') (i : Nat) :
    (t'.pcb.entries i).fileDescriptors = (t.pcb.entries i).fileDescriptors := by
  obtain ⟨stack, heq⟩ := h.entries i
  rw [heq]

theorem getProcessPID (h : Preempted t t') (k : UInt64) :
    t'.pcb.getProcessPID k = t.pcb.getProcessPID k := by
  obtain ⟨stack, heq⟩ := h.entries k.toNat
  simp only [Pcb.getProcessPID, h.badIndex, Pcb.process, heq]

end Preempted

end TP2Kernel
