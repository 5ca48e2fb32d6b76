import TP2Kernel.FileManager.Calls
import TP2Kernel.MessageQueue.Occupancy

/-! # Two processes and a queue

    The first process of the system opens a queue for reading and another process is
    added, which gets the turn.
-/

namespace TP2Kernel

open Transition Scheduler

namespace Kernel

/-- Process `r` reads queue `i`, and `w` has the turn and no queue. -/
structure Company (s : Kernel) (r w : UInt64) (i : Nat) : Prop
    extends Reads s r i (queueName 0) where
  reachable : (messaging.restrict WellBehaved).Reachable s
  turn : s.sched.getCurrentPCBIndex = w
  otherTurn : ∃ sched : Scheduler, sched.getCurrentPCBIndex = r
  goodR : s.pcb.badIndex r = false
  goodW : s.pcb.badIndex w = false
  pids : s.pcb.getProcessPID w ≠ s.pcb.getProcessPID r
  fileDescriptors : (s.pcb.process w).fileDescriptors = standardFiles

theorem Company.available {s : Kernel} {r w : UInt64} {i : Nat} (h : Company s r w i) :
    (s.mqs i).Available F_WRITE := by
  unfold MessageQueue.Available
  rw [if_neg (by decide)]
  exact ⟨by decide, h.writePID⟩

theorem Company.room {s : Kernel} {r w : UInt64} {i : Nat} (h : Company s r w i) :
    ¬ s.NoDescriptor := by
  intro h
  rcases h with hbad | hfull
  · rw [h.turn, h.goodW] at hbad
    cases hbad
  · rw [h.turn, h.fileDescriptors] at hfull
    exact absurd hfull (by decide)

/-- The process with the turn has a node. -/
theorem Company.current {s : Kernel} {r w : UInt64} {i : Nat} (h : Company s r w i) :
    ∃ current, s.sched.current = some current ∧ (s.sched.nodes current).PCBIndex = w := by
  obtain ⟨hinv, -⟩ := ledger h.reachable
  have hgood : s.pcb.badIndex s.sched.getCurrentPCBIndex = false := by
    rw [h.turn]
    exact h.goodW
  obtain ⟨current, hcurrent⟩ :=
    Option.ne_none_iff_exists'.mp (hinv.tasks.current_of_good hgood)
  refine ⟨current, hcurrent, ?_⟩
  rw [← h.turn]
  unfold Scheduler.getCurrentPCBIndex
  rw [hcurrent]

/-- It has its standard files. -/
theorem Company.standard {s : Kernel} {r w : UInt64} {i : Nat} (h : Company s r w i) :
    ∃ current, s.sched.current = some current ∧
      s.TypedEntry (s.sched.nodes current).PCBIndex 0 .STDIN_ F_READ ∧
      s.TypedEntry (s.sched.nodes current).PCBIndex 1 .STDOUT_ F_WRITE ∧
      (s.descriptor (s.sched.nodes current).PCBIndex 1).flags &&& F_NOBLOCK = 0 := by
  obtain ⟨current, hcurrent, hw⟩ := h.current
  have hentry : ∀ fd, s.descriptor w fd = standardFiles.entries fd.toNat := by
    intro fd
    unfold descriptor
    rw [h.fileDescriptors]
  refine ⟨current, hcurrent, ?_, ?_, ?_⟩ <;> rw [hw]
  · refine ⟨⟨h.goodW, by decide, ?_⟩, ?_, ?_⟩ <;> rw [hentry] <;> decide
  · refine ⟨⟨h.goodW, by decide, ?_⟩, ?_, ?_⟩ <;> rw [hentry] <;> decide
  · rw [hentry]
    decide

theorem Stocked.room {s : Kernel} (h : Stocked s 1) : Room s.toTasks := by
  refine ⟨?_, h.free⟩
  rw [h.pages]
  exact ⟨rfl, by decide, PageStack.pageAddress_ne_null (by decide)⟩

theorem getProcessPID_eq {p : Pcb} {k : UInt64} (h : p.badIndex k = false) :
    p.getProcessPID k = (p.process k).pid := by
  simp [Pcb.getProcessPID, h]

/-- There is such a state. -/
theorem company : ∃ s r w i, Company s r w i := by
  obtain ⟨s, hs⟩ := stocked 1 (by decide)
  obtain ⟨hinv, hledger⟩ := ledger hs.reachable
  obtain ⟨f, hqueue, hfin⟩ := hs.queue
  have htasks : TaskInv s.toTasks [f] := hqueue ▸ hinv.tasks
  have hcur := (htasks.getCurrentPCBIndex_eq).2
  obtain ⟨hcurlt, hocc⟩ := hinv.tasks.current_entry hs.good
  have hgood := hs.good
  rw [hcur] at hcurlt hocc hgood
  have hfirst : Resident s.toTasks f (s.pcb.process (s.sched.nodes f).PCBIndex).pid 2 :=
    ⟨hgood, hfin, rfl, hs.nextPid⟩
  -- it sets up `argv`; then the second process joins and gets the turn
  have hrest : AtRest s { s with toTasks := s.toTasks.withNullArgument } :=
    ⟨fun _ => rfl, rfl, rfl, rfl, fun _ => ⟨_, _, rfl⟩, fun _ _ => rfl⟩
  have hreach₀ : (messaging.restrict WellBehaved).Reachable
      { s with toTasks := s.toTasks.withNullArgument } :=
    .step (.task .other) hs.reachable ⟨trivial, elsewhere_withNullArgument s.toTasks, hrest⟩
  have htasks₀ := taskInv_elsewhere htasks (elsewhere_withNullArgument s.toTasks)
  obtain ⟨r₁, t₁, g, hadd, -, hjoin, -, hnew⟩ := room_addProcess hs.room.withNullArgument htasks₀
    (show 1 < MAX_PROCESSES by decide) (a := ⟨0, NULL, NULL, 1, NULL⟩) rfl
  have hcan := hs.room.withNullArgument.canCreate htasks₀ (a := ⟨0, NULL, NULL, 1, NULL⟩) rfl
  have hreach₁ : (messaging.restrict WellBehaved).Reachable { s with toTasks := t₁ } :=
    .step (.task (.addProcess _)) hreach₀
      ⟨by show s.pcb.nextPid ≠ -1; rw [hs.nextPid]; decide,
        ⟨frameFits_withNullArgument s.toTasks, r₁, hadd⟩, rfl⟩
  have hfirst₁ := hfirst.withNullArgument.joined List.mem_cons_self hjoin hcan
  obtain ⟨rsp, t₂, hnext, hinv₂, hturn, hq₂, -⟩ :=
    two_nextProcess hjoin.inv hnew.isFinished NULL
  have hfirst₂ := hfirst₁.turn hturn (by rw [hq₂]; simp)
  have hnew₂ := hnew.turn hturn (by rw [hq₂]; simp)
  have hreach₂ : (messaging.restrict WellBehaved).Reachable { s with toTasks := t₂ } := by
    refine .step (.task (.nextProcess NULL)) hreach₁ ⟨?_, ⟨rsp, hnext⟩, rfl⟩
    intro e h
    obtain ⟨n, hn, -⟩ := h
    have hqueue₁ : t₁.sched.queue = [f, g] := hjoin.inv.queue_eq
    rw [hqueue₁] at hn
    simp [hnew.isFinished] at hn
  obtain ⟨i, hreads⟩ := hs.queues 0 Nat.one_pos
  have hreads₂ : Reads { s with toTasks := t₂ } (t₂.sched.nodes f).PCBIndex i (queueName 0) := by
    rw [hcur] at hreads
    refine hreads.congr (fun _ _ => rfl) rfl ?_ ?_
    · show t₂.pcb.getProcessPID _ = _
      rw [getProcessPID_eq hfirst₂.good, hfirst₂.pid, getProcessPID_eq hgood]
    · intro fd _
      have hmem : f ∈ nextQueue t₁.sched [f, g] := by
        rw [hq₂]
        simp
      have hfds : (t₂.pcb.process (t₂.sched.nodes f).PCBIndex).fileDescriptors =
          (s.pcb.process (s.sched.nodes f).PCBIndex).fileDescriptors := by
        rw [hturn.pcbIndex, hturn.process f hmem hfirst₁.good, Pcb.process,
          Tasks.rotate_fileDescriptors, ← Pcb.process, (hjoin.kept f List.mem_cons_self).1,
          hjoin.process hcan List.mem_cons_self hgood]
        rfl
      show (t₂.pcb.process _).fileDescriptors.entries fd = _
      rw [hfds]
  refine ⟨{ s with toTasks := t₂ }, (t₂.sched.nodes f).PCBIndex, (t₂.sched.nodes g).PCBIndex,
    i, hreads₂, hreach₂, (hinv₂.getCurrentPCBIndex_eq).2, ⟨t₁.sched, ?_⟩, hfirst₂.good,
    hnew₂.good, ?_, ?_⟩
  · rw [(hjoin.inv.getCurrentPCBIndex_eq).2, hturn.pcbIndex]
  · -- the pid of the second is the next one, which the first does not have
    show t₂.pcb.getProcessPID _ ≠ t₂.pcb.getProcessPID _
    rw [getProcessPID_eq hnew₂.good, getProcessPID_eq hfirst₂.good, hnew₂.pid, hfirst₂.pid]
    intro heq
    have hbound := (LedgerInv.pids hledger).bounds _ hcurlt hocc
    have hlt : (s.pcb.process (s.sched.nodes f).PCBIndex).pid.toNat < s.pcb.nextPid.toNat :=
      hbound.2
    rw [← heq] at hlt
    exact Nat.lt_irrefl _ hlt
  · have hmem : g ∈ nextQueue t₁.sched [f, g] := by
      rw [hq₂]
      exact List.mem_cons_self
    obtain ⟨mem, sp, -, hentry⟩ := hjoin.entry
    show (t₂.pcb.process (t₂.sched.nodes g).PCBIndex).fileDescriptors = standardFiles
    rw [hturn.pcbIndex, hturn.process g hmem hnew.good, Pcb.process,
      Tasks.rotate_fileDescriptors]
    show (t₁.pcb.process (t₁.sched.nodes g).PCBIndex).fileDescriptors = standardFiles
    rw [hjoin.pcbIndex, hentry]
    rfl

end Kernel

end TP2Kernel
