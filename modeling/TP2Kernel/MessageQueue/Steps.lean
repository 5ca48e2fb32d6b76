import TP2Kernel.MessageQueue.Table

/-! # `MQopen` and `MQclose` in steps

    System calls run with interrupts enabled (`int80Handler`), so a call can be
    interrupted between any two of its steps and another call run on.  `openMutex` keeps
    two opens apart and `closeMutex` two closes, but nothing keeps an open and a close
    apart.

    A call in progress is a point of its code with the values of its local variables.  Run
    without interruption, the steps do what the functions of `MessageQueue.Table` do.
-/

namespace TP2Kernel

/-- The kernel with the two mutexes of `mq.c`. -/
structure Queues where
  kernel : Kernel
  openMutex : UInt8
  closeMutex : UInt8

/-- Where a call of `MQclose` is. -/
inductive Closing where
  | lock
  | test
  | clear
  | unlink
  | destroy
  | unlock (result : Int)
  | done (result : Int)
  deriving DecidableEq

/-- Where a call of `MQopen` is. -/
inductive Opening where
  | check
  | lock
  | lookup
  | search
  | create (tableIndex : Nat)
  | mark (tableIndex : Nat)
  | add (tableIndex : Nat)
  | link (tableIndex MQdescriptor : Nat)
  | undo (tableIndex : Nat) (closing : Closing)
  | unlock (result : Int)
  | done (result : Int)
  deriving DecidableEq

namespace Queues

def setMQ (s : Queues) (i : Nat) (q : MessageQueue) : Queues :=
  { s with kernel := s.kernel.setMQ i q }

/-- The next step of `MQclose(tableIndex)` by the current process. -/
def closeStep (tableIndex : Nat) (s : Queues) : Closing → Queues × Closing
  | .lock =>
    -- `mutex_lock` yields and tries again while the mutex is taken
    if s.closeMutex = 1 then (s, .lock) else ({ s with closeMutex := 1 }, .test)
  | .test => if (s.kernel.mqs tableIndex).file = none then (s, .unlock (-1)) else (s, .clear)
  | .clear =>
    let q := s.kernel.mqs tableIndex
    let pid := s.kernel.getCurrentPID
    if q.readPID = pid then (s.setMQ tableIndex { q with readPID := -1 }, .unlink)
    else if q.writePID = pid then (s.setMQ tableIndex { q with writePID := -1 }, .unlink)
    else (s, .unlock (-1))
  | .unlink =>
    let q := s.kernel.mqs tableIndex
    if q.links > 0 then (s.setMQ tableIndex { q with links := q.links - 1 }, .destroy)
    else (s, .destroy)
  | .destroy =>
    if (s.kernel.mqs tableIndex).links = 0 then
      match s.kernel.destroyMQ tableIndex with
      | (destroyResult, kernel) =>
        ({ s with kernel := kernel }, .unlock (if destroyResult = 0 then -1 else destroyResult))
    else (s, .unlock 0)
  | .unlock result => ({ s with closeMutex := 0 }, .done result)
  | .done result => (s, .done result)

/-- The next step of `MQopen(name, accessFlags)` by the current process. -/
def openStep (name : CString) (accessFlags : UInt32) (s : Queues) : Opening → Queues × Opening
  | .check =>
    if accessFlags &&& F_READ = 0 ∧ accessFlags &&& F_WRITE = 0 then (s, .done (-1))
    else (s, .lock)
  | .lock => if s.openMutex = 1 then (s, .lock) else ({ s with openMutex := 1 }, .lookup)
  | .lookup =>
    match s.kernel.indexOfMQ name with
    | none => (s, .search)
    | some tableIndex => (s, .mark tableIndex)
  | .search =>
    match s.kernel.findFreeSlot with
    | none => (s, .unlock (-1))
    | some tableIndex => (s, .create tableIndex)
  | .create tableIndex =>
    match s.kernel.newMQ name tableIndex accessFlags with
    | (code, kernel) =>
      ({ s with kernel := kernel }, if code = -1 then .unlock (-1) else .add tableIndex)
  | .mark tableIndex =>
    match s.kernel.markAccess tableIndex s.kernel.getCurrentPID accessFlags with
    | (code, kernel) =>
      ({ s with kernel := kernel }, if code = -1 then .unlock (-1) else .add tableIndex)
  | .add tableIndex =>
    match s.kernel.pcb.addFile s.kernel.sched.getCurrentPCBIndex (UInt32.ofNat tableIndex)
        .MESSAGE_QUEUE accessFlags with
    | (none, pcb) =>
      ({ s with kernel := { s.kernel with pcb := pcb } }, .undo tableIndex .lock)
    | (some MQdescriptor, pcb) =>
      ({ s with kernel := { s.kernel with pcb := pcb } }, .link tableIndex MQdescriptor)
  | .link tableIndex MQdescriptor =>
    let q := s.kernel.mqs tableIndex
    (s.setMQ tableIndex { q with links := q.links + 1 }, .unlock MQdescriptor)
  | .undo _ (.done _) => (s, .unlock (-1))
  | .undo tableIndex closing =>
    match s.closeStep tableIndex closing with
    | (s, closing) => (s, .undo tableIndex closing)
  | .unlock result => ({ s with openMutex := 0 }, .done result)
  | .done result => (s, .done result)

/-! ### Without interruption -/

/-- `n` steps of `MQclose` in a row. -/
def closeSteps (tableIndex n : Nat) (c : Queues × Closing) : Queues × Closing :=
  (fun c => closeStep tableIndex c.1 c.2)^[n] c

/-- `n` steps of `MQopen` in a row. -/
def openSteps (name : CString) (accessFlags : UInt32) (n : Nat) (c : Queues × Opening) :
    Queues × Opening :=
  (fun c => openStep name accessFlags c.1 c.2)^[n] c

variable {s : Queues} {name : CString} {accessFlags : UInt32}

theorem closeSteps_succ (tableIndex n : Nat) (c : Queues × Closing) :
    closeSteps tableIndex (n + 1) c = closeSteps tableIndex n (closeStep tableIndex c.1 c.2) :=
  rfl

theorem openSteps_succ (n : Nat) (c : Queues × Opening) : openSteps name accessFlags (n + 1) c =
    openSteps name accessFlags n (openStep name accessFlags c.1 c.2) :=
  rfl

theorem closeSteps_done (tableIndex n : Nat) (s : Queues) (result : Int) :
    closeSteps tableIndex n (s, .done result) = (s, .done result) := by
  induction n with
  | zero => rfl
  | succ n ih => exact ih

theorem openSteps_done (n : Nat) (s : Queues) (result : Int) :
    openSteps name accessFlags n (s, .done result) = (s, .done result) := by
  induction n with
  | zero => rfl
  | succ n ih => exact ih

theorem setMQ_self (k : Kernel) (i : Nat) : k.setMQ i (k.mqs i) = k := by
  simp [Kernel.setMQ]

/-- The part of `MQclose` that takes a link away. -/
theorem closeSteps_unlink (i : Nat) (s : Queues) {q : MessageQueue}
    (hq : q = if (s.kernel.mqs i).links > 0 then
      { s.kernel.mqs i with links := (s.kernel.mqs i).links - 1 } else s.kernel.mqs i) :
    closeSteps i 3 (s, .unlink) =
      if q.links = 0 then
        ({ s with kernel := ((s.kernel.setMQ i q).destroyMQ i).2, closeMutex := 0 },
          .done (if ((s.kernel.setMQ i q).destroyMQ i).1 = 0 then -1
            else ((s.kernel.setMQ i q).destroyMQ i).1))
      else ({ s with kernel := s.kernel.setMQ i q, closeMutex := 0 }, .done 0) := by
  have hstep : closeStep i s .unlink = (s.setMQ i q, .destroy) := by
    by_cases hlinks : (s.kernel.mqs i).links > 0
    · rw [if_pos hlinks] at hq
      simp only [closeStep, if_pos hlinks, hq]
    · rw [if_neg hlinks] at hq
      simp only [closeStep, if_neg hlinks, hq, setMQ, setMQ_self]
  have hslot : ((s.setMQ i q).kernel.mqs i) = q := Function.update_self _ _ _
  rw [closeSteps_succ, hstep, closeSteps_succ]
  simp only [closeStep, hslot]
  by_cases hzero : q.links = 0
  · rw [if_pos hzero, if_pos hzero]
    rfl
  · rw [if_neg hzero, if_neg hzero]
    rfl

/-- `MQclose` from its first step to its last. -/
theorem closeSteps_MQclose (i : Nat) (hmutex : s.closeMutex = 0) :
    closeSteps i 6 (s, .lock) =
      ({ s with kernel := (s.kernel.MQclose i).2 }, .done (s.kernel.MQclose i).1) := by
  obtain ⟨k, openMutex, closeMutex⟩ := s
  obtain rfl : closeMutex = 0 := hmutex
  have hfree : ¬ (0 : UInt8) = 1 := by decide
  by_cases hfile : (k.mqs i).file = none
  · simp [hfile, hfree, closeStep, closeSteps, Kernel.MQclose]
  have htest : closeSteps i 6 (⟨k, openMutex, 0⟩, .lock) =
      closeSteps i 4 (⟨k, openMutex, 1⟩, .clear) := by
    simp only [closeSteps_succ, closeStep, if_neg hfree, if_neg hfile]
  -- from the slot without the pid on
  have hrest : ∀ q : MessageQueue,
      closeStep i ⟨k, openMutex, 1⟩ .clear = (⟨k.setMQ i q, openMutex, 1⟩, .unlink) →
      closeSteps i 4 (⟨k, openMutex, 1⟩, .clear) =
        closeSteps i 3 (⟨k.setMQ i q, openMutex, 1⟩, .unlink) := by
    intro q hclear
    rw [closeSteps_succ, hclear]
  have hslot : ∀ q : MessageQueue, (k.setMQ i q).mqs i = q :=
    fun q => Function.update_self _ _ _
  have hidem : ∀ q q' : MessageQueue, (k.setMQ i q).setMQ i q' = k.setMQ i q' := by
    intro q q'
    simp [Kernel.setMQ]
  rw [htest]
  by_cases hread : (k.mqs i).readPID = k.getCurrentPID
  · have hmine : ¬ ((k.mqs i).readPID ≠ k.getCurrentPID ∧
        (k.mqs i).writePID ≠ k.getCurrentPID) := fun hno => hno.1 hread
    rw [hrest { k.mqs i with readPID := -1 } (by simp [closeStep, hread, setMQ]),
      closeSteps_unlink i _ rfl]
    simp only [hslot, hidem, Kernel.MQclose, if_neg hfile, if_neg hmine, if_pos hread]
    by_cases hlinks : (k.mqs i).links > 0 <;> simp only [hlinks, if_true, if_false] <;>
      split <;> rfl
  by_cases hwrite : (k.mqs i).writePID = k.getCurrentPID
  · have hmine : ¬ ((k.mqs i).readPID ≠ k.getCurrentPID ∧
        (k.mqs i).writePID ≠ k.getCurrentPID) := fun hno => hno.2 hwrite
    rw [hrest { k.mqs i with writePID := -1 } (by simp [closeStep, hread, hwrite, setMQ]),
      closeSteps_unlink i _ rfl]
    simp only [hslot, hidem, Kernel.MQclose, if_neg hfile, if_neg hmine, if_neg hread]
    by_cases hlinks : (k.mqs i).links > 0 <;> simp only [hlinks, if_true, if_false] <;>
      split <;> rfl
  · simp [closeSteps, closeStep, Kernel.MQclose, hfile, hread, hwrite]

theorem openStep_undo (i : Nat) (s : Queues) {closing : Closing}
    (hnot : ∀ result, closing ≠ .done result) :
    openStep name accessFlags s (.undo i closing) =
      ((closeStep i s closing).1, .undo i (closeStep i s closing).2) := by
  cases closing with
  | done result => exact absurd rfl (hnot result)
  | lock | test | clear | unlink | destroy | unlock => rfl

/-- The rollback of an open follows `MQclose` to its end and fails. -/
theorem openSteps_undo {i n : Nat} {s s' : Queues} {closing : Closing} {result : Int}
    (h : closeSteps i n (s, closing) = (s', .done result)) :
    openSteps name accessFlags (n + 2) (s, .undo i closing) =
      ({ s' with openMutex := 0 }, .done (-1)) := by
  induction n generalizing s closing with
  | zero =>
    obtain ⟨rfl, rfl⟩ := Prod.mk.inj h
    rfl
  | succ n ih =>
    by_cases hdone : ∃ r, closing = .done r
    · obtain ⟨r, rfl⟩ := hdone
      rw [closeSteps_done] at h
      obtain ⟨rfl, -⟩ := Prod.mk.inj h
      exact openSteps_done (n + 1) _ _
    · rw [openSteps_succ, openStep_undo i s (fun r hr => hdone ⟨r, hr⟩)]
      exact ih h

/-- From the slot on, `MQopen` registers it. -/
theorem openSteps_registerMQ (i : Nat) (k : Kernel) :
    openSteps name accessFlags 9 (⟨k, 1, 0⟩, .add i) =
      (⟨(k.registerMQ i accessFlags).2, 0, 0⟩, .done (k.registerMQ i accessFlags).1) := by
  rcases hadd : k.pcb.addFile k.sched.getCurrentPCBIndex (UInt32.ofNat i) .MESSAGE_QUEUE
    accessFlags with ⟨_ | fd, pcb⟩
  · have hclose := closeSteps_MQclose (s := ⟨{ k with pcb := pcb }, 1, 0⟩) i rfl
    have hundo : openSteps name accessFlags 8 _ = _ := openSteps_undo hclose
    simp only [openSteps_succ 8, openStep, hadd, Kernel.registerMQ]
    exact hundo
  · simp only [openSteps_succ 8, openStep, hadd, Kernel.registerMQ]
    rw [openSteps_succ, openSteps_succ]
    exact openSteps_done 6 _ _

/-- `MQopen` from its first step to its last. -/
theorem openSteps_MQopen (hopen : s.openMutex = 0) (hclose : s.closeMutex = 0) :
    openSteps name accessFlags 14 (s, .check) =
      ({ s with kernel := (s.kernel.MQopen (some name) accessFlags).2 },
        .done (s.kernel.MQopen (some name) accessFlags).1) := by
  obtain ⟨k, openMutex, closeMutex⟩ := s
  obtain rfl : openMutex = 0 := hopen
  obtain rfl : closeMutex = 0 := hclose
  have hfree : ¬ (0 : UInt8) = 1 := by decide
  by_cases hmode : accessFlags &&& F_READ = 0 ∧ accessFlags &&& F_WRITE = 0
  · simp only [openSteps_succ 13, openStep, if_pos hmode, Kernel.MQopen]
    exact openSteps_done 13 _ _
  have hlookup : openSteps name accessFlags 14 (⟨k, 0, 0⟩, .check) =
      openSteps name accessFlags 12 (⟨k, 1, 0⟩, .lookup) := by
    simp only [openSteps_succ 13, openSteps_succ 12, openStep, if_neg hmode, if_neg hfree]
  -- with a slot, the rest is `registerMQ`, and some steps to spare
  have hregister : ∀ n i k', openSteps name accessFlags (9 + n) (⟨k', 1, 0⟩, .add i) =
      (⟨(k'.registerMQ i accessFlags).2, 0, 0⟩, .done (k'.registerMQ i accessFlags).1) := by
    intro n i k'
    have hadd : openSteps name accessFlags (9 + n) (⟨k', 1, 0⟩, .add i) =
        openSteps name accessFlags n (openSteps name accessFlags 9 (⟨k', 1, 0⟩, .add i)) := by
      rw [Nat.add_comm]
      exact Function.iterate_add_apply _ n 9 _
    rw [hadd, openSteps_registerMQ, openSteps_done]
  rw [hlookup]
  simp only [Kernel.MQopen, if_neg hmode, Kernel.obtainMQ]
  cases hindex : k.indexOfMQ name with
  | some i =>
    rcases hmark : k.markAccess i k.getCurrentPID accessFlags with ⟨code, k'⟩
    simp only [openSteps_succ 11, openSteps_succ 10, openStep, hindex, hmark]
    by_cases hcode : code = -1
    · simp only [if_pos hcode]
      exact openSteps_done 9 _ _
    · simp only [if_neg hcode]
      exact hregister 1 i k'
  | none =>
    cases hslot : k.findFreeSlot with
    | none =>
      simp only [openSteps_succ 11, openSteps_succ 10, openStep, hindex, hslot]
      exact openSteps_done 9 _ _
    | some i =>
      rcases hnew : k.newMQ name i accessFlags with ⟨code, k'⟩
      simp only [openSteps_succ 11, openSteps_succ 10, openSteps_succ 9, openStep, hindex,
        hslot, hnew]
      by_cases hcode : code = -1
      · simp only [if_pos hcode]
        exact openSteps_done 8 _ _
      · simp only [if_neg hcode]
        exact hregister 0 i k'

end Queues

end TP2Kernel
