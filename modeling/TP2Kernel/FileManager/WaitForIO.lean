import TP2Kernel.FileManager.Operate

/-! # Reading and writing (`waitForIO` in `Kernel/c/scheduler.c`)

    `read` and `write` transfer byte after byte: a test whether the file is empty or full,
    and then the transfer.  Each is an `operateFile` of its own, and the process can be
    preempted between any two of them.

    A call in progress is a point of its loop with the values of its local variables.  A
    step also yields the byte it counts, if it counts one.
-/

namespace TP2Kernel

/-- The variables of `waitForIO`. -/
structure IOCall where
  current : Nat
  PCBIndex : UInt64
  fileDescriptor : UInt64
  blocking : Bool

/-- Where a call of `write` is, if there is one. -/
inductive Sending where
  | idle
  | test (call : IOCall) (buffer : List UInt8) (writtenData : Nat)
  | write (call : IOCall) (buffer : List UInt8) (writtenData : Nat)

/-- Where a call of `read` is, if there is one. -/
inductive Receiving where
  | idle
  | test (call : IOCall) (maxBytes readData : Nat)
  | read (call : IOCall) (maxBytes readData : Nat)

namespace Kernel

/-- The part of `waitForIO` before the loop; `none` when it fails. -/
def waitForIO (s : Kernel) (fileDescriptor : UInt64) : Option (IOCall × Kernel) :=
  match s.sched.current with
  | none => none
  | some current =>
    let PCBIndex := (s.sched.nodes current).PCBIndex
    if fileDescriptor > UInt64.ofNat MAX_FILES ∨ s.pcb.existsFile PCBIndex fileDescriptor = 0 then
      none
    else
      -- `read` and `write` block unless the descriptor has `F_NOBLOCK`
      let flags := s.pcb.getFileFlags s.sched.getCurrentPCBIndex fileDescriptor
      some (⟨current, PCBIndex, fileDescriptor, flags &&& F_NOBLOCK = 0⟩,
        { s with sched := s.sched.setState current .SLEPT })

/-- The variables with which process `current` enters the loop. -/
def ioCall (s : Kernel) (current : Nat) (fileDescriptor : UInt64) : IOCall where
  current := current
  PCBIndex := (s.sched.nodes current).PCBIndex
  fileDescriptor := fileDescriptor
  blocking :=
    (s.descriptor (s.sched.nodes current).PCBIndex fileDescriptor).flags &&& F_NOBLOCK = 0

/-- A process with the turn and an open descriptor comes to its loop. -/
theorem OpenEntry.waitForIO {s : Kernel} {fd : UInt64} {current : Nat}
    (h : s.OpenEntry (s.sched.nodes current).PCBIndex fd)
    (hcurrent : s.sched.current = some current) : s.waitForIO fd =
      some (s.ioCall current fd, { s with sched := s.sched.setState current .SLEPT }) := by
  have hindex : s.sched.getCurrentPCBIndex = (s.sched.nodes current).PCBIndex := by
    unfold Scheduler.getCurrentPCBIndex
    rw [hcurrent]
  have hflags : s.pcb.getFileFlags (s.sched.nodes current).PCBIndex fd =
      (s.descriptor (s.sched.nodes current).PCBIndex fd).flags := by
    simp only [Pcb.getFileFlags, h.good]
    rfl
  have hmax : ¬ fd > UInt64.ofNat MAX_FILES := fun hgt =>
    not_le_maxFiles h.lt (UInt64.le_of_lt hgt)
  have hpass : ¬ (fd > UInt64.ofNat MAX_FILES ∨
      s.pcb.existsFile (s.sched.nodes current).PCBIndex fd = 0) :=
    not_or.mpr ⟨hmax, h.existsFile⟩
  simp only [hcurrent, if_neg hpass, hindex, hflags, Kernel.waitForIO]
  rfl

/-- With the turn it comes there through that descriptor, and waits if the descriptor says
    so. -/
theorem OpenEntry.waits {s : Kernel} {k fd : UInt64} (h : s.OpenEntry k fd)
    (hturn : s.sched.getCurrentPCBIndex = k) (hk : k ≠ -1) :
    ∃ call sched, s.waitForIO fd = some (call, { s with sched := sched }) ∧
      call.PCBIndex = k ∧ call.fileDescriptor = fd ∧
      call.blocking = decide ((s.descriptor k fd).flags &&& F_NOBLOCK = 0) ∧
      sched.getCurrentPCBIndex = k := by
  subst hturn
  cases heq : s.sched.current with
  | none =>
    unfold Scheduler.getCurrentPCBIndex at hk
    rw [heq] at hk
    exact absurd rfl hk
  | some current =>
    have hindex : s.sched.getCurrentPCBIndex = (s.sched.nodes current).PCBIndex := by
      unfold Scheduler.getCurrentPCBIndex
      rw [heq]
    rw [hindex] at h ⊢
    refine ⟨_, _, h.waitForIO heq, rfl, rfl, rfl, ?_⟩
    rw [Scheduler.setState_getCurrentPCBIndex, hindex]

/-- The part after the loop. -/
def endWait (s : Kernel) (call : IOCall) : Kernel :=
  { s with sched := s.sched.setState call.current .RUNNING }

/-- The next step of `waitForOutput`. -/
def outputStep (s : Kernel) : Sending → Kernel × Sending × Option UInt8
  | .idle => (s, .idle, none)
  | .test call buffer writtenData =>
    if writtenData < buffer.length then
      match s.operateFile call.PCBIndex call.fileDescriptor .IS_FULL 0 with
      | (fileIsFull, _, s) =>
        if fileIsFull = 0 then
          -- a blocking call yields and tests again
          if call.blocking then (s, .test call buffer writtenData, none)
          else (s.endWait call, .idle, none)
        else (s, .write call buffer writtenData, none)
    else (s.endWait call, .idle, none)
  | .write call buffer writtenData =>
    let c := buffer.getD writtenData 0
    match s.operateFile call.PCBIndex call.fileDescriptor .WRITE c with
    | (result, _, s) =>
      if result = -1 then (s.endWait call, .idle, none)
      else (s, .test call buffer (writtenData + 1), some c)

/-- The next step of `waitForInput`. -/
def inputStep (s : Kernel) : Receiving → Kernel × Receiving × Option UInt8
  | .idle => (s, .idle, none)
  | .test call maxBytes readData =>
    if readData < maxBytes then
      match s.operateFile call.PCBIndex call.fileDescriptor .IS_EMPTY 0 with
      | (fileIsEmpty, _, s) =>
        if fileIsEmpty = 0 then
          if call.blocking then (s, .test call maxBytes readData, none)
          else (s.endWait call, .idle, none)
        else (s, .read call maxBytes readData, none)
    else (s.endWait call, .idle, none)
  | .read call maxBytes readData =>
    match s.operateFile call.PCBIndex call.fileDescriptor .READ 0 with
    | (result, c, s) =>
      if result = -1 then (s.endWait call, .idle, none)
      else if c = 10 ∧ s.pcb.getFileType call.PCBIndex call.fileDescriptor =
          FileType.STDIN_.code then
        -- a line of the standard input ends the call
        (s.endWait call, .idle, some c)
      else (s, .test call maxBytes (readData + 1), some c)

end Kernel

end TP2Kernel
