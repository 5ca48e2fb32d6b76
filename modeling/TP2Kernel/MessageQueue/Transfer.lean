import TP2Kernel.FileManager.WaitForIO
import TP2Kernel.MessageQueue.Operations
import TP2Kernel.Scheduler.Preemption

/-! # From one process to another through a message queue

    One process writes to a message queue and another one reads from it, in any number of
    calls.  Their steps interleave in any order; each is taken by the process that has the
    turn.

    Between the test and the transfer the other process can run on, but it only makes the
    transfer easier: only the writer fills the queue, and only the reader empties it.
-/

namespace TP2Kernel

open Transition Kernel

/-- Who writes and who reads, with which descriptors of which queue. -/
structure Channel where
  slot : Nat
  writerIndex : UInt64
  writerFd : UInt64
  readerIndex : UInt64
  readerFd : UInt64

/-- The two processes, with the bytes counted as sent and as received. -/
structure Transfer where
  kernel : Kernel
  sending : Sending
  receiving : Receiving
  sent : List UInt8
  received : List UInt8

inductive TransferAction where
  | write (buffer : List UInt8)
  | writer
  | read (maxBytes : Nat)
  | reader
  | preempt

namespace Channel

variable (c : Channel)

/-- The queue is open at both ends. -/
structure Open (k : Kernel) : Prop where
  writer : k.EndAt c.writerIndex c.writerFd c.slot
  reader : k.EndAt c.readerIndex c.readerFd c.slot
  writeFlag : (k.descriptor c.writerIndex c.writerFd).flags &&& F_WRITE ≠ 0
  readFlag : (k.descriptor c.readerIndex c.readerFd).flags &&& F_READ ≠ 0
  writePID : (k.mqs c.slot).writePID = k.pcb.getProcessPID c.writerIndex
  readPID : (k.mqs c.slot).readPID = k.pcb.getProcessPID c.readerIndex

/-- The queue, open at both ends, holds `l`. -/
structure Carries (k : Kernel) (l : List UInt8) : Prop where
  isOpen : c.Open k
  file : ∃ f, (k.mqs c.slot).file = some f ∧ k.files.Contents k.mem f PAGE_SIZE.toNat l

/-- No call is in progress.  What lies in the queue already counts as sent. -/
structure Start (s : Transfer) : Prop where
  sending : s.sending = .idle
  receiving : s.receiving = .idle
  received : s.received = []
  carries : c.Carries s.kernel s.sent

/-- The calls of the two processes, interleaved. -/
def transfer : System Transfer TransferAction where
  init := c.Start
  step := fun s action s' =>
    match action with
    | .write buffer => s.kernel.sched.getCurrentPCBIndex = c.writerIndex ∧
        s.sending = .idle ∧
        match s.kernel.waitForIO c.writerFd with
        | none => s' = s
        | some (call, k) => s' = { s with kernel := k, sending := .test call buffer 0 }
    | .writer => s.kernel.sched.getCurrentPCBIndex = c.writerIndex ∧
        s' = { s with
          kernel := (s.kernel.outputStep s.sending).1
          sending := (s.kernel.outputStep s.sending).2.1
          sent := s.sent ++ (s.kernel.outputStep s.sending).2.2.toList }
    | .read maxBytes => s.kernel.sched.getCurrentPCBIndex = c.readerIndex ∧
        s.receiving = .idle ∧
        match s.kernel.waitForIO c.readerFd with
        | none => s' = s
        | some (call, k) => s' = { s with kernel := k, receiving := .test call maxBytes 0 }
    | .reader => s.kernel.sched.getCurrentPCBIndex = c.readerIndex ∧
        s' = { s with
          kernel := (s.kernel.inputStep s.receiving).1
          receiving := (s.kernel.inputStep s.receiving).2.1
          received := s.received ++ (s.kernel.inputStep s.receiving).2.2.toList }
    | .preempt => ∃ t, Preempted s.kernel.toTasks t ∧
        s' = { s with kernel := { s.kernel with toTasks := t } }

end Channel

/-! ### The invariant -/

/-- The call goes through descriptor `fd` of process `k`. -/
def IOCall.Through (call : IOCall) (k fd : UInt64) : Prop :=
  call.PCBIndex = k ∧ call.fileDescriptor = fd

namespace Channel

variable (c : Channel)

/-- Past its test, the writer finds room for a byte. -/
def SendingInv (l : List UInt8) : Sending → Prop
  | .idle => True
  | .test call _ _ => call.Through c.writerIndex c.writerFd
  | .write call _ _ => call.Through c.writerIndex c.writerFd ∧ l.length + 1 < PAGE_SIZE.toNat

/-- Past its test, the reader finds a byte. -/
def ReceivingInv (l : List UInt8) : Receiving → Prop
  | .idle => True
  | .test call _ _ => call.Through c.readerIndex c.readerFd
  | .read call _ _ => call.Through c.readerIndex c.readerFd ∧ l ≠ []

variable {c} {k k' : Kernel} {l l' : List UInt8}

/-! ### What a step does not disturb -/

theorem SendingInv.mono {p : Sending} (h : c.SendingInv l p) (hle : l'.length ≤ l.length) :
    c.SendingInv l' p := by
  cases p with
  | idle => trivial
  | test call buffer writtenData => exact h
  | write call buffer writtenData => exact ⟨h.1, Nat.lt_of_le_of_lt (Nat.succ_le_succ hle) h.2⟩

theorem ReceivingInv.mono {p : Receiving} (h : c.ReceivingInv l p) (hne : l ≠ [] → l' ≠ []) :
    c.ReceivingInv l' p := by
  cases p with
  | idle => trivial
  | test call maxBytes readData => exact h
  | read call maxBytes readData => exact ⟨h.1, hne h.2⟩

/-- Only descriptors, pids and the slot matter. -/
theorem Open.congr (h : c.Open k) (hbad : ∀ e, k'.pcb.badIndex e = k.pcb.badIndex e)
    (hentry : ∀ e fd, k'.descriptor e fd = k.descriptor e fd)
    (hpid : ∀ e, k'.pcb.getProcessPID e = k.pcb.getProcessPID e)
    (hmq : k'.mqs c.slot = k.mqs c.slot) : c.Open k' := by
  refine ⟨h.writer.congr (hbad _) (hentry _ _), h.reader.congr (hbad _) (hentry _ _), ?_, ?_,
    ?_, ?_⟩
  · rw [hentry]
    exact h.writeFlag
  · rw [hentry]
    exact h.readFlag
  · rw [hmq, hpid]
    exact h.writePID
  · rw [hmq, hpid]
    exact h.readPID

/-- Who has the turn does not matter, nor what state the processes are in. -/
theorem Carries.withSched (h : c.Carries k l) (sched : Scheduler) :
    c.Carries { k with sched := sched } l :=
  ⟨h.isOpen.congr (fun _ => rfl) (fun _ _ => rfl) (fun _ => rfl) rfl, h.file⟩

theorem Carries.endWait (h : c.Carries k l) (call : IOCall) : c.Carries (k.endWait call) l :=
  h.withSched _

theorem Carries.preempted (h : c.Carries k l) {t : Tasks} (hpre : Preempted k.toTasks t) :
    c.Carries { k with toTasks := t } l := by
  constructor
  · apply h.isOpen.congr
    · exact hpre.badIndex
    · intro e fd
      show (t.pcb.entries e.toNat).fileDescriptors.entries fd.toNat = _
      rw [hpre.fileDescriptors]
      rfl
    · exact hpre.getProcessPID
    · rfl
  · show ∃ f, _ ∧ k.files.Contents t.mem f _ l
    rw [hpre.mem]
    exact h.file

/-- A transfer leaves both ends as they are. -/
theorem Carries.transferred (h : c.Carries k l) {f : Nat} {files : FilesTable} {mem : Memory}
    (hfile : (k.mqs c.slot).file = some f)
    (hl' : files.Contents mem f PAGE_SIZE.toNat l') :
    c.Carries { k with files := files, mem := mem } l' :=
  ⟨h.isOpen.congr (fun _ => rfl) (fun _ _ => rfl) (fun _ => rfl) rfl, f, hfile, hl'⟩

/-- With the turn, the writer may write. -/
theorem Open.mayWrite (h : c.Open k) (hturn : k.sched.getCurrentPCBIndex = c.writerIndex) :
    k.MayWrite c.writerIndex c.writerFd c.slot := by
  constructor
  · exact h.writer.openEntry.hasPermissions_iff.1.mpr h.writeFlag
  · rw [h.writePID, ← hturn]
    rfl

theorem Open.mayRead (h : c.Open k) (hturn : k.sched.getCurrentPCBIndex = c.readerIndex) :
    k.MayRead c.readerIndex c.readerFd c.slot := by
  constructor
  · exact h.reader.openEntry.hasPermissions_iff.2.mpr h.readFlag
  · rw [h.readPID, ← hturn]
    rfl

/-- Both `read` and `write` begin by looking the descriptor up. -/
theorem waitForIO_eq {fd : UInt64} {call : IOCall} (h : k.waitForIO fd = some (call, k')) :
    call.Through k.sched.getCurrentPCBIndex fd ∧
    ∃ sched : Scheduler, k' = { k with sched := sched } := by
  unfold Kernel.waitForIO at h
  cases hcur : k.sched.current with
  | none =>
    rw [hcur] at h
    cases h
  | some current =>
    rw [hcur] at h
    simp only at h
    split at h
    · cases h
    · obtain ⟨hcall, hk⟩ := Prod.mk.inj (Option.some.inj h)
      refine ⟨?_, _, hk.symm⟩
      rw [← hcall]
      refine ⟨?_, rfl⟩
      unfold Scheduler.getCurrentPCBIndex
      rw [hcur]

/-! ### The steps -/

/-- A `write` whose descriptor is found comes to its first test. -/
theorem step_write {s : Transfer} {call : IOCall} {buffer : List UInt8}
    (hturn : s.kernel.sched.getCurrentPCBIndex = c.writerIndex) (hidle : s.sending = .idle)
    (hwait : s.kernel.waitForIO c.writerFd = some (call, k)) :
    c.transfer.step s (.write buffer)
      { s with kernel := k, sending := .test call buffer 0 } := by
  refine ⟨hturn, hidle, ?_⟩
  rw [hwait]

/-- A `read` whose descriptor is found comes to its first test. -/
theorem step_read {s : Transfer} {call : IOCall} {maxBytes : Nat}
    (hturn : s.kernel.sched.getCurrentPCBIndex = c.readerIndex) (hidle : s.receiving = .idle)
    (hwait : s.kernel.waitForIO c.readerFd = some (call, k)) :
    c.transfer.step s (.read maxBytes)
      { s with kernel := k, receiving := .test call maxBytes 0 } := by
  refine ⟨hturn, hidle, ?_⟩
  rw [hwait]

/-- The tests see how much the queue holds. -/
theorem Carries.isFull (h : c.Carries k l) :
    k.operateFile c.writerIndex c.writerFd .IS_FULL 0 =
      (if l.length + 1 = PAGE_SIZE.toNat then 0 else -1, 0, k) := by
  obtain ⟨f, hfile, hl⟩ := h.file
  rw [Kernel.operateFile_isFull h.isOpen.writer hfile, if_congr hl.isFull_iff rfl rfl]

theorem Carries.isEmpty (h : c.Carries k l) :
    k.operateFile c.readerIndex c.readerFd .IS_EMPTY 0 = (if l = [] then 0 else -1, 0, k) := by
  obtain ⟨f, hfile, hl⟩ := h.file
  rw [Kernel.operateFile_isEmpty h.isOpen.reader hfile, if_congr hl.isEmpty_iff rfl rfl]

/-- Past its test, the writer's byte goes into the queue and counts. -/
theorem Carries.write (h : c.Carries k l)
    (hturn : k.sched.getCurrentPCBIndex = c.writerIndex) (hroom : l.length + 1 < PAGE_SIZE.toNat)
    {call : IOCall} (hcall : call.Through c.writerIndex c.writerFd) (buffer : List UInt8)
    (writtenData : Nat) :
    ∃ k', k.outputStep (.write call buffer writtenData) =
        (k', .test call buffer (writtenData + 1), some (buffer.getD writtenData 0)) ∧
      c.Carries k' (l ++ [buffer.getD writtenData 0]) := by
  obtain ⟨f, hfile, hl⟩ := h.file
  obtain ⟨hk, hfd⟩ := hcall
  obtain ⟨files, mem, hwrite, hl'⟩ := hl.write hroom (buffer.getD writtenData 0)
  have htransfer := Kernel.operateFile_write h.isOpen.writer hfile hwrite
  rw [if_pos (h.isOpen.mayWrite hturn), ← hk, ← hfd] at htransfer
  refine ⟨_, ?_, h.transferred hfile hl'⟩
  simp only [Kernel.outputStep, htransfer, if_neg (show ¬ (0 : Int) = -1 by decide)]

/-- Past its test, the reader gets the first byte of the queue. -/
theorem Carries.read {a : UInt8} (h : c.Carries k (a :: l))
    (hturn : k.sched.getCurrentPCBIndex = c.readerIndex) {call : IOCall}
    (hcall : call.Through c.readerIndex c.readerFd) (maxBytes readData : Nat) :
    ∃ k' p, k.inputStep (.read call maxBytes readData) = (k', p, some a) ∧
      (p = .idle ∨ p = .test call maxBytes (readData + 1)) ∧ c.Carries k' l := by
  obtain ⟨f, hfile, hl⟩ := h.file
  obtain ⟨hk, hfd⟩ := hcall
  obtain ⟨files, hread, hl'⟩ := hl.read
  have htransfer := Kernel.operateFile_read (c := 0) h.isOpen.reader hfile hread
  rw [if_pos (h.isOpen.mayRead hturn), ← hk, ← hfd, toChar_toInt] at htransfer
  have hafter : c.Carries { k with files := files } l := h.transferred hfile hl'
  simp only [Kernel.inputStep, htransfer, if_neg (show ¬ (0 : Int) = -1 by decide)]
  split
  · exact ⟨_, _, rfl, .inl rfl, hafter.endWait call⟩
  · exact ⟨_, _, rfl, .inr rfl, hafter⟩

/-- With room in the queue the test lets the writer go on. -/
theorem Carries.outputStep_test (h : c.Carries k l) (hroom : l.length + 1 < PAGE_SIZE.toNat)
    {call : IOCall} (hcall : call.Through c.writerIndex c.writerFd) {buffer : List UInt8}
    {writtenData : Nat} (hlt : writtenData < buffer.length) :
    k.outputStep (.test call buffer writtenData) = (k, .write call buffer writtenData, none) := by
  have hfull := h.isFull
  rw [if_neg (by omega), ← hcall.1, ← hcall.2] at hfull
  simp [Kernel.outputStep, hlt, hfull]

/-- With a byte in the queue the test lets the reader go on. -/
theorem Carries.inputStep_test (h : c.Carries k l) (hne : l ≠ []) {call : IOCall}
    (hcall : call.Through c.readerIndex c.readerFd) {maxBytes readData : Nat}
    (hlt : readData < maxBytes) :
    k.inputStep (.test call maxBytes readData) = (k, .read call maxBytes readData, none) := by
  have hempty := h.isEmpty
  rw [if_neg hne, ← hcall.1, ← hcall.2] at hempty
  simp [Kernel.inputStep, hlt, hempty]

/-- The writer adds what it counts at the end. -/
theorem Carries.outputStep {p : Sending} (h : c.Carries k l) (hp : c.SendingInv l p)
    (hturn : k.sched.getCurrentPCBIndex = c.writerIndex) :
    c.Carries (k.outputStep p).1 (l ++ (k.outputStep p).2.2.toList) ∧
    c.SendingInv (l ++ (k.outputStep p).2.2.toList) (k.outputStep p).2.1 := by
  cases p with
  | idle => simpa [Kernel.outputStep, SendingInv] using h
  | test call buffer writtenData =>
    obtain ⟨f, -, hl⟩ := h.file
    obtain ⟨hk, hfd⟩ := hp
    have hroom := hl.holds.room
    have htest := h.isFull
    rw [← hk, ← hfd] at htest
    by_cases hlt : writtenData < buffer.length
    -- a full queue makes the writer wait, or return what it has
    · by_cases hfull : l.length + 1 = PAGE_SIZE.toNat
      · rw [if_pos hfull] at htest
        by_cases hblock : call.blocking = true
        · simpa [Kernel.outputStep, hlt, htest, hblock, SendingInv] using ⟨h, hk, hfd⟩
        · simpa [Kernel.outputStep, hlt, htest, hblock, SendingInv] using h.endWait call
      · rw [if_neg hfull] at htest
        have hfree : l.length + 1 < PAGE_SIZE.toNat := by omega
        simpa [Kernel.outputStep, hlt, htest, SendingInv] using ⟨h, ⟨hk, hfd⟩, hfree⟩
    · simpa [Kernel.outputStep, hlt, SendingInv] using h.endWait call
  | write call buffer writtenData =>
    obtain ⟨k', hstep, hafter⟩ := h.write hturn hp.2 hp.1 buffer writtenData
    rw [hstep]
    exact ⟨hafter, hp.1⟩

/-- The reader takes what it counts from the front. -/
theorem Carries.inputStep {p : Receiving} (h : c.Carries k l) (hp : c.ReceivingInv l p)
    (hturn : k.sched.getCurrentPCBIndex = c.readerIndex) :
    ∃ l', l = (k.inputStep p).2.2.toList ++ l' ∧ c.Carries (k.inputStep p).1 l' ∧
      c.ReceivingInv l' (k.inputStep p).2.1 := by
  cases p with
  | idle => exact ⟨l, rfl, h, trivial⟩
  | test call maxBytes readData =>
    obtain ⟨hk, hfd⟩ := hp
    have htest := h.isEmpty
    rw [← hk, ← hfd] at htest
    refine ⟨l, ?_⟩
    by_cases hlt : readData < maxBytes
    -- an empty queue makes the reader wait, or return what it has
    · by_cases hempty : l = []
      · rw [if_pos hempty] at htest
        by_cases hblock : call.blocking = true
        · simpa [Kernel.inputStep, hlt, htest, hblock, ReceivingInv] using ⟨h, hk, hfd⟩
        · simpa [Kernel.inputStep, hlt, htest, hblock, ReceivingInv] using h.endWait call
      · rw [if_neg hempty] at htest
        simpa [Kernel.inputStep, hlt, htest, ReceivingInv] using ⟨h, ⟨hk, hfd⟩, hempty⟩
    · simpa [Kernel.inputStep, hlt, ReceivingInv] using h.endWait call
  | read call maxBytes readData =>
    obtain ⟨a, l', rfl⟩ := List.exists_cons_of_ne_nil hp.2
    obtain ⟨k', p', hstep, hp', hafter⟩ := h.read hturn hp.1 maxBytes readData
    rw [hstep]
    refine ⟨l', rfl, hafter, ?_⟩
    -- the call ends with the last character asked for, or goes on
    rcases hp' with rfl | rfl
    · trivial
    · exact hp.1

/-! ### Runs -/

/-- What was sent is what was received and what the queue holds. -/
def TransferInv (c : Channel) (s : Transfer) : Prop :=
  ∃ l, s.sent = s.received ++ l ∧ c.Carries s.kernel l ∧ c.SendingInv l s.sending ∧
    c.ReceivingInv l s.receiving

theorem transferInv_start {s : Transfer} (h : c.Start s) : c.TransferInv s := by
  refine ⟨s.sent, ?_, h.carries, ?_, ?_⟩
  · rw [h.received, List.nil_append]
  · rw [h.sending]
    trivial
  · rw [h.receiving]
    trivial

/-- One step keeps the balance. -/
theorem transferInv_step {s s' : Transfer} (action : TransferAction) (h : c.TransferInv s)
    (hstep : c.transfer.step s action s') : c.TransferInv s' := by
  obtain ⟨l, hsent, hcarries, hsending, hreceiving⟩ := h
  cases action with
  -- a call fails at once, or is let through and knows that there is room
  | write buffer =>
    obtain ⟨hturn, -, hcall⟩ := hstep
    split at hcall
    · obtain rfl := hcall
      exact ⟨l, hsent, hcarries, hsending, hreceiving⟩
    · next call k heq =>
      obtain ⟨hthrough, sched, rfl⟩ := waitForIO_eq heq
      rw [hturn] at hthrough
      obtain rfl := hcall
      exact ⟨l, hsent, hcarries.withSched sched, hthrough, hreceiving⟩
  -- likewise, knowing that there are characters
  | read maxBytes =>
    obtain ⟨hturn, -, hcall⟩ := hstep
    split at hcall
    · obtain rfl := hcall
      exact ⟨l, hsent, hcarries, hsending, hreceiving⟩
    · next call k heq =>
      obtain ⟨hthrough, sched, rfl⟩ := waitForIO_eq heq
      rw [hturn] at hthrough
      obtain rfl := hcall
      exact ⟨l, hsent, hcarries.withSched sched, hsending, hthrough⟩
  -- the character written goes to the back of what the queue holds
  | writer =>
    obtain ⟨hturn, rfl⟩ := hstep
    obtain ⟨hafter, hnext⟩ := hcarries.outputStep hsending hturn
    refine ⟨_, ?_, hafter, hnext, ?_⟩
    · show s.sent ++ _ = s.received ++ (l ++ _)
      rw [hsent, List.append_assoc]
    · -- the queue only grows
      apply hreceiving.mono
      intro hne happ
      exact hne (List.append_eq_nil_iff.mp happ).1
  -- the character read is the front of what the queue held
  | reader =>
    obtain ⟨hturn, rfl⟩ := hstep
    obtain ⟨l', hl, hafter, hnext⟩ := hcarries.inputStep hreceiving hturn
    refine ⟨l', ?_, hafter, ?_, hnext⟩
    · show s.sent = (s.received ++ _) ++ l'
      rw [hsent, List.append_assoc, ← hl]
    · -- the queue only shrinks
      apply hsending.mono
      rw [hl, List.length_append]
      exact Nat.le_add_left _ _
  | preempt =>
    obtain ⟨t, hpre, rfl⟩ := hstep
    exact ⟨l, hsent, hcarries.preempted hpre, hsending, hreceiving⟩

theorem transferInv {s : Transfer} (h : c.transfer.Reachable s) : c.TransferInv s := by
  apply h.invariant c.TransferInv
  · exact fun s hstart => transferInv_start hstart
  · exact fun s action s' hinv hstep => transferInv_step action hinv hstep

end Channel

end TP2Kernel
