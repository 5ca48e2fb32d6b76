import TP2Kernel.FileManager.WaitForIO
import TP2Kernel.MessageQueue.Occupancy

/-! # Descriptors that must not be used

    A descriptor that is not open is found out by `existsFile`, whose `-1` for an index out
    of range is no different from "there is a file" to its callers.  A descriptor without
    the permission is found out by the transfer, and so only after the test whether the
    file is empty or full, which needs none.
-/

namespace TP2Kernel

open Transition Scheduler

namespace Kernel

/-! ### Descriptors that are not open -/

/-- Only what concerns the files of process `k`: its index and its own entries. -/
structure SameTable (s s' : Kernel) (k : UInt64) : Prop where
  badIndex : s'.pcb.badIndex k = s.pcb.badIndex k
  entries : ∀ fd, fd < MAX_FILES → (s'.pcb.process k).fileDescriptors.entries fd =
    (s.pcb.process k).fileDescriptors.entries fd

/-- Whatever the rest of the kernel is like, nothing can be done through the descriptor, and
    trying changes nothing. -/
def Rejects (s : Kernel) (k fd : UInt64) : Prop :=
  ∀ s', s.SameTable s' k → s'.pcb.existsFile k fd = 0 ∧
    (∀ operation c, s'.operateFile k fd operation c = (-1, c, s')) ∧
    ∀ current, s'.sched.current = some current → (s'.sched.nodes current).PCBIndex = k →
      s'.waitForIO fd = none

variable {s s' : Kernel} {k fd : UInt64}

/-- **A descriptor that is not open is rejected, unless it or the process is out of range.** -/
theorem rejects_iff (hno : ¬ s.OpenEntry k fd) :
    s.Rejects k fd ↔ s.pcb.badIndex k = false ∧ fd.toNat < MAX_FILES := by
  constructor
  · intro h
    obtain ⟨hexists, -, -⟩ := h s ⟨rfl, fun _ _ => rfl⟩
    unfold Pcb.existsFile at hexists
    split at hexists
    · -- the `-1` of `existsFile` is not 0
      exact absurd hexists (by decide)
    · rename_i hrange
      rw [Bool.or_eq_true, not_or, Bool.not_eq_true, decide_eq_true_eq] at hrange
      exact ⟨hrange.1, UInt64.lt_iff_toNat_lt.mp (UInt64.not_le.mp hrange.2)⟩
  · intro h s' hsame
    obtain ⟨hgood, hlt⟩ := h
    have hgood' : s'.pcb.badIndex k = false := hsame.badIndex.trans hgood
    have hfree : (s'.descriptor k fd).occupied = 0 := by
      have hentry : s'.descriptor k fd = s.descriptor k fd := hsame.entries fd.toNat hlt
      rw [hentry]
      by_contra hocc
      exact hno ⟨hgood, hlt, hocc⟩
    have hexists : s'.pcb.existsFile k fd = 0 := by
      simp only [Pcb.existsFile, hgood', not_le_maxFiles hlt]
      show (s'.descriptor k fd).occupied.toUInt64 = 0
      rw [hfree]
      rfl
    refine ⟨hexists, ?_, ?_⟩
    · intro operation c
      simp [operateFile, hexists]
    · intro current hcurrent hindex
      simp [hcurrent, hindex, hexists, waitForIO]

/-- The first process, before it has opened anything. -/
theorem firstProcess : ∃ s : Kernel, messaging.Reachable s ∧ ∃ current,
    s.sched.current = some current ∧
    s.pcb.badIndex (s.sched.nodes current).PCBIndex = false ∧
    (s.pcb.process (s.sched.nodes current).PCBIndex).fileDescriptors = standardFiles ∧
    s.tty = .bss ∧ s.rawKeys = .empty := by
  obtain ⟨s, hs, -, hfiles, hturn, htty, hraw⟩ := stocked_first
  obtain ⟨current, hcurrent⟩ := Option.ne_none_iff_exists'.mp hturn
  have hindex : s.sched.getCurrentPCBIndex = (s.sched.nodes current).PCBIndex := by
    unfold Scheduler.getCurrentPCBIndex
    rw [hcurrent]
  have hgood := hs.good
  rw [hindex] at hgood hfiles
  exact ⟨s, hs.reachable.of_restrict, current, hcurrent, hgood, hfiles, htty, hraw⟩

/-- The descriptors of a process whose table is known. -/
theorem OpenEntry.of_files {f : FileDescriptorsMap} (hgood : s.pcb.badIndex k = false)
    (hfiles : (s.pcb.process k).fileDescriptors = f) (hlt : fd.toNat < MAX_FILES)
    (hocc : (f.entries fd.toNat).occupied ≠ 0) :
    s.OpenEntry k fd ∧ s.descriptor k fd = f.entries fd.toNat := by
  have hentry : s.descriptor k fd = f.entries fd.toNat := by
    unfold descriptor
    rw [hfiles]
  refine ⟨⟨hgood, hlt, ?_⟩, hentry⟩
  rw [hentry]
  exact hocc

/-- Descriptor 9 of the first process. -/
theorem rejects_nine : ∃ s k, messaging.Reachable s ∧ ¬ s.OpenEntry k 9 ∧ s.Rejects k 9 := by
  obtain ⟨s, hreach, current, -, hgood, hfiles, -⟩ := firstProcess
  have hno : ¬ s.OpenEntry (s.sched.nodes current).PCBIndex 9 := by
    intro h
    apply h.occupied
    unfold descriptor
    rw [hfiles]
    decide
  exact ⟨s, _, hreach, hno, (rejects_iff hno).mpr ⟨hgood, by decide⟩⟩

/-- Descriptor 16 of the first process, behind its table: a call on it gets to its loop. -/
theorem sixteen_not_rejected : ∃ s k, messaging.Reachable s ∧ ¬ s.OpenEntry k 16 ∧
    s.pcb.existsFile k 16 ≠ 0 ∧ s.waitForIO 16 ≠ none ∧ ¬ s.Rejects k 16 := by
  obtain ⟨s, hreach, current, hcurrent, hgood, -⟩ := firstProcess
  have hexists : s.pcb.existsFile (s.sched.nodes current).PCBIndex 16 ≠ 0 := by
    have hrange : (16 : UInt64) ≥ UInt64.ofNat MAX_FILES := by decide
    simp [Pcb.existsFile, hrange]
  refine ⟨s, _, hreach, fun h => absurd h.lt (by decide), hexists, ?_, ?_⟩
  · have hmax : ¬ (16 : UInt64) > UInt64.ofNat MAX_FILES := by decide
    simp [hcurrent, hmax, hexists, waitForIO]
  · intro h
    exact hexists (h s ⟨rfl, fun _ _ => rfl⟩).1

/-! ### Descriptors without the permission -/

/-- What other processes do between two steps of a call: anything, but the descriptor of the
    call stays as it is. -/
structure Others (k fd : UInt64) (s s' : Kernel) : Prop where
  badIndex : s'.pcb.badIndex k = s.pcb.badIndex k
  entry : s'.descriptor k fd = s.descriptor k fd

/-- A call that is at `point` of its loop ends within `n` steps of its own, whatever the others
    do in between.  It counts no byte and changes nothing but the state of its process. -/
def FailsWithin {Point : Type} (step : Kernel → Point → Kernel × Point × Option UInt8)
    (idle : Point) (others : Kernel → Kernel → Prop) : Nat → Kernel → Point → Prop
  | 0, _, point => point = idle
  | n + 1, s, point => point = idle ∨
    ((step s point).2.2 = none ∧ (step s point).1 = { s with sched := (step s point).1.sched } ∧
      ∀ s', others (step s point).1 s' →
        FailsWithin step idle others n s' (step s point).2.1)

/-- `read` comes to its loop and fails there without waiting for anybody. -/
def ReadFails (s : Kernel) (fd : UInt64) (maxBytes : Nat) : Prop :=
  ∃ call s', s.waitForIO fd = some (call, s') ∧ ∃ n,
    FailsWithin inputStep .idle (Others call.PCBIndex fd) n s' (.test call maxBytes 0)

/-- The same of `write`. -/
def WriteFails (s : Kernel) (fd : UInt64) (buffer : List UInt8) : Prop :=
  ∃ call s', s.waitForIO fd = some (call, s') ∧ ∃ n,
    FailsWithin outputStep .idle (Others call.PCBIndex fd) n s' (.test call buffer 0)

/-- The file behind a descriptor says that it is empty. -/
def SaysEmpty (s : Kernel) (k fd : UInt64) : Prop :=
  ∃ fileType, FileType.ofCode (s.descriptor k fd).fileType = some fileType ∧
    s.isEmpty fileType (tableIndex (s.descriptor k fd).index.toUInt64.toInt64) ≠ 0

/-- The file behind a descriptor says that it is full. -/
def SaysFull (s : Kernel) (k fd : UInt64) : Prop :=
  ∃ fileType, FileType.ofCode (s.descriptor k fd).fileType = some fileType ∧
    s.isFull fileType (tableIndex (s.descriptor k fd).index.toUInt64.toInt64) ≠ 0

section
variable {Point : Type} {step : Kernel → Point → Kernel × Point × Option UInt8} {idle : Point}
  {others : Kernel → Kernel → Prop} {point : Point}

/-- A step that leads nowhere can be repeated for ever. -/
theorem not_failsWithin_of_stuck (hstuck : step s point = (s, point, none)) (hidle : point ≠ idle)
    (hself : others s s) (n : Nat) : ¬ FailsWithin step idle others n s point := by
  induction n with
  | zero => exact hidle
  | succ n ih =>
    intro h
    rcases h with hend | ⟨-, -, hrest⟩
    · exact hidle hend
    · rw [hstuck] at hrest
      exact ih (hrest s hself)

/-- A step that ends the call. -/
theorem failsWithin_one {sched : Scheduler}
    (hend : step s point = ({ s with sched := sched }, idle, none)) :
    FailsWithin step idle others 1 s point := by
  refine Or.inr ⟨?_, ?_, ?_⟩
  · rw [hend]
  · rw [hend]
  · intro s' _
    show (step s point).2.1 = idle
    rw [hend]

/-- A step after which the next one ends the call. -/
theorem failsWithin_two {next : Point} (hstep : step s point = (s, next, none))
    (hend : ∀ s', others s s' → ∃ sched, step s' next = ({ s' with sched := sched }, idle, none)) :
    FailsWithin step idle others 2 s point := by
  refine Or.inr ⟨?_, ?_, ?_⟩
  · rw [hstep]
  · rw [hstep]
  · intro s' hs'
    rw [hstep] at hs' ⊢
    obtain ⟨sched, heq⟩ := hend s' hs'
    exact failsWithin_one heq

/-- A loop that tests and then transfers.  The transfer ends the call, so the call fails at
    once if the loop gets past the test, or does not block there. -/
theorem failsWithin_iff {transfer : Point} {stay blocking : Prop} [Decidable stay]
    [Decidable blocking] {sched : Scheduler}
    (htest : step s point = if stay then
      if blocking then (s, point, none) else ({ s with sched := sched }, idle, none)
      else (s, transfer, none))
    (hidle : point ≠ idle) (hself : others s s)
    (hend : ∀ s', others s s' →
      ∃ sched, step s' transfer = ({ s' with sched := sched }, idle, none)) :
    (∃ n, FailsWithin step idle others n s point) ↔ ¬ blocking ∨ ¬ stay := by
  constructor
  · intro h
    obtain ⟨n, hn⟩ := h
    by_contra hno
    rw [not_or, not_not, not_not] at hno
    rw [if_pos hno.2, if_pos hno.1] at htest
    exact not_failsWithin_of_stuck htest hidle hself n hn
  · intro hpass
    by_cases hstay : stay
    · have hblocking := hpass.resolve_right (not_not.mpr hstay)
      rw [if_pos hstay, if_neg hblocking] at htest
      exact ⟨1, failsWithin_one htest⟩
    · rw [if_neg hstay] at htest
      exact ⟨2, failsWithin_two htest hend⟩

end

variable {c : UInt8}

theorem OpenEntry.others (h : s.OpenEntry k fd) (hothers : Others k fd s s') :
    s'.OpenEntry k fd ∧ s'.descriptor k fd = s.descriptor k fd := by
  refine ⟨⟨hothers.badIndex.trans h.good, h.lt, ?_⟩, hothers.entry⟩
  rw [hothers.entry]
  exact h.occupied

/-- The two tests need no permission and change nothing. -/
theorem OpenEntry.operateFile_isEmpty (h : s.OpenEntry k fd) :
    ∃ result, s.operateFile k fd .IS_EMPTY c = (result, c, s) ∧
      (result = 0 ↔ s.SaysEmpty k fd) := by
  have hperm : s.pcb.hasPermissions k fd .IS_EMPTY ≠ 0 := by
    show (1 : UInt64) ≠ 0
    decide
  rw [h.operateFile (by decide), if_neg hperm]
  unfold operate SaysEmpty
  cases FileType.ofCode (s.descriptor k fd).fileType with
  | none => exact ⟨-1, rfl, by simp⟩
  | some fileType =>
    refine ⟨_, rfl, ?_⟩
    simp

theorem OpenEntry.operateFile_isFull (h : s.OpenEntry k fd) :
    ∃ result, s.operateFile k fd .IS_FULL c = (result, c, s) ∧
      (result = 0 ↔ s.SaysFull k fd) := by
  have hperm : s.pcb.hasPermissions k fd .IS_FULL ≠ 0 := by
    show (1 : UInt64) ≠ 0
    decide
  rw [h.operateFile (by decide), if_neg hperm]
  unfold operate SaysFull
  cases FileType.ofCode (s.descriptor k fd).fileType with
  | none => exact ⟨-1, rfl, by simp⟩
  | some fileType =>
    refine ⟨_, rfl, ?_⟩
    simp

/-- The transfer is refused. -/
theorem OpenEntry.operateFile_read_refused (h : s.OpenEntry k fd)
    (hflag : (s.descriptor k fd).flags &&& F_READ = 0) :
    s.operateFile k fd .READ c = (-1, c, s) := by
  have hperm := not_not.mp (mt h.hasPermissions_iff.2.mp (not_not.mpr hflag))
  rw [h.operateFile (by decide), if_pos hperm]

theorem OpenEntry.operateFile_write_refused (h : s.OpenEntry k fd)
    (hflag : (s.descriptor k fd).flags &&& F_WRITE = 0) :
    s.operateFile k fd .WRITE c = (-1, c, s) := by
  have hperm := not_not.mp (mt h.hasPermissions_iff.1.mp (not_not.mpr hflag))
  rw [h.operateFile (by decide), if_pos hperm]

/-- A call begins in one way only. -/
theorem waitForIO_begins {call : IOCall} (h : s.waitForIO fd = some (call, s'))
    (P : IOCall → Kernel → Prop) :
    (∃ call s', s.waitForIO fd = some (call, s') ∧ P call s') ↔ P call s' := by
  simp [h]

section
variable {current : Nat}

/-- The loop of `read`, without `F_READ`. -/
theorem OpenEntry.inputFails_iff (call : IOCall)
    (hopen : s.OpenEntry call.PCBIndex call.fileDescriptor)
    (hflag : (s.descriptor call.PCBIndex call.fileDescriptor).flags &&& F_READ = 0)
    {maxBytes : Nat} (hmax : 1 ≤ maxBytes) :
    (∃ n, FailsWithin inputStep .idle (Others call.PCBIndex call.fileDescriptor) n s
      (.test call maxBytes 0)) ↔
    ¬ call.blocking = true ∨ ¬ s.SaysEmpty call.PCBIndex call.fileDescriptor := by
  obtain ⟨result, htest, hempty⟩ := hopen.operateFile_isEmpty (c := 0)
  have hpos : 0 < maxBytes := hmax
  have hstep : s.inputStep (.test call maxBytes 0) = if result = 0 then
      if call.blocking = true then (s, .test call maxBytes 0, none)
      else ({ s with sched := (s.endWait call).sched }, .idle, none)
      else (s, .read call maxBytes 0, none) := by
    simp only [inputStep, if_pos hpos, htest]
    rfl
  rw [← hempty]
  refine failsWithin_iff hstep (fun heq => by cases heq) ⟨rfl, rfl⟩ ?_
  -- the others may run in between, but they leave the flags alone
  intro s' hothers
  obtain ⟨hopen', hentry⟩ := hopen.others hothers
  rw [← hentry] at hflag
  refine ⟨(s'.endWait call).sched, ?_⟩
  simp only [inputStep, hopen'.operateFile_read_refused hflag]
  rfl

/-- The loop of `write`, without `F_WRITE`. -/
theorem OpenEntry.outputFails_iff (call : IOCall)
    (hopen : s.OpenEntry call.PCBIndex call.fileDescriptor)
    (hflag : (s.descriptor call.PCBIndex call.fileDescriptor).flags &&& F_WRITE = 0)
    {buffer : List UInt8} (hmax : 1 ≤ buffer.length) :
    (∃ n, FailsWithin outputStep .idle (Others call.PCBIndex call.fileDescriptor) n s
      (.test call buffer 0)) ↔
    ¬ call.blocking = true ∨ ¬ s.SaysFull call.PCBIndex call.fileDescriptor := by
  obtain ⟨result, htest, hfull⟩ := hopen.operateFile_isFull (c := 0)
  have hpos : 0 < buffer.length := hmax
  have hstep : s.outputStep (.test call buffer 0) = if result = 0 then
      if call.blocking = true then (s, .test call buffer 0, none)
      else ({ s with sched := (s.endWait call).sched }, .idle, none)
      else (s, .write call buffer 0, none) := by
    simp only [outputStep, if_pos hpos, htest]
    rfl
  rw [← hfull]
  refine failsWithin_iff hstep (fun heq => by cases heq) ⟨rfl, rfl⟩ ?_
  intro s' hothers
  obtain ⟨hopen', hentry⟩ := hopen.others hothers
  rw [← hentry] at hflag
  refine ⟨(s'.endWait call).sched, ?_⟩
  simp only [outputStep, hopen'.operateFile_write_refused hflag]
  rfl

/-- **Without the permission a call fails at once, unless it blocks on a file that says it is
    empty (for `read`) or full (for `write`).** -/
theorem failsAtOnce_iff (hcurrent : s.sched.current = some current)
    (hopen : s.OpenEntry (s.sched.nodes current).PCBIndex fd) :
    ((s.descriptor (s.sched.nodes current).PCBIndex fd).flags &&& F_READ = 0 →
      ∀ maxBytes, 1 ≤ maxBytes → (s.ReadFails fd maxBytes ↔
        (s.descriptor (s.sched.nodes current).PCBIndex fd).flags &&& F_NOBLOCK ≠ 0 ∨
        ¬ s.SaysEmpty (s.sched.nodes current).PCBIndex fd)) ∧
    ((s.descriptor (s.sched.nodes current).PCBIndex fd).flags &&& F_WRITE = 0 →
      ∀ buffer : List UInt8, 1 ≤ buffer.length → (s.WriteFails fd buffer ↔
        (s.descriptor (s.sched.nodes current).PCBIndex fd).flags &&& F_NOBLOCK ≠ 0 ∨
        ¬ s.SaysFull (s.sched.nodes current).PCBIndex fd)) := by
  have hbegin := hopen.waitForIO hcurrent
  -- going to sleep changes neither descriptors nor buffers
  have hopen₁ : OpenEntry { s with sched := s.sched.setState current .SLEPT }
      (s.sched.nodes current).PCBIndex fd := ⟨hopen.good, hopen.lt, hopen.occupied⟩
  have hblocking : ¬ (s.ioCall current fd).blocking = true ↔
      (s.descriptor (s.sched.nodes current).PCBIndex fd).flags &&& F_NOBLOCK ≠ 0 := by
    unfold ioCall
    rw [decide_eq_true_eq]
  constructor
  · intro hflag maxBytes hmax
    have hloop := OpenEntry.inputFails_iff (s.ioCall current fd) hopen₁ hflag hmax
    unfold ReadFails
    rw [waitForIO_begins hbegin, ← hblocking]
    exact hloop
  · intro hflag buffer hmax
    have hloop := OpenEntry.outputFails_iff (s.ioCall current fd) hopen₁ hflag hmax
    unfold WriteFails
    rw [waitForIO_begins hbegin, ← hblocking]
    exact hloop

/-- `write` on the standard input of the first process, which is not full, fails at once. -/
theorem failsAtOnce_stdin : ∃ s : Kernel, messaging.Reachable s ∧ s.WriteFails 0 [7] := by
  obtain ⟨s, hreach, current, hcurrent, hgood, hfiles, htty, -⟩ := firstProcess
  obtain ⟨hopen, hentry⟩ := OpenEntry.of_files hgood hfiles
    (show (0 : UInt64).toNat < MAX_FILES by decide) (by decide)
  have hentry : s.descriptor (s.sched.nodes current).PCBIndex 0 =
    ⟨1, 0, FileType.STDIN_.code, F_READ⟩ := hentry
  have hflag : (s.descriptor (s.sched.nodes current).PCBIndex 0).flags &&& F_WRITE = 0 := by
    rw [hentry]
    decide
  refine ⟨s, hreach, ((failsAtOnce_iff hcurrent hopen).2 hflag [7] (by decide)).mpr (Or.inr ?_)⟩
  intro h
  obtain ⟨fileType, htype, hfull⟩ := h
  rw [hentry, FileType.ofCode_code] at htype
  obtain rfl := Option.some.inj htype
  apply hfull
  show ofBool s.tty.stdinIsFull = 0
  rw [htty]
  decide

/-- `read` on the standard output of the first process, which is empty, waits for ever. -/
theorem read_stdout_waits : ¬ ∀ s : Kernel, messaging.Reachable s → ∀ current fd,
    s.sched.current = some current → s.OpenEntry (s.sched.nodes current).PCBIndex fd →
    (s.descriptor (s.sched.nodes current).PCBIndex fd).flags &&& F_READ = 0 →
    s.ReadFails fd 1 := by
  intro hclaim
  obtain ⟨s, hreach, current, hcurrent, hgood, hfiles, htty, -⟩ := firstProcess
  obtain ⟨hopen, hentry⟩ := OpenEntry.of_files hgood hfiles
    (show (1 : UInt64).toNat < MAX_FILES by decide) (by decide)
  have hentry : s.descriptor (s.sched.nodes current).PCBIndex 1 =
    ⟨1, 0, FileType.STDOUT_.code, F_WRITE⟩ := hentry
  have hflag : (s.descriptor (s.sched.nodes current).PCBIndex 1).flags &&& F_READ = 0 := by
    rw [hentry]
    decide
  obtain ⟨call, s', hbegin, n, hfails⟩ := hclaim s hreach current 1 hcurrent hopen hflag
  rw [hopen.waitForIO hcurrent] at hbegin
  obtain ⟨rfl, rfl⟩ := Prod.mk.inj (Option.some.inj hbegin)
  have hopen₁ : OpenEntry { s with sched := s.sched.setState current .SLEPT }
      (s.sched.nodes current).PCBIndex 1 := ⟨hopen.good, hopen.lt, hopen.occupied⟩
  have hloop := OpenEntry.inputFails_iff (s.ioCall current 1) hopen₁ hflag (Nat.le_refl 1)
  rcases hloop.mp ⟨n, hfails⟩ with hblocking | hempty
  · apply hblocking
    show decide ((s.descriptor (s.sched.nodes current).PCBIndex 1).flags &&& F_NOBLOCK = 0) = true
    rw [hentry]
    decide
  · apply hempty
    refine ⟨.STDOUT_, ?_, ?_⟩
    · show FileType.ofCode (s.descriptor (s.sched.nodes current).PCBIndex 1).fileType = _
      rw [hentry]
      rfl
    · show ofBool s.tty.stdoutIsEmpty ≠ 0
      rw [htty]
      decide

end

end Kernel

end TP2Kernel
