import TP2Kernel.FileManager.Calls
import TP2Kernel.MessageQueue.Company
import TP2Kernel.Terminal.Output

/-! # Does a write to the terminal end?

    `waitForOutput` waits while `stdout` is full.  Only an end of line or an explicit flush
    empties the buffer, and a process that waits to write neither writes nor flushes: without
    the others, what it writes between two ends of lines has to fit.
-/

namespace TP2Kernel

open Transition

/-! ### The fill level -/

namespace Stream

variable {stream other : Stream} {t : Tty} {b : CharBuffer} {c : UInt8}

theorem buffer_flushLoop_ne (h : other ≠ stream) (rounds : Nat) :
    other.buffer (stream.flushLoop t rounds) = other.buffer t := by
  induction rounds generalizing t with
  | zero => cases stream <;> rfl
  | succ rounds ih =>
    rw [flushLoop_succ]
    split
    · rfl
    · rw [ih]
      cases stream <;> cases other <;> first | rfl | exact absurd rfl h

/-- A flush leaves nothing, whatever the indices are. -/
theorem size_flushLoop {rounds : Nat} (h : (stream.buffer t).size.toNat ≤ rounds) :
    (stream.buffer (stream.flushLoop t rounds)).size = 0 := by
  induction rounds generalizing t with
  | zero =>
    have hloop : stream.flushLoop t 0 = t := by cases stream <;> rfl
    rw [hloop, ← UInt64.toNat_inj]
    exact Nat.le_zero.mp h
  | succ rounds ih =>
    rw [flushLoop_succ]
    split
    next hempty => exact of_decide_eq_true hempty
    next hempty =>
      apply ih
      have hsize : (stream.buffer t).size ≠ 0 := fun h0 => hempty (decide_eq_true h0)
      have hpos : 0 < (stream.buffer t).size.toNat :=
        Nat.pos_of_ne_zero fun h0 => hsize (UInt64.toNat_inj.mp h0)
      have hdequeue : ((stream.buffer t).dequeue stream.capacity).2.size =
          (stream.buffer t).size - 1 := by
        unfold CharBuffer.dequeue
        rw [if_neg hempty]
      have hbuffer : ∀ t' : Tty, ∀ c, stream.buffer (t'.ncPrintChar c) = stream.buffer t' := by
        intro t' c
        cases stream <;> rfl
      rw [hbuffer, buffer_setBuffer, hdequeue, Word.uint64_toNat_pred hpos]
      omega

theorem buffer_fflush (stream other : Stream) (t : Tty) :
    other.buffer (stream.fflush t) =
      other.buffer (stream.flushLoop t (stream.buffer t).size.toNat) := by
  rw [fflush_eq]
  cases other <;> rfl

/-- The call that returns is about one stream. -/
theorem buffer_writeChar_ne (h : other ≠ stream) :
    other.buffer (stream.writeChar t c).2 = other.buffer t := by
  rw [writeChar_eq]
  generalize (if c = 8 then (stream.buffer t).pop stream.capacity
    else (stream.buffer t).enqueue stream.capacity c) = called
  show other.buffer (if c = 10 then _ else _) = _
  split
  · rw [buffer_fflush, buffer_flushLoop_ne h, buffer_setBuffer_ne h]
  · rw [buffer_setBuffer_ne h]

/-- With room, a character adds one, and an end of line takes all away. -/
theorem writeChar_size (stream : Stream) (hc : c ≠ 8)
    (hroom : (stream.buffer t).size.toNat < 1024) :
    (stream.writeChar t c).1 = 0 ∧ (stream.buffer (stream.writeChar t c).2).size.toNat =
      if c = 10 then 0 else (stream.buffer t).size.toNat + 1 := by
  have hfull : ¬ (stream.buffer t).isFull stream.capacity = true := by
    intro hfull
    have hsize : (stream.buffer t).size = stream.capacity := of_decide_eq_true hfull
    rw [hsize, capacity_eq] at hroom
    exact Nat.lt_irrefl _ hroom
  have henqueue : ∃ b, (stream.buffer t).enqueue stream.capacity c = (0, b) ∧
      b.size = (stream.buffer t).size + 1 := by
    unfold CharBuffer.enqueue
    rw [if_neg hfull]
    exact ⟨_, rfl, rfl⟩
  obtain ⟨b, hcall, hsize⟩ := henqueue
  rw [writeChar_eq, if_neg hc, hcall]
  refine ⟨rfl, ?_⟩
  show (stream.buffer (if c = 10 then _ else _)).size.toNat = _
  by_cases hend : c = 10
  · rw [if_pos hend, if_pos hend, buffer_fflush, size_flushLoop (Nat.le_refl _)]
    rfl
  · rw [if_neg hend, if_neg hend, buffer_setBuffer, hsize, Word.uint64_toNat_succ (by omega)]

theorem writeChar_size_le (h : (stream.buffer t).size.toNat ≤ 1024) :
    (stream.buffer (stream.writeChar t c).2).size.toNat ≤ 1024 := by
  have hcalled : (if c = 8 then (stream.buffer t).pop stream.capacity
      else (stream.buffer t).enqueue stream.capacity c).2.size.toNat ≤ 1024 := by
    split
    -- the size stays
    · unfold CharBuffer.pop
      split <;> exact h
    · unfold CharBuffer.enqueue
      split
      · exact h
      next hfull =>
        have hne : (stream.buffer t).size.toNat ≠ 1024 := by
          intro heq
          apply hfull
          unfold CharBuffer.isFull
          rw [decide_eq_true_iff, capacity_eq, ← UInt64.toNat_inj]
          exact heq
        show ((stream.buffer t).size + 1).toNat ≤ 1024
        rw [Word.uint64_toNat_succ (by omega)]
        omega
  rw [writeChar_eq]
  generalize (if c = 8 then (stream.buffer t).pop stream.capacity
    else (stream.buffer t).enqueue stream.capacity c) = called at hcalled
  show (stream.buffer (if c = 10 then _ else _)).size.toNat ≤ 1024
  split
  · rw [buffer_fflush, size_flushLoop (Nat.le_refl _)]
    decide
  · rw [buffer_setBuffer]
    exact hcalled

end Stream

namespace Printing

/-- No buffer holds more than its capacity, backspaces or not. -/
theorem size_le {p : Printing} (h : printing.Reachable p) (stream : Stream) :
    (stream.buffer p.tty).size.toNat ≤ 1024 := by
  revert stream
  apply h.invariant fun p => ∀ stream : Stream, (stream.buffer p.tty).size.toNat ≤ 1024
  · rintro p rfl stream
    cases stream <;> decide
  · intro p action p' hinv hstep stream
    cases action with
    | fflush flushed =>
      obtain rfl := hstep
      show (stream.buffer (flushed.fflush p.tty)).size.toNat ≤ 1024
      rw [Stream.buffer_fflush]
      by_cases hsame : stream = flushed
      · subst hsame
        rw [Stream.size_flushLoop (Nat.le_refl _)]
        decide
      · rw [Stream.buffer_flushLoop_ne hsame]
        exact hinv stream
    | writeChar written c =>
      obtain rfl := hstep
      have htty : (p.writeChar written c).tty = (written.writeChar p.tty c).2 := by
        unfold writeChar
        by_cases hend : c = 10 <;> simp only [hend, if_true, if_false]
      rw [htty]
      by_cases hsame : stream = written
      · subst hsame
        exact Stream.writeChar_size_le (hinv stream)
      · rw [Stream.buffer_writeChar_ne hsame]
        exact hinv stream

end Printing

/-! ### What fits -/

/-- From a buffer with `filled` characters, what is written up to an end of line fits: the
    first stretch into what is left, and every later one into the whole buffer. -/
structure FitsLines (filled : Nat) (cs : List UInt8) : Prop where
  first : ∀ l, l <+: cs → 10 ∉ l.dropLast → filled + l.length ≤ 1024
  later : ∀ l, l <:+: cs → 10 ∉ l.dropLast → l.length ≤ 1024

variable {filled : Nat} {c : UInt8} {cs : List UInt8}

theorem fitsLines_nil (h : filled ≤ 1024) : FitsLines filled [] := by
  constructor
  · intro l hl _
    rw [List.prefix_nil.mp hl]
    exact h
  · intro l hl _
    rw [List.infix_nil.mp hl]
    exact Nat.zero_le _

/-- Character by character: there is room for this one, and the rest fits behind it. -/
theorem fitsLines_cons :
    FitsLines filled (c :: cs) ↔ filled < 1024 ∧
      FitsLines (if c = 10 then 0 else filled + 1) cs := by
  constructor
  · intro h
    have hone : filled + [c].length ≤ 1024 :=
      h.first [c] (List.prefix_cons_inj c |>.mpr List.nil_prefix) List.not_mem_nil
    rw [List.length_singleton] at hone
    refine ⟨hone, ?_, fun l hl hno => h.later l (List.infix_cons hl) hno⟩
    intro l hl hno
    by_cases hend : c = 10
    -- behind an end of line the buffer is empty
    · rw [if_pos hend, Nat.zero_add]
      exact h.later l (List.infix_cons hl.isInfix) hno
    · rw [if_neg hend]
      cases l with
      | nil => exact hone
      | cons a l =>
        have hlonger := h.first (c :: a :: l) (List.prefix_cons_inj c |>.mpr hl) (by
          rw [List.dropLast_cons_cons, List.mem_cons, not_or]
          exact ⟨fun heq => hend heq.symm, hno⟩)
        rw [List.length_cons] at hlonger
        omega
  · intro h
    obtain ⟨hroom, hrest⟩ := h
    have hfirst : ∀ l, l <+: c :: cs → 10 ∉ l.dropLast → filled + l.length ≤ 1024 := by
      intro l hl hno
      cases l with
      | nil => exact Nat.le_of_lt hroom
      | cons a l =>
        obtain ⟨rfl, htail⟩ := List.cons_prefix_cons.mp hl
        cases l with
        | nil => exact hroom
        | cons b l =>
          rw [List.dropLast_cons_cons, List.mem_cons, not_or] at hno
          have hshort := hrest.first (b :: l) htail hno.2
          rw [if_neg (fun heq => hno.1 heq.symm)] at hshort
          rw [List.length_cons]
          omega
    refine ⟨hfirst, ?_⟩
    intro l hl hno
    rcases List.infix_cons_iff.mp hl with hprefix | hinfix
    · have hle := hfirst l hprefix hno
      omega
    · exact hrest.later l hinfix hno

/-! ### The loop of `write` -/

namespace Kernel

/-- Descriptor `fd` of process `k` is the standard output, open for writing. -/
abbrev StdoutEnd (s : Kernel) (k fd : UInt64) : Prop := s.TypedEntry k fd .STDOUT_ F_WRITE

variable {s : Kernel} {k fd : UInt64} {call : IOCall}

theorem StdoutEnd.operateFile_isFull (h : s.StdoutEnd k fd) :
    s.operateFile k fd .IS_FULL c =
      (if s.tty.stdout.size.toNat = 1024 then 0 else -1, c, s) := by
  have hperm : ¬ s.pcb.hasPermissions k fd .IS_FULL = 0 := by
    show ¬ (1 : UInt64) = 0
    decide
  have hfull : s.tty.stdoutIsFull = true ↔ s.tty.stdout.size.toNat = 1024 := by
    unfold Tty.stdoutIsFull CharBuffer.isFull
    rw [decide_eq_true_iff, ← UInt64.toNat_inj]
    rfl
  rw [h.toOpenEntry.operateFile (by decide), if_neg hperm, h.fileType]
  simp only [operate, FileType.ofCode_code, isFull, ofBool, ← hfull]
  by_cases htest : s.tty.stdoutIsFull = true <;> simp [htest]

/-- With room, a character is accepted. -/
theorem StdoutEnd.operateFile_write (h : s.StdoutEnd k fd) (hc : c ≠ 8)
    (hroom : s.tty.stdout.size.toNat < 1024) : s.operateFile k fd .WRITE c =
      (0, c, { s with tty := (s.tty.ttySTDOUTPrint c).2 }) := by
  have hperm : ¬ s.pcb.hasPermissions k fd .WRITE = 0 :=
    h.toOpenEntry.hasPermissions_iff.1.mpr h.flag
  have hresult : (s.tty.ttySTDOUTPrint c).1 = 0 :=
    (Stream.writeChar_size .stdout hc hroom).1
  rw [h.toOpenEntry.operateFile (by decide), if_neg hperm, h.fileType]
  simp [operate, FileType.ofCode_code, writeChar, hresult]

/-- A full buffer makes the call wait. -/
theorem StdoutEnd.outputStep_full (h : s.StdoutEnd call.PCBIndex call.fileDescriptor)
    (hblock : call.blocking = true) (hfull : s.tty.stdout.size.toNat = 1024)
    {buffer : List UInt8} {writtenData : Nat} (hlt : writtenData < buffer.length) :
    s.outputStep (.test call buffer writtenData) = (s, .test call buffer writtenData, none) := by
  simp [Kernel.outputStep, hlt, h.operateFile_isFull, hfull, hblock]

theorem StdoutEnd.outputStep_test (h : s.StdoutEnd call.PCBIndex call.fileDescriptor)
    (hroom : s.tty.stdout.size.toNat < 1024) {buffer : List UInt8} {writtenData : Nat}
    (hlt : writtenData < buffer.length) :
    s.outputStep (.test call buffer writtenData) = (s, .write call buffer writtenData, none) := by
  simp [Kernel.outputStep, hlt, h.operateFile_isFull, Nat.ne_of_lt hroom]

theorem StdoutEnd.outputStep_write (h : s.StdoutEnd call.PCBIndex call.fileDescriptor)
    {buffer : List UInt8} {writtenData : Nat} (hc : buffer.getD writtenData 0 ≠ 8)
    (hroom : s.tty.stdout.size.toNat < 1024) :
    s.outputStep (.write call buffer writtenData) =
      ({ s with tty := (s.tty.ttySTDOUTPrint (buffer.getD writtenData 0)).2 },
        .test call buffer (writtenData + 1), some (buffer.getD writtenData 0)) := by
  simp only [Kernel.outputStep, h.operateFile_write hc hroom]
  rfl

/-- Nobody else runs, so that a call that waits waits for ever. -/
theorem StdoutEnd.waits (h : s.StdoutEnd call.PCBIndex call.fileDescriptor)
    (hblock : call.blocking = true) (hfull : s.tty.stdout.size.toNat = 1024)
    {buffer : List UInt8} {writtenData : Nat} (hlt : writtenData < buffer.length)
    (data yields fuel : Nat) :
    s.waitForOutput data yields fuel (.test call buffer writtenData) = none := by
  induction fuel generalizing yields with
  | zero => rfl
  | succ fuel ih =>
    rw [waitForOutput_none (by simp) (h.outputStep_full hblock hfull hlt)]
    exact ih _

/-- A call that finds room for one character goes on with the next one. -/
theorem StdoutEnd.writesOne (h : s.StdoutEnd call.PCBIndex call.fileDescriptor) (hc : c ≠ 8)
    (hroom : s.tty.stdout.size.toNat < 1024) (done : List UInt8) (cs : List UInt8)
    (yields fuel : Nat) :
    s.waitForOutput done.length yields (fuel + 2) (.test call (done ++ c :: cs) done.length) =
      waitForOutput { s with tty := (s.tty.ttySTDOUTPrint c).2 } (done ++ [c]).length yields fuel
        (.test call (done ++ [c] ++ cs) (done ++ [c]).length) := by
  have hlt : done.length < (done ++ c :: cs).length := by simp
  have hget : (done ++ c :: cs).getD done.length 0 = c := by simp
  rw [waitForOutput_none (by simp) (h.outputStep_test hroom hlt),
    waitForOutput_some (by simp) (h.outputStep_write (by rw [hget]; exact hc) hroom), hget,
    List.length_append, List.length_singleton, List.append_assoc, List.singleton_append]
  rfl

/-- A call that never ends once a character is written never ends. -/
theorem StdoutEnd.never_of_writesOne (h : s.StdoutEnd call.PCBIndex call.fileDescriptor)
    (hc : c ≠ 8) (hroom : s.tty.stdout.size.toNat < 1024) (done cs : List UInt8) (yields : Nat)
    (hnever : ∀ fuel, waitForOutput { s with tty := (s.tty.ttySTDOUTPrint c).2 }
      (done ++ [c]).length yields fuel (.test call (done ++ [c] ++ cs) (done ++ [c]).length) = none)
    (fuel : Nat) :
    s.waitForOutput done.length yields fuel (.test call (done ++ c :: cs) done.length) = none := by
  match fuel with
  | 0 => rfl
  | 1 =>
    rw [waitForOutput_none (by simp) (h.outputStep_test hroom (by simp))]
    rfl
  | fuel + 2 =>
    rw [h.writesOne hc hroom]
    exact hnever fuel

/-- The loop ends, with all of the characters, if and only if they fit. -/
theorem StdoutEnd.waitForOutput (h : s.StdoutEnd call.PCBIndex call.fileDescriptor)
    (hblock : call.blocking = true) (hsize : s.tty.stdout.size.toNat ≤ 1024)
    (hback : 8 ∉ cs) (done : List UInt8) (yields : Nat) :
    (FitsLines s.tty.stdout.size.toNat cs → ∀ fuel, 2 * cs.length + 2 ≤ fuel →
      ∃ s', s.waitForOutput done.length yields fuel (.test call (done ++ cs) done.length) =
        some ⟨(done.length + cs.length : Nat), yields, s'⟩) ∧
    (¬ FitsLines s.tty.stdout.size.toNat cs → ∀ fuel,
      s.waitForOutput done.length yields fuel (.test call (done ++ cs) done.length) = none) := by
  induction cs generalizing s done with
  | nil =>
    refine ⟨?_, fun hno => absurd (fitsLines_nil hsize) hno⟩
    intro _ fuel hfuel
    obtain ⟨fuel, rfl⟩ := Nat.exists_eq_add_of_le' hfuel
    have hlast : s.outputStep (.test call (done ++ []) done.length) =
        (s.endWait call, .idle, none) := by
      simp [Kernel.outputStep]
    refine ⟨s.endWait call, ?_⟩
    rw [List.length_nil, Nat.mul_zero, Nat.zero_add, waitForOutput_none (by simp) hlast]
    rfl
  | cons c cs ih =>
    have hc : c ≠ 8 := fun heq => hback (heq ▸ List.mem_cons_self)
    have hrest : 8 ∉ cs := fun hmem => hback (List.mem_cons_of_mem c hmem)
    rw [fitsLines_cons]
    rcases Nat.lt_or_eq_of_le hsize with hroom | hfull
    · -- the character is written, and the call goes on with the others
      have hafter : (s.tty.ttySTDOUTPrint c).2.stdout.size.toNat =
          if c = 10 then 0 else s.tty.stdout.size.toNat + 1 :=
        (Stream.writeChar_size .stdout hc hroom).2
      have hsize' : (s.tty.ttySTDOUTPrint c).2.stdout.size.toNat ≤ 1024 := by
        rw [hafter]
        split <;> omega
      have hnext := ih (s := { s with tty := (s.tty.ttySTDOUTPrint c).2 }) (h.congr rfl) hsize'
        hrest (done ++ [c])
      have hlength : (done ++ [c]).length + cs.length = done.length + (c :: cs).length := by
        simp only [List.length_append, List.length_cons, List.length_nil]
        omega
      rw [show (Kernel.tty { s with tty := (s.tty.ttySTDOUTPrint c).2 }) =
        (s.tty.ttySTDOUTPrint c).2 from rfl, hafter, hlength] at hnext
      constructor
      · intro hfits fuel hfuel
        rw [List.length_cons] at hfuel
        obtain ⟨fuel, rfl⟩ := Nat.exists_eq_add_of_le' (show 2 ≤ fuel by omega)
        rw [h.writesOne hc hroom]
        exact hnext.1 hfits.2 fuel (by omega)
      · intro hno
        exact h.never_of_writesOne hc hroom done cs yields
          (hnext.2 fun hfits => hno ⟨hroom, hfits⟩)
    · constructor
      · intro hfits
        exact absurd hfits.1 (by omega)
      · intro _ fuel
        exact h.waits hblock hfull (by simp) _ _ fuel

/-! ### The result -/

/-- The process with the turn can write to the terminal, and blocks while it is full. -/
structure TerminalWriter (s : Kernel) (current : Nat) (fd : UInt64) : Prop where
  turn : s.sched.current = some current
  stdoutEnd : s.StdoutEnd (s.sched.nodes current).PCBIndex fd
  blocks : (s.descriptor (s.sched.nodes current).PCBIndex fd).flags &&& F_NOBLOCK = 0

/-- A call ends with everything written, or waits for ever. -/
theorem TerminalWriter.write {s : Kernel} {current : Nat} {fd : UInt64}
    (hw : s.TerminalWriter current fd) (hsize : s.tty.stdout.size.toNat ≤ 1024)
    (hback : 8 ∉ cs) :
    (FitsLines s.tty.stdout.size.toNat cs → ∀ fuel, 2 * cs.length + 2 ≤ fuel →
      ∃ s', s.write fd cs fuel = some ⟨cs.length, 0, s'⟩) ∧
    (¬ FitsLines s.tty.stdout.size.toNat cs → ∀ fuel, s.write fd cs fuel = none) := by
  have hopen : StdoutEnd { s with sched := s.sched.setState current .SLEPT }
      (s.ioCall current fd).PCBIndex (s.ioCall current fd).fileDescriptor :=
    hw.stdoutEnd.congr rfl
  have hblock : (s.ioCall current fd).blocking = true := decide_eq_true hw.blocks
  have hloop := hopen.waitForOutput hblock hsize hback [] 0
  have hwrite : ∀ fuel, s.write fd cs fuel =
      waitForOutput { s with sched := s.sched.setState current .SLEPT } 0 0 fuel
        (.test (s.ioCall current fd) cs 0) := by
    intro fuel
    unfold Kernel.write
    rw [hw.stdoutEnd.toOpenEntry.waitForIO hw.turn]
  rw [List.length_nil, Nat.zero_add] at hloop
  simp only [hwrite]
  exact hloop

/-- After finitely many steps of its own, the call returns and has written all of it. -/
def WritesAll (s : Kernel) (fd : UInt64) (cs : List UInt8) : Prop :=
  ∃ fuel r, s.write fd cs fuel = some r ∧ r.result = cs.length

/-- **A blocking write ends by itself if and only if what it writes fits**: the first stretch up
    to an end of line behind what is in the buffer, and every later one into the buffer. -/
theorem writesAll_iff {p : Printing} (h : printing.Reachable p) {s : Kernel} (htty : s.tty = p.tty)
    {current : Nat} {fd : UInt64} (hw : s.TerminalWriter current fd) {cs : List UInt8}
    (hback : 8 ∉ cs) : s.WritesAll fd cs ↔ FitsLines p.tty.stdout.size.toNat cs := by
  have hsize : s.tty.stdout.size.toNat ≤ 1024 := htty ▸ Printing.size_le h .stdout
  obtain ⟨hends, hwaits⟩ := hw.write hsize hback
  rw [← htty]
  constructor
  · intro hall
    obtain ⟨fuel, r, hcall, -⟩ := hall
    by_contra hno
    exact Option.some_ne_none r (hcall.symm.trans (hwaits hno fuel))
  · intro hfits
    obtain ⟨s', hcall⟩ := hends hfits (2 * cs.length + 2) (Nat.le_refl _)
    exact ⟨2 * cs.length + 2, _, hcall, rfl⟩

/-- A process that writes to the terminal, which has printed nothing yet. -/
theorem terminalWriter : ∃ (s : Kernel) (current : Nat), s.tty = .bss ∧
    s.TerminalWriter current 1 := by
  obtain ⟨k, r, w, i, h⟩ := company
  obtain ⟨current, hcurrent, -, hstdout, hblocks⟩ := h.standard
  exact ⟨{ k with tty := .bss }, current, rfl, hcurrent, hstdout.congr rfl, hblocks⟩

/-- A line of one character fits. -/
theorem writesAll_iff_line : ∃ s : Kernel, s.tty = .bss ∧ s.WritesAll 1 [97, 10] := by
  obtain ⟨s, current, htty, hw⟩ := terminalWriter
  have hreach : printing.Reachable ⟨.bss, fun _ => [], []⟩ := .init rfl
  refine ⟨s, htty, (writesAll_iff hreach htty hw (by decide)).mpr ?_⟩
  exact fitsLines_cons.mpr ⟨by decide, fitsLines_cons.mpr ⟨by decide, fitsLines_nil (by decide)⟩⟩

/-- A stretch longer than the buffer does not, and is never written. -/
theorem write_deadlocks : ¬ ∀ (p : Printing), printing.Reachable p → ∀ (s : Kernel) (current : Nat)
    (fd : UInt64) (cs : List UInt8), s.tty = p.tty → s.TerminalWriter current fd → 8 ∉ cs →
    s.WritesAll fd cs := by
  intro hclaim
  obtain ⟨s, current, htty, hw⟩ := terminalWriter
  have hreach : printing.Reachable ⟨.bss, fun _ => [], []⟩ := .init rfl
  have hno : ∀ c : UInt8, c ≠ 97 → c ∉ List.replicate 1025 97 :=
    fun c hc hmem => hc (List.eq_of_mem_replicate hmem)
  have hall := hclaim _ hreach s current 1 (List.replicate 1025 97) htty hw (hno 8 (by decide))
  obtain ⟨fuel, r, hcall, -⟩ := hall
  have hlong : ¬ FitsLines s.tty.stdout.size.toNat (List.replicate 1025 97) := by
    intro hfits
    have hle := hfits.later (List.replicate 1025 97) (List.infix_refl _)
      (fun hmem => hno 10 (by decide) (List.mem_of_mem_dropLast hmem))
    rw [List.length_replicate] at hle
    omega
  have hsize : s.tty.stdout.size.toNat ≤ 1024 := by
    rw [htty]
    decide
  have hwaits := (hw.write hsize (hno 8 (by decide))).2 hlong fuel
  exact Option.some_ne_none r (hcall.symm.trans hwaits)

end Kernel

end TP2Kernel
