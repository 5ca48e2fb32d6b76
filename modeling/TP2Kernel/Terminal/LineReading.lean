import TP2Kernel.FileManager.Calls
import TP2Kernel.MessageQueue.Company
import TP2Kernel.Terminal.Lines

/-! # Reading a line

    A blocking `read` waits until an end of line is counted, and then takes characters up to
    the first one.  That it never waits once it has begun rests on the counter.
-/

namespace TP2Kernel

open Transition

/-- The characters up to the first end of line. -/
def firstLine (l : List UInt8) : List UInt8 := l.takeWhile (· ≠ 10) ++ [10]

theorem firstLine_newline (l : List UInt8) : firstLine (10 :: l) = [10] := by
  simp [firstLine]

theorem firstLine_cons {c : UInt8} (hc : c ≠ 10) (l : List UInt8) :
    firstLine (c :: l) = c :: firstLine l := by
  simp [firstLine, hc]

namespace Tty

/-- The terminal after `n` characters have been taken from `stdin`. -/
def afterDequeues (t : Tty) (n : Nat) : Tty := (fun t => t.stdinDequeueChar.2)^[n] t

variable {t : Tty} {l : List UInt8}

theorem Lines.afterDequeues (h : t.Lines l) (n : Nat) : (t.afterDequeues n).Lines (l.drop n) := by
  induction n generalizing t l with
  | zero => exact h
  | succ n ih =>
    have hnext := ih h.dequeue
    rw [List.drop_tail] at hnext
    exact hnext

theorem afterDequeues_reachable (h : lineCalls.Reachable t) (n : Nat) :
    lineCalls.Reachable (t.afterDequeues n) := by
  induction n generalizing t with
  | zero => exact h
  | succ n ih => exact ih (.step .stdinDequeueChar h rfl)

/-- When an end of line is taken out, the counter is not zero. -/
theorem Lines.hasData_pos (h : t.Lines l) (hten : t.stdinDequeueChar.1 = 10) :
    0 < t.stdinHasData.toNat := by
  obtain ⟨b, data, -, -, -, hnil, hfirst⟩ := stdinDequeueChar_contents h.contents h.hasData
  rw [h.hasData, List.count_pos_iff]
  cases l with
  | nil =>
    rw [hnil rfl] at hten
    exact absurd hten (by decide)
  | cons c l =>
    rw [hfirst c l rfl] at hten
    have hc : c = 10 := (toInt8_toInt_eq_iff c 10).mp hten
    exact hc ▸ List.mem_cons_self

end Tty

namespace Kernel

/-- Descriptor `fd` of process `k` is the standard input, open for reading. -/
abbrev StdinEnd (s : Kernel) (k fd : UInt64) : Prop := s.TypedEntry k fd .STDIN_ F_READ

variable {s : Kernel} {k fd : UInt64} {l : List UInt8} {c : UInt8} {call : IOCall}

theorem StdinEnd.operateFile_isEmpty (h : s.StdinEnd k fd) :
    s.operateFile k fd .IS_EMPTY c = (if s.tty.stdinIsEmpty = true then 0 else -1, c, s) := by
  have hperm : ¬ s.pcb.hasPermissions k fd .IS_EMPTY = 0 := by
    show ¬ (1 : UInt64) = 0
    decide
  rw [h.toOpenEntry.operateFile (by decide), if_neg hperm, h.fileType]
  simp only [operate, FileType.ofCode_code, isEmpty, ofBool]
  by_cases hempty : s.tty.stdinIsEmpty = true <;> simp [hempty]

/-- The oldest character is read. -/
theorem StdinEnd.operateFile_read {a : UInt8} (h : s.StdinEnd k fd)
    (hl : s.tty.Lines (a :: l)) : s.operateFile k fd .READ c =
      (0, a, { s with tty := s.tty.stdinDequeueChar.2 }) := by
  obtain ⟨b, data, -, -, -, -, hfirst⟩ := Tty.stdinDequeueChar_contents hl.contents hl.hasData
  have hperm : ¬ s.pcb.hasPermissions k fd .READ = 0 :=
    h.toOpenEntry.hasPermissions_iff.2.mpr h.flag
  have hplain : ¬ a.toInt8.toInt = -1 := by
    intro heq
    have h255 : a = 255 := (toInt8_toInt_eq_iff a 255).mp heq
    exact hl.plain (h255 ▸ List.mem_cons_self)
  have hread : s.tty.stdinReadChar = (1, some a, s.tty.stdinDequeueChar.2) := by
    unfold Tty.stdinReadChar
    simp only [hfirst a l rfl, if_neg hplain, toChar_toInt]
  rw [h.toOpenEntry.operateFile (by decide), if_neg hperm, h.fileType]
  simp only [operate, FileType.ofCode_code, readChar, hread]
  rfl

/-! ### The loop -/

theorem StdinEnd.inputStep_test (h : s.StdinEnd call.PCBIndex call.fileDescriptor)
    (hl : s.tty.Lines l) (hten : 10 ∈ l) {maxBytes readData : Nat} (hlt : readData < maxBytes) :
    s.inputStep (.test call maxBytes readData) = (s, .read call maxBytes readData, none) := by
  have hdata : ¬ s.tty.stdinIsEmpty = true := fun hempty => hl.isEmpty_iff.mp hempty hten
  simp [Kernel.inputStep, hlt, h.operateFile_isEmpty, hdata]

theorem StdinEnd.getFileType_eq (h : s.StdinEnd k fd) :
    s.pcb.getFileType k fd = FileType.STDIN_.code := by
  simp only [Pcb.getFileType, h.good]
  exact h.fileType

/-- An end of line ends the call. -/
theorem StdinEnd.inputStep_newline (h : s.StdinEnd call.PCBIndex call.fileDescriptor)
    (hl : s.tty.Lines (10 :: l)) (maxBytes readData : Nat) :
    s.inputStep (.read call maxBytes readData) =
      (endWait { s with tty := s.tty.stdinDequeueChar.2 } call, .idle, some 10) := by
  have htype := h.getFileType_eq
  simp [Kernel.inputStep, h.operateFile_read hl, htype]

theorem StdinEnd.inputStep_char (h : s.StdinEnd call.PCBIndex call.fileDescriptor)
    (hl : s.tty.Lines (c :: l)) (hc : c ≠ 10) (maxBytes readData : Nat) :
    s.inputStep (.read call maxBytes readData) =
      ({ s with tty := s.tty.stdinDequeueChar.2 }, .test call maxBytes (readData + 1), some c) := by
  simp [Kernel.inputStep, h.operateFile_read hl, hc]

/-- **Once a line is there, the call goes through to its end.** -/
theorem StdinEnd.waitForInput (h : s.StdinEnd call.PCBIndex call.fileDescriptor)
    (hl : s.tty.Lines l) (hten : 10 ∈ l) (m start readData yields : Nat) (buffer : Buffer)
    {fuel : Nat} (hfuel : 2 * m + 2 ≤ fuel) :
    waitForInput start s buffer readData yields fuel (.test call (readData + m) readData) =
      some (⟨(readData + ((firstLine l).take m).length : Nat), yields,
          endWait { s with tty := s.tty.afterDequeues ((firstLine l).take m).length } call⟩,
        buffer.stored (start + readData) ((firstLine l).take m)) := by
  induction m generalizing s l readData buffer fuel with
  | zero =>
    obtain ⟨fuel, rfl⟩ := Nat.exists_eq_add_of_le' (Nat.le_of_add_left_le hfuel)
    have hlast : s.inputStep (.test call (readData + 0) readData) =
        (s.endWait call, .idle, none) := by
      simp [Kernel.inputStep]
    rw [waitForInput_none (by simp) hlast]
    simp [Kernel.waitForInput, Receiving.yields, Buffer.stored, Tty.afterDequeues]
  | succ m ih =>
    obtain ⟨fuel, rfl⟩ := Nat.exists_eq_add_of_le' (Nat.le_of_add_left_le hfuel)
    cases l with
    | nil => exact absurd hten List.not_mem_nil
    | cons c l =>
      rw [waitForInput_none (by simp) (h.inputStep_test hl hten (by omega))]
      by_cases hc : c = 10
      · subst hc
        obtain ⟨fuel, rfl⟩ := Nat.exists_eq_add_of_le' (show 1 ≤ fuel by omega)
        rw [waitForInput_some (by simp) (h.inputStep_newline hl _ _), firstLine_newline]
        simp [Kernel.waitForInput, Receiving.yields, Buffer.stored, Tty.afterDequeues]
      · rw [waitForInput_some (by simp) (h.inputStep_char hl hc _ _), firstLine_cons hc,
          List.take_succ_cons, List.length_cons]
        have hrest : 10 ∈ l := by
          rcases List.mem_cons.mp hten with heq | hmem
          · exact absurd heq.symm hc
          · exact hmem
        have hnext := ih (s := { s with tty := s.tty.stdinDequeueChar.2 }) (h.congr rfl) hl.dequeue
          hrest (readData + 1)
          (Function.update buffer (start + readData) c) (show 2 * m + 2 ≤ fuel by omega)
        have hcount : readData + (m + 1) = readData + 1 + m := by omega
        have hresult : readData + 1 + ((firstLine l).take m).length =
            readData + (((firstLine l).take m).length + 1) := by omega
        rw [hcount, ← hresult]
        exact hnext

/-- A reader that finds `stdin` not empty gets its first line, without yielding. -/
theorem StdinEnd.read {current : Nat} (h : s.StdinEnd (s.sched.nodes current).PCBIndex fd)
    (hturn : s.sched.current = some current) (hl : s.tty.Lines l) (hten : 10 ∈ l)
    (buffer : Buffer) (maxBytes : Nat) {fuel : Nat} (hfuel : 2 * maxBytes + 2 ≤ fuel) :
    s.read fd buffer 0 maxBytes fuel =
      some (⟨((firstLine l).take maxBytes).length, 0,
          { s with
            tty := s.tty.afterDequeues ((firstLine l).take maxBytes).length
            sched := s.sched.setState current .RUNNING }⟩,
        buffer.stored 0 ((firstLine l).take maxBytes)) := by
  have hopen : StdinEnd { s with sched := s.sched.setState current .SLEPT }
      (s.ioCall current fd).PCBIndex (s.ioCall current fd).fileDescriptor := h.congr rfl
  have hloop := hopen.waitForInput hl hten maxBytes 0 0 0 buffer hfuel
  rw [Nat.zero_add, Nat.zero_add, Nat.add_zero] at hloop
  unfold Kernel.read
  rw [h.toOpenEntry.waitForIO hturn]
  refine hloop.trans ?_
  simp [endWait, ioCall]

/-! ### The result -/

/-- **The lines in `stdin`.**  The counter is that of the ends of lines queued, and is never
    taken below zero; size and indices agree; a full buffer has an end of line.  So a reader
    that finds `stdin` not empty, whether it blocks or not, gets a line without yielding, cut
    at `maxBytes`. -/
theorem stdin_lines {t : Tty} (h : Tty.lineCalls.Reachable t) :
    t.stdinHasData.toNat = (t.stdin.queued STDIN_BUFFER_SIZE).count 10 ∧
    (t.stdinDequeueChar.1 = 10 → 0 < t.stdinHasData.toNat) ∧
    t.stdin.InStep STDIN_BUFFER_SIZE ∧
    (t.stdinIsFull = true → 10 ∈ t.stdin.queued STDIN_BUFFER_SIZE) ∧
    ∀ (s : Kernel) (current : Nat) (fd : UInt64), s.tty = t → s.sched.current = some current →
      s.StdinEnd (s.sched.nodes current).PCBIndex fd →
      t.stdinIsEmpty = false → ∀ (buffer : Buffer) (maxBytes : Nat),
      ∃ t', Tty.lineCalls.Reachable t' ∧
        t'.stdin.queued STDIN_BUFFER_SIZE = (t.stdin.queued STDIN_BUFFER_SIZE).drop
          ((firstLine (t.stdin.queued STDIN_BUFFER_SIZE)).take maxBytes).length ∧
        ∀ fuel, 2 * maxBytes + 2 ≤ fuel → s.read fd buffer 0 maxBytes fuel =
          some (⟨((firstLine (t.stdin.queued STDIN_BUFFER_SIZE)).take maxBytes).length, 0,
              { s with tty := t', sched := s.sched.setState current .RUNNING }⟩,
            buffer.stored 0 ((firstLine (t.stdin.queued STDIN_BUFFER_SIZE)).take maxBytes)) := by
  have hlines := Tty.lines_reachable h
  obtain ⟨l, hl⟩ : ∃ l, t.stdin.queued STDIN_BUFFER_SIZE = l := ⟨_, rfl⟩
  rw [hl] at hlines ⊢
  refine ⟨hlines.hasData, hlines.hasData_pos, hlines.contents.inStep, ?_, ?_⟩
  · exact fun hfull => hlines.full (hlines.contents.isFull_iff.mp hfull)
  · rintro s current fd rfl hturn hend hdata buffer maxBytes
    have hten : 10 ∈ l := by
      by_contra hno
      rw [hlines.isEmpty_iff.mpr hno] at hdata
      cases hdata
    refine ⟨s.tty.afterDequeues ((firstLine l).take maxBytes).length,
      Tty.afterDequeues_reachable h _, (hlines.afterDequeues _).contents.queued_eq, ?_⟩
    intro fuel hfuel
    exact hend.read hturn hlines hten buffer maxBytes hfuel

/-- A line of one character, read with room for five. -/
theorem stdin_lines_a : ∃ (s s' : Kernel) (fd : UInt64), Tty.lineCalls.Reachable s.tty ∧
    s.read fd (fun _ => 0) 0 5 12 =
      some (⟨2, 0, s'⟩, Buffer.stored (fun _ => 0) 0 [97, 10]) := by
  obtain ⟨k, r, w, i, h⟩ := company
  obtain ⟨current, hcurrent, hstdin, -, -⟩ := h.standard
  obtain ⟨t, ht⟩ : ∃ t, t = ((Tty.bss.stdinEnqueueChar 97).2.stdinEnqueueChar 10).2 := ⟨_, rfl⟩
  have hreach : Tty.lineCalls.Reachable t := by
    have h₀ : Tty.lineCalls.Reachable .bss := .init ⟨rfl, rfl⟩
    have h₁ : Tty.lineCalls.Reachable (Tty.bss.stdinEnqueueChar 97).2 :=
      .step (.stdinEnqueueChar 97) h₀ ⟨.inl (by decide), rfl⟩
    rw [ht]
    exact .step (.stdinEnqueueChar 10) h₁ ⟨.inl (by decide), rfl⟩
  have hend : StdinEnd { k with tty := t } (k.sched.nodes current).PCBIndex 0 := hstdin.congr rfl
  have hqueued : t.stdin.queued STDIN_BUFFER_SIZE = [97, 10] := by
    rw [ht]
    decide
  obtain ⟨t', -, -, hread⟩ := (stdin_lines hreach).2.2.2.2 { k with tty := t } current 0 rfl
    hcurrent hend (by rw [ht]; decide) (fun _ => 0) 5
  have hcall := hread 12 (by decide)
  rw [hqueued] at hcall
  exact ⟨_, _, 0, hreach, hcall⟩

end Kernel

end TP2Kernel
