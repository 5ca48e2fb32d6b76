import TP2Kernel.Framework.Transition
import TP2Kernel.Terminal.Contents

/-! # Output and backspaces

    `stdout` and `stderr` collect characters until a flush sends them to the screen.  A
    backspace takes the last character back from the write index, but not from the size: from
    then on the buffer is out of step.
-/

namespace TP2Kernel

open Transition

/-! ### The two streams -/

inductive Stream where
  | stdout
  | stderr
  deriving DecidableEq

namespace Stream

def capacity : Stream → UInt64
  | stdout => STDOUT_BUFFER_SIZE
  | stderr => STDERR_BUFFER_SIZE

def buffer (stream : Stream) (t : Tty) : CharBuffer :=
  match stream with
  | stdout => t.stdout
  | stderr => t.stderr

def setBuffer (stream : Stream) (t : Tty) (b : CharBuffer) : Tty :=
  match stream with
  | stdout => { t with stdout := b }
  | stderr => { t with stderr := b }

/-- `stdoutWriteChar` and `stderrWriteChar`. -/
def writeChar (stream : Stream) (t : Tty) (c : UInt8) : Int × Tty :=
  match stream with
  | stdout => t.ttySTDOUTPrint c
  | stderr => t.ttySTDERRPrint c

def flushLoop (stream : Stream) (t : Tty) (rounds : Nat) : Tty :=
  match stream with
  | stdout => t.stdoutFlushLoop rounds
  | stderr => t.stderrFlushLoop rounds

def fflush (stream : Stream) (t : Tty) : Tty :=
  match stream with
  | stdout => t.stdoutFFlush
  | stderr => t.stderrFFlush

variable {stream other : Stream} {t : Tty} {b : CharBuffer} {l : List UInt8}

@[simp] theorem capacity_eq (stream : Stream) : stream.capacity = 1024 := by
  cases stream <;> rfl

@[simp] theorem buffer_setBuffer (stream : Stream) (t : Tty) (b : CharBuffer) :
    stream.buffer (stream.setBuffer t b) = b := by
  cases stream <;> rfl

theorem buffer_setBuffer_ne (h : other ≠ stream) :
    other.buffer (stream.setBuffer t b) = other.buffer t := by
  cases stream <;> cases other <;> first | rfl | exact absurd rfl h

@[simp] theorem setBuffer_setBuffer (b' : CharBuffer) :
    stream.setBuffer (stream.setBuffer t b) b' = stream.setBuffer t b' := by
  cases stream <;> rfl

@[simp] theorem setBuffer_screen : (stream.setBuffer t b).screen = t.screen := by
  cases stream <;> rfl

theorem setBuffer_buffer (stream : Stream) (t : Tty) :
    stream.setBuffer t (stream.buffer t) = t := by
  cases stream <;> rfl

theorem writeChar_eq (stream : Stream) (t : Tty) (c : UInt8) : stream.writeChar t c =
    match (if c = 8 then (stream.buffer t).pop stream.capacity
      else (stream.buffer t).enqueue stream.capacity c) with
    | (result, b) =>
      (result, if c = 10 then stream.fflush (stream.setBuffer t b) else stream.setBuffer t b) := by
  cases stream with
  | stdout =>
    simp only [writeChar, Tty.ttySTDOUTPrint, Tty.stdoutPopChar, Tty.stdoutEnqueueChar]
    by_cases hback : c = 8
    · subst hback
      rfl
    · by_cases hend : c = 10 <;> simp only [hback, hend, if_true, if_false] <;> rfl
  | stderr =>
    simp only [writeChar, Tty.ttySTDERRPrint, Tty.stderrPopChar, Tty.stderrEnqueueChar]
    by_cases hback : c = 8
    · subst hback
      rfl
    · by_cases hend : c = 10 <;> simp only [hback, hend, if_true, if_false] <;> rfl

theorem flushLoop_succ (stream : Stream) (t : Tty) (rounds : Nat) :
    stream.flushLoop t (rounds + 1) =
      if (stream.buffer t).isEmpty then t
      else stream.flushLoop
        ((stream.setBuffer t ((stream.buffer t).dequeue stream.capacity).2).ncPrintChar
          (toChar ((stream.buffer t).dequeue stream.capacity).1)) rounds := by
  cases stream <;> rfl

/-- The loop sends what the buffer holds, and empties it. -/
theorem flushLoop_contents (h : (stream.buffer t).Contents stream.capacity l) {rounds : Nat}
    (hrounds : l.length ≤ rounds) :
    ∃ b, b.Contents stream.capacity [] ∧
      stream.flushLoop t rounds = { stream.setBuffer t b with screen := t.screen ++ l } := by
  induction l generalizing t rounds with
  | nil =>
    refine ⟨stream.buffer t, h, ?_⟩
    have hstop : stream.flushLoop t rounds = t := by
      cases rounds with
      | zero => cases stream <;> rfl
      | succ rounds => rw [flushLoop_succ, if_pos (h.isEmpty_iff.mpr rfl)]
    rw [hstop, setBuffer_buffer, List.append_nil]
  | cons c l ih =>
    obtain ⟨rounds, rfl⟩ : ∃ n, rounds = n + 1 := by
      apply Nat.exists_eq_add_one_of_ne_zero
      rintro rfl
      exact absurd hrounds (by simp)
    obtain ⟨hfirst, hrest⟩ := h.dequeue
    have hempty : ¬ (stream.buffer t).isEmpty = true := by
      rw [h.isEmpty_iff]
      exact List.cons_ne_nil c l
    rw [flushLoop_succ, if_neg hempty, hfirst, toChar_toInt]
    -- printing a character leaves the buffer
    have hbuffer : stream.buffer ((stream.setBuffer t ((stream.buffer t).dequeue
        stream.capacity).2).ncPrintChar c) = ((stream.buffer t).dequeue stream.capacity).2 := by
      cases stream <;> rfl
    obtain ⟨b, hb, hloop⟩ := ih (hbuffer ▸ hrest) (Nat.le_of_succ_le_succ hrounds)
    refine ⟨b, hb, ?_⟩
    rw [hloop]
    cases stream <;> simp [setBuffer, Tty.ncPrintChar]

theorem fflush_eq (stream : Stream) (t : Tty) : stream.fflush t =
    { stream.flushLoop t (stream.buffer t).size.toNat with backSpaceLimit := 0 } := by
  cases stream <;> rfl

/-- A flush sends what the buffer holds, and empties it. -/
theorem fflush_contents (h : (stream.buffer t).Contents stream.capacity l) :
    ∃ b, b.Contents stream.capacity [] ∧ stream.fflush t =
      { stream.setBuffer t b with screen := t.screen ++ l, backSpaceLimit := 0 } := by
  obtain ⟨b, hb, hloop⟩ := flushLoop_contents h (Nat.le_of_eq h.size.symm)
  refine ⟨b, hb, ?_⟩
  rw [fflush_eq, hloop]

end Stream

/-! ### Runs -/

/-- The terminal, beside what a reader of the calls expects: the accepted characters of each
    stream that are neither erased nor flushed, and the text on the screen. -/
structure Printing where
  tty : Tty
  pending : Stream → List UInt8
  expected : List UInt8

inductive PrintAction where
  | writeChar (stream : Stream) (c : UInt8)
  | fflush (stream : Stream)

namespace Printing

/-- What is pending after a call that returned `result`. -/
def noted (pending : List UInt8) (c : UInt8) (result : Int) : List UInt8 :=
  if c = 8 then pending.dropLast
  else if result = -1 then pending
  else pending ++ [c]

def writeChar (s : Printing) (stream : Stream) (c : UInt8) : Printing :=
  let (result, tty) := stream.writeChar s.tty c
  let text := noted (s.pending stream) c result
  if c = 10 then
    { tty := tty, pending := Function.update s.pending stream [], expected := s.expected ++ text }
  else
    { tty := tty, pending := Function.update s.pending stream text, expected := s.expected }

def fflush (s : Printing) (stream : Stream) : Printing where
  tty := stream.fflush s.tty
  pending := Function.update s.pending stream []
  expected := s.expected ++ s.pending stream

end Printing

/-- Programs print. -/
def printing : System Printing PrintAction where
  init := fun s => s = ⟨.bss, fun _ => [], []⟩
  step := fun s action s' =>
    match action with
    | .writeChar stream c => s' = s.writeChar stream c
    | .fflush stream => s' = s.fflush stream

namespace Printing

/-- The indices and the size of each buffer agree, and the screen shows what was written and
    not erased. -/
structure Faithful (s : Printing) : Prop where
  inStep : ∀ stream : Stream, (stream.buffer s.tty).InStep stream.capacity
  screen : s.tty.screen = s.expected

/-- A backspace is written only when there is nothing to erase. -/
def NothingToErase (s : Printing) (action : PrintAction) : Prop :=
  match action with
  | .writeChar stream c => c = 8 → (stream.buffer s.tty).isEmpty = true
  | .fflush _ => True

structure Inv (s : Printing) : Prop where
  contents : ∀ stream : Stream, (stream.buffer s.tty).Contents stream.capacity (s.pending stream)
  screen : s.tty.screen = s.expected

variable {s s' : Printing} {stream : Stream} {c : UInt8}

theorem Inv.faithful (h : Inv s) : s.Faithful :=
  ⟨fun stream => (h.contents stream).inStep, h.screen⟩

/-- One buffer changes, and what is pending there. -/
theorem Inv.setBuffer (h : Inv s) (text : List UInt8) (limit : Int) {b : CharBuffer}
    {l : List UInt8} (hb : b.Contents stream.capacity l) :
    Inv { tty := { stream.setBuffer s.tty b with
            screen := s.tty.screen ++ text, backSpaceLimit := limit }
          pending := Function.update s.pending stream l
          expected := s.expected ++ text } := by
  constructor
  · intro other
    have hsame : other.buffer { stream.setBuffer s.tty b with
        screen := s.tty.screen ++ text, backSpaceLimit := limit } =
        other.buffer (stream.setBuffer s.tty b) := by
      cases other <;> rfl
    show (other.buffer { stream.setBuffer s.tty b with
      screen := s.tty.screen ++ text, backSpaceLimit := limit }).Contents other.capacity
        (Function.update s.pending stream l other)
    rw [hsame]
    -- the two streams have buffers of their own
    by_cases hother : other = stream
    · subst hother
      rw [Stream.buffer_setBuffer, Function.update_self]
      exact hb
    · rw [Stream.buffer_setBuffer_ne hother, Function.update_of_ne hother]
      exact h.contents other
  · show s.tty.screen ++ text = s.expected ++ text
    rw [h.screen]

theorem inv_fflush (h : Inv s) (stream : Stream) : Inv (s.fflush stream) := by
  obtain ⟨b, hb, hflush⟩ := Stream.fflush_contents (h.contents stream)
  unfold fflush
  rw [hflush]
  exact h.setBuffer _ _ hb

/-- A character that is no backspace. -/
theorem inv_writeChar (h : Inv s) (hback : c ≠ 8) : Inv (s.writeChar stream c) := by
  have hcontents := h.contents stream
  -- the buffer and what is pending, after the enqueue
  obtain ⟨result, b, henqueue, hb⟩ : ∃ result b,
      (stream.buffer s.tty).enqueue stream.capacity c = (result, b) ∧
      b.Contents stream.capacity (noted (s.pending stream) c result) := by
    have hnoted : ∀ result, noted (s.pending stream) c result =
        if result = -1 then s.pending stream else s.pending stream ++ [c] :=
      fun _ => if_neg hback
    by_cases hroom : (s.pending stream).length < stream.capacity.toNat
    · obtain ⟨hresult, hb⟩ := hcontents.enqueue hroom c
      refine ⟨0, _, Prod.ext hresult rfl, ?_⟩
      rw [hnoted, if_neg (by decide)]
      exact hb
    · have hfull := Nat.le_antisymm hcontents.fills.fits (Nat.le_of_not_lt hroom)
      refine ⟨-1, _, hcontents.enqueue_full hfull, ?_⟩
      rw [hnoted, if_pos rfl]
      exact hcontents
  have hwrite := Stream.writeChar_eq stream s.tty c
  rw [if_neg hback, henqueue] at hwrite
  unfold writeChar
  rw [hwrite]
  by_cases hend : c = 10
  · -- the whole line goes to the screen
    simp only [if_pos hend]
    have hline : (stream.buffer (stream.setBuffer s.tty b)).Contents stream.capacity
        (noted (s.pending stream) c result) := by
      rw [Stream.buffer_setBuffer]
      exact hb
    obtain ⟨b', hb', hflush⟩ := Stream.fflush_contents hline
    rw [hflush, Stream.setBuffer_setBuffer, Stream.setBuffer_screen]
    exact h.setBuffer _ _ hb'
  · simp only [if_neg hend]
    have hset := h.setBuffer [] s.tty.backSpaceLimit hb
    rw [List.append_nil, List.append_nil] at hset
    have hsame : stream.setBuffer s.tty b = { stream.setBuffer s.tty b with
        screen := s.tty.screen, backSpaceLimit := s.tty.backSpaceLimit } := by
      cases stream <;> rfl
    rw [hsame]
    exact hset

/-- A backspace changes the buffer unless it is empty. -/
theorem writeChar_backspace (s : Printing) (stream : Stream) :
    (s.writeChar stream 8).tty =
      stream.setBuffer s.tty ((stream.buffer s.tty).pop stream.capacity).2 := by
  have hwrite := Stream.writeChar_eq stream s.tty 8
  rw [if_pos rfl] at hwrite
  have hend : ¬ (8 : UInt8) = 10 := by decide
  unfold writeChar
  rw [hwrite]
  simp only [if_neg hend]

theorem inv_backspace (h : Inv s) (hempty : (stream.buffer s.tty).isEmpty = true) :
    Inv (s.writeChar stream 8) := by
  have hnil := (h.contents stream).isEmpty_iff.mp hempty
  have hcontents := h.contents stream
  rw [hnil] at hcontents
  have htty := writeChar_backspace s stream
  rw [hcontents.pop_empty, Stream.setBuffer_buffer] at htty
  constructor
  · intro other
    rw [htty]
    have hpending : (s.writeChar stream 8).pending = Function.update s.pending stream [] := by
      show Function.update s.pending stream (s.pending stream).dropLast = _
      rw [hnil]
      rfl
    rw [hpending, ← hnil, Function.update_eq_self]
    exact h.contents other
  · rw [htty]
    exact h.screen

/-- One step keeps buffers and screen faithful if and only if it is no backspace that finds
    something to erase. -/
theorem step_iff (h : Inv s) {action : PrintAction} (hstep : printing.step s action s') :
    (s.NothingToErase action → Inv s') ∧ (s'.Faithful → s.NothingToErase action) := by
  cases action with
  | fflush stream =>
    obtain rfl := hstep
    exact ⟨fun _ => inv_fflush h stream, fun _ => trivial⟩
  | writeChar stream c =>
    obtain rfl := hstep
    by_cases hback : c = 8
    · subst hback
      refine ⟨fun hok => inv_backspace h (hok rfl), ?_⟩
      intro hfaithful _
      by_contra hne
      have hcontents := h.contents stream
      have hsome : s.pending stream ≠ [] := fun hnil => hne (hcontents.isEmpty_iff.mpr hnil)
      have hin := hfaithful.inStep stream
      rw [writeChar_backspace, Stream.buffer_setBuffer] at hin
      -- `pop` moves the index and forgets the size
      refine hcontents.pop_not_inStep hsome ?_ hin
      rw [Stream.capacity_eq]
      decide
    · exact ⟨fun _ => inv_writeChar h hback, fun _ hc => absurd hc hback⟩

theorem inv_init (h : printing.init s) : Inv s := by
  obtain rfl := h
  constructor
  · intro stream
    have hcap : 0 < stream.capacity := by
      rw [Stream.capacity_eq]
      decide
    cases stream <;> exact CharBuffer.contents_empty hcap
  · rfl

theorem inv_reachable (h : (printing.restrict NothingToErase).Reachable s) : Inv s := by
  apply h.invariant Inv
  · exact fun s hinit => inv_init hinit
  · intro s action s' hinv h
    obtain ⟨hok, hstep⟩ := h
    exact (step_iff hinv hstep).1 hok

/-- Buffers and screen are faithful as long as no backspace finds anything to erase; the first
    one that does puts the buffer out of step. -/
theorem faithful_iff_nothingToErase (h : (printing.restrict NothingToErase).Reachable s) :
    s.Faithful ∧
    ∀ action s', printing.step s action s' → (s'.Faithful ↔ s.NothingToErase action) := by
  have hinv := inv_reachable h
  refine ⟨hinv.faithful, ?_⟩
  intro action s' hstep
  obtain ⟨hkeep, hbreak⟩ := step_iff hinv hstep
  exact ⟨hbreak, fun hok => (hkeep hok).faithful⟩

/-- A line is written. -/
theorem faithful_iff_nothingToErase_line :
    ∃ s, (printing.restrict NothingToErase).Reachable s ∧ s.tty.screen = [97, 10] ∧
      s.Faithful := by
  have hwrite : ∀ s stream c, c ≠ 8 → (printing.restrict NothingToErase).Reachable s →
      (printing.restrict NothingToErase).Reachable (s.writeChar stream c) :=
    fun s stream c hc h => .step (.writeChar stream c) h ⟨fun heq => absurd heq hc, rfl⟩
  have h₀ : (printing.restrict NothingToErase).Reachable ⟨.bss, fun _ => [], []⟩ := .init rfl
  have h₂ := hwrite _ .stdout 10 (by decide) (hwrite _ .stdout 97 (by decide) h₀)
  exact ⟨_, h₂, rfl, (faithful_iff_nothingToErase h₂).1⟩

/-- A character is written and erased. -/
theorem backspace_not_faithful : ¬ ∀ s, printing.Reachable s → s.Faithful := by
  intro hclaim
  have hwrite : ∀ s stream c, printing.Reachable s → printing.Reachable (s.writeChar stream c) :=
    fun s stream c h => .step (.writeChar stream c) h rfl
  have h₀ : printing.Reachable ⟨.bss, fun _ => [], []⟩ := .init rfl
  have hin := (hclaim _ (hwrite _ .stdout 8 (hwrite _ .stdout 97 h₀))).inStep .stdout
  unfold CharBuffer.InStep at hin
  exact absurd hin (by decide)

end Printing

end TP2Kernel
