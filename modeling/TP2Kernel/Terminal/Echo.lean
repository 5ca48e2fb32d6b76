import TP2Kernel.Terminal.LineEditor
import TP2Kernel.Terminal.Output

/-! # The line on the screen

    Keys are echoed at once; what programs write waits for a flush.  A backspace on the screen
    erases whatever comes before the cursor, so `backSpaceLimit` counts the characters that the
    user has typed since the last end of line or flush.

    System calls run with interrupts on: a key can be pressed, and another process can run,
    between any two steps of a flush.  The limit goes to zero at the end of a flush only, so
    in the meantime a backspace can erase what the flush has printed.  On the screen, other
    than in `stdin`, typing is a line editor but for that.
-/

namespace TP2Kernel

open Transition

/-- What a text with backspaces leaves on the screen. -/
def visible (text : List UInt8) : List UInt8 :=
  text.foldl (fun shown c => if c = 8 then shown.dropLast else shown ++ [c]) []

theorem visible_snoc (text : List UInt8) (c : UInt8) : visible (text ++ [c]) =
    if c = 8 then (visible text).dropLast else visible text ++ [c] := by
  simp [visible]

/-- What a program prints ends the line: nobody may take that back. -/
def LineEditor.output (e : LineEditor) (text : List UInt8) : LineEditor := ⟨e.text ++ text, []⟩

/-- A backspace erases as long as the limit allows it, be it of the line or not. -/
def LineEditor.echo (e : LineEditor) (limit : Int) (c : UInt8) : LineEditor :=
  if c = 8 ∧ e.line = [] ∧ 0 < limit then ⟨e.ended.dropLast, []⟩ else e.press c

/-- No backspace is in the buffer, and the indices are within the array. -/
structure CharBuffer.Sound (b : CharBuffer) (capacity : UInt64) : Prop where
  cells : ∀ i, b.buffer i ≠ 8
  enqIdx : b.enqIdx < capacity
  deqIdx : b.deqIdx < capacity

namespace Stream

def enqueueChar (stream : Stream) (t : Tty) (c : UInt8) : Int × Tty :=
  match stream with
  | stdout => t.stdoutEnqueueChar c
  | stderr => t.stderrEnqueueChar c

def dequeueChar (stream : Stream) (t : Tty) : Int × Tty :=
  match stream with
  | stdout => t.stdoutDequeueChar
  | stderr => t.stderrDequeueChar

def popChar (stream : Stream) (t : Tty) : Int × Tty :=
  match stream with
  | stdout => t.stdoutPopChar
  | stderr => t.stderrPopChar

end Stream

/-- The text is on the screen, and the limit allows to erase the line at least. -/
structure Tty.Shows (t : Tty) (e : LineEditor) : Prop where
  shown : visible t.screen = e.text
  line_le : e.line.length ≤ t.backSpaceLimit
  le_text : t.backSpaceLimit ≤ e.text.length

/-! ### Runs -/

/-- Where a call of `stdoutFFlush` or `stderrFFlush` is: at the test of its loop, or after it. -/
inductive Flushing where
  | isEmpty (stream : Stream)
  | printChar (stream : Stream)

/-- The terminal and the processes that are in a flush, beside the text on the screen: the line
    that is being edited, and what comes before it. -/
structure Echoing where
  tty : Tty
  flushing : Nat → Option Flushing
  editor : LineEditor

inductive EchoAction where
  | key (key : KeyPress)
  | writeChar (pid : Nat) (stream : Stream) (c : UInt8)
  | fflush (pid : Nat) (stream : Stream)
  | flush (pid : Nat)
  | readChar

namespace Echoing

/-- No process is in a flush. -/
def Quiet (s : Echoing) : Prop := ∀ pid, s.flushing pid = none

def key (s : Echoing) (key : KeyPress) : Echoing :=
  { s with
    tty := (s.tty.ttySTDINAddElement key.keyboard key.scanCode).2
    editor :=
      match decode key.keyboard key.scanCode with
      | none => s.editor
      | some c => s.editor.echo s.tty.backSpaceLimit c }

/-- `stdoutWriteChar` and `stderrWriteChar`, up to the flush that an end of line brings about. -/
def writeChar (s : Echoing) (pid : Nat) (stream : Stream) (c : UInt8) : Echoing :=
  { s with
    tty := (if c = 8 then stream.popChar s.tty else stream.enqueueChar s.tty c).2
    flushing :=
      if c = 10 then Function.update s.flushing pid (some (.isEmpty stream)) else s.flushing }

/-- `stdoutFFlush` or `stderrFFlush` is called. -/
def fflush (s : Echoing) (pid : Nat) (stream : Stream) : Echoing :=
  { s with flushing := Function.update s.flushing pid (some (.isEmpty stream)) }

/-- The next step of a flush.  Another process can have emptied the buffer after the test. -/
def flush (s : Echoing) (pid : Nat) : Echoing :=
  match s.flushing pid with
  | none => s
  | some (.isEmpty stream) =>
    if (stream.buffer s.tty).isEmpty then
      { tty := { s.tty with backSpaceLimit := 0 }
        flushing := Function.update s.flushing pid none
        editor := s.editor.output [] }
    else { s with flushing := Function.update s.flushing pid (some (.printChar stream)) }
  | some (.printChar stream) =>
    let (c, tty) := stream.dequeueChar s.tty
    { tty := tty.ncPrintChar (toChar c)
      flushing := Function.update s.flushing pid (some (.isEmpty stream))
      editor := s.editor.output [toChar c] }

def readChar (s : Echoing) : Echoing := { s with tty := s.tty.stdinReadChar.2.2 }

end Echoing

/-- A user types, and processes read and write, in any order. -/
def echoing : System Echoing EchoAction where
  init := fun s => s = ⟨.bss, fun _ => none, ⟨[], []⟩⟩
  step := fun s action s' =>
    match action with
    | .key key => s' = s.key key
    | .writeChar pid stream c => s.flushing pid = none ∧ s' = s.writeChar pid stream c
    | .fflush pid stream => s.flushing pid = none ∧ s' = s.fflush pid stream
    | .flush pid => s' = s.flush pid
    | .readChar => s' = s.readChar

namespace Echoing

/-- A backspace comes only when no process is in a flush. -/
def BetweenFlushes (s : Echoing) (action : EchoAction) : Prop :=
  ∀ key, action = .key key → decode key.keyboard key.scanCode = some 8 → s.Quiet

/-- A backspace when of the line nothing is left, but the limit allows it. -/
def ErasesOutput (s : Echoing) (key : KeyPress) : Prop :=
  decode key.keyboard key.scanCode = some 8 ∧ s.editor.line = [] ∧ 0 < s.tty.backSpaceLimit

/-- Whatever a program writes, a buffer keeps within its array and has no backspace in it. -/
structure Inv (s : Echoing) : Prop where
  shows : s.tty.Shows s.editor
  quiet : s.Quiet → s.tty.backSpaceLimit = s.editor.line.length
  sound : ∀ stream : Stream, (stream.buffer s.tty).Sound stream.capacity

end Echoing

/-! ### A buffer out of step -/

namespace CharBuffer

variable {b : CharBuffer} {capacity : UInt64} {c : UInt8}

theorem next_lt {i : UInt64} (h : i < capacity) :
    (if i + 1 = capacity then 0 else i + 1) < capacity := by
  have hi := UInt64.lt_iff_toNat_lt.mp h
  rw [UInt64.lt_iff_toNat_lt, toNat_next hi]
  exact CircularBuffer.next_lt (Nat.zero_lt_of_lt hi) _

theorem Sound.enqueue (h : b.Sound capacity) (hback : c ≠ 8) :
    (b.enqueue capacity c).2.Sound capacity := by
  unfold CharBuffer.enqueue
  split
  · exact h
  · refine ⟨?_, next_lt h.enqIdx, h.deqIdx⟩
    intro i
    by_cases hi : i = b.enqIdx.toNat
    · rw [hi]
      simpa using hback
    · simpa [hi] using h.cells i

theorem Sound.dequeue (h : b.Sound capacity) : (b.dequeue capacity).2.Sound capacity := by
  unfold CharBuffer.dequeue
  split
  · exact h
  · exact ⟨h.cells, h.enqIdx, next_lt h.deqIdx⟩

theorem Sound.pop (h : b.Sound capacity) : (b.pop capacity).2.Sound capacity := by
  unfold CharBuffer.pop
  split
  · exact h
  · refine ⟨h.cells, ?_, h.deqIdx⟩
    have hindex : 0 < (if b.enqIdx = 0 then capacity else b.enqIdx).toNat ∧
        (if b.enqIdx = 0 then capacity else b.enqIdx).toNat ≤ capacity.toNat := by
      have hlt := UInt64.lt_iff_toNat_lt.mp h.enqIdx
      split
      · exact ⟨Nat.zero_lt_of_lt hlt, Nat.le_refl _⟩
      · next hzero =>
        have hpos : b.enqIdx.toNat ≠ 0 := fun heq => hzero (UInt64.toNat.inj heq)
        exact ⟨by omega, by omega⟩
    rw [UInt64.lt_iff_toNat_lt, Word.uint64_toNat_pred hindex.1]
    omega

/-- What is dequeued is a cell, or -1. -/
theorem Sound.first_ne (h : b.Sound capacity) : toChar (b.dequeue capacity).1 ≠ 8 := by
  unfold CharBuffer.dequeue
  split
  · exact show toChar (-1) ≠ 8 by decide
  · show toChar (b.buffer b.deqIdx.toNat).toInt8.toInt ≠ 8
    rw [toChar_toInt]
    exact h.cells _

end CharBuffer

namespace Stream

variable {stream other : Stream} {t : Tty} {b : CharBuffer}

theorem sound_setBuffer (h : ∀ other : Stream, (other.buffer t).Sound other.capacity)
    (hb : b.Sound stream.capacity) (other : Stream) :
    (other.buffer (stream.setBuffer t b)).Sound other.capacity := by
  by_cases hother : other = stream
  · subst hother
    rw [buffer_setBuffer]
    exact hb
  · rw [buffer_setBuffer_ne hother]
    exact h other

theorem enqueueChar_eq (stream : Stream) (t : Tty) (c : UInt8) : stream.enqueueChar t c =
    (((stream.buffer t).enqueue stream.capacity c).1,
      stream.setBuffer t ((stream.buffer t).enqueue stream.capacity c).2) := by
  cases stream <;> rfl

theorem dequeueChar_eq (stream : Stream) (t : Tty) : stream.dequeueChar t =
    (((stream.buffer t).dequeue stream.capacity).1,
      stream.setBuffer t ((stream.buffer t).dequeue stream.capacity).2) := by
  cases stream <;> rfl

theorem popChar_eq (stream : Stream) (t : Tty) : stream.popChar t =
    (((stream.buffer t).pop stream.capacity).1,
      stream.setBuffer t ((stream.buffer t).pop stream.capacity).2) := by
  cases stream <;> rfl

@[simp] theorem setBuffer_backSpaceLimit :
    (stream.setBuffer t b).backSpaceLimit = t.backSpaceLimit := by
  cases stream <;> rfl

end Stream

/-! ### A key -/

namespace Tty

variable {t : Tty} {c : UInt8}

/-- What goes into `stdin` is not printed. -/
theorem stdinEnqueueChar_output (t : Tty) (c : UInt8) :
    (t.stdinEnqueueChar c).2.screen = t.screen ∧
    (t.stdinEnqueueChar c).2.backSpaceLimit = t.backSpaceLimit ∧
    ∀ stream : Stream, stream.buffer (t.stdinEnqueueChar c).2 = stream.buffer t := by
  have hsame : ∀ stdin data, ∀ stream : Stream,
      stream.buffer { t with stdin := stdin, stdinHasData := data } = stream.buffer t := by
    intro stdin data stream
    cases stream <;> rfl
  unfold stdinEnqueueChar
  dsimp only
  split
  · exact ⟨rfl, rfl, fun _ => rfl⟩
  · split
    · exact ⟨rfl, rfl, hsame _ _⟩
    · split <;> exact ⟨rfl, rfl, hsame _ _⟩

theorem stdinDequeueChar_output (t : Tty) :
    t.stdinDequeueChar.2.screen = t.screen ∧
    t.stdinDequeueChar.2.backSpaceLimit = t.backSpaceLimit ∧
    ∀ stream : Stream, stream.buffer t.stdinDequeueChar.2 = stream.buffer t := by
  unfold stdinDequeueChar
  split
  · exact ⟨rfl, rfl, fun _ => rfl⟩
  · refine ⟨rfl, rfl, fun stream => ?_⟩
    cases stream <;> rfl

theorem ttyKBDPrintChar_buffers (t : Tty) (c : UInt8) (stream : Stream) :
    stream.buffer (t.ttyKBDPrintChar c) = stream.buffer t := by
  unfold ttyKBDPrintChar
  split
  · cases stream <;> rfl
  · split
    · split
      · cases stream <;> rfl
      · rfl
    · cases stream <;> rfl

/-- The limit allows more than the line. -/
theorem Shows.erase_output {e : LineEditor} (h : t.Shows e) (hempty : e.line = [])
    (hpos : 0 < t.backSpaceLimit) : (t.ttyKBDPrintChar 8).Shows ⟨e.ended.dropLast, []⟩ := by
  have htext : e.text = e.ended := by
    rw [LineEditor.text, hempty, List.append_nil]
  have hshown := h.shown
  have hle := h.le_text
  rw [htext] at hshown hle
  unfold ttyKBDPrintChar
  rw [if_neg (by decide), if_pos rfl, if_pos hpos]
  refine ⟨?_, ?_, ?_⟩
  · show visible (t.screen ++ [8]) = e.ended.dropLast ++ []
    rw [visible_snoc, if_pos rfl, hshown, List.append_nil]
  · exact Int.le_sub_one_of_lt hpos
  · show t.backSpaceLimit - 1 ≤ ((e.ended.dropLast ++ []).length : Int)
    rw [List.append_nil, List.length_dropLast]
    omega

theorem Shows.erase_line {e : LineEditor} (h : t.Shows e) (hline : e.line ≠ []) :
    (t.ttyKBDPrintChar 8).Shows (e.press 8) := by
  have hlen : 0 < e.line.length := List.length_pos_iff.mpr hline
  have hle := h.line_le
  have htext : (e.press 8).text = e.text.dropLast := by
    show e.ended ++ e.line.dropLast = _
    rw [LineEditor.text, List.dropLast_append_of_ne_nil hline]
  unfold ttyKBDPrintChar
  rw [if_neg (by decide), if_pos rfl, if_pos (by omega)]
  refine ⟨?_, ?_, ?_⟩
  · show visible (t.screen ++ [8]) = _
    rw [visible_snoc, if_pos rfl, h.shown, htext]
  · show (e.line.dropLast.length : Int) ≤ t.backSpaceLimit - 1
    rw [List.length_dropLast]
    omega
  · have hle' := h.le_text
    show t.backSpaceLimit - 1 ≤ _
    rw [htext, List.length_dropLast]
    omega

theorem Shows.type {e : LineEditor} (h : t.Shows e) (hback : c ≠ 8) :
    (t.ttyKBDPrintChar c).Shows (e.press c) := by
  have htext : (e.press c).text = e.text ++ [c] := Typing.text_press hback
  have hlen : ((e.press c).text.length : Int) = e.text.length + 1 := by
    rw [htext, List.length_append]
    rfl
  have hscreen : visible (t.screen ++ [c]) = (e.press c).text := by
    rw [visible_snoc, if_neg hback, h.shown, htext]
  have hline := h.line_le
  have hle := h.le_text
  unfold ttyKBDPrintChar
  by_cases hend : c = 10
  · rw [if_pos hend]
    refine ⟨hscreen, ?_, Int.natCast_nonneg _⟩
    unfold LineEditor.press
    rw [if_pos hend]
    exact Int.le_refl 0
  · rw [if_neg hend, if_neg hback]
    refine ⟨hscreen, ?_, ?_⟩
    · show _ ≤ t.backSpaceLimit + 1
      unfold LineEditor.press
      rw [if_neg hend, if_neg hback, List.length_append, List.length_singleton]
      omega
    · show t.backSpaceLimit + 1 ≤ _
      omega

theorem Shows.echo {e : LineEditor} (h : t.Shows e) (c : UInt8) :
    (t.ttyKBDPrintChar c).Shows (e.echo t.backSpaceLimit c) := by
  unfold LineEditor.echo
  split
  · next herase =>
    obtain ⟨rfl, hempty, hpos⟩ := herase
    exact h.erase_output hempty hpos
  · next hkeep =>
    by_cases hback : c = 8
    · subst hback
      by_cases hline : e.line = []
      -- nothing is to be erased
      · have hpos : ¬ t.backSpaceLimit > 0 := fun hpos => hkeep ⟨rfl, hline, hpos⟩
        have hpress : e.press 8 = e := by
          show { e with line := e.line.dropLast } = e
          rw [hline, List.dropLast_nil, ← hline]
        unfold ttyKBDPrintChar
        rw [hpress, if_neg (by decide), if_pos rfl, if_neg hpos]
        exact h
      · exact h.erase_line hline
    · exact h.type hback

/-- Where the limit is the length of the line, the echo is the line editor. -/
theorem echo_eq_press {e : LineEditor} (hlimit : t.backSpaceLimit = e.line.length) :
    e.echo t.backSpaceLimit c = e.press c := by
  refine if_neg ?_
  intro herase
  obtain ⟨-, hempty, hpos⟩ := herase
  rw [hlimit, hempty] at hpos
  exact absurd hpos (by decide)

end Tty

/-! ### Without preemption -/

namespace Echoing

variable {s s' : Echoing} {action : EchoAction} {pid : Nat} {stream : Stream}

theorem flush_last (hpid : s.flushing pid = some (.isEmpty stream))
    (hempty : (stream.buffer s.tty).isEmpty = true) : s.flush pid =
      ⟨{ s.tty with backSpaceLimit := 0 }, Function.update s.flushing pid none,
        s.editor.output []⟩ := by
  simp only [Echoing.flush, hpid, hempty, if_true]

/-- The test, then the body of the loop. -/
theorem flush_round (hpid : s.flushing pid = some (.isEmpty stream))
    (hempty : ¬ (stream.buffer s.tty).isEmpty = true) : (s.flush pid).flush pid =
      ⟨(stream.setBuffer s.tty ((stream.buffer s.tty).dequeue stream.capacity).2).ncPrintChar
          (toChar ((stream.buffer s.tty).dequeue stream.capacity).1),
        Function.update s.flushing pid (some (.isEmpty stream)),
        s.editor.output [toChar ((stream.buffer s.tty).dequeue stream.capacity).1]⟩ := by
  have htest : s.flush pid =
      { s with flushing := Function.update s.flushing pid (some (.printChar stream)) } := by
    simp only [Echoing.flush, hpid, if_neg hempty]
  rw [htest]
  simp only [Echoing.flush, Function.update_self, Function.update_idem, Stream.dequeueChar_eq]

/-- Alone, the steps of a flush are those of `stdoutFFlush` or `stderrFFlush`; each round takes
    one character off the buffer. -/
theorem flushLoop_alone (hpid : s.flushing pid = some (.isEmpty stream)) {rounds : Nat}
    (hrounds : (stream.buffer s.tty).size.toNat ≤ rounds) :
    ∃ n, ((fun s => s.flush pid)^[n] s).tty =
      { stream.flushLoop s.tty rounds with backSpaceLimit := 0 } ∧
      ((fun s => s.flush pid)^[n] s).flushing = Function.update s.flushing pid none := by
  induction rounds generalizing s with
  | zero =>
    have hempty : (stream.buffer s.tty).isEmpty = true :=
      decide_eq_true (UInt64.toNat.inj (Nat.le_zero.mp hrounds))
    refine ⟨1, ?_, ?_⟩
    · rw [Function.iterate_one, flush_last hpid hempty]
      cases stream <;> rfl
    · rw [Function.iterate_one, flush_last hpid hempty]
  | succ rounds ih =>
    rw [Stream.flushLoop_succ]
    by_cases hempty : (stream.buffer s.tty).isEmpty = true
    · refine ⟨1, ?_, ?_⟩
      · rw [Function.iterate_one, flush_last hpid hempty, if_pos hempty]
      · rw [Function.iterate_one, flush_last hpid hempty]
    · have hround := flush_round hpid hempty
      obtain ⟨next, hnext⟩ : ∃ next, (s.flush pid).flush pid = next := ⟨_, rfl⟩
      rw [hnext] at hround
      have hsize : (stream.buffer next.tty).size.toNat ≤ rounds := by
        have hdequeue : stream.buffer next.tty =
            ((stream.buffer s.tty).dequeue stream.capacity).2 := by
          rw [hround]
          cases stream <;> rfl
        have hpos : (stream.buffer s.tty).size.toNat ≠ 0 :=
          fun hzero => hempty (decide_eq_true (UInt64.toNat.inj hzero))
        rw [hdequeue, CharBuffer.dequeue, if_neg hempty]
        show ((stream.buffer s.tty).size - 1).toNat ≤ rounds
        rw [Word.uint64_toNat_pred (by omega)]
        omega
      have hagain : next.flushing pid = some (.isEmpty stream) := by
        rw [hround]
        exact Function.update_self ..
      obtain ⟨n, htty, hflushing⟩ := ih hagain hsize
      have hsteps : (fun s => s.flush pid)^[n + 2] s = (fun s => s.flush pid)^[n] next := by
        rw [Function.iterate_add_apply]
        exact congrArg _ hnext
      refine ⟨n + 2, ?_, ?_⟩
      · rw [hsteps, htty, hround, if_neg hempty]
      · rw [hsteps, hflushing, hround, Function.update_idem]

theorem flush_alone (s : Echoing) (pid : Nat) (stream : Stream) :
    ∃ n, ((fun s => s.flush pid)^[n] (s.fflush pid stream)).tty = stream.fflush s.tty ∧
      ((fun s => s.flush pid)^[n] (s.fflush pid stream)).flushing =
        Function.update s.flushing pid none := by
  obtain ⟨n, htty, hflushing⟩ := flushLoop_alone (s := s.fflush pid stream)
    (Function.update_self ..) (Nat.le_refl _)
  refine ⟨n, ?_, ?_⟩
  · rw [htty, Stream.fflush_eq]
    rfl
  · rw [hflushing]
    exact Function.update_idem ..

/-- Alone, the steps of a call are those of `stdoutWriteChar` or `stderrWriteChar`. -/
theorem writeChar_alone (hpid : s.flushing pid = none) (stream : Stream) (c : UInt8) :
    ∃ n, ((fun s => s.flush pid)^[n] (s.writeChar pid stream c)).tty =
        (stream.writeChar s.tty c).2 ∧
      ((fun s => s.flush pid)^[n] (s.writeChar pid stream c)).flushing = s.flushing := by
  obtain ⟨b, hb, hcall⟩ : ∃ b : CharBuffer,
      (if c = 8 then stream.popChar s.tty else stream.enqueueChar s.tty c).2 =
        stream.setBuffer s.tty b ∧
      (stream.writeChar s.tty c).2 =
        if c = 10 then stream.fflush (stream.setBuffer s.tty b) else stream.setBuffer s.tty b := by
    rw [Stream.writeChar_eq]
    by_cases hback : c = 8
    · rw [if_pos hback, if_pos hback, Stream.popChar_eq]
      exact ⟨_, rfl, rfl⟩
    · rw [if_neg hback, if_neg hback, Stream.enqueueChar_eq]
      exact ⟨_, rfl, rfl⟩
  unfold Echoing.writeChar
  rw [hb, hcall]
  by_cases hend : c = 10
  · rw [if_pos hend, if_pos hend]
    obtain ⟨n, htty, hflushing⟩ :=
      flush_alone { s with tty := stream.setBuffer s.tty b } pid stream
    refine ⟨n, htty, hflushing.trans ?_⟩
    rw [← hpid]
    exact Function.update_eq_self ..
  · rw [if_neg hend, if_neg hend]
    exact ⟨0, rfl, rfl⟩

/-! ### The steps -/

/-- Neither what is typed in nor its limit changes. -/
theorem Inv.frame (h : Inv s) {t : Tty} {flushing : Nat → Option Flushing}
    (hscreen : t.screen = s.tty.screen) (hlimit : t.backSpaceLimit = s.tty.backSpaceLimit)
    (hquiet : (∀ pid, flushing pid = none) → s.Quiet)
    (hsound : ∀ stream : Stream, (stream.buffer t).Sound stream.capacity) :
    Inv ⟨t, flushing, s.editor⟩ := by
  refine ⟨⟨?_, ?_, ?_⟩, ?_, hsound⟩
  · exact (congrArg visible hscreen).trans h.shows.shown
  · exact hlimit.symm ▸ h.shows.line_le
  · exact hlimit.symm ▸ h.shows.le_text
  · exact fun hnone => hlimit.trans (h.quiet (hquiet hnone))

theorem not_quiet (s : Echoing) (pid : Nat) (flush : Flushing) :
    ¬ ∀ other, Function.update s.flushing pid (some flush) other = none := by
  intro hquiet
  have hpid := hquiet pid
  rw [Function.update_self] at hpid
  exact absurd hpid (by simp)

theorem Inv.key (h : Inv s) (key : KeyPress) : Inv (s.key key) := by
  unfold Echoing.key Tty.ttySTDINAddElement
  cases hkey : decode key.keyboard key.scanCode with
  | none => exact h
  | some c =>
    -- first `stdin`, then the echo
    obtain ⟨t, ht, hscreen, hlimit, hbuffers⟩ : ∃ t : Tty,
        (if c = 8 then s.tty.stdinDequeueChar.2 else (s.tty.stdinEnqueueChar c).2) = t ∧
        t.screen = s.tty.screen ∧ t.backSpaceLimit = s.tty.backSpaceLimit ∧
        ∀ stream : Stream, stream.buffer t = stream.buffer s.tty := by
      split
      · exact ⟨_, rfl, s.tty.stdinDequeueChar_output⟩
      · exact ⟨_, rfl, s.tty.stdinEnqueueChar_output c⟩
    simp only [ht]
    rw [← hlimit]
    have hshows : t.Shows s.editor := by
      refine ⟨?_, ?_, ?_⟩
      · exact (congrArg visible hscreen).trans h.shows.shown
      · exact hlimit.symm ▸ h.shows.line_le
      · exact hlimit.symm ▸ h.shows.le_text
    refine ⟨hshows.echo c, ?_, ?_⟩
    · intro hquiet
      have heq := hlimit.trans (h.quiet hquiet)
      rw [Tty.echo_eq_press heq]
      exact Tty.ttyKBDPrintChar_backSpaceLimit heq
    · intro stream
      rw [Tty.ttyKBDPrintChar_buffers, hbuffers]
      exact h.sound stream

theorem Inv.writeChar (h : Inv s) (pid : Nat) (stream : Stream) (c : UInt8) :
    Inv (s.writeChar pid stream c) := by
  obtain ⟨b, hb, hsound⟩ : ∃ b : CharBuffer,
      (if c = 8 then stream.popChar s.tty else stream.enqueueChar s.tty c).2 =
        stream.setBuffer s.tty b ∧ b.Sound stream.capacity := by
    by_cases hback : c = 8
    · rw [if_pos hback, Stream.popChar_eq]
      exact ⟨_, rfl, (h.sound stream).pop⟩
    · rw [if_neg hback, Stream.enqueueChar_eq]
      exact ⟨_, rfl, (h.sound stream).enqueue hback⟩
  unfold Echoing.writeChar
  rw [hb]
  refine h.frame Stream.setBuffer_screen Stream.setBuffer_backSpaceLimit ?_
    (Stream.sound_setBuffer h.sound hsound)
  intro hquiet
  split at hquiet
  · exact absurd hquiet (not_quiet s pid _)
  · exact hquiet

theorem Inv.fflush (h : Inv s) (pid : Nat) (stream : Stream) : Inv (s.fflush pid stream) :=
  h.frame rfl rfl (fun hquiet => absurd hquiet (not_quiet s pid _)) h.sound

/-- What is printed comes after everything that is shown. -/
theorem Inv.printChar (h : Inv s) (stream : Stream) :
    Inv ⟨(stream.dequeueChar s.tty).2.ncPrintChar (toChar (stream.dequeueChar s.tty).1),
      Function.update s.flushing pid (some (.isEmpty stream)),
      s.editor.output [toChar (stream.dequeueChar s.tty).1]⟩ := by
  rw [Stream.dequeueChar_eq]
  refine ⟨⟨?_, ?_, ?_⟩, fun hquiet => absurd hquiet (not_quiet s pid _), ?_⟩
  · show visible ((stream.setBuffer s.tty _).screen ++ [_]) = s.editor.text ++ [_] ++ []
    rw [visible_snoc, if_neg (h.sound stream).first_ne, Stream.setBuffer_screen, h.shows.shown,
      List.append_nil]
  · show (0 : Int) ≤ (stream.setBuffer s.tty _).backSpaceLimit
    rw [Stream.setBuffer_backSpaceLimit]
    exact (Int.natCast_nonneg _).trans h.shows.line_le
  · show (stream.setBuffer s.tty _).backSpaceLimit ≤ ((s.editor.text ++ [_] ++ []).length : Int)
    rw [Stream.setBuffer_backSpaceLimit, List.append_nil, List.length_append]
    exact h.shows.le_text.trans (Int.ofNat_le.mpr (Nat.le_add_right _ _))
  · intro other
    have hset := Stream.sound_setBuffer h.sound (h.sound stream).dequeue other
    cases other <;> exact hset

theorem Inv.flush (h : Inv s) (pid : Nat) : Inv (s.flush pid) := by
  unfold Echoing.flush
  split
  · exact h
  · next stream hpid =>
    split
    -- the end of a flush
    · refine ⟨⟨?_, Int.le_refl 0, Int.natCast_nonneg _⟩, fun _ => rfl, ?_⟩
      · show visible s.tty.screen = s.editor.text ++ [] ++ []
        rw [h.shows.shown, List.append_nil, List.append_nil]
      · intro other
        have hother := h.sound other
        cases other <;> exact hother
    · exact h.frame rfl rfl (fun hquiet => absurd hquiet (not_quiet s pid _)) h.sound
  · exact h.printChar _

theorem Inv.readChar (h : Inv s) : Inv s.readChar := by
  obtain ⟨hscreen, hlimit, hbuffers⟩ := s.tty.stdinDequeueChar_output
  have hread : s.readChar = { s with tty := s.tty.stdinDequeueChar.2 } := by
    unfold Echoing.readChar Tty.stdinReadChar
    dsimp only
    split <;> rfl
  rw [hread]
  refine h.frame hscreen hlimit id ?_
  intro stream
  rw [hbuffers]
  exact h.sound stream

theorem Inv.step (h : Inv s) (hstep : echoing.step s action s') : Inv s' := by
  cases action with
  | key key =>
    obtain rfl := hstep
    exact h.key key
  | writeChar pid stream c =>
    obtain ⟨-, rfl⟩ := hstep
    exact h.writeChar pid stream c
  | fflush pid stream =>
    obtain ⟨-, rfl⟩ := hstep
    exact h.fflush pid stream
  | flush pid =>
    obtain rfl := hstep
    exact h.flush pid
  | readChar =>
    obtain rfl := hstep
    exact h.readChar

theorem inv_init (h : echoing.init s) : Inv s := by
  obtain rfl := h
  have hempty : CharBuffer.empty.Sound 1024 := by
    refine ⟨fun _ => ?_, ?_, ?_⟩
    · exact show (0 : UInt8) ≠ 8 by decide
    · decide
    · decide
  refine ⟨⟨rfl, Int.le_refl 0, Int.le_refl 0⟩, fun _ => rfl, ?_⟩
  intro stream
  cases stream <;> exact hempty

theorem inv_reachable (h : echoing.Reachable s) : Inv s := by
  apply h.invariant Inv
  · exact fun s hinit => inv_init hinit
  · exact fun s action s' hinv hstep => hinv.step hstep

/-! ### What stays on the screen -/

theorem output_ended (e : LineEditor) (text : List UInt8) : e.ended <+: (e.output text).ended :=
  ⟨e.line ++ text, (List.append_assoc ..).symm⟩

theorem press_ended (e : LineEditor) (c : UInt8) : e.ended <+: (e.press c).ended := by
  unfold LineEditor.press
  split
  · exact ⟨e.line ++ [10], (List.append_assoc ..).symm⟩
  · split <;> exact List.prefix_refl _

theorem key_ended {key : KeyPress} (hkeep : ¬ s.ErasesOutput key) :
    s.editor.ended <+: (s.key key).editor.ended := by
  unfold Echoing.key
  cases hkey : decode key.keyboard key.scanCode with
  | none => exact List.prefix_refl _
  | some c =>
    have hecho : s.editor.echo s.tty.backSpaceLimit c = s.editor.press c := by
      refine if_neg ?_
      intro herase
      exact hkeep ⟨hkey.trans (congrArg some herase.1), herase.2⟩
    show s.editor.ended <+: (s.editor.echo s.tty.backSpaceLimit c).ended
    rw [hecho]
    exact press_ended _ _

/-- Between flushes, the limit allows no more than the line. -/
theorem Inv.not_erasesOutput (h : Inv s) (hquiet : s.Quiet) (key : KeyPress) :
    ¬ s.ErasesOutput key := by
  intro herase
  obtain ⟨-, hempty, hpos⟩ := herase
  rw [h.quiet hquiet, hempty] at hpos
  exact absurd hpos (by decide)

/-- Otherwise, a character is lost. -/
theorem Inv.erasesOutput (h : Inv s) {key : KeyPress} (herase : s.ErasesOutput key) :
    ¬ s.editor.ended <+: visible (s.key key).tty.screen := by
  obtain ⟨hkey, hempty, hpos⟩ := herase
  have heditor : (s.key key).editor = ⟨s.editor.ended.dropLast, []⟩ := by
    unfold Echoing.key
    rw [hkey]
    exact if_pos ⟨rfl, hempty, hpos⟩
  have hlen := hpos.trans_le h.shows.le_text
  rw [LineEditor.text, hempty, List.append_nil] at hlen
  rw [(h.key key).shows.shown, heditor]
  intro hended
  have hle := hended.length_le
  rw [LineEditor.text, List.append_nil, List.length_dropLast] at hle
  omega

theorem step_ended (h : Inv s) (hstep : (echoing.restrict BetweenFlushes).step s action s') :
    s.editor.ended <+: s'.editor.ended := by
  obtain ⟨hok, hstep⟩ := hstep
  cases action with
  | key key =>
    obtain rfl := hstep
    apply key_ended
    intro herase
    exact h.not_erasesOutput (hok key rfl herase.1) key herase
  | writeChar pid stream c =>
    obtain ⟨-, rfl⟩ := hstep
    exact List.prefix_refl _
  | fflush pid stream =>
    obtain ⟨-, rfl⟩ := hstep
    exact List.prefix_refl _
  | flush pid =>
    obtain rfl := hstep
    unfold Echoing.flush
    split
    · exact List.prefix_refl _
    · split
      · exact output_ended _ _
      · exact List.prefix_refl _
    · exact output_ended _ _
  | readChar =>
    obtain rfl := hstep
    exact List.prefix_refl _

theorem run_ended {actions : List EchoAction} (h : Inv s)
    (hrun : (echoing.restrict BetweenFlushes).StepsFrom s actions s') :
    Inv s' ∧ s.editor.ended <+: s'.editor.ended := by
  induction hrun with
  | nil s => exact ⟨h, List.prefix_refl _⟩
  | cons action actions hstep _ ih =>
    obtain ⟨hlast, hended⟩ := ih (h.step hstep.2)
    exact ⟨hlast, (step_ended h hstep).trans hended⟩

/-! ### The result -/

/-- On the screen, a backspace takes back what the user has typed last; what a program has
    printed and the lines that are ended stay, whatever is typed and written, as long as no
    backspace comes during a flush. -/
theorem echo_edits (h : echoing.Reachable s) :
    visible s.tty.screen = s.editor.text ∧
    (s.Quiet → s.tty.backSpaceLimit = s.editor.line.length) ∧
    (∀ stream : Stream, (stream.buffer s.tty).Sound stream.capacity) ∧
    (∀ key, s.editor.ended <+: visible (s.key key).tty.screen ↔ ¬ s.ErasesOutput key) ∧
    ∀ actions s', (echoing.restrict BetweenFlushes).StepsFrom s actions s' →
      s.editor.ended <+: visible s'.tty.screen := by
  have hinv := inv_reachable h
  refine ⟨hinv.shows.shown, hinv.quiet, hinv.sound, ?_, ?_⟩
  · intro key
    constructor
    · exact fun hended herase => hinv.erasesOutput herase hended
    · intro hkeep
      rw [(hinv.key key).shows.shown]
      exact (key_ended hkeep).trans (List.prefix_append _ _)
  · intro actions s' hrun
    obtain ⟨hlast, hended⟩ := run_ended hinv hrun
    rw [hlast.shows.shown]
    exact hended.trans (List.prefix_append _ _)

/-- A character has been typed, and a flush has printed another one, when a backspace comes:
    the second one is erased, and the first one stays. -/
theorem echo_edits_in_flush : ∃ s, echoing.Reachable s ∧ s.editor.ended = [97, 120] ∧
    ¬ [97, 120] <+: visible (s.key Typing.backspace).tty.screen := by
  have htype : echoing.Reachable
      (Echoing.key ⟨.bss, fun _ => none, ⟨[], []⟩⟩ Typing.keyA) :=
    .step (.key Typing.keyA) (.init rfl) rfl
  have hwrite : echoing.Reachable
      ((Echoing.key ⟨.bss, fun _ => none, ⟨[], []⟩⟩ Typing.keyA).writeChar 0 .stdout 120) :=
    .step (.writeChar 0 .stdout 120) htype ⟨rfl, rfl⟩
  have hcall : echoing.Reachable
      (((Echoing.key ⟨.bss, fun _ => none, ⟨[], []⟩⟩ Typing.keyA).writeChar
        0 .stdout 120).fflush 0 .stdout) := .step (.fflush 0 .stdout) hwrite ⟨rfl, rfl⟩
  have hprint : echoing.Reachable
      (((((Echoing.key ⟨.bss, fun _ => none, ⟨[], []⟩⟩ Typing.keyA).writeChar
        0 .stdout 120).fflush 0 .stdout).flush 0).flush 0) :=
    .step (.flush 0) (.step (.flush 0) hcall rfl) rfl
  refine ⟨_, hprint, rfl, ?_⟩
  intro hended
  have hkept := ((echo_edits hprint).2.2.2.1 Typing.backspace).mp hended
  exact hkept ⟨rfl, rfl, by decide⟩

end Echoing

end TP2Kernel
