import TP2Kernel.MessageQueue.Transfer
import TP2Kernel.Terminal.LineEditor
import TP2Kernel.Terminal.LineReading
import TP2Kernel.Userland.ReadLine

/-! # From the keys to the lines of a program

    The keyboard's interrupt (`attendKeyboard` in `Kernel/c/keyboard.c`) puts characters into
    `stdin` while a program takes lines from there with `readLine` (`Userland/c/stdio.c`), a
    system call for each character.  The interrupt, and other processes, can come in between
    any two operations on `stdin`.

    As long as nobody presses the backspace, the program gets the lines that were typed.
-/

namespace TP2Kernel

open Transition Kernel

inductive KeyboardMode where
  | TTY
  | RAW

/-- Where a call of `readLine` is, if there is one: at the `getchar` of its first loop, or at
    that of the second one. -/
inductive LineReader where
  | idle
  | line (buffer : Addr) (buffSize i : UInt64)
  | clean (buffer : Addr) (buffSize i : UInt64)

/-- A call of `readLine` that has returned, with the memory as it was then. -/
structure ReturnedCall where
  buffer : Addr
  buffSize : UInt64
  result : Int64
  mem : Memory

/-- The machine with a program that reads lines.  `result` is the variable of `getchar`, and
    `receiving` its system call.  Of the keys, `text` has what went into `stdin`. -/
structure Session where
  kernel : Kernel
  keyboard : Keyboard
  keyboardMode : KeyboardMode
  program : LineReader
  result : UInt8
  receiving : Receiving
  text : List UInt8
  returned : List ReturnedCall

/-- What `stdin` takes of a key: nothing when it is full, and an end of line for the character
    that fills it. -/
def Tty.takes (t : Tty) : Option UInt8 → List UInt8
  | none => []
  | some character =>
    if t.stdinIsFull then []
    else if t.stdin.size + 1 = STDIN_BUFFER_SIZE then [10]
    else [character]

namespace Session

def withMem (s : Session) (mem : Memory) : Session :=
  { s with kernel := { s.kernel with mem := mem } }

/-- `attendKeyboard`, with what the port has. -/
def attendKeyboard (s : Session) (scanCode : UInt8) : Session :=
  let keyboard := (s.keyboard.processModifierKey scanCode).2
  match s.keyboardMode with
  | .TTY =>
    { s with
      keyboard := keyboard
      kernel := { s.kernel with tty := (s.kernel.tty.ttySTDINAddElement keyboard scanCode).2 }
      text := s.text ++ s.kernel.tty.takes (decode keyboard scanCode) }
  | .RAW =>
    { s with
      keyboard := keyboard
      kernel := { s.kernel with rawKeys := (s.kernel.rawKeys.rawAddElement scanCode).2 } }

/-- `changeMode`; a value that is no mode changes nothing. -/
def changeMode (s : Session) (mode : UInt32) : Session :=
  if mode = 0 then { s with keyboardMode := .TTY }
  else if mode = 1 then { s with keyboardMode := .RAW }
  else s

/-- `return (i - 1)` -/
def returns (s : Session) (buffer : Addr) (buffSize i : UInt64) : Session :=
  { s with
    program := .idle
    returned := s.returned ++ [⟨buffer, buffSize, (i - 1).toInt64, s.kernel.mem⟩] }

/-- `getchar` has returned `c`. -/
def gotChar (s : Session) (c : UInt8) : Session :=
  match s.program with
  | .idle => s
  | .line buffer buffSize i =>
    if c ≠ 10 ∧ i < buffSize - 1 then
      { s.withMem (Function.update s.kernel.mem (buffer + i) c) with
        program := .line buffer buffSize (i + 1) }
    else
      let s := s.withMem (Function.update s.kernel.mem (buffer + i) 0)
      if c ≠ 10 then { s with program := .clean buffer buffSize i }
      else s.returns buffer buffSize i
  | .clean buffer buffSize i => if c ≠ 10 then s else s.returns buffer buffSize i

/-- The next step of the system call; when it returns, so does `getchar`. -/
def receive (s : Session) : Session :=
  let (kernel, receiving, got) := s.kernel.inputStep s.receiving
  let s := { s with kernel := kernel, result := got.getD s.result, receiving := receiving }
  match receiving with
  | .idle => s.gotChar s.result
  | _ => s

/-- The bytes that `readLine` was given. -/
def InBuffer (s : Session) (x : Addr) : Prop :=
  match s.program with
  | .idle => False
  | .line buffer buffSize _ | .clean buffer buffSize _ => (x - buffer).toNat < buffSize.toNat

end Session

inductive SessionAction where
  /-- The keyboard's interrupt. -/
  | key (scanCode : UInt8)
  | changeMode (mode : UInt32)
  | readLine (buffer : Addr) (buffSize : UInt64)
  /-- The next step of `getchar` in `readLine`. -/
  | program
  | preempt
  /-- Others use their memory. -/
  | write (mem : Memory)

/-- The program is that of PCB entry `reader`, and no call is in progress.  What lies in
    `stdin` counts as text. -/
structure Session.Start (reader : UInt64) (s : Session) : Prop where
  stdin : s.kernel.StdinEnd reader 0
  blocking : (s.kernel.descriptor reader 0).flags &&& F_NOBLOCK = 0
  index : reader ≠ -1
  lines : s.kernel.tty.Lines s.text
  program : s.program = .idle
  receiving : s.receiving = .idle
  returned : s.returned = []

/-- Keys, and a program that reads lines. -/
def session (reader : UInt64) : System Session SessionAction where
  init := Session.Start reader
  step := fun s action s' =>
    match action with
    | .key scanCode => s' = s.attendKeyboard scanCode
    | .changeMode mode => s' = s.changeMode mode
    | .readLine buffer buffSize => s.kernel.sched.getCurrentPCBIndex = reader ∧
        s.program = .idle ∧ 1 ≤ buffSize ∧ s' = { s with program := .line buffer buffSize 0 }
    | .program => s.kernel.sched.getCurrentPCBIndex = reader ∧ s.program ≠ .idle ∧
        match s.receiving with
        | .idle =>
          -- the variable of `getchar` is not initialised
          ∃ junk, match s.kernel.waitForIO 0 with
            | none => s' = s.gotChar junk
            | some (call, k) =>
              s' = { s with kernel := k, result := junk, receiving := .test call 1 0 }
        | _ => s' = s.receive
    | .preempt => ∃ t, Preempted s.kernel.toTasks t ∧
        s' = { s with kernel := { s.kernel with toTasks := t } }
    | .write mem => (∀ x, s.InBuffer x → mem x = s.kernel.mem x) ∧ s' = s.withMem mem

/-- A step of the calls of the program. -/
def SessionAction.ofProgram : SessionAction → Bool
  | .program => true
  | _ => false

/-- No key is the backspace of the terminal: it would take a character from the other end. -/
def NoBackspace (s : Session) : SessionAction → Prop
  | .key scanCode => s.keyboardMode = .TTY →
      decode (s.keyboard.processModifierKey scanCode).2 scanCode ≠ some 8
  | _ => True

/-- Lines with their ends. -/
def joinLines (lines : List (List UInt8)) : List UInt8 := lines.flatMap (· ++ [10])

/-- The call stored the line, as far as there was room for it, and returned one less than what
    it stored. -/
def ReturnedCall.Took (call : ReturnedCall) (line : List UInt8) : Prop :=
  LiesAt call.mem call.buffer (storedLine line call.buffSize ++ [0]) ∧
  call.result = (UInt64.ofNat (storedLine line call.buffSize).length - 1).toInt64

/-! ### The invariant -/

/-- The call of `readLine` has taken `part` of a line. -/
def LineReader.Reads (m : Memory) (part : List UInt8) : LineReader → Prop
  | .idle => part = []
  | .line buffer buffSize i => 10 ∉ part ∧ part.length < buffSize.toNat ∧
      i = UInt64.ofNat part.length ∧ LiesAt m buffer part
  | .clean buffer buffSize i => 10 ∉ part ∧ 1 ≤ buffSize.toNat ∧ buffSize.toNat ≤ part.length ∧
      i = UInt64.ofNat (storedLine part buffSize).length ∧
      LiesAt m buffer (storedLine part buffSize ++ [0])

/-- The system call of `getchar`, when `stdin` holds `l`, has taken `pending`.  Past its test
    there is a line. -/
inductive Receiving.GetsChar (reader : UInt64) (l : List UInt8) (result : UInt8) :
    Receiving → List UInt8 → Prop
  | idle : GetsChar reader l result .idle []
  | test {call : IOCall} : call.Through reader 0 → call.blocking = true →
      GetsChar reader l result (.test call 1 0) []
  | read {call : IOCall} : call.Through reader 0 → 10 ∈ l →
      GetsChar reader l result (.read call 1 0) []
  | last {call : IOCall} : call.Through reader 0 → result ≠ 10 →
      GetsChar reader l result (.test call 1 1) [result]

/-- The text is what the calls that returned took, what the present one took, and what `stdin`
    holds. -/
structure SessionInv (reader : UInt64) (s : Session) (lines : List (List UInt8))
    (part pending l : List UInt8) : Prop where
  stdin : s.kernel.StdinEnd reader 0
  blocking : (s.kernel.descriptor reader 0).flags &&& F_NOBLOCK = 0
  index : reader ≠ -1
  holds : s.kernel.tty.Lines l
  text : s.text = joinLines lines ++ part ++ pending ++ l
  newlines : ∀ line ∈ lines, 10 ∉ line
  program : s.program.Reads s.kernel.mem part
  receiving : s.receiving.GetsChar reader l s.result pending
  between : s.program = .idle → s.receiving = .idle
  returned : List.Forall₂ ReturnedCall.Took s.returned lines

/-! ### Keys -/

namespace Tty

variable {t : Tty} {l : List UInt8}

theorem takes_eq (h : t.Lines l) (c : UInt8) : t.takes (some c) =
    if l.length = STDIN_BUFFER_SIZE.toNat then [] else [lineChar l c] := by
  have hfull : t.stdinIsFull = true ↔ l.length = STDIN_BUFFER_SIZE.toNat := h.contents.isFull_iff
  rw [takes]
  by_cases hlen : l.length = STDIN_BUFFER_SIZE.toNat
  · rw [if_pos (hfull.mpr hlen), if_pos hlen]
  · rw [if_neg fun htest => hlen (hfull.mp htest), if_neg hlen]
    have hfits := h.contents.fills.fits
    have hlast : t.stdin.size + 1 = STDIN_BUFFER_SIZE ↔ l.length + 1 = STDIN_BUFFER_SIZE.toNat := by
      have hsize : STDIN_BUFFER_SIZE.toNat = 1024 := rfl
      rw [← UInt64.toNat_inj, Word.uint64_toNat_succ (by rw [h.contents.size]; omega),
        h.contents.size]
    unfold lineChar
    simp only [hlast]
    split <;> rfl

/-- A key that is no backspace. -/
theorem Lines.attend (h : t.Lines l) {keyboard : Keyboard} {scanCode : UInt8}
    (hback : decode keyboard scanCode ≠ some 8) :
    (t.ttySTDINAddElement keyboard scanCode).2.Lines
      (l ++ t.takes (decode keyboard scanCode)) := by
  cases hkey : decode keyboard scanCode with
  | none =>
    rw [takes, List.append_nil, ttySTDINAddElement, hkey]
    exact h
  | some c =>
    have hc : c ≠ 8 := fun heq => hback (by rw [hkey, heq])
    have hplain : c ≠ 255 := by
      rintro rfl
      exact decode_ne_error hkey (by decide)
    have henqueued : (t.stdinEnqueueChar c).2.Lines (l ++ t.takes (some c)) := by
      rw [takes_eq h]
      by_cases hfull : l.length = STDIN_BUFFER_SIZE.toNat
      · rw [if_pos hfull, List.append_nil, h.enqueue_full hfull]
        exact h
      · rw [if_neg hfull]
        exact h.enqueue hplain (Nat.lt_of_le_of_ne h.contents.fills.fits hfull)
    -- the echo does not touch `stdin`
    have hecho : (t.ttySTDINAddElement keyboard scanCode).2 =
        (t.stdinEnqueueChar c).2.ttyKBDPrintChar c := by
      simp only [ttySTDINAddElement, hkey, if_neg hc]
    rw [hecho]
    exact ⟨by rw [ttyKBDPrintChar_stdin]; exact henqueued.contents,
      by rw [ttyKBDPrintChar_stdinHasData]; exact henqueued.hasData, henqueued.full,
      henqueued.plain⟩

end Tty

namespace Session

variable (s : Session) (scanCode : UInt8)

@[simp] theorem attendKeyboard_program : (s.attendKeyboard scanCode).program = s.program := by
  unfold attendKeyboard
  cases s.keyboardMode <;> rfl

@[simp] theorem attendKeyboard_receiving : (s.attendKeyboard scanCode).receiving = s.receiving := by
  unfold attendKeyboard
  cases s.keyboardMode <;> rfl

@[simp] theorem gotChar_sched (c : UInt8) : (s.gotChar c).kernel.sched = s.kernel.sched := by
  unfold gotChar
  split
  · rfl
  · split
    · rfl
    · split <;> rfl
  · split <;> rfl

/-- A key that is no modifier. -/
theorem attendKeyboard_text (hmode : s.keyboardMode = .TTY)
    (hkey : (s.keyboard.processModifierKey scanCode).2 = s.keyboard) :
    (s.attendKeyboard scanCode).text =
        s.text ++ s.kernel.tty.takes (decode s.keyboard scanCode) ∧
      (s.attendKeyboard scanCode).kernel.tty =
        (s.kernel.tty.ttySTDINAddElement s.keyboard scanCode).2 := by
  unfold attendKeyboard
  rw [hmode, hkey]
  exact ⟨rfl, rfl⟩

theorem receive_call {k : Kernel} {p' : Receiving} {got : Option UInt8}
    (h : s.kernel.inputStep s.receiving = (k, p', got)) (hp' : p' ≠ .idle) :
    s.receive = { s with kernel := k, result := got.getD s.result, receiving := p' } := by
  unfold receive
  rw [h]
  cases p' with
  | idle => exact absurd rfl hp'
  | test call maxBytes readData => rfl
  | read call maxBytes readData => rfl

theorem receive_returned {k : Kernel} {got : Option UInt8}
    (h : s.kernel.inputStep s.receiving = (k, .idle, got)) :
    s.receive = Session.gotChar
      { s with kernel := k, result := got.getD s.result, receiving := .idle }
      (got.getD s.result) := by
  unfold receive
  rw [h]

/-- Only the keys that come next see the mode. -/
theorem changeMode_eq (mode : UInt32) :
    ∃ keyboardMode, s.changeMode mode = { s with keyboardMode := keyboardMode } := by
  unfold changeMode
  split
  · exact ⟨_, rfl⟩
  · split
    · exact ⟨_, rfl⟩
    · exact ⟨_, rfl⟩

end Session

/-! ### `getchar` -/

/-- The steps of `getchar` until it takes a character out of `stdin`. -/
def Receiving.stepsLeft : Receiving → Nat
  | .idle => 3
  | .test _ maxBytes readData => if readData < maxBytes then 2 else 4
  | .read .. => 1

/-- The steps until it takes the first end of line of `l`. -/
def Receiving.ahead (p : Receiving) (l : List UInt8) : Nat := p.stepsLeft + 4 * l.idxOf 10

theorem Receiving.stepsLeft_bounds (p : Receiving) : 0 < p.stepsLeft ∧ p.stepsLeft ≤ 4 := by
  cases p with
  | idle => exact ⟨by decide, by decide⟩
  | test call maxBytes readData =>
    show 0 < ite _ 2 4 ∧ ite _ 2 4 ≤ 4
    split <;> omega
  | read call maxBytes readData =>
    show 0 < 1 ∧ 1 ≤ 4
    omega

theorem Receiving.ahead_pos (p : Receiving) (l : List UInt8) : 0 < p.ahead l :=
  Nat.add_pos_left p.stepsLeft_bounds.1 _

theorem Receiving.ahead_le (p : Receiving) (l : List UInt8) :
    p.ahead l ≤ 4 * (l.idxOf 10 + 1) := by
  have hleft := p.stepsLeft_bounds.2
  unfold ahead
  omega

/-- If there is a line, the end of it is nearer. -/
def Receiving.Nearer (p : Receiving) (l : List UInt8) (p' : Receiving) (l' : List UInt8) : Prop :=
  10 ∈ l → 10 ∈ l' ∧ p'.ahead l' < p.ahead l

/-- A step of the system call: it goes on, or it returns the oldest character. -/
theorem Kernel.StdinEnd.getchar_step {k : Kernel} {reader : UInt64} {l pending : List UInt8}
    {result : UInt8} {p : Receiving} (h : k.StdinEnd reader 0) (hl : k.tty.Lines l)
    (hp : p.GetsChar reader l result pending) (hne : p ≠ .idle) :
    ∃ sched tty p' got l', k.inputStep p =
        ({ k with sched := sched, tty := tty }, p', got) ∧
      sched.getCurrentPCBIndex = k.sched.getCurrentPCBIndex ∧ tty.Lines l' ∧
      ((p' ≠ .idle ∧ (∃ pending', p'.GetsChar reader l' (got.getD result) pending' ∧
          pending ++ l = pending' ++ l') ∧ p.Nearer l p' l') ∨
        (p' = .idle ∧ pending ++ l = got.getD result :: l' ∧
          (got.getD result ≠ 10 → p.Nearer l .idle l'))) := by
  have hend : ∀ {call : IOCall}, call.Through reader 0 →
      k.StdinEnd call.PCBIndex call.fileDescriptor := by
    intro call hthrough
    rw [hthrough.1, hthrough.2]
    exact h
  cases hp with
  | idle => exact absurd rfl hne
  | @test call hthrough hblock =>
    by_cases hten : 10 ∈ l
    -- there is a line
    · refine ⟨_, _, _, _, l, (hend hthrough).inputStep_test hl hten (by decide), rfl, hl, .inl ?_⟩
      exact ⟨by simp, ⟨[], .read hthrough hten, rfl⟩,
        fun _ => ⟨hten, Nat.add_lt_add_right (Nat.lt_succ_self 1) _⟩⟩
    -- it yields and tests again
    · have hempty : k.tty.stdinIsEmpty = true := hl.isEmpty_iff.mpr hten
      have hstep : k.inputStep (.test call 1 0) = (k, .test call 1 0, none) := by
        simp [Kernel.inputStep, (hend hthrough).operateFile_isEmpty, hempty, hblock]
      refine ⟨_, _, _, _, l, hstep, rfl, hl, .inl ?_⟩
      exact ⟨by simp, ⟨[], .test hthrough hblock, rfl⟩, fun hmem => absurd hmem hten⟩
  | @read call hthrough hten =>
    obtain ⟨c, l, rfl⟩ := List.exists_cons_of_ne_nil (List.ne_nil_of_mem hten)
    by_cases hc : c = 10
    · subst hc
      refine ⟨_, _, _, _, l, (hend hthrough).inputStep_newline hl 1 0, ?_, hl.dequeue, ?_⟩
      · exact Scheduler.setState_getCurrentPCBIndex ..
      · exact .inr ⟨rfl, rfl, fun hno => absurd rfl hno⟩
    · have hrest : 10 ∈ l := by
        rcases List.mem_cons.mp hten with heq | hmem
        · exact absurd heq.symm hc
        · exact hmem
      refine ⟨_, _, _, _, l, (hend hthrough).inputStep_char hl hc 1 0, rfl, hl.dequeue, .inl ?_⟩
      refine ⟨by simp, ⟨[c], .last hthrough hc, rfl⟩, fun _ => ⟨hrest, ?_⟩⟩
      have hidx := List.idxOf_cons_ne l hc
      simp only [Receiving.ahead, hidx]
      have hlast : (Receiving.test call 1 (0 + 1)).stepsLeft = 4 := rfl
      have hread : (Receiving.read call 1 0).stepsLeft = 1 := rfl
      omega
  | @last call hthrough hc =>
    have hstep : k.inputStep (.test call 1 1) = (k.endWait call, .idle, none) := by
      simp [Kernel.inputStep]
    refine ⟨_, _, _, _, l, hstep, ?_, hl, .inr ⟨rfl, rfl, fun _ hten => ⟨hten, ?_⟩⟩⟩
    · exact Scheduler.setState_getCurrentPCBIndex ..
    · exact Nat.add_lt_add_right (Nat.lt_succ_self 3) _

/-- Keys come in while the call is there. -/
theorem Receiving.GetsChar.append {reader : UInt64} {l pending : List UInt8} {result : UInt8}
    {p : Receiving} (h : p.GetsChar reader l result pending) (l' : List UInt8) :
    p.GetsChar reader (l ++ l') result pending := by
  cases h with
  | idle => exact .idle
  | test hthrough hblock => exact .test hthrough hblock
  | read hthrough hten => exact .read hthrough (List.mem_append_left _ hten)
  | last hthrough hc => exact .last hthrough hc

/-! ### `readLine` -/

theorem liesAt_snoc {m : Memory} {a : Addr} {bytes : List UInt8} (h : LiesAt m a bytes)
    (hlen : bytes.length < 2 ^ 64) (c : UInt8) :
    LiesAt (Function.update m (a + UInt64.ofNat bytes.length) c) a (bytes ++ [c]) := by
  rw [liesAt_append, liesAt_cons]
  refine ⟨?_, Function.update_self .., fun i hi => absurd hi (Nat.not_lt_zero i)⟩
  intro i hi
  rw [Function.update_of_ne, h i hi]
  intro heq
  have hoffset : (a + UInt64.ofNat i - a).toNat = i :=
    (addr_sub_toNat_eq_iff (hi.trans hlen)).mpr rfl
  rw [heq, (addr_sub_toNat_eq_iff hlen).mpr rfl] at hoffset
  omega

/-- Bytes outside of the buffer may change. -/
theorem LineReader.Reads.congr {s : Session} {part : List UInt8} {mem : Memory}
    (h : s.program.Reads s.kernel.mem part) (hmem : ∀ x, s.InBuffer x → mem x = s.kernel.mem x) :
    s.program.Reads mem part := by
  have hbuffer : ∀ {buffer : Addr} {buffSize : UInt64} {bytes : List UInt8},
      (∀ x, (x - buffer).toNat < buffSize.toNat → s.InBuffer x) →
      bytes.length ≤ buffSize.toNat → LiesAt s.kernel.mem buffer bytes →
      LiesAt mem buffer bytes := by
    intro buffer buffSize bytes hin hlen hlies i hi
    have hlast := buffSize.toNat_lt
    have hoffset : (buffer + UInt64.ofNat i - buffer).toNat = i :=
      (addr_sub_toNat_eq_iff (by omega)).mpr rfl
    rw [hmem _ (hin _ (by omega)), hlies i hi]
  cases hs : s.program with
  | idle =>
    rw [hs] at h
    exact h
  | line buffer buffSize i =>
    rw [hs] at h
    have hin : ∀ x, (x - buffer).toNat < buffSize.toNat → s.InBuffer x := by
      intro x hx
      simpa only [Session.InBuffer, hs] using hx
    exact ⟨h.1, h.2.1, h.2.2.1, hbuffer hin h.2.1.le h.2.2.2⟩
  | clean buffer buffSize i =>
    rw [hs] at h
    have hin : ∀ x, (x - buffer).toNat < buffSize.toNat → s.InBuffer x := by
      intro x hx
      simpa only [Session.InBuffer, hs] using hx
    obtain ⟨hnew, hsize, hlong, hi, hlies⟩ := h
    have hlen := length_storedLine (UInt64.le_iff_toNat_le.mpr hsize) part
    exact ⟨hnew, hsize, hlong, hi, hbuffer hin hlen hlies⟩

/-- What a character does to a call of `readLine`: it goes on, or has got its line. -/
theorem Session.gotChar_cases {s : Session} {part : List UInt8}
    (h : s.program.Reads s.kernel.mem part) (hne : s.program ≠ .idle) (c : UInt8) :
    (c ≠ 10 ∧ ∃ mem program, s.gotChar c = { s.withMem mem with program := program } ∧
      program ≠ .idle ∧ program.Reads mem (part ++ [c])) ∨
    (c = 10 ∧ ∃ mem call, s.gotChar c =
        { s.withMem mem with program := .idle, returned := s.returned ++ [call] } ∧
      10 ∉ part ∧ call.Took part) := by
  have hsnoc : ∀ {c : UInt8}, c ≠ 10 → 10 ∉ part → 10 ∉ part ++ [c] := by
    intro c hc hnew hmem
    rcases List.mem_append.mp hmem with hmem | hmem
    · exact hnew hmem
    · exact hc (List.mem_singleton.mp hmem).symm
  cases hs : s.program with
  | idle => exact absurd hs hne
  | line buffer buffSize i =>
    rw [hs] at h
    obtain ⟨hnew, hlt, rfl, hlies⟩ := h
    have hlast := buffSize.toNat_lt
    have hlen : (UInt64.ofNat part.length).toNat = part.length :=
      UInt64.toNat_ofNat_of_lt' (by show _ < 2 ^ 64; omega)
    have hone : (buffSize - 1).toNat = buffSize.toNat - 1 :=
      addr_sub_toNat (by show 1 ≤ _; omega)
    have hroom : UInt64.ofNat part.length < buffSize - 1 ↔ part.length + 1 < buffSize.toNat := by
      rw [UInt64.lt_iff_toNat_lt, hlen, hone]
      omega
    by_cases hstore : c ≠ 10 ∧ UInt64.ofNat part.length < buffSize - 1
    -- there is room for the character and the NUL
    · left
      refine ⟨hstore.1, _, .line buffer buffSize (UInt64.ofNat part.length + 1), ?_, by simp,
        hsnoc hstore.1 hnew, ?_, ?_, liesAt_snoc hlies (by omega) c⟩
      · simp only [Session.gotChar, hs, if_pos hstore]
      · have hfits := hroom.mp hstore.2
        simpa using hfits
      · rw [List.length_append, UInt64.ofNat_add]
        rfl
    -- the string ends here
    · have hstored : part = storedLine part buffSize := by
        rw [storedLine, List.take_of_length_le (by omega)]
      have hnul := liesAt_snoc hlies (by omega) 0
      by_cases hc : c = 10
      · right
        let mem := Function.update s.kernel.mem (buffer + UInt64.ofNat part.length) 0
        refine ⟨hc, mem, ⟨buffer, buffSize, (UInt64.ofNat part.length - 1).toInt64, mem⟩, ?_,
          hnew, ?_, ?_⟩
        · simp only [Session.gotChar, hs, if_neg hstore, if_neg (not_not.mpr hc)]
          rfl
        · rw [← hstored]
          exact hnul
        · rw [← hstored]
      · left
        have hfull : ¬ part.length + 1 < buffSize.toNat := fun hfits =>
          hstore ⟨hc, hroom.mpr hfits⟩
        have htake : storedLine (part ++ [c]) buffSize = part := by
          rw [storedLine, List.take_append_of_le_length (by omega),
            List.take_of_length_le (by omega)]
        refine ⟨hc, Function.update s.kernel.mem (buffer + UInt64.ofNat part.length) 0,
          .clean buffer buffSize (UInt64.ofNat part.length), ?_, by simp, hsnoc hc hnew, ?_, ?_, ?_,
          ?_⟩
        · simp only [Session.gotChar, hs, if_neg hstore, if_pos hc]
        · omega
        · rw [List.length_append, List.length_singleton]
          omega
        · rw [htake]
        · rw [htake]
          exact hnul
  | clean buffer buffSize i =>
    rw [hs] at h
    obtain ⟨hnew, hsize, hlong, rfl, hlies⟩ := h
    by_cases hc : c = 10
    · right
      refine ⟨hc, s.kernel.mem, ⟨buffer, buffSize,
        (UInt64.ofNat (storedLine part buffSize).length - 1).toInt64, s.kernel.mem⟩, ?_, hnew,
        hlies, rfl⟩
      simp only [Session.gotChar, hs, if_neg (not_not.mpr hc)]
      rfl
    · left
      have htake : storedLine (part ++ [c]) buffSize = storedLine part buffSize := by
        rw [storedLine, List.take_append_of_le_length (by omega), storedLine]
      refine ⟨hc, s.kernel.mem,
        .clean buffer buffSize (UInt64.ofNat (storedLine part buffSize).length), ?_, by simp,
        hsnoc hc hnew, hsize, ?_, ?_, ?_⟩
      · have hsame : s.gotChar c = s := by simp only [Session.gotChar, hs, if_pos hc]
        rw [hsame, ← hs]
        rfl
      · rw [List.length_append]
        omega
      · rw [htake]
      · rw [htake]
        exact hlies

/-! ### The steps -/

namespace SessionInv

variable {reader : UInt64} {s s' : Session} {lines : List (List UInt8)}
  {part pending l : List UInt8}

theorem key (h : SessionInv reader s lines part pending l) {scanCode : UInt8}
    (hback : NoBackspace s (.key scanCode)) :
    ∃ more, SessionInv reader (s.attendKeyboard scanCode) lines part pending (l ++ more) := by
  unfold Session.attendKeyboard
  cases hmode : s.keyboardMode with
  | RAW =>
    refine ⟨[], ?_⟩
    rw [List.append_nil]
    exact { h with stdin := h.stdin.congr rfl, blocking := h.blocking }
  | TTY =>
    refine ⟨_, { h with
      stdin := h.stdin.congr rfl
      blocking := h.blocking
      holds := h.holds.attend (hback hmode)
      text := ?_
      receiving := h.receiving.append _ }⟩
    show s.text ++ _ = _
    rw [h.text, List.append_assoc _ l]

theorem begin (h : SessionInv reader s lines part pending l) (hidle : s.program = .idle)
    {buffer : Addr} {buffSize : UInt64} (hsize : 1 ≤ buffSize) :
    SessionInv reader { s with program := .line buffer buffSize 0 } lines part pending l := by
  have hpart := h.program
  rw [hidle] at hpart
  obtain rfl : part = [] := hpart
  refine { h with
    program := ⟨List.not_mem_nil, UInt64.le_iff_toNat_le.mp hsize, rfl,
      fun i hi => absurd hi (Nat.not_lt_zero i)⟩
    between := nofun }

/-- `getchar` has begun and not returned yet. -/
theorem withCall (h : SessionInv reader s lines part pending l) (hne : s.program ≠ .idle)
    {sched : Scheduler} {tty : Tty} {result : UInt8} {p : Receiving} {pending' l' : List UInt8}
    (hl' : tty.Lines l') (hp : p.GetsChar reader l' result pending')
    (hsame : pending ++ l = pending' ++ l') :
    SessionInv reader { s with
      kernel := { s.kernel with sched := sched, tty := tty }
      result := result
      receiving := p } lines part pending' l' := by
  refine { h with
    stdin := h.stdin.congr rfl
    holds := hl'
    text := ?_
    receiving := hp
    between := fun hidle => absurd hidle hne }
  show s.text = _
  rw [h.text, List.append_assoc _ pending l, hsame, ← List.append_assoc]

/-- `getchar` returns the next character of the text. -/
theorem gotChar (h : SessionInv reader s lines part pending l) (hne : s.program ≠ .idle)
    {sched : Scheduler} {tty : Tty} {c : UInt8} {l' : List UInt8} (hl' : tty.Lines l')
    (hsame : pending ++ l = c :: l') {t : Session}
    (ht : t = { s with
      kernel := { s.kernel with sched := sched, tty := tty }
      result := c
      receiving := .idle }) :
    (t.gotChar c).receiving = .idle ∧
    ((c ≠ 10 ∧ SessionInv reader (t.gotChar c) lines (part ++ [c]) [] l' ∧
        (t.gotChar c).program ≠ .idle) ∨
      SessionInv reader (t.gotChar c) (lines ++ [part]) [] [] l') := by
  have htext : s.text = joinLines lines ++ part ++ c :: l' := by
    rw [h.text, List.append_assoc _ pending l, hsame]
  have hreads : t.program.Reads t.kernel.mem part := by
    rw [ht]
    exact h.program
  have hcall : t.program ≠ .idle := by
    rw [ht]
    exact hne
  rcases Session.gotChar_cases hreads hcall c with
    ⟨hc, mem, program, heq, hprogram, hnext⟩ | ⟨rfl, mem, call, heq, hnew, htook⟩
  · rw [heq]
    subst ht
    refine ⟨rfl, .inl ⟨hc, { h with
      stdin := h.stdin.congr rfl
      holds := hl'
      text := ?_
      program := hnext
      receiving := .idle
      between := fun hno => absurd hno hprogram }, hprogram⟩⟩
    show s.text = _
    rw [htext]
    simp
  · rw [heq]
    subst ht
    refine ⟨rfl, .inr { h with
      stdin := h.stdin.congr rfl
      holds := hl'
      text := ?_
      newlines := ?_
      program := rfl
      receiving := .idle
      between := fun _ => rfl
      returned := ?_ }⟩
    · show s.text = _
      rw [htext, joinLines, joinLines, List.flatMap_append]
      simp
    · intro line hline
      rcases List.mem_append.mp hline with hline | hline
      · exact h.newlines line hline
      · rw [List.mem_singleton.mp hline]
        exact hnew
    · exact List.rel_append h.returned (.cons htook .nil)

/-- A step of the program. -/
theorem program_step (h : SessionInv reader s lines part pending l)
    (hstep : (session reader).step s .program s') :
    (∃ part' pending' l', SessionInv reader s' lines part' pending' l' ∧
      s'.program ≠ .idle ∧ s.receiving.Nearer l s'.receiving l') ∨
    ∃ line l', SessionInv reader s' (lines ++ [line]) [] [] l' := by
  obtain ⟨hturn, hne, hstep⟩ := hstep
  by_cases hidle : s.receiving = .idle
  -- `getchar` begins
  · rw [hidle] at hstep
    obtain ⟨junk, hstep⟩ := hstep
    obtain ⟨call, sched, hwait, hk, hfd, hblock, -⟩ := h.stdin.toOpenEntry.waits hturn h.index
    rw [hwait] at hstep
    have hcall := h.receiving
    rw [hidle] at hcall
    cases hcall
    have htest : Receiving.GetsChar reader l junk (.test call 1 0) [] :=
      .test ⟨hk, hfd⟩ (hblock.trans (decide_eq_true h.blocking))
    rw [hstep, hidle]
    refine .inl ⟨part, [], l, h.withCall hne h.holds htest rfl, hne, fun hten => ⟨hten, ?_⟩⟩
    exact Nat.add_lt_add_right (Nat.lt_succ_self 2) _
  -- it goes on
  · split at hstep
    · next heq => exact absurd heq hidle
    · obtain ⟨sched, tty, p', got, l', hinput, -, hl', hcase⟩ :=
        h.stdin.getchar_step h.holds h.receiving hidle
      rw [hstep]
      rcases hcase with ⟨hgoes, ⟨pending', hp, hsame⟩, hnearer⟩ | ⟨rfl, hsame, hnearer⟩
      · left
        rw [s.receive_call hinput hgoes]
        exact ⟨part, pending', l', h.withCall hne hl' hp hsame, hne, hnearer⟩
      · rw [s.receive_returned hinput]
        obtain ⟨hreceiving, hgot⟩ := h.gotChar hne hl' hsame rfl
        rcases hgot with ⟨hc, hinv, hprogram⟩ | hinv
        · left
          refine ⟨part ++ [got.getD s.result], [], l', hinv, hprogram, ?_⟩
          rw [hreceiving]
          exact hnearer hc
        · exact .inr ⟨part, l', hinv⟩

theorem preempted (h : SessionInv reader s lines part pending l) {t : Tasks}
    (hpre : Preempted s.kernel.toTasks t) :
    SessionInv reader { s with kernel := { s.kernel with toTasks := t } } lines part pending l := by
  have hentry : ∀ fd, Kernel.descriptor { s.kernel with toTasks := t } reader fd =
      s.kernel.descriptor reader fd := by
    intro fd
    show (t.pcb.entries reader.toNat).fileDescriptors.entries fd.toNat = _
    rw [hpre.fileDescriptors]
    rfl
  have hprogram : s.program.Reads t.mem part := by
    rw [hpre.mem]
    exact h.program
  refine { h with
    stdin := ⟨⟨?_, h.stdin.lt, ?_⟩, ?_, ?_⟩
    blocking := ?_
    program := hprogram }
  · exact (hpre.badIndex reader).trans h.stdin.good
  · rw [hentry]
    exact h.stdin.occupied
  · rw [hentry]
    exact h.stdin.fileType
  · rw [hentry]
    exact h.stdin.flag
  · rw [hentry]
    exact h.blocking

/-- A step: the present call goes on, and no step takes the end of its line further away, or
    the call has returned. -/
theorem step {action : SessionAction} (h : SessionInv reader s lines part pending l)
    (hok : NoBackspace s action) (hstep : (session reader).step s action s') :
    (∃ part' pending' l', SessionInv reader s' lines part' pending' l' ∧
      (s.program ≠ .idle → s'.program ≠ .idle) ∧
      (10 ∈ l → 10 ∈ l' ∧
        s'.receiving.ahead l' + (if action.ofProgram then 1 else 0) ≤ s.receiving.ahead l)) ∨
    ∃ line l', SessionInv reader s' (lines ++ [line]) [] [] l' := by
  cases action with
  | key scanCode =>
    obtain rfl := hstep
    obtain ⟨more, hmore⟩ := h.key hok
    refine .inl ⟨part, pending, l ++ more, hmore, ?_, fun hten => ⟨?_, ?_⟩⟩
    · rw [Session.attendKeyboard_program]
      exact id
    · exact List.mem_append_left _ hten
    · rw [Session.attendKeyboard_receiving, Receiving.ahead, List.idxOf_append_of_mem hten]
      exact Nat.le_refl _
  | changeMode mode =>
    obtain ⟨keyboardMode, hmode⟩ := s.changeMode_eq mode
    obtain rfl := hstep
    rw [hmode]
    exact .inl ⟨part, pending, l, { h with }, id, fun hten => ⟨hten, Nat.le_refl _⟩⟩
  | readLine buffer buffSize =>
    obtain ⟨-, hidle, hsize, rfl⟩ := hstep
    exact .inl ⟨part, pending, l, h.begin hidle hsize, fun _ => nofun,
      fun hten => ⟨hten, Nat.le_refl _⟩⟩
  | program =>
    rcases h.program_step hstep with ⟨part', pending', l', hinv, hne, hnearer⟩ | hinv
    · exact .inl ⟨part', pending', l', hinv, fun _ => hne, hnearer⟩
    · exact .inr hinv
  | preempt =>
    obtain ⟨t, hpre, rfl⟩ := hstep
    exact .inl ⟨part, pending, l, h.preempted hpre, id, fun hten => ⟨hten, Nat.le_refl _⟩⟩
  | write mem =>
    obtain ⟨hmem, rfl⟩ := hstep
    refine .inl ⟨part, pending, l, { h with
      stdin := h.stdin.congr rfl
      program := h.program.congr hmem }, id, fun hten => ⟨hten, Nat.le_refl _⟩⟩

/-- A call is in progress and `n` steps of the program away from its end, unless more than `R`
    calls have returned. -/
def Away (reader : UInt64) (R n : Nat) (s : Session) : Prop :=
  ∃ lines part pending l, SessionInv reader s lines part pending l ∧
    (R < lines.length ∨
      (R = lines.length ∧ s.program ≠ .idle ∧ 10 ∈ l ∧ s.receiving.ahead l ≤ n))

theorem away_step {R n : Nat} {action : SessionAction} (h : Away reader R (n + 1) s)
    (hstep : ((session reader).restrict NoBackspace).step s action s') :
    ∃ m, Away reader R m s' ∧ m + (if action.ofProgram then 1 else 0) ≤ n + 1 := by
  obtain ⟨lines, part, pending, l, hinv, hgoal⟩ := h
  have hmark : 0 + (if action.ofProgram then 1 else 0) ≤ n + 1 := by split <;> omega
  rcases hinv.step hstep.1 hstep.2 with ⟨part', pending', l', hinv', hgoes, hnearer⟩ |
    ⟨line, l', hinv'⟩
  · rcases hgoal with hmore | ⟨hR, hne, hten, haway⟩
    · exact ⟨0, ⟨lines, part', pending', l', hinv', .inl hmore⟩, hmark⟩
    · obtain ⟨hten', hlt⟩ := hnearer hten
      exact ⟨s'.receiving.ahead l',
        ⟨lines, part', pending', l', hinv', .inr ⟨hR, hgoes hne, hten', Nat.le_refl _⟩⟩,
        hlt.trans haway⟩
  · refine ⟨0, ⟨lines ++ [line], [], [], l', hinv', .inl ?_⟩, hmark⟩
    have hlen : (lines ++ [line]).length = lines.length + 1 := List.length_append
    rcases hgoal with hmore | ⟨hR, -, -, -⟩ <;> omega

/-- With the turn, the program can take a step, and keeps the turn. -/
theorem can_step (h : SessionInv reader s lines part pending l) (hne : s.program ≠ .idle)
    (hturn : s.kernel.sched.getCurrentPCBIndex = reader) :
    ∃ s', (session reader).step s .program s' ∧
      s'.kernel.sched.getCurrentPCBIndex = reader := by
  by_cases hidle : s.receiving = .idle
  · obtain ⟨call, sched, hwait, -, -, -, hsched⟩ := h.stdin.toOpenEntry.waits hturn h.index
    refine ⟨{ s with
      kernel := { s.kernel with sched := sched }
      result := 0
      receiving := .test call 1 0 }, ⟨hturn, hne, ?_⟩, hsched⟩
    rw [hidle]
    refine ⟨0, ?_⟩
    rw [hwait]
  · obtain ⟨sched, tty, p', got, l', heq, hsched, -, -⟩ :=
      h.stdin.getchar_step h.holds h.receiving hidle
    refine ⟨s.receive, ⟨hturn, hne, ?_⟩, ?_⟩
    · split
      · next hp => exact absurd hp hidle
      · rfl
    · by_cases hp' : p' = .idle
      · subst hp'
        rw [s.receive_returned heq, Session.gotChar_sched]
        exact hsched.trans hturn
      · rw [s.receive_call heq hp']
        exact hsched.trans hturn

/-- Alone, it takes its line. -/
theorem gets_line {n : Nat} (h : SessionInv reader s lines part pending l)
    (hne : s.program ≠ .idle) (hturn : s.kernel.sched.getCurrentPCBIndex = reader)
    (hten : 10 ∈ l) (hn : s.receiving.ahead l ≤ n) :
    ∃ k t, k ≤ n ∧
      ((session reader).restrict NoBackspace).StepsFrom s (List.replicate k .program) t ∧
      ∃ line l', SessionInv reader t (lines ++ [line]) [] [] l' := by
  induction n generalizing s part pending l with
  | zero => exact absurd hn (not_le.mpr (Receiving.ahead_pos _ l))
  | succ n ih =>
    obtain ⟨s', hstep, hturn'⟩ := h.can_step hne hturn
    have hfirst : ((session reader).restrict NoBackspace).step s .program s' := ⟨trivial, hstep⟩
    rcases h.program_step hstep with ⟨part', pending', l', hinv, hne', hnearer⟩ | hinv
    · obtain ⟨hten', hlt⟩ := hnearer hten
      obtain ⟨k, t, hk, hrun, hlast⟩ := ih hinv hne' hturn' hten' (by omega)
      exact ⟨k + 1, t, Nat.succ_le_succ hk, .cons SessionAction.program _ hfirst hrun, hlast⟩
    · exact ⟨1, s', Nat.le_add_left 1 n, .cons SessionAction.program _ hfirst (.nil s'), hinv⟩

end SessionInv

/-! ### The result -/

theorem sessionInv_reachable {reader : UInt64} {s : Session}
    (h : ((session reader).restrict NoBackspace).Reachable s) :
    ∃ lines part pending l, SessionInv reader s lines part pending l := by
  refine h.invariant (fun s => ∃ lines part pending l, SessionInv reader s lines part pending l)
    ?_ ?_
  · intro s hs
    refine ⟨[], [], [], s.text, hs.stdin, hs.blocking, hs.index, hs.lines, rfl, ?_, ?_, ?_, ?_, ?_⟩
    · exact fun line hline => absurd hline List.not_mem_nil
    · rw [hs.program]
      rfl
    · rw [hs.receiving]
      exact .idle
    · exact fun _ => hs.receiving
    · rw [hs.returned]
      exact .nil
  · intro s action s' ⟨lines, part, pending, l, hinv⟩ hstep
    rcases hinv.step hstep.1 hstep.2 with ⟨part', pending', l', hinv', -⟩ | ⟨line, l', hinv'⟩
    · exact ⟨lines, part', pending', l', hinv'⟩
    · exact ⟨lines ++ [line], [], [], l', hinv'⟩

/-- **The program gets the lines that were typed**, as `stdin` took them.  As long as nobody
    presses the backspace, whatever the keyboard and the scheduler interrupt: the calls of
    `readLine` that have returned took the lines of the text, in order and each one whole, as
    far as its buffer had room, and between two calls `stdin` holds the rest of the text.  A
    call that has begun when there is an end of line in `stdin` needs at most four steps of its
    own for each character up to there, alone or with interruptions. -/
theorem typed_lines_read {reader : UInt64} {s : Session}
    (h : ((session reader).restrict NoBackspace).Reachable s) :
    (∃ lines rest, s.text = joinLines lines ++ rest ∧ (∀ line ∈ lines, 10 ∉ line) ∧
      List.Forall₂ ReturnedCall.Took s.returned lines ∧
      s.kernel.tty.stdin.queued STDIN_BUFFER_SIZE <:+ rest ∧
      (s.program = .idle → s.kernel.tty.stdin.queued STDIN_BUFFER_SIZE = rest)) ∧
    (s.program ≠ .idle → 10 ∈ s.kernel.tty.stdin.queued STDIN_BUFFER_SIZE →
      ∀ n, n = 4 * ((s.kernel.tty.stdin.queued STDIN_BUFFER_SIZE).idxOf 10 + 1) →
      (s.kernel.sched.getCurrentPCBIndex = reader → ∃ k t, k ≤ n ∧
        ((session reader).restrict NoBackspace).StepsFrom s (List.replicate k .program) t ∧
        t.returned.length = s.returned.length + 1) ∧
      ∀ as s', ((session reader).restrict NoBackspace).StepsFrom s as s' →
        n ≤ as.countP SessionAction.ofProgram → ∃ bs cs t, as = bs ++ cs ∧
          ((session reader).restrict NoBackspace).StepsFrom s bs t ∧
          bs.countP SessionAction.ofProgram ≤ n ∧ s.returned.length < t.returned.length) := by
  obtain ⟨lines, part, pending, l, hinv⟩ := sessionInv_reachable h
  have hl : s.kernel.tty.stdin.queued STDIN_BUFFER_SIZE = l := hinv.holds.contents.queued_eq
  have hlen : s.returned.length = lines.length := hinv.returned.length_eq
  rw [hl]
  constructor
  · refine ⟨lines, part ++ pending ++ l, ?_, hinv.newlines, hinv.returned,
      List.suffix_append .., ?_⟩
    · rw [hinv.text]
      simp only [List.append_assoc]
    · intro hidle
      have hpart := hinv.program
      have hpending := hinv.receiving
      rw [hidle] at hpart
      rw [hinv.between hidle] at hpending
      cases hpending
      obtain rfl : part = [] := hpart
      rfl
  · rintro hne hten n rfl
    constructor
    · intro hturn
      obtain ⟨k, t, hk, hrun, line, l', hlast⟩ :=
        hinv.gets_line hne hturn hten (s.receiving.ahead_le l)
      refine ⟨k, t, hk, hrun, ?_⟩
      rw [hlen, hlast.returned.length_eq]
      exact List.length_append
    · intro as s' hrun hmany
      have haway : SessionInv.Away reader lines.length (4 * (l.idxOf 10 + 1)) s :=
        ⟨lines, part, pending, l, hinv, .inr ⟨rfl, hne, hten, s.receiving.ahead_le l⟩⟩
      obtain ⟨bs, cs, t, rfl, hbs, -, hcount, lines', part', pending', l', hinv', hgoal⟩ :=
        hrun.countdown SessionAction.ofProgram (SessionInv.Away reader lines.length)
          (fun n s action s' haway hstep => SessionInv.away_step haway hstep) haway hmany
      refine ⟨bs, cs, t, rfl, hbs, hcount, ?_⟩
      rcases hgoal with hmore | ⟨-, -, -, hzero⟩
      · rw [hlen, hinv'.returned.length_eq]
        exact hmore
      · exact absurd hzero (not_le.mpr (Receiving.ahead_pos _ l'))

/-- The current process has the terminal for its standard input. -/
theorem stdin_current : ∃ (k : Kernel) (w : UInt64), w ≠ -1 ∧ k.StdinEnd w 0 ∧
    (k.descriptor w 0).flags &&& F_NOBLOCK = 0 ∧ k.sched.getCurrentPCBIndex = w := by
  obtain ⟨k, r, w, i, h⟩ := company
  obtain ⟨hinv, -⟩ := ledger h.reachable
  have hw : w ≠ -1 := by
    rintro rfl
    have hgood := h.goodW
    rw [hinv.tasks.badIndex_error (by decide)] at hgood
    cases hgood
  have hentry : k.descriptor w 0 = standardFiles.entries 0 := by
    unfold Kernel.descriptor
    rw [h.fileDescriptors]
    rfl
  refine ⟨k, w, hw, ⟨⟨h.goodW, by decide, ?_⟩, ?_, ?_⟩, ?_, h.turn⟩ <;> rw [hentry] <;> decide

/-- The keys `a` and the end of line, then `readLine`. -/
theorem typed_lines_read_a : ∃ (reader : UInt64) (s : Session),
    ((session reader).restrict NoBackspace).Reachable s ∧ s.text = [97, 10] ∧
    ∃ k t call, k ≤ 8 ∧
      ((session reader).restrict NoBackspace).StepsFrom s (List.replicate k .program) t ∧
      t.returned = [call] := by
  obtain ⟨k, w, hw, hstdin, hblocking, hturn⟩ := stdin_current
  let s : Session := ⟨{ k with tty := .bss }, .initial, .TTY, .idle, 0, .idle, [], []⟩
  have hstart : Session.Start w s :=
    ⟨hstdin.congr rfl, hblocking, hw, Tty.lines_reachable (.init ⟨rfl, rfl⟩), rfl, rfl, rfl⟩
  have hkey : ∀ scanCode : UInt8, decode (Keyboard.initial.processModifierKey scanCode).2 scanCode ≠
      some 8 → ∀ t : Session, t.keyboard = .initial → NoBackspace t (.key scanCode) := by
    intro scanCode hdecode t hkeyboard _
    rw [hkeyboard]
    exact hdecode
  have hfirst : Tty.takes .bss (decode .initial 30) = [97] := by decide
  have hlines : (Tty.ttySTDINAddElement .bss .initial 30).2.Lines [97] := by
    have hdecode : decode .initial 30 ≠ some 8 := by decide
    have hkeyed := hstart.lines.attend hdecode
    rw [show s.kernel.tty = .bss from rfl, hfirst] at hkeyed
    exact hkeyed
  have hsecond : Tty.takes (Tty.ttySTDINAddElement .bss .initial 30).2 (decode .initial 28) =
      [10] := by
    rw [show decode .initial 28 = some 10 by decide, Tty.takes_eq hlines]
    decide
  obtain ⟨s₂, hs₂⟩ : ∃ s₂, s₂ = (s.attendKeyboard 30).attendKeyboard 28 := ⟨_, rfl⟩
  have hreach : ((session w).restrict NoBackspace).Reachable s₂ :=
    .step (.key 28)
      (.step (.key 30) (.init hstart) ⟨hkey 30 (by decide) s rfl, rfl⟩)
      ⟨hkey 28 (by decide) _ rfl, hs₂⟩
  have htext : s₂.text = [97, 10] := by
    obtain ⟨htext₁, htty₁⟩ := s.attendKeyboard_text 30 rfl rfl
    obtain ⟨htext₂, -⟩ := (s.attendKeyboard 30).attendKeyboard_text 28 rfl rfl
    rw [hs₂, htext₂, htext₁, htty₁]
    exact congr (congrArg _ hfirst) hsecond
  have hidle : s₂.program = .idle ∧ s₂.returned = [] ∧
      s₂.kernel.sched.getCurrentPCBIndex = w := by
    rw [hs₂]
    exact ⟨rfl, rfl, hturn⟩
  have hcall : ((session w).restrict NoBackspace).Reachable { s₂ with program := .line 0 80 0 } :=
    .step (.readLine 0 80) hreach ⟨trivial, hidle.2.2, hidle.1, by decide, rfl⟩
  have hqueued : s₂.kernel.tty.stdin.queued STDIN_BUFFER_SIZE = [97, 10] := by
    obtain ⟨lines, rest, hsplit, -, htook, -, hrest⟩ := (typed_lines_read hreach).1
    rw [hidle.2.1] at htook
    obtain rfl : lines = [] := List.forall₂_nil_left_iff.mp htook
    rw [hrest hidle.1, ← htext, hsplit]
    rfl
  have hten : 10 ∈ s₂.kernel.tty.stdin.queued STDIN_BUFFER_SIZE := by
    rw [hqueued]
    decide
  obtain ⟨k, t, hk, hrun, hlen⟩ := ((typed_lines_read hcall).2 nofun hten _ rfl).1 hidle.2.2
  rw [hqueued] at hk
  obtain ⟨call, hreturned⟩ : ∃ call, t.returned = [call] := by
    apply List.length_eq_one_iff.mp
    rw [hlen, hidle.2.1]
    rfl
  exact ⟨w, _, hcall, htext, k, t, call, hk, hrun, hreturned⟩

end TP2Kernel
