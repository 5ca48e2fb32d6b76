import TP2Kernel.Terminal.Buffers

/-! # Keys (`Kernel/c/tty.c`, `Kernel/c/keyboard.c`)

    The keyboard's interrupt hands over a scan code.  In the terminal's mode it is looked up
    in one of two tables, put into `stdin` and echoed.
-/

namespace TP2Kernel

/-- The modifiers of `keyboard.c`. -/
structure Keyboard where
  caps : UInt8
  num : UInt8
  shift : UInt8

namespace Keyboard

def isCapsLockOn (k : Keyboard) : UInt8 := k.caps
def isNumLockOn (k : Keyboard) : UInt8 := k.num
def isShifted (k : Keyboard) : UInt8 := k.shift

/-- The modifiers at the start. -/
def initial : Keyboard := ⟨0, 1, 0⟩

/-- Returns 1 for the code of a modifier key; of the locks only the make code counts. -/
def processModifierKey (k : Keyboard) (scanCode : UInt8) : UInt8 × Keyboard :=
  if scanCode = 0x2A ∨ scanCode = 0x36 then (1, { k with shift := k.shift + scanCode })
  else if scanCode = 0xAA ∨ scanCode = 0xB6 then
    (1, { k with shift := k.shift - (scanCode - 128) })
  else if scanCode = 0x3A then (1, { k with caps := if k.caps = 0 then 1 else 0 })
  else if scanCode = 0x45 then (1, { k with num := if k.num = 0 then 1 else 0 })
  else (0, k)

end Keyboard

inductive CharTypes where
  | OTHER
  | NUMBER
  | LETTER
  | SYMBOL
  deriving DecidableEq

/-- The characters of the scan codes; those from 58 on have none. -/
def charTable : List UInt8 :=
  [0, 27, 49, 50, 51, 52, 53, 54, 55, 56, 57, 48, 45, 61, 8,
    -- from `\t` to `\n`
    9, 113, 119, 101, 114, 116, 121, 117, 105, 111, 112, 91, 93, 10, 0,
    -- from `a` to the left shift
    97, 115, 100, 102, 103, 104, 106, 107, 108, 59, 39, 96, 0,
    -- from the backslash to the space bar
    92, 122, 120, 99, 118, 98, 110, 109, 44, 46, 47, 0, 0, 0, 32]

def shiftedCharTable : List UInt8 :=
  [0, 27, 33, 64, 35, 36, 37, 94, 38, 42, 40, 41, 95, 43, 8,
    -- from `\t` to `\n`
    9, 81, 87, 69, 82, 84, 89, 85, 73, 79, 80, 123, 125, 10, 0,
    -- from `A` to the left shift
    65, 83, 68, 70, 71, 72, 74, 75, 76, 58, 34, 126, 0,
    -- from the bar to the space bar
    124, 90, 88, 67, 86, 66, 78, 77, 60, 62, 63, 0, 0, 0, 32]

def analizeScanCode (code : UInt64) : CharTypes :=
  if code ≥ 2 ∧ code ≤ 11 then .NUMBER
  else if (code ≥ 16 ∧ code ≤ 25) ∨ (code ≥ 30 ∧ code ≤ 38) ∨ (code ≥ 44 ∧ code ≤ 50) then
    .LETTER
  else if code = 1 ∨ code = 12 ∨ code = 13 ∨ code = 14 ∨ code = 15 ∨ code = 26 ∨ code = 27 ∨
      code = 28 ∨ code = 39 ∨ code = 40 ∨ code = 41 ∨ code = 43 ∨ code = 51 ∨ code = 52 ∨
      code = 53 ∨ code = 57 then
    .SYMBOL
  else .OTHER

/-- The character `ttySTDINAddElement` decodes the scan code to. -/
def decode (keyboard : Keyboard) (scanCode : UInt8) : Option UInt8 :=
  let shift := keyboard.isShifted.toUInt64
  let caps := keyboard.isCapsLockOn.toUInt64
  let num := keyboard.isNumLockOn.toUInt64
  let plain := charTable.getD scanCode.toNat 0
  let shifted := shiftedCharTable.getD scanCode.toNat 0
  match analizeScanCode scanCode.toUInt64 with
  | .NUMBER =>
    let number := (if shift ≠ 0 then 1 else 0) - num
    some (if number = 0 then shifted else plain)
  | .LETTER =>
    let maysuc := (if shift ≠ 0 then 1 else 0) - caps
    some (if maysuc ≠ 0 then shifted else plain)
  | .SYMBOL => some (if shift ≠ 0 then shifted else plain)
  | .OTHER => none

namespace Tty

/-- The character that fills the buffer is lost to an end of line. -/
def stdinEnqueueChar (t : Tty) (character : UInt8) : Int × Tty :=
  let aux := t.stdin.enqIdx
  if t.stdinIsFull then (-1, t)
  else
    let (_, stdin) := t.stdin.enqueue STDIN_BUFFER_SIZE character
    let t := { t with stdin := stdin }
    if character = 10 then (0, { t with stdinHasData := t.stdinHasData + 1 })
    else if t.stdinIsFull then
      (0, { t with
        stdin := { stdin with buffer := Function.update stdin.buffer aux.toNat 10 }
        stdinHasData := t.stdinHasData + 1 })
    else (0, t)

/-- The echo. -/
def ttyKBDPrintChar (t : Tty) (c : UInt8) : Tty :=
  if c = 10 then { t.ncPrintChar c with backSpaceLimit := 0 }
  else if c = 8 then
    if t.backSpaceLimit > 0 then { t with backSpaceLimit := t.backSpaceLimit - 1 }.ncPrintChar c
    else t
  else { t with backSpaceLimit := t.backSpaceLimit + 1 }.ncPrintChar c

def ttySTDINAddElement (t : Tty) (keyboard : Keyboard) (scanCode : UInt8) : Int × Tty :=
  match decode keyboard scanCode with
  | none => (-1, t)
  | some character =>
    let t := if character = 8 then t.stdinDequeueChar.2 else (t.stdinEnqueueChar character).2
    (character.toInt8.toInt, t.ttyKBDPrintChar character)

end Tty

/-! ### Characters -/

/-- No key has the character that reads as an error. -/
theorem decode_ne_error {keyboard : Keyboard} {scanCode c : UInt8}
    (h : decode keyboard scanCode = some c) : c.toInt8.toInt ≠ -1 := by
  have hentry : ∀ table : List UInt8, table.all (fun c => c.toInt8.toInt ≠ -1) = true →
      ∀ i, (table.getD i 0).toInt8.toInt ≠ -1 := by
    intro table hall i
    rw [List.getD_eq_getElem?_getD]
    cases hget : table[i]? with
    | none => decide
    | some c => simpa using List.all_eq_true.mp hall c (List.mem_of_getElem? hget)
  have hchosen : ∀ (p : Prop) [Decidable p],
      (if p then shiftedCharTable.getD scanCode.toNat 0
        else charTable.getD scanCode.toNat 0).toInt8.toInt ≠ -1 := by
    intro p _
    split
    · exact hentry shiftedCharTable (by decide) _
    · exact hentry charTable (by decide) _
  unfold decode at h
  simp only at h
  split at h
  · obtain rfl := Option.some.inj h
    exact hchosen _
  · obtain rfl := Option.some.inj h
    exact hchosen _
  · obtain rfl := Option.some.inj h
    exact hchosen _
  · cases h

end TP2Kernel
