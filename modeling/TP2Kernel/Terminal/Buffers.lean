import TP2Kernel.Stdlib

/-! # The buffers of the terminal (`Kernel/c/tty.c`, `Kernel/c/rawKeys.c`)

    Four circular buffers of characters: stdin, stdout, stderr and the raw keys.  They
    differ in their capacity and in what they keep beside the characters.  This module
    has the side of them that the file manager uses.

    A character is returned as a sign-extended integer, so the byte `0xFF` and the error
    `-1` are the same result.
-/

namespace TP2Kernel

/-- A static buffer with its size and its two indices. -/
structure CharBuffer where
  buffer : Nat → UInt8
  size : UInt64
  enqIdx : UInt64
  deqIdx : UInt64

namespace CharBuffer

def empty : CharBuffer := ⟨fun _ => 0, 0, 0, 0⟩

def isFull (b : CharBuffer) (capacity : UInt64) : Bool := b.size = capacity

def isEmpty (b : CharBuffer) : Bool := b.size = 0

def enqueue (b : CharBuffer) (capacity : UInt64) (character : UInt8) : Int × CharBuffer :=
  if b.isFull capacity then (-1, b)
  else
    let enqIdx := b.enqIdx + 1
    (0, { b with
      buffer := Function.update b.buffer b.enqIdx.toNat character
      size := b.size + 1
      enqIdx := if enqIdx = capacity then 0 else enqIdx })

def dequeue (b : CharBuffer) (capacity : UInt64) : Int × CharBuffer :=
  if b.isEmpty then (-1, b)
  else
    let deqIdx := b.deqIdx + 1
    ((b.buffer b.deqIdx.toNat).toInt8.toInt, { b with
      size := b.size - 1
      deqIdx := if deqIdx = capacity then 0 else deqIdx })

/-- The last character enqueued; note that the size stays. -/
def pop (b : CharBuffer) (capacity : UInt64) : Int × CharBuffer :=
  if b.isEmpty then (-1, b)
  else
    let enqIdx := (if b.enqIdx = 0 then capacity else b.enqIdx) - 1
    ((b.buffer enqIdx.toNat).toInt8.toInt, { b with enqIdx := enqIdx })

end CharBuffer

def STDIN_BUFFER_SIZE : UInt64 := 1024
def STDOUT_BUFFER_SIZE : UInt64 := 1024
def STDERR_BUFFER_SIZE : UInt64 := 1024
def RAW_BUFFER_SIZE : UInt64 := 2048

/-- A `char` read into `*dest`. -/
def toChar (c : Int) : UInt8 := (Int8.ofInt c).toUInt8

/-- A byte survives the trip through `int` and back. -/
theorem toChar_toInt (a : UInt8) : toChar a.toInt8.toInt = a := by
  unfold toChar
  rw [Int8.ofInt_toInt]
  rfl

/-- The static variables of `tty.c`, and what was printed on the screen. -/
structure Tty where
  stdin : CharBuffer
  stdinHasData : UInt64
  stdout : CharBuffer
  stderr : CharBuffer
  backSpaceLimit : Int
  screen : List UInt8

namespace Tty

def bss : Tty := ⟨.empty, 0, .empty, .empty, 0, []⟩

/-! ### stdin -/

def stdinDequeueChar (t : Tty) : Int × Tty :=
  if t.stdin.isEmpty then (-1, t)
  else
    let (c, stdin) := t.stdin.dequeue STDIN_BUFFER_SIZE
    (c, { t with
      stdin := stdin
      stdinHasData := if c = 10 then t.stdinHasData - 1 else t.stdinHasData })

/-- The result and, on success, the character stored in `*dest`. -/
def stdinReadChar (t : Tty) : Int × Option UInt8 × Tty :=
  let (result, t) := t.stdinDequeueChar
  if result = -1 then (-1, none, t) else (1, some (toChar result), t)

def stdinIsFull (t : Tty) : Bool := t.stdin.isFull STDIN_BUFFER_SIZE

def stdinIsEmpty (t : Tty) : Bool := t.stdinHasData ≤ 0

/-! ### stdout -/

def stdoutEnqueueChar (t : Tty) (character : UInt8) : Int × Tty :=
  let (result, stdout) := t.stdout.enqueue STDOUT_BUFFER_SIZE character
  (result, { t with stdout := stdout })

def stdoutDequeueChar (t : Tty) : Int × Tty :=
  let (c, stdout) := t.stdout.dequeue STDOUT_BUFFER_SIZE
  (c, { t with stdout := stdout })

def stdoutPopChar (t : Tty) : Int × Tty :=
  let (c, stdout) := t.stdout.pop STDOUT_BUFFER_SIZE
  (c, { t with stdout := stdout })

def ncPrintChar (t : Tty) (c : UInt8) : Tty := { t with screen := t.screen ++ [c] }

/-- The loop of `stdoutFFlush`; each round takes one character off the buffer. -/
def stdoutFlushLoop (t : Tty) : Nat → Tty
  | 0 => t
  | rounds + 1 =>
    if t.stdout.isEmpty then t
    else
      let (c, t) := t.stdoutDequeueChar
      stdoutFlushLoop (t.ncPrintChar (toChar c)) rounds

def stdoutFFlush (t : Tty) : Tty :=
  { t.stdoutFlushLoop t.stdout.size.toNat with backSpaceLimit := 0 }

def ttySTDOUTPrint (t : Tty) (c : UInt8) : Int × Tty :=
  let (result, t) := if c = 8 then t.stdoutPopChar else t.stdoutEnqueueChar c
  if c = 10 then (result, t.stdoutFFlush) else (result, t)

def stdoutIsFull (t : Tty) : Bool := t.stdout.isFull STDOUT_BUFFER_SIZE

def stdoutIsEmpty (t : Tty) : Bool := t.stdout.isEmpty

/-! ### stderr -/

def stderrEnqueueChar (t : Tty) (value : UInt8) : Int × Tty :=
  let (result, stderr) := t.stderr.enqueue STDERR_BUFFER_SIZE value
  (result, { t with stderr := stderr })

def stderrDequeueChar (t : Tty) : Int × Tty :=
  let (c, stderr) := t.stderr.dequeue STDERR_BUFFER_SIZE
  (c, { t with stderr := stderr })

def stderrPopChar (t : Tty) : Int × Tty :=
  let (c, stderr) := t.stderr.pop STDERR_BUFFER_SIZE
  (c, { t with stderr := stderr })

def stderrFlushLoop (t : Tty) : Nat → Tty
  | 0 => t
  | rounds + 1 =>
    if t.stderr.isEmpty then t
    else
      let (c, t) := t.stderrDequeueChar
      stderrFlushLoop (t.ncPrintChar (toChar c)) rounds

def stderrFFlush (t : Tty) : Tty :=
  { t.stderrFlushLoop t.stderr.size.toNat with backSpaceLimit := 0 }

def ttySTDERRPrint (t : Tty) (c : UInt8) : Int × Tty :=
  let (result, t) := if c = 8 then t.stderrPopChar else t.stderrEnqueueChar c
  if c = 10 then (result, t.stderrFFlush) else (result, t)

def stderrIsFull (t : Tty) : Bool := t.stderr.isFull STDERR_BUFFER_SIZE

def stderrIsEmpty (t : Tty) : Bool := t.stderr.isEmpty

end Tty

/-! ### The raw keys -/

abbrev RawKeys := CharBuffer

namespace RawKeys

/-- A key that finds the buffer full is dropped. -/
def rawEnqueueKey (r : RawKeys) (value : UInt8) : RawKeys :=
  (CharBuffer.enqueue r RAW_BUFFER_SIZE value).2

def rawAddElement (r : RawKeys) (scanCode : UInt8) : Int × RawKeys :=
  (scanCode.toNat, rawEnqueueKey r scanCode)

def rawDequeueKey (r : RawKeys) : Int × RawKeys := CharBuffer.dequeue r RAW_BUFFER_SIZE

def rawReadChar (r : RawKeys) : Int × Option UInt8 × RawKeys :=
  let (result, r) := rawDequeueKey r
  if result = -1 then (-1, none, r) else (1, some (toChar result), r)

/-- Note the negation. -/
def rawIsFull (r : RawKeys) : Bool := !CharBuffer.isFull r RAW_BUFFER_SIZE

def rawIsEmpty (r : RawKeys) : Bool := CharBuffer.isEmpty r

end RawKeys

end TP2Kernel
