import TP2Kernel.FileManager.WaitForIO

/-! # Calls without interruption (`read` and `write` in `Kernel/c/scheduler.c`)

    The loops of `waitForIO` from the first test to the end, when nothing else happens in
    between.  A blocking call that has to wait then tests the same file again and again, so
    that a run is given the number of steps it may take.
-/

namespace TP2Kernel

/-- The bytes a caller passes to `read`, from some address on. -/
abbrev Buffer := Nat → UInt8

/-- The bytes of `cs` stored one after the other, the first one at `start`. -/
def Buffer.stored (buffer : Buffer) (start : Nat) : List UInt8 → Buffer
  | [] => buffer
  | c :: cs => Buffer.stored (Function.update buffer start c) (start + 1) cs

/-- A call that has returned: its result, how often it yielded, and the kernel after. -/
structure Returned where
  result : Int
  yields : Nat
  kernel : Kernel

/-- A call that tests again has yielded in between. -/
def Receiving.yields : Receiving → Receiving → Nat
  | .test _ _ _, .test _ _ _ => 1
  | _, _ => 0

def Sending.yields : Sending → Sending → Nat
  | .test _ _ _, .test _ _ _ => 1
  | _, _ => 0

namespace Kernel

/-- The rest of `waitForInput`, with `readData` bytes stored from `start` on and `yields` turns
    given up so far; `none` when it takes more steps than allowed. -/
def waitForInput (start : Nat) (s : Kernel) (buffer : Buffer) (readData yields : Nat) :
    Nat → Receiving → Option (Returned × Buffer)
  | 0, _ => none
  | _ + 1, .idle => some (⟨readData, yields, s⟩, buffer)
  | fuel + 1, p =>
    match s.inputStep p with
    | (s, p', none) => waitForInput start s buffer readData (yields + p.yields p') fuel p'
    | (s, p', some c) =>
      -- buffer[readData] = c
      waitForInput start s (Function.update buffer (start + readData) c) (readData + 1)
        (yields + p.yields p') fuel p'

def waitForOutput (s : Kernel) (writtenData yields : Nat) : Nat → Sending → Option Returned
  | 0, _ => none
  | _ + 1, .idle => some ⟨writtenData, yields, s⟩
  | fuel + 1, p =>
    match s.outputStep p with
    | (s, p', none) => waitForOutput s writtenData (yields + p.yields p') fuel p'
    | (s, p', some _) => waitForOutput s (writtenData + 1) (yields + p.yields p') fuel p'

/-- `read(fileDescriptor, buffer + start, maxBytes)`. -/
def read (s : Kernel) (fileDescriptor : UInt64) (buffer : Buffer) (start maxBytes fuel : Nat) :
    Option (Returned × Buffer) :=
  match s.waitForIO fileDescriptor with
  | none => some (⟨-1, 0, s⟩, buffer)
  | some (call, s) => waitForInput start s buffer 0 0 fuel (.test call maxBytes 0)

/-- `write` of the bytes of `buffer`. -/
def write (s : Kernel) (fileDescriptor : UInt64) (buffer : List UInt8) (fuel : Nat) :
    Option Returned :=
  match s.waitForIO fileDescriptor with
  | none => some ⟨-1, 0, s⟩
  | some (call, s) => waitForOutput s 0 0 fuel (.test call buffer 0)

/-- Descriptor `fd` of process `k` is open, of type `fileType` and with the flags of `flag`. -/
structure TypedEntry (s : Kernel) (k fd : UInt64) (fileType : FileType) (flag : UInt32) : Prop
    extends OpenEntry s k fd where
  fileType : (s.descriptor k fd).fileType = fileType.code
  flag : (s.descriptor k fd).flags &&& flag ≠ 0

/-- Only the descriptors matter. -/
theorem TypedEntry.congr {s s' : Kernel} {k fd : UInt64} {fileType : FileType} {flag : UInt32}
    (h : s.TypedEntry k fd fileType flag) (hpcb : s'.pcb = s.pcb) :
    s'.TypedEntry k fd fileType flag := by
  have hentry : s'.descriptor k fd = s.descriptor k fd := by
    unfold descriptor
    rw [hpcb]
  exact ⟨⟨hpcb ▸ h.good, h.lt, hentry ▸ h.occupied⟩, hentry ▸ h.fileType, hentry ▸ h.flag⟩

/-! ### One step of a call -/

section
variable {s s' : Kernel} {buffer : Buffer} {start data yields fuel : Nat} {c : UInt8}

theorem waitForInput_none {p p' : Receiving} (hp : p ≠ .idle)
    (hstep : s.inputStep p = (s', p', none)) :
    waitForInput start s buffer data yields (fuel + 1) p =
      waitForInput start s' buffer data (yields + p.yields p') fuel p' := by
  cases p with
  | idle => exact absurd rfl hp
  | test | read => simp only [waitForInput, hstep]

theorem waitForInput_some {p p' : Receiving} (hp : p ≠ .idle)
    (hstep : s.inputStep p = (s', p', some c)) :
    waitForInput start s buffer data yields (fuel + 1) p =
      waitForInput start s' (Function.update buffer (start + data) c) (data + 1)
        (yields + p.yields p') fuel p' := by
  cases p with
  | idle => exact absurd rfl hp
  | test | read => simp only [waitForInput, hstep]

theorem waitForOutput_none {p p' : Sending} (hp : p ≠ .idle)
    (hstep : s.outputStep p = (s', p', none)) :
    waitForOutput s data yields (fuel + 1) p =
      waitForOutput s' data (yields + p.yields p') fuel p' := by
  cases p with
  | idle => exact absurd rfl hp
  | test | write => simp only [waitForOutput, hstep]

theorem waitForOutput_some {p p' : Sending} (hp : p ≠ .idle)
    (hstep : s.outputStep p = (s', p', some c)) :
    waitForOutput s data yields (fuel + 1) p =
      waitForOutput s' (data + 1) (yields + p.yields p') fuel p' := by
  cases p with
  | idle => exact absurd rfl hp
  | test | write => simp only [waitForOutput, hstep]

end

end Kernel

end TP2Kernel
