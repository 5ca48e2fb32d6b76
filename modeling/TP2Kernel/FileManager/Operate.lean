import TP2Kernel.MessageQueue.Table

/-! # The file manager (`Kernel/c/fileManager.c`) and `operateFile` (`Kernel/c/process.c`)

    Every kind of file reacts to the same five operations.  `operate` picks the function
    of the file's type; `operateFile` finds the file behind a descriptor, checks the
    permissions and takes a closed file off the descriptor table.

    `*character` is passed by value and returned: `READ` stores into it, `WRITE` reads it.
-/

namespace TP2Kernel

namespace Kernel

/-! ### The functions of each type -/

def readChar (s : Kernel) (fileType : FileType) (fileIndex : UInt64) :
    Int × Option UInt8 × Kernel :=
  match fileType with
  | .STDIN_ =>
    let (result, c, tty) := s.tty.stdinReadChar
    (result, c, { s with tty := tty })
  | .STDOUT_ => (-1, none, s)
  | .STDERR_ => (-1, none, s)
  | .RAW_KEYS =>
    let (result, c, rawKeys) := s.rawKeys.rawReadChar
    (result, c, { s with rawKeys := rawKeys })
  | .MESSAGE_QUEUE => s.MQreadChar fileIndex

def writeChar (s : Kernel) (fileType : FileType) (fileIndex : UInt64) (character : UInt8) :
    Int × Kernel :=
  match fileType with
  | .STDIN_ => (-1, s)
  | .STDOUT_ =>
    let (result, tty) := s.tty.ttySTDOUTPrint character
    (result, { s with tty := tty })
  | .STDERR_ =>
    let (result, tty) := s.tty.ttySTDERRPrint character
    (result, { s with tty := tty })
  | .RAW_KEYS => (-1, s)
  | .MESSAGE_QUEUE => s.MQwriteChar fileIndex character

/-- A truth value as the functions return it. -/
def ofBool (b : Bool) : Int := if b then 1 else 0

def isEmpty (s : Kernel) (fileType : FileType) (fileIndex : UInt64) : Int :=
  match fileType with
  | .STDIN_ => ofBool s.tty.stdinIsEmpty
  | .STDOUT_ => ofBool s.tty.stdoutIsEmpty
  | .STDERR_ => ofBool s.tty.stderrIsEmpty
  | .RAW_KEYS => ofBool s.rawKeys.rawIsEmpty
  | .MESSAGE_QUEUE => s.MQisEmpty fileIndex

def isFull (s : Kernel) (fileType : FileType) (fileIndex : UInt64) : Int :=
  match fileType with
  | .STDIN_ => ofBool s.tty.stdinIsFull
  | .STDOUT_ => ofBool s.tty.stdoutIsFull
  | .STDERR_ => ofBool s.tty.stderrIsFull
  | .RAW_KEYS => ofBool s.rawKeys.rawIsFull
  | .MESSAGE_QUEUE => s.MQisFull fileIndex

/-- Only a message queue has something to close. -/
def close (s : Kernel) (fileType : FileType) (fileIndex : UInt64) : Int × Kernel :=
  match fileType with
  | .STDIN_ | .STDOUT_ | .STDERR_ | .RAW_KEYS => (0, s)
  | .MESSAGE_QUEUE => s.MQclose fileIndex.toNat

/-! ### operate -/

/-- The `int64_t` index, passed on as an `int32_t` to functions that take a `uint64_t`. -/
def tableIndex (fileIndex : Int64) : UInt64 := fileIndex.toInt32.toInt64.toUInt64

/-- For `IS_EMPTY` and `IS_FULL`, `0` is true and `-1` false; an error counts as true. -/
def operate (s : Kernel) (operation : FileOperation) (fileType : UInt32)
    (fileIndex : Int64) (character : UInt8) : Int × UInt8 × Kernel :=
  match FileType.ofCode fileType with
  | none => (-1, character, s)
  | some fileType =>
    match operation with
    | .READ =>
      let (operationResult, c, s) := s.readChar fileType (tableIndex fileIndex)
      (if operationResult = -1 then -1 else 0, c.getD character, s)
    | .WRITE =>
      let (operationResult, s) := s.writeChar fileType (tableIndex fileIndex) character
      (if operationResult = -1 then -1 else 0, character, s)
    | .IS_EMPTY =>
      let operationResult := s.isEmpty fileType (tableIndex fileIndex)
      (if operationResult ≠ 0 then 0 else -1, character, s)
    | .IS_FULL =>
      let operationResult := s.isFull fileType (tableIndex fileIndex)
      (if operationResult ≠ 0 then 0 else -1, character, s)
    | .CLOSE =>
      let (operationResult, s) := s.close fileType (tableIndex fileIndex)
      (if operationResult = -1 then -1 else 0, character, s)
    | .OPEN => (-1, character, s)

/-- The descriptor `operateFile` looks up. -/
def descriptor (s : Kernel) (PCBIndex fileDescriptor : UInt64) : FileDescriptorMapEntry :=
  (s.pcb.process PCBIndex).fileDescriptors.entries fileDescriptor.toNat

def operateFile (s : Kernel) (PCBIndex fileDescriptor : UInt64) (operation : FileOperation)
    (character : UInt8) : Int × UInt8 × Kernel :=
  if s.pcb.badIndex PCBIndex || s.pcb.existsFile PCBIndex fileDescriptor = 0 then
    (-1, character, s)
  else if s.pcb.hasPermissions PCBIndex fileDescriptor operation = 0 then
    (-1, character, s)
  else
    let fileIndex := (s.descriptor PCBIndex fileDescriptor).index.toUInt64.toInt64
    let fileType := (s.descriptor PCBIndex fileDescriptor).fileType
    match s.operate operation fileType fileIndex character with
    | (operationResult, character, s) =>
      if operationResult = -1 then (-1, character, s)
      else if operation = .CLOSE then
        let (operationResult, pcb) := s.pcb.removeFile PCBIndex fileDescriptor
        (operationResult, character, { s with pcb := pcb })
      else (operationResult, character, s)

/-! ### Open descriptors -/

/-- Descriptor `fd` of process `k` is open. -/
structure OpenEntry (s : Kernel) (k fd : UInt64) : Prop where
  good : s.pcb.badIndex k = false
  lt : fd.toNat < MAX_FILES
  occupied : (s.descriptor k fd).occupied ≠ 0

theorem not_le_maxFiles {fileDescriptor : UInt64} (hfd : fileDescriptor.toNat < MAX_FILES) :
    ¬ fileDescriptor ≥ UInt64.ofNat MAX_FILES := by
  intro hge
  have := UInt64.le_iff_toNat_le.mp hge
  have hmax : (UInt64.ofNat MAX_FILES).toNat = MAX_FILES := rfl
  omega

section
variable {s : Kernel} {k fd : UInt64} {c : UInt8}

theorem OpenEntry.existsFile (h : s.OpenEntry k fd) : s.pcb.existsFile k fd ≠ 0 := by
  simp only [Pcb.existsFile, h.good, not_le_maxFiles h.lt]
  show (s.descriptor k fd).occupied.toUInt64 ≠ 0
  intro h0
  apply h.occupied
  rw [← UInt32.toNat_inj]
  have := congrArg UInt64.toNat h0
  simpa using this

/-- `operateFile`, but for `CLOSE`, is `operate` on the file behind the descriptor. -/
theorem OpenEntry.operateFile (h : s.OpenEntry k fd) {operation : FileOperation}
    (hclose : operation ≠ .CLOSE) : s.operateFile k fd operation c =
      if s.pcb.hasPermissions k fd operation = 0 then (-1, c, s)
      else s.operate operation (s.descriptor k fd).fileType
        (s.descriptor k fd).index.toUInt64.toInt64 c := by
  have hexists := h.existsFile
  unfold Kernel.operateFile
  by_cases hperm : s.pcb.hasPermissions k fd operation = 0
  · simp [h.good, hexists, hperm]
  · have hpass : ¬ ((s.pcb.badIndex k || decide (s.pcb.existsFile k fd = 0)) = true) := by
      simp [h.good, hexists]
    rw [if_neg hpass, if_neg hperm, if_neg hperm]
    rcases hres : s.operate operation (s.descriptor k fd).fileType
      (s.descriptor k fd).index.toUInt64.toInt64 c with ⟨r, c', s'⟩
    by_cases hr : r = -1 <;> simp [hres, hr, hclose]

theorem OpenEntry.hasPermissions_iff (h : s.OpenEntry k fd) :
    (s.pcb.hasPermissions k fd .WRITE ≠ 0 ↔ (s.descriptor k fd).flags &&& F_WRITE ≠ 0) ∧
    (s.pcb.hasPermissions k fd .READ ≠ 0 ↔ (s.descriptor k fd).flags &&& F_READ ≠ 0) := by
  have hword : ∀ x : UInt32, x.toUInt64 ≠ 0 ↔ x ≠ 0 := by
    intro x
    rw [not_iff_not, ← UInt64.toNat_inj, ← UInt32.toNat_inj]
    simp
  have hflags : s.pcb.getFileFlags k fd = (s.descriptor k fd).flags := by
    simp only [Pcb.getFileFlags, h.good]
    rfl
  simp only [Pcb.hasPermissions, hflags]
  exact ⟨hword _, hword _⟩

end

/-! ### Message queues behind descriptors -/

/-- Small indices survive the conversions. -/
theorem toNat_tableIndex {i : UInt32} (h : i.toNat < 2 ^ 31) :
    (tableIndex i.toUInt64.toInt64).toNat = i.toNat := by
  have hword : i.toUInt64.toInt64.toInt32.toBitVec = i.toBitVec := by
    show BitVec.signExtend 32 (BitVec.setWidth 64 i.toBitVec) = i.toBitVec
    rw [BitVec.signExtend_eq_setWidth_of_le _ (by decide)]
    apply BitVec.eq_of_toNat_eq
    simp
  -- the sign extension to 64 bits sees a clear top bit
  have hmsb : i.toBitVec.msb = false := by
    rw [BitVec.msb_eq_false_iff_two_mul_lt]
    simp
    omega
  show (i.toUInt64.toInt64.toInt32.toBitVec.signExtend 64).toNat = _
  rw [hword, BitVec.signExtend_eq_setWidth_of_msb_false hmsb]
  simp

end Kernel

end TP2Kernel
