import TP2Kernel.Framework.Scan
import TP2Kernel.Stdlib

/-! # The process control blocks (`Kernel/c/process.c`)

    The PCB is one page of 512-byte entries.  Each entry holds a process: its identity,
    its saved stack pointer, its descriptor table and the pages it owns.  This module has
    the data, the getters and setters and the descriptor table; creation and destruction,
    which also move pages, are in `Process.Lifecycle`.
-/

namespace TP2Kernel

def MAX_FILES : Nat := 16

def MAX_NAME_LENGTH : Nat := 32

def F_READ : UInt32 := 0x01
def F_WRITE : UInt32 := 0x02
def F_NOBLOCK : UInt32 := 0x04

/-- The supported file types; a descriptor stores the type's code. -/
inductive FileType where
  | STDIN_
  | STDOUT_
  | STDERR_
  | RAW_KEYS
  | MESSAGE_QUEUE
  deriving DecidableEq, Repr

namespace FileType

def code : FileType → UInt32
  | STDIN_ => 0
  | STDOUT_ => 1
  | STDERR_ => 2
  | RAW_KEYS => 3
  | MESSAGE_QUEUE => 4

/-- The type a stored code stands for; `none` is what `isValidFileType` rejects. -/
def ofCode (c : UInt32) : Option FileType :=
  if c = 0 then some STDIN_
  else if c = 1 then some STDOUT_
  else if c = 2 then some STDERR_
  else if c = 3 then some RAW_KEYS
  else if c = 4 then some MESSAGE_QUEUE
  else none

@[simp] theorem ofCode_code (t : FileType) : ofCode t.code = some t := by
  cases t <;> decide

theorem code_of_ofCode {c : UInt32} {t : FileType} (h : ofCode c = some t) : t.code = c := by
  unfold ofCode at h
  split at h
  · next hc => cases h; exact hc.symm
  split at h
  · next hc => cases h; exact hc.symm
  split at h
  · next hc => cases h; exact hc.symm
  split at h
  · next hc => cases h; exact hc.symm
  split at h
  · next hc => cases h; exact hc.symm
  · cases h

end FileType

/-- The operations on an open file. -/
inductive FileOperation where
  | OPEN
  | READ
  | WRITE
  | IS_EMPTY
  | IS_FULL
  | CLOSE
  deriving DecidableEq, Repr

/-- `struct fileDescriptorMapEntry_s`. -/
structure FileDescriptorMapEntry where
  occupied : UInt32
  index : UInt32
  fileType : UInt32
  flags : UInt32
  deriving DecidableEq

def FileDescriptorMapEntry.zero : FileDescriptorMapEntry := ⟨0, 0, 0, 0⟩

/-- `struct fileDescriptorsMap_s`. -/
structure FileDescriptorsMap where
  size : UInt64
  entries : Nat → FileDescriptorMapEntry

namespace FileDescriptorsMap

def zero : FileDescriptorsMap := ⟨0, fun _ => .zero⟩

/-- The lowest unoccupied descriptor.  The search has no bound in the source; here it ends
    at `MAX_FILES` when no entry is free. -/
def lowestFree (fds : FileDescriptorsMap) : Nat :=
  Scan.scan (fun i => (fds.entries i).occupied = 0) MAX_FILES

def insert (fds : FileDescriptorsMap) (e : FileDescriptorMapEntry) : FileDescriptorsMap where
  size := fds.size + 1
  entries := Function.update fds.entries fds.lowestFree e

def erase (fds : FileDescriptorsMap) (fileDescriptor : Nat) : FileDescriptorsMap where
  size := fds.size - 1
  entries := Function.update fds.entries fileDescriptor .zero

end FileDescriptorsMap

/-- `struct pcbEntry_s`. -/
structure PcbEntry where
  occupied : UInt64
  pid : UInt64
  parentPid : UInt64
  name : List UInt8
  stack : Addr
  fileDescriptors : FileDescriptorsMap
  stackPage : Addr
  heapPage : Addr

def PcbEntry.zero : PcbEntry where
  occupied := 0
  pid := 0
  parentPid := 0
  name := List.replicate MAX_NAME_LENGTH 0
  stack := NULL
  fileDescriptors := .zero
  stackPage := NULL
  heapPage := NULL

/-- The number of entries in the PCB: `PAGE_SIZE / sizeof(struct pcbEntry_s)`. -/
def pcbEntries : Nat := 16

/-- The static variables of `process.c`. -/
structure Pcb where
  pcb : Addr
  maxProcesses : UInt64
  nextPid : UInt64
  entries : Nat → PcbEntry

namespace Pcb

/-- The variables as the loader leaves them; nothing is known of the memory the entries
    will lie in. -/
def bss (entries : Nat → PcbEntry) : Pcb where
  pcb := NULL
  maxProcesses := 0
  nextPid := 1
  entries := entries

/-- Every function on the PCB rejects an index by this test. -/
def badIndex (p : Pcb) (PCBIndex : UInt64) : Bool :=
  p.pcb = NULL || PCBIndex > p.maxProcesses

def process (p : Pcb) (PCBIndex : UInt64) : PcbEntry := p.entries PCBIndex.toNat

def setProcess (p : Pcb) (i : Nat) (e : PcbEntry) : Pcb :=
  { p with entries := Function.update p.entries i e }

/-- Writes to some fields of one entry. -/
def modifyProcess (p : Pcb) (i : Nat) (f : PcbEntry → PcbEntry) : Pcb :=
  p.setProcess i (f (p.entries i))

section
variable (p : Pcb) (i : Nat) (e : PcbEntry)

@[simp] theorem setProcess_self : (p.setProcess i e).entries i = e := by
  simp [setProcess]

@[simp] theorem setProcess_ne {j : Nat} (h : j ≠ i) :
    (p.setProcess i e).entries j = p.entries j := by
  simp [setProcess, h]

@[simp] theorem setProcess_badIndex (k : UInt64) :
    (p.setProcess i e).badIndex k = p.badIndex k := rfl

@[simp] theorem setProcess_setProcess (e' : PcbEntry) :
    (p.setProcess i e).setProcess i e' = p.setProcess i e' := by
  simp [setProcess]

theorem modifyProcess_entries (f : PcbEntry → PcbEntry) (j : Nat) :
    (p.modifyProcess i f).entries j = if j = i then f (p.entries i) else p.entries j := by
  by_cases hji : j = i <;> simp [modifyProcess, hji]

@[simp] theorem setProcess_modifyProcess (f : PcbEntry → PcbEntry) :
    (p.setProcess i e).modifyProcess i f = p.setProcess i (f e) := by
  simp [modifyProcess]

end

/-! ### Getters and setters -/

def getProcessPID (p : Pcb) (PCBIndex : UInt64) : UInt64 :=
  if p.badIndex PCBIndex then -1 else (p.process PCBIndex).pid

def getProcessStack (p : Pcb) (PCBIndex : UInt64) : Addr :=
  if p.badIndex PCBIndex then NULL else (p.process PCBIndex).stack

def getFileFlags (p : Pcb) (PCBIndex fileDescriptor : UInt64) : UInt32 :=
  if p.badIndex PCBIndex then -1
  else ((p.process PCBIndex).fileDescriptors.entries fileDescriptor.toNat).flags

def getFileType (p : Pcb) (PCBIndex fileDescriptor : UInt64) : UInt32 :=
  if p.badIndex PCBIndex then -1
  else ((p.process PCBIndex).fileDescriptors.entries fileDescriptor.toNat).fileType

def setProcessStack (p : Pcb) (PCBIndex : UInt64) (stack : Addr) : UInt64 × Pcb :=
  if p.badIndex PCBIndex then (-1, p)
  else (0, p.modifyProcess PCBIndex.toNat fun e => { e with stack := stack })

section
variable (p : Pcb) (k : UInt64) (stack : Addr)

@[simp] theorem setProcessStack_pcb : (p.setProcessStack k stack).2.pcb = p.pcb := by
  unfold setProcessStack
  split <;> rfl

@[simp] theorem setProcessStack_maxProcesses :
    (p.setProcessStack k stack).2.maxProcesses = p.maxProcesses := by
  unfold setProcessStack
  split <;> rfl

@[simp] theorem setProcessStack_nextPid :
    (p.setProcessStack k stack).2.nextPid = p.nextPid := by
  unfold setProcessStack
  split <;> rfl

@[simp] theorem setProcessStack_badIndex (k' : UInt64) :
    (p.setProcessStack k stack).2.badIndex k' = p.badIndex k' := by
  unfold setProcessStack
  split <;> rfl

theorem setProcessStack_entries (i : Nat) :
    (p.setProcessStack k stack).2.entries i =
      if p.badIndex k = false ∧ k.toNat = i then { p.entries i with stack := stack }
      else p.entries i := by
  by_cases hbad : p.badIndex k = true
  · simp [setProcessStack, hbad]
  · by_cases hki : k.toNat = i
    · subst hki
      simp [setProcessStack, hbad, modifyProcess]
    · simp [setProcessStack, hbad, modifyProcess, hki, Ne.symm hki]

end

/-! ### The descriptor table -/

/-- `addFile`: the new descriptor, or `none` for `-1`. -/
def addFile (p : Pcb) (PCBIndex : UInt64) (index : UInt32) (fileType : FileType)
    (flags : UInt32) : Option Nat × Pcb :=
  if p.badIndex PCBIndex then (none, p)
  else
    let fds := (p.process PCBIndex).fileDescriptors
    if fds.size ≥ UInt64.ofNat MAX_FILES then (none, p)
    else
      let e : FileDescriptorMapEntry :=
        { occupied := 1, index := index, fileType := fileType.code, flags := flags }
      (some fds.lowestFree, p.modifyProcess PCBIndex.toNat fun process =>
        { process with fileDescriptors := fds.insert e })

def removeFile (p : Pcb) (PCBIndex fileDescriptor : UInt64) : Int × Pcb :=
  if p.badIndex PCBIndex || fileDescriptor ≥ UInt64.ofNat MAX_FILES then (-1, p)
  else
    (0, p.modifyProcess PCBIndex.toNat fun process =>
      { process with fileDescriptors := process.fileDescriptors.erase fileDescriptor.toNat })

theorem addFile_of_room {p : Pcb} {k : UInt64} (hk : p.badIndex k = false)
    (hroom : (p.process k).fileDescriptors.size < UInt64.ofNat MAX_FILES)
    (index : UInt32) (fileType : FileType) (flags : UInt32) :
    p.addFile k index fileType flags =
      (some (p.process k).fileDescriptors.lowestFree,
        p.modifyProcess k.toNat fun process => { process with
          fileDescriptors := (p.process k).fileDescriptors.insert
            { occupied := 1, index := index, fileType := fileType.code, flags := flags } }) := by
  have hroom' : ¬ (p.process k).fileDescriptors.size ≥ UInt64.ofNat MAX_FILES := by
    simpa using hroom
  simp only [addFile, hk, Bool.false_eq_true, if_false, if_neg hroom']

theorem addFile_eq_none_iff {p : Pcb} {k : UInt64} {index : UInt32} {fileType : FileType}
    {flags : UInt32} :
    (p.addFile k index fileType flags).1 = none ↔
      p.badIndex k = true ∨ UInt64.ofNat MAX_FILES ≤ (p.process k).fileDescriptors.size := by
  by_cases hk : p.badIndex k = true
  · simp [addFile, hk]
  · by_cases hsize : UInt64.ofNat MAX_FILES ≤ (p.process k).fileDescriptors.size <;>
      simp [addFile, hk, hsize]

/-- A call that is refused changes nothing. -/
theorem addFile_refused {p : Pcb} {k : UInt64} {index : UInt32} {fileType : FileType}
    {flags : UInt32} (h : (p.addFile k index fileType flags).1 = none) :
    p.addFile k index fileType flags = (none, p) := by
  rcases addFile_eq_none_iff.mp h with hk | hsize
  · simp [addFile, hk]
  · by_cases hk : p.badIndex k = true <;> simp [addFile, hk, hsize]

/-- Note the `-1` for an index or descriptor out of range, which the callers test as a
    truth value. -/
def existsFile (p : Pcb) (PCBIndex fileDescriptor : UInt64) : UInt64 :=
  if p.badIndex PCBIndex || fileDescriptor ≥ UInt64.ofNat MAX_FILES then -1
  else ((p.process PCBIndex).fileDescriptors.entries fileDescriptor.toNat).occupied.toUInt64

def hasPermissions (p : Pcb) (PCBIndex fileDescriptor : UInt64)
    (operation : FileOperation) : UInt64 :=
  let flags := p.getFileFlags PCBIndex fileDescriptor
  match operation with
  | .READ => (flags &&& F_READ).toUInt64
  | .WRITE => (flags &&& F_WRITE).toUInt64
  | .IS_FULL => 1
  | .IS_EMPTY => 1
  | .CLOSE => 1
  | .OPEN => 0

end Pcb

end TP2Kernel
