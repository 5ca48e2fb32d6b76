import TP2Kernel.BasicFile.Table
import TP2Kernel.Scheduler.Queue
import TP2Kernel.Terminal.Buffers

/-! # Message queues (`Kernel/c/mq.c`)

    A message queue is a slot of a table: a basic file for the data, the number of
    processes that have it open and the pids of its reader and its writer.

    The functions are given as they run without interruption, when their mutexes are free
    before and after; `MessageQueue.Steps` has their steps, with the mutexes.
-/

namespace TP2Kernel

def MAX_MQS : Nat := 256

/-- `MessageQueue`.  The pids are signed in the source and compared with unsigned ones;
    `-1` is none. -/
structure MessageQueue where
  file : BasicFile
  links : UInt64
  readPID : UInt64
  writePID : UInt64
  deriving DecidableEq

/-- A slot as the loader leaves it. -/
def MessageQueue.zero : MessageQueue := ⟨none, 0, 0, 0⟩

/-- The state of the kernel that files, processes and the scheduler share. -/
structure Kernel extends Tasks where
  files : FilesTable
  mqs : Nat → MessageQueue
  numMQs : UInt64
  tty : Tty
  rawKeys : RawKeys

namespace Kernel

def setMQ (s : Kernel) (i : Nat) (q : MessageQueue) : Kernel :=
  { s with mqs := Function.update s.mqs i q }

section
variable (s : Kernel) (i : Nat) (q : MessageQueue)

@[simp] theorem setMQ_mqs : (s.setMQ i q).mqs = Function.update s.mqs i q := rfl

end

/-! ### The static functions -/

def indexOfMQ (s : Kernel) (name : CString) : Option Nat :=
  Scan.countedScan (fun i => (s.mqs i).file ≠ none)
    (fun i => streql (s.files.getBasicFileName (s.mqs i).file) name = true)
    s.numMQs.toNat MAX_MQS

def findFreeSlot (s : Kernel) : Option Nat :=
  let i := Scan.scan (fun i => (s.mqs i).file = none) MAX_MQS
  if i < MAX_MQS then some i else none

def markAccess (s : Kernel) (tableIndex : Nat) (pid : UInt64) (accessFlags : UInt32) :
    Int × Kernel :=
  let q := s.mqs tableIndex
  if q.file = none then (-1, s)
  else if accessFlags &&& F_READ ≠ 0 then
    if q.readPID ≠ -1 then (-1, s) else (1, s.setMQ tableIndex { q with readPID := pid })
  else if accessFlags &&& F_WRITE ≠ 0 then
    if q.writePID ≠ -1 then (-1, s) else (1, s.setMQ tableIndex { q with writePID := pid })
  else (-1, s)

def newMQ (s : Kernel) (name : CString) (tableIndex : Nat) (accessFlags : UInt32) :
    Int × Kernel :=
  if (s.mqs tableIndex).file ≠ none ∨
      (accessFlags &&& F_READ = 0 ∧ accessFlags &&& F_WRITE = 0) then (-1, s)
  else
    match s.files.createBasicFileWithName s.pages (some name) with
    | (none, files, pages) => (-1, { s with files := files, pages := pages })
    | (some file, files, pages) =>
      let s := { s with files := files, pages := pages }
      let pid := s.getCurrentPID
      -- the links are incremented by `MQopen`, the pids set by `markAccess`
      let s := s.setMQ tableIndex ⟨some file, 0, -1, -1⟩
      match s.markAccess tableIndex pid accessFlags with
      | (code, s) =>
        if code = -1 then
          let (_, files, pages) := s.files.destroyBasicFile s.pages (some file)
          let s := { s with files := files, pages := pages }
          (-1, s.setMQ tableIndex { s.mqs tableIndex with file := none })
        else (1, { s with numMQs := s.numMQs + 1 })

def destroyMQ (s : Kernel) (index : Nat) : Int × Kernel :=
  let f := (s.mqs index).file
  if f = none then (0, s)
  else
    let (_, files, pages) := s.files.destroyBasicFile s.pages f
    let s := { s with files := files, pages := pages }
    let s := s.setMQ index { s.mqs index with file := none }
    (1, { s with numMQs := s.numMQs - 1 })

/-! ### The file manager's implementations -/

def MQclose (s : Kernel) (tableIndex : Nat) : Int × Kernel :=
  let q := s.mqs tableIndex
  if q.file = none then (-1, s)
  else
    let pid := s.getCurrentPID
    if q.readPID ≠ pid ∧ q.writePID ≠ pid then (-1, s)
    else
      let q := if q.readPID = pid then { q with readPID := -1 } else { q with writePID := -1 }
      let q := if q.links > 0 then { q with links := q.links - 1 } else q
      let s := s.setMQ tableIndex q
      if q.links = 0 then
        let (destroyResult, s) := s.destroyMQ tableIndex
        (if destroyResult = 0 then -1 else destroyResult, s)
      else (0, s)

/-- The part of `MQopen` that yields the slot of the queue, new or not. -/
def obtainMQ (s : Kernel) (name : CString) (accessFlags : UInt32) : Option Nat × Kernel :=
  match s.indexOfMQ name with
  | none =>
    match s.findFreeSlot with
    | none => (none, s)
    | some tableIndex =>
      match s.newMQ name tableIndex accessFlags with
      | (code, s) => if code = -1 then (none, s) else (some tableIndex, s)
  | some tableIndex =>
    match s.markAccess tableIndex s.getCurrentPID accessFlags with
    | (code, s) => if code = -1 then (none, s) else (some tableIndex, s)

/-- The part of `MQopen` that registers the slot in the process's descriptor table. -/
def registerMQ (s : Kernel) (tableIndex : Nat) (accessFlags : UInt32) : Int × Kernel :=
  match s.pcb.addFile s.sched.getCurrentPCBIndex (UInt32.ofNat tableIndex) .MESSAGE_QUEUE
      accessFlags with
  | (none, pcb) => (-1, ({ s with pcb := pcb } |>.MQclose tableIndex).2)
  | (some MQdescriptor, pcb) =>
    let s := { s with pcb := pcb }
    let q := s.mqs tableIndex
    (MQdescriptor, s.setMQ tableIndex { q with links := q.links + 1 })

def MQopen (s : Kernel) (name : Option CString) (accessFlags : UInt32) : Int × Kernel :=
  match name with
  | none => (-1, s)
  | some name =>
    if accessFlags &&& F_READ = 0 ∧ accessFlags &&& F_WRITE = 0 then (-1, s)
    else
      match s.obtainMQ name accessFlags with
      | (none, s) => (-1, s)
      | (some tableIndex, s) => s.registerMQ tableIndex accessFlags

/-- The result, the character stored in `*dest` and the state after. -/
def MQreadChar (s : Kernel) (tableIndex : UInt64) : Int × Option UInt8 × Kernel :=
  let q := s.mqs tableIndex.toNat
  if tableIndex.toNat ≥ MAX_MQS ∨ q.file = none ∨ q.readPID ≠ s.getCurrentPID then
    (-1, none, s)
  else
    let (c, files) := s.files.basicFileReadChar s.mem q.file
    let dest := toChar c
    (if dest.toInt8.toInt = EOF then 0 else 1, some dest, { s with files := files })

def MQwriteChar (s : Kernel) (tableIndex : UInt64) (src : UInt8) : Int × Kernel :=
  let q := s.mqs tableIndex.toNat
  if tableIndex.toNat ≥ MAX_MQS ∨ q.file = none ∨ q.writePID ≠ s.getCurrentPID then (-1, s)
  else
    let (result, files, mem) := s.files.basicFileWriteChar s.mem src q.file
    (if result = EOF then 0 else 1, { s with files := files, mem := mem })

def MQisEmpty (s : Kernel) (index : UInt64) : Int :=
  let q := s.mqs index.toNat
  if index.toNat ≥ MAX_MQS ∨ q.file = none then -1
  else if s.files.basicFileIsEmpty q.file then 1 else 0

def MQisFull (s : Kernel) (index : UInt64) : Int :=
  let q := s.mqs index.toNat
  if index.toNat ≥ MAX_MQS ∨ q.file = none then -1
  else if s.files.basicFileIsFull q.file then 1 else 0

end Kernel

end TP2Kernel
