import TP2Kernel.MessageQueue.Steps
import TP2Kernel.Framework.TestAndSet

/-! # The calls that take a kernel mutex

    `MQopen`, `MQclose` and `MQuniq` (`mq.c`) and the `CREATE_PROCESS` case of
    `int80Handler` each hold a mutex while they run.  As in `MessageQueue.Steps`, which has
    the first two, a call in progress is a point of its code with the values of its local
    variables.

    `mutex_lock` runs `tsl` until it finds the mutex free, and yields in between.  Each
    `tsl` is a step of its own; nothing else reads and sets a mutex in one step.
-/

namespace TP2Kernel

/-! ### `mutex.c` -/

/-- `tsl`: the previous value of the mutex, and the new one. -/
def tsl (mutex : UInt8) : UInt8 × UInt8 := TestAndSet.testAndSet 1 mutex

/-- One turn of the loop of `mutex_lock`: whether it is the last one, and the mutex. -/
def mutexLock (mutex : UInt8) : Bool × UInt8 :=
  match tsl mutex with
  | (previous, mutex) => (previous != 1, mutex)

def mutexUnlock (_ : UInt8) : UInt8 := 0

/-- The statics of `mq.c` that the calls share, and `createProcessMutex`. -/
structure Mutexes extends Queues where
  uniqNameMutex : UInt8
  nextUniqueID : UInt32
  createProcessMutex : UInt8

/-! ### `MQuniq` -/

/-- Where a call of `MQuniq` is. -/
inductive Naming where
  | lock
  | start
  | next (startingID : UInt32)
  | compare (startingID : UInt32) (name : CString)
  | lookup (startingID : UInt32) (name : CString)
  | copy (name : CString)
  | unlock (result : Int)
  | done (result : Int)

/-- `"/mq/u"` and the digits of the number. -/
def uniqName (id : UInt32) : CString where
  bytes := [47, 109, 113, 47, 117] ++ (intToStr id.toUInt64).bytes
  noNul := by
    intro b hb
    rcases List.mem_append.mp hb with hb | hb
    · have hprefix : ∀ c ∈ ([47, 109, 113, 47, 117] : List UInt8), c ≠ 0 := by simp
      exact hprefix b hb
    · exact (intToStr id.toUInt64).noNul b hb

/-! ### `CREATE_PROCESS` -/

/-- Where a call of `CREATE_PROCESS` is. -/
inductive Creating where
  | lock
  | add
  | store (result : Int)
  | unlock (result : Int)
  | done (result : Int)

/-- `*params`, with the pid of the process that calls. -/
def createProcessParams (mem : Memory) (params : Addr) (parentPid : UInt64) : ProcessParams where
  parentPid := parentPid
  name := mem.readWord params
  entryPoint := mem.readWord (params + 8)
  argc := mem.readWord (params + 16)
  argv := mem.readWord (params + 24)

namespace Mutexes

/-- The next step of `MQuniq(dest)`. -/
def uniqStep (dest : Addr) (s : Mutexes) : Naming → Mutexes × Naming
  | .lock =>
    match mutexLock s.uniqNameMutex with
    | (last, mutex) => ({ s with uniqNameMutex := mutex }, if last then .start else .lock)
  | .start => (s, .next s.nextUniqueID)
  | .next startingID =>
    let id := s.nextUniqueID + 1
    ({ s with nextUniqueID := id }, .compare startingID (uniqName id))
  | .compare startingID name =>
    -- overflowed and came back around with no matches
    if s.nextUniqueID = startingID then (s, .unlock (-1)) else (s, .lookup startingID name)
  | .lookup startingID name =>
    match s.kernel.indexOfMQ name with
    | some _ => (s, .next startingID)
    | none => (s, .copy name)
  | .copy name =>
    let mem := s.kernel.mem.writeBytes dest (name.bytes ++ [0])
    ({ s with kernel.mem := mem }, .unlock 0)
  | .unlock result =>
    ({ s with uniqNameMutex := mutexUnlock s.uniqNameMutex }, .done result)
  | .done result => (s, .done result)

/-- The next step of the `CREATE_PROCESS` case with `p1` and `p2`. -/
def createStep (p1 p2 : Addr) (s : Mutexes) : Creating → Mutexes × Creating
  | .lock =>
    match mutexLock s.createProcessMutex with
    | (last, mutex) => ({ s with createProcessMutex := mutex }, if last then .add else .lock)
  | .add =>
    match s.kernel.addProcess (createProcessParams s.kernel.mem p1 s.kernel.getCurrentPID) with
    -- `addProcess` does not return
    | none => (s, .add)
    | some (result, t) => ({ s with kernel.toTasks := t }, .store result)
  | .store result =>
    let mem := s.kernel.mem.writeWord p2 (Int64.ofInt result).toUInt64
    ({ s with kernel.mem := mem }, .unlock result)
  | .unlock result =>
    ({ s with createProcessMutex := mutexUnlock s.createProcessMutex }, .done result)
  | .done result => (s, .done result)

end Mutexes

/-! ### All four -/

/-- A process in one of the calls, or in none. -/
inductive Call where
  | outside
  | opening (name : CString) (accessFlags : UInt32) (point : Opening)
  | closing (tableIndex : Nat) (point : Closing)
  | naming (dest : Addr) (point : Naming)
  | creating (p1 p2 : Addr) (point : Creating)

/-- What a process can call. -/
inductive Operation where
  | MQopen (name : Option CString) (accessFlags : UInt32)
  | MQclose (tableIndex : Nat)
  | MQuniq (dest : Addr)
  | CREATE_PROCESS (p1 p2 : Addr)

namespace Operation

/-- The call before its first step. -/
def enter : Operation → Call
  -- a `NULL` name is refused at once
  | .MQopen none _ => .outside
  | .MQopen (some name) accessFlags => .opening name accessFlags .check
  | .MQclose tableIndex => .closing tableIndex .lock
  | .MQuniq dest => .naming dest .lock
  | .CREATE_PROCESS p1 p2 => .creating p1 p2 .lock

end Operation

namespace Call

def step (s : Mutexes) : Call → Mutexes × Call
  | .outside => (s, .outside)
  | .opening name accessFlags point =>
    match Queues.openStep name accessFlags s.toQueues point with
    | (queues, point) => ({ s with toQueues := queues }, .opening name accessFlags point)
  | .closing tableIndex point =>
    match Queues.closeStep tableIndex s.toQueues point with
    | (queues, point) => ({ s with toQueues := queues }, .closing tableIndex point)
  | .naming dest point =>
    match s.uniqStep dest point with
    | (s, point) => (s, .naming dest point)
  | .creating p1 p2 point =>
    match s.createStep p1 p2 point with
    | (s, point) => (s, .creating p1 p2 point)

/-- The call has returned, or there was none. -/
def Returned : Call → Prop
  | .outside | .opening _ _ (.done _) | .closing _ (.done _) | .naming _ (.done _)
  | .creating _ _ (.done _) => True
  | .opening _ _ _ | .closing _ _ | .naming _ _ | .creating _ _ _ => False

end Call

/-! ### `mutex_lock` in `MQopen` and `MQclose` -/

namespace Queues

variable (s : Queues)

theorem closeStep_lock (tableIndex : Nat) : s.closeStep tableIndex .lock =
    ({ s with closeMutex := (mutexLock s.closeMutex).2 },
      if (mutexLock s.closeMutex).1 then .test else .lock) := by
  obtain ⟨kernel, openMutex, closeMutex⟩ := s
  by_cases h : closeMutex = 1
  · simp [closeStep, mutexLock, tsl, TestAndSet.testAndSet, h]
  · simp [closeStep, mutexLock, tsl, TestAndSet.testAndSet, h]

theorem openStep_lock (name : CString) (accessFlags : UInt32) :
    s.openStep name accessFlags .lock =
      ({ s with openMutex := (mutexLock s.openMutex).2 },
        if (mutexLock s.openMutex).1 then .lookup else .lock) := by
  obtain ⟨kernel, openMutex, closeMutex⟩ := s
  by_cases h : openMutex = 1
  · simp [openStep, mutexLock, tsl, TestAndSet.testAndSet, h]
  · simp [openStep, mutexLock, tsl, TestAndSet.testAndSet, h]

end Queues

end TP2Kernel
