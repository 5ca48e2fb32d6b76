import TP2Kernel.Process.Lifecycle

/-! # The scheduler (`Kernel/c/scheduler.c`)

    The processes are queued in a singly linked ring of nodes with a pointer to the last
    node only; the process that runs is the one of the node after `last`.  The nodes lie
    in an array in a page of their own, and `usedNodes` marks the ones on the ring.

    A node pointer is the node's position in that array, `none` for `NULL`.
-/

namespace TP2Kernel

def MAX_PROCESSES : Nat := 0x10

inductive State where
  | RUNNING
  | SLEPT
  | FINISHED
  deriving DecidableEq, Repr

/-- `struct node_t`. -/
structure Node where
  PCBIndex : UInt64
  state : State
  index : UInt64
  next : Nat
  deriving DecidableEq

/-- The static variables of `scheduler.c`; `nodes` is the contents of `memoryPage`. -/
structure Scheduler where
  running : Bool
  firstIteration : Bool
  usedNodes : Nat → UInt8
  last : Option Nat
  memoryPage : Addr
  nodes : Nat → Node
  processesQuantity : UInt64
  returnToKernelRSP : Addr

namespace Scheduler

/-- The variables as the loader leaves them; nothing is known of the page of nodes. -/
def bss (nodes : Nat → Node) : Scheduler where
  running := false
  firstIteration := true
  usedNodes := fun _ => 0
  last := none
  memoryPage := NULL
  nodes := nodes
  processesQuantity := 0
  returnToKernelRSP := NULL

def setNode (s : Scheduler) (i : Nat) (n : Node) : Scheduler :=
  { s with nodes := Function.update s.nodes i n }

section
variable (s : Scheduler) (i : Nat) (n : Node)

@[simp] theorem setNode_last : (s.setNode i n).last = s.last := rfl

@[simp] theorem setNode_self : (s.setNode i n).nodes i = n := by
  simp [setNode]

@[simp] theorem setNode_ne {j : Nat} (h : j ≠ i) : (s.setNode i n).nodes j = s.nodes j := by
  simp [setNode, h]

end

/-- The node of the process that runs, when the scheduler is on and has processes:
    `checkScheduler` and `last->next`. -/
def current (s : Scheduler) : Option Nat :=
  if s.running then s.last.map (fun l => (s.nodes l).next) else none

def startScheduler (s : Scheduler) : Scheduler := { s with running := true }

def getCurrentPCBIndex (s : Scheduler) : UInt64 :=
  match s.current with
  | none => -1
  | some c => (s.nodes c).PCBIndex

/-- `current->state = state`. -/
def setState (s : Scheduler) (node : Nat) (state : State) : Scheduler :=
  s.setNode node { s.nodes node with state := state }

section
variable (s : Scheduler) (node : Nat) (state state' : State)

@[simp] theorem setState_setState :
    (s.setState node state).setState node state' = s.setState node state' := by
  simp [setState, setNode]

@[simp] theorem setState_PCBIndex (k : Nat) :
    ((s.setState node state).nodes k).PCBIndex = (s.nodes k).PCBIndex := by
  by_cases h : k = node <;> simp [setState, setNode, h]

@[simp] theorem setState_next (k : Nat) :
    ((s.setState node state).nodes k).next = (s.nodes k).next := by
  by_cases h : k = node <;> simp [setState, setNode, h]

/-- Whoever has the turn keeps it. -/
@[simp] theorem setState_current : (s.setState node state).current = s.current := by
  show (if s.running then s.last.map _ else none) = if s.running then s.last.map _ else none
  simp only [setState_next]

@[simp] theorem setState_getCurrentPCBIndex :
    (s.setState node state).getCurrentPCBIndex = s.getCurrentPCBIndex := by
  unfold getCurrentPCBIndex
  rw [setState_current]
  cases s.current with
  | none => rfl
  | some c => exact setState_PCBIndex s node state c

end

def finishProcess (s : Scheduler) : UInt64 × Scheduler :=
  match s.current with
  | none => (-1, s)
  | some c => (0, s.setNode c { s.nodes c with state := .FINISHED })

/-- A free node's index, which is marked as used; `none` for `-1`. -/
def getFreeNode (s : Scheduler) : Option Nat × Scheduler :=
  let i := Scan.scan (fun i => ¬ s.usedNodes i = 1) MAX_PROCESSES
  if i < MAX_PROCESSES then
    (some i, { s with usedNodes := Function.update s.usedNodes i 1 })
  else (none, s)

/-- The part of `enqueueProcess` after the process is created: node `index` is filled in
    and attached behind `last`. -/
def attachNode (s : Scheduler) (index : Nat) (PCBIndex : UInt64) : Scheduler :=
  let s := { s with usedNodes := Function.update s.usedNodes index 1 }
  -- the node points to itself first, which helps when `last` is `NULL`
  let s := s.setNode index
    { PCBIndex := PCBIndex, state := .RUNNING, index := UInt64.ofNat index, next := index }
  let aux := s.last.getD index
  let s := { s with last := some index }
  let s := s.setNode index { s.nodes index with next := (s.nodes aux).next }
  let s := s.setNode aux { s.nodes aux with next := index }
  { s with processesQuantity := s.processesQuantity + 1 }

/-- The part of `dequeueProcess` that takes the node after `last` off the ring, and the
    node taken off; `processesQuantity` is decremented later. -/
def detachNode (s : Scheduler) (last : Nat) : Node × Scheduler :=
  let current := (s.nodes last).next
  let s := { s with usedNodes := Function.update s.usedNodes (s.nodes current).index.toNat 0 }
  let s :=
    if last = (s.nodes last).next then { s with last := none }
    else s.setNode last { s.nodes last with next := (s.nodes (s.nodes last).next).next }
  (s.nodes current, s)

end Scheduler

/-- The scheduler and what it schedules. -/
structure Tasks extends Machine where
  sched : Scheduler

namespace Tasks

def getCurrentPID (t : Tasks) : UInt64 := t.pcb.getProcessPID t.sched.getCurrentPCBIndex

/-- `initializeScheduler`: takes the page of the nodes, on which whatever it held before
    stays. -/
def initializeScheduler (t : Tasks) : UInt64 × Tasks :=
  let (pages, page) := t.pages.pageManager .POP_PAGE t.sched.memoryPage
  if page = NULL then
    (-1, { t with pages := pages, sched.memoryPage := page })
  else
    (0, { t with
      pages := pages
      sched.memoryPage := page
      sched.usedNodes := fun i => if i < MAX_PROCESSES then 0 else t.sched.usedNodes i })

def enqueueProcess (t : Tasks) (a : ProcessParams) : Option (Int × Tasks) :=
  match t.sched.getFreeNode with
  | (none, _) => some (-1, t)
  | (some index, sched) =>
    match t.toMachine.createProcess a with
    | none => none
    | some (PCBIndex, m) =>
      let t := { t with toMachine := m, sched := sched }
      -- `PCBIndex` is unsigned
      if PCBIndex < 0 then some (-2, t)
      else
        let t := { t with sched := t.sched.attachNode index PCBIndex }
        some ((t.pcb.getProcessPID PCBIndex).toInt64.toInt, t)

def addProcess (t : Tasks) (a : ProcessParams) : Option (Int × Tasks) :=
  match t.enqueueProcess a with
  | none => none
  | some (pid, t) => if pid < 0 then some (-1, t) else some (pid, t)

def finishProcess (t : Tasks) : UInt64 × Tasks :=
  let (code, sched) := t.sched.finishProcess
  (code, { t with sched := sched })

def dequeueProcess (t : Tasks) : Option (UInt64 × Tasks) :=
  match t.sched.last with
  | none => some (-1, t)
  | some last =>
    let (current, sched) := t.sched.detachNode last
    match t.toMachine.destroyProcess current.PCBIndex with
    | none => none
    | some (_, m) =>
      some (0, { t with
        toMachine := m
        sched := { sched with processesQuantity := sched.processesQuantity - 1 } })

/-- `nextProcessRecursive`, called with `last != NULL`.  The last argument bounds the
    recursion: `none` is a call that does not return. -/
def nextProcessRecursive (t : Tasks) : Nat → Option (Addr × Tasks)
  | 0 => none
  | fuel + 1 =>
    match t.sched.last with
    | none => none
    | some last =>
      let current := (t.sched.nodes last).next
      if (t.sched.nodes current).state = .FINISHED then
        match t.dequeueProcess with
        | none => none
        | some (_, t) =>
          if t.sched.last = none then some (t.sched.returnToKernelRSP, t)
          else nextProcessRecursive t fuel
      else some (t.pcb.getProcessStack (t.sched.nodes current).PCBIndex, t)

/-- The part of `nextProcess` before `nextProcessRecursive`: the stack pointer of the
    process that stops is saved and the ring moves on. -/
def rotate (t : Tasks) (current : Nat) (currentRSP : Addr) : Tasks :=
  let t :=
    if !t.sched.firstIteration then
      { t with pcb := (t.pcb.setProcessStack (t.sched.nodes current).PCBIndex currentRSP).2 }
    else
      { t with sched.firstIteration := false, sched.returnToKernelRSP := currentRSP }
  { t with sched.last := some current }

def nextProcess (t : Tasks) (currentRSP : Addr) : Option (Addr × Tasks) :=
  match t.sched.current with
  | none => some (t.sched.returnToKernelRSP, t)
  | some current => (t.rotate current currentRSP).nextProcessRecursive walkBound

end Tasks

end TP2Kernel
