import TP2Kernel.Framework.Transition
import TP2Kernel.Mutex.Calls

/-! # Mutual exclusion in the kernel

    Any number of processes run the calls of `Mutex.Calls`, and any of them can take the
    next step.  Between two steps the rest of the kernel can change in any way; only the
    mutexes belong to the calls.

    `held` is a ghost: for each process, the mutexes of which `mutex_lock` has returned
    and `mutex_unlock` has not been called.
-/

namespace TP2Kernel

open Transition TestAndSet

inductive Mutex where
  | openMutex
  | closeMutex
  | uniqNameMutex
  | createProcessMutex
  deriving DecidableEq

def Mutexes.byte (s : Mutexes) : Mutex → UInt8
  | .openMutex => s.openMutex
  | .closeMutex => s.closeMutex
  | .uniqNameMutex => s.uniqNameMutex
  | .createProcessMutex => s.createProcessMutex

/-! ### Where a call is -/

def Closing.phase : Closing → Phase
  | .lock => .locking
  | .test | .clear | .unlink | .destroy => .holding
  | .unlock _ => .unlocking
  | .done _ => .away

namespace Opening

/-- Of `openMutex`. -/
def phase : Opening → Phase
  | .check => .away
  | .lock => .locking
  | .lookup | .search | .create _ | .mark _ | .add _ | .link _ _ | .undo _ _ => .holding
  | .unlock _ => .unlocking
  | .done _ => .away

/-- Of `closeMutex`, which the rollback takes. -/
def closePhase : Opening → Phase
  | .undo _ closing => closing.phase
  | .check | .lock | .lookup | .search | .create _ | .mark _ | .add _ | .link _ _ | .unlock _
  | .done _ => .away

end Opening

def Naming.phase : Naming → Phase
  | .lock => .locking
  | .start | .next _ | .compare _ _ | .lookup _ _ | .copy _ => .holding
  | .unlock _ => .unlocking
  | .done _ => .away

def Creating.phase : Creating → Phase
  | .lock => .locking
  | .add | .store _ => .holding
  | .unlock _ => .unlocking
  | .done _ => .away

def Call.phase : Call → Mutex → Phase
  | .opening _ _ point, .openMutex => point.phase
  | .opening _ _ point, .closeMutex => point.closePhase
  | .closing _ point, .closeMutex => point.phase
  | .naming _ point, .uniqNameMutex => point.phase
  | .creating _ _ point, .createProcessMutex => point.phase
  | _, _ => .away

/-! ### The processes -/

/-- The processes `P`, the call each is in and the mutexes each holds. -/
structure Contenders (P : Type*) extends Mutexes where
  call : P → Call
  held : P → Mutex → Bool

inductive CallEvent (P : Type*) where
  | enter (p : P) (operation : Operation)
  | step (p : P)
  | other (kernel : Kernel)

namespace Contenders

variable {P : Type*} [DecidableEq P]

/-- Process `p` makes a call. -/
def enter (s : Contenders P) (p : P) (operation : Operation) : Contenders P :=
  { s with call := Function.update s.call p operation.enter }

/-- The next step of the call of process `p`. -/
def stepOf (s : Contenders P) (p : P) : Contenders P :=
  match (s.call p).step s.toMutexes with
  | (mutexes, call) =>
    { toMutexes := mutexes
      call := Function.update s.call p call
      held := Function.update s.held p fun m =>
        ((s.call p).phase m).holds (call.phase m) (s.held p m) }

end Contenders

/-- The processes that call, interleaved. -/
def contention (P : Type*) [DecidableEq P] : System (Contenders P) (CallEvent P) where
  init := fun s => (∀ m, s.byte m = 0) ∧ (∀ p, s.call p = .outside) ∧ ∀ p m, s.held p m = false
  step := fun s event s' =>
    match event with
    | .enter p operation => (s.call p).Returned ∧ s' = s.enter p operation
    | .step p => s' = s.stepOf p
    | .other kernel => s' = { s with kernel := kernel }

/-! ### One step of a call -/

/-- `mutex_lock`, in a code that is at `lock` while it tries and at `next` when it is past
    it. -/
theorem mutexLock_phase {α : Type*} (phase : α → Phase) {lock next : α}
    (hlock : phase lock = .locking) (hnext : (phase next).inside = true) (mutex : UInt8) :
    PhaseStep 0 1 mutex (phase lock) (mutexLock mutex).2
      (phase (if (mutexLock mutex).1 then next else lock)) := by
  by_cases htaken : mutex = 1
  · have hspin : mutexLock mutex = (false, mutex) := by rw [htaken]; rfl
    rw [hspin]
    show PhaseStep 0 1 mutex (phase lock) mutex (phase lock)
    rw [hlock]
    exact .spin htaken
  · have hpast : mutexLock mutex = (true, 1) := by
      simp [mutexLock, tsl, testAndSet, htaken]
    rw [hpast, hlock]
    exact .acquire htaken hnext

namespace Queues

variable (s : Queues)

theorem closeStep_openMutex (tableIndex : Nat) (point : Closing) :
    (s.closeStep tableIndex point).1.openMutex = s.openMutex := by
  cases point with
  | lock | test | unlink =>
    simp only [closeStep]
    split <;> rfl
  | clear =>
    simp only [closeStep]
    split
    · rfl
    · split <;> rfl
  | destroy =>
    simp only [closeStep]
    split <;> rfl
  | unlock | done => rfl

/-- `MQclose` releases what it takes. -/
theorem closeStep_phase (tableIndex : Nat) (point : Closing) :
    PhaseStep 0 1 s.closeMutex point.phase (s.closeStep tableIndex point).1.closeMutex
      (s.closeStep tableIndex point).2.phase := by
  cases point with
  | lock =>
    rw [closeStep_lock]
    exact mutexLock_phase Closing.phase rfl rfl s.closeMutex
  | test | unlink =>
    simp only [closeStep]
    split <;> exact .stay rfl
  | clear =>
    simp only [closeStep]
    split
    · exact .stay rfl
    · split <;> exact .stay rfl
  | destroy =>
    simp only [closeStep]
    split <;> exact .stay rfl
  | unlock => exact .release rfl
  | done => exact .other rfl

variable (name : CString) (accessFlags : UInt32)

/-- `MQopen` releases `openMutex`. -/
theorem openStep_phase (point : Opening) :
    PhaseStep 0 1 s.openMutex point.phase (s.openStep name accessFlags point).1.openMutex
      (s.openStep name accessFlags point).2.phase := by
  cases point with
  | check =>
    simp only [openStep]
    split <;> exact .other rfl
  | lock =>
    rw [openStep_lock]
    exact mutexLock_phase Opening.phase rfl rfl s.openMutex
  | lookup | search | add =>
    simp only [openStep]
    split <;> exact .stay rfl
  | create | mark =>
    simp only [openStep]
    split <;> exact .stay rfl
  | link => exact .stay rfl
  | undo i closing =>
    -- the rollback is a whole `MQclose`, which does not touch `openMutex`
    by_cases hdone : ∃ result, closing = .done result
    · obtain ⟨result, rfl⟩ := hdone
      exact .stay rfl
    · rw [openStep_undo i s fun r hr => hdone ⟨r, hr⟩, closeStep_openMutex]
      exact .stay rfl
  | unlock => exact .release rfl
  | done => exact .other rfl

/-- `MQopen` touches `closeMutex` in its rollback only, and there it runs `MQclose` to its
    end. -/
theorem openStep_closePhase (point : Opening) :
    PhaseStep 0 1 s.closeMutex point.closePhase
      (s.openStep name accessFlags point).1.closeMutex
      (s.openStep name accessFlags point).2.closePhase := by
  cases point with
  | check | lock | lookup | search | add | create | mark =>
    simp only [openStep]
    split <;> exact .other rfl
  | link | unlock | done => exact .other rfl
  | undo i closing =>
    by_cases hdone : ∃ result, closing = .done result
    · obtain ⟨result, rfl⟩ := hdone
      exact .other rfl
    · rw [openStep_undo i s fun r hr => hdone ⟨r, hr⟩]
      exact closeStep_phase s i closing

end Queues

namespace Mutexes

variable (s : Mutexes)

/-- `MQuniq` releases `uniqNameMutex`. -/
theorem uniqStep_phase (dest : Addr) (point : Naming) :
    PhaseStep 0 1 s.uniqNameMutex point.phase (s.uniqStep dest point).1.uniqNameMutex
      (s.uniqStep dest point).2.phase := by
  cases point with
  | lock => exact mutexLock_phase Naming.phase rfl rfl s.uniqNameMutex
  | start | next | copy => exact .stay rfl
  | compare | lookup =>
    simp only [uniqStep]
    split <;> exact .stay rfl
  | unlock => exact .release rfl
  | done => exact .other rfl

/-- `CREATE_PROCESS` releases `createProcessMutex`. -/
theorem createStep_phase (p1 p2 : Addr) (point : Creating) :
    PhaseStep 0 1 s.createProcessMutex point.phase (s.createStep p1 p2 point).1.createProcessMutex
      (s.createStep p1 p2 point).2.phase := by
  cases point with
  | lock => exact mutexLock_phase Creating.phase rfl rfl s.createProcessMutex
  | add =>
    simp only [createStep]
    split <;> exact .stay rfl
  | store => exact .stay rfl
  | unlock => exact .release rfl
  | done => exact .other rfl

/-- Neither touches a mutex of the others. -/
theorem uniqStep_byte (dest : Addr) (point : Naming) {m : Mutex} (hm : m ≠ .uniqNameMutex) :
    (s.uniqStep dest point).1.byte m = s.byte m := by
  have hstep : (s.uniqStep dest point).1.openMutex = s.openMutex ∧
      (s.uniqStep dest point).1.closeMutex = s.closeMutex ∧
      (s.uniqStep dest point).1.createProcessMutex = s.createProcessMutex := by
    cases point with
    | lock | start | next | copy | unlock | done => exact ⟨rfl, rfl, rfl⟩
    | compare | lookup =>
      simp only [uniqStep]
      split <;> exact ⟨rfl, rfl, rfl⟩
  cases m with
  | openMutex => exact hstep.1
  | closeMutex => exact hstep.2.1
  | uniqNameMutex => exact absurd rfl hm
  | createProcessMutex => exact hstep.2.2

theorem createStep_byte (p1 p2 : Addr) (point : Creating) {m : Mutex}
    (hm : m ≠ .createProcessMutex) : (s.createStep p1 p2 point).1.byte m = s.byte m := by
  have hstep : (s.createStep p1 p2 point).1.openMutex = s.openMutex ∧
      (s.createStep p1 p2 point).1.closeMutex = s.closeMutex ∧
      (s.createStep p1 p2 point).1.uniqNameMutex = s.uniqNameMutex := by
    cases point with
    | lock | store | unlock | done => exact ⟨rfl, rfl, rfl⟩
    | add =>
      simp only [createStep]
      split <;> exact ⟨rfl, rfl, rfl⟩
  cases m with
  | openMutex => exact hstep.1
  | closeMutex => exact hstep.2.1
  | uniqNameMutex => exact hstep.2.2
  | createProcessMutex => exact absurd rfl hm

end Mutexes

/-- Of every mutex, each call is a code that takes it before it holds it and releases it
    before it leaves. -/
theorem Call.step_phase (s : Mutexes) (c : Call) (m : Mutex) :
    PhaseStep 0 1 (s.byte m) (c.phase m) ((c.step s).1.byte m) ((c.step s).2.phase m) := by
  cases c with
  | outside => exact .other (by cases m <;> rfl)
  | opening name accessFlags point =>
    cases m with
    | openMutex => exact s.toQueues.openStep_phase name accessFlags point
    | closeMutex => exact s.toQueues.openStep_closePhase name accessFlags point
    | uniqNameMutex | createProcessMutex => exact .other rfl
  | closing tableIndex point =>
    cases m with
    | openMutex =>
      -- `MQclose` has no business with `openMutex`
      show PhaseStep 0 1 s.openMutex .away
        (s.toQueues.closeStep tableIndex point).1.openMutex .away
      rw [Queues.closeStep_openMutex]
      exact .other rfl
    | closeMutex => exact s.toQueues.closeStep_phase tableIndex point
    | uniqNameMutex | createProcessMutex => exact .other rfl
  | naming dest point =>
    cases m with
    | uniqNameMutex => exact s.uniqStep_phase dest point
    | openMutex | closeMutex | createProcessMutex =>
      simp only [step]
      rw [s.uniqStep_byte dest point (by decide)]
      exact .other rfl
  | creating p1 p2 point =>
    cases m with
    | createProcessMutex => exact s.createStep_phase p1 p2 point
    | openMutex | closeMutex | uniqNameMutex =>
      simp only [step]
      rw [s.createStep_byte p1 p2 point (by decide)]
      exact .other rfl

/-- A call that has returned is outside every mutex, and so is one that starts. -/
theorem Call.Returned.phase {c : Call} (h : c.Returned) (m : Mutex) :
    (c.phase m).inside = false := by
  cases c with
  | outside => cases m <;> rfl
  | opening name accessFlags point =>
    cases point with
    | done => cases m <;> rfl
    | _ => exact h.elim
  | closing tableIndex point =>
    cases point with
    | done => cases m <;> rfl
    | _ => exact h.elim
  | naming dest point =>
    cases point with
    | done => cases m <;> rfl
    | _ => exact h.elim
  | creating p1 p2 point =>
    cases point with
    | done => cases m <;> rfl
    | _ => exact h.elim

theorem Operation.enter_phase (operation : Operation) (m : Mutex) :
    (operation.enter.phase m).inside = false := by
  cases operation with
  | MQopen name accessFlags => cases name <;> cases m <;> rfl
  | MQclose | MQuniq | CREATE_PROCESS => cases m <;> rfl

/-! ### All runs -/

/-- The point of its call tells what a process holds, and the mutexes agree. -/
structure ContentionInv {P : Type*} (s : Contenders P) : Prop where
  held : ∀ p m, s.held p m = ((s.call p).phase m).inside
  lock : ∀ m, LockInv 0 1 (s.byte m) fun p => s.held p m = true

namespace ContentionInv

variable {P : Type*} [DecidableEq P] {s s' : Contenders P}

theorem enter (h : ContentionInv s) {p : P} (hp : (s.call p).Returned) (operation : Operation) :
    ContentionInv (s.enter p operation) := by
  refine ⟨?_, h.lock⟩
  intro q m
  by_cases hq : q = p
  · subst hq
    show s.held q m = ((Function.update s.call q operation.enter q).phase m).inside
    rw [Function.update_self, operation.enter_phase, h.held, hp.phase]
  · show s.held q m = ((Function.update s.call p operation.enter q).phase m).inside
    rw [Function.update_of_ne hq]
    exact h.held q m

theorem stepOf (h : ContentionInv s) (p : P) : ContentionInv (s.stepOf p) := by
  have hphase := (s.call p).step_phase s.toMutexes
  -- what `p` holds after the step is what its phase says
  have hmine : ∀ m, (s.stepOf p).held p m =
      ((((s.call p).step s.toMutexes).2).phase m).inside := by
    intro m
    show Function.update s.held p _ p m = _
    rw [Function.update_self, h.held]
    exact (hphase m).holds
  have hcall : (s.stepOf p).call p = ((s.call p).step s.toMutexes).2 :=
    Function.update_self _ _ _
  have hother : ∀ q, q ≠ p → (s.stepOf p).held q = s.held q ∧
      (s.stepOf p).call q = s.call q :=
    fun q hq => ⟨Function.update_of_ne hq _ _, Function.update_of_ne hq _ _⟩
  constructor
  · intro q m
    by_cases hq : q = p
    · subst hq
      rw [hmine, hcall]
    · rw [(hother q hq).1, (hother q hq).2]
      exact h.held q m
  · intro m
    apply (h.lock m).change (p := p)
    · intro q hq
      rw [(hother q hq).1]
    · rw [hmine, h.held]
      exact (hphase m).change

/-- Every step keeps the invariant. -/
theorem step (h : ContentionInv s) {event : CallEvent P} (hs : (contention P).step s event s') :
    ContentionInv s' := by
  cases event with
  | enter p operation =>
    obtain ⟨hreturned, rfl⟩ := hs
    exact h.enter hreturned operation
  | step p =>
    obtain rfl : s' = s.stepOf p := hs
    exact h.stepOf p
  | other kernel =>
    obtain rfl : s' = { s with kernel := kernel } := hs
    refine ⟨h.held, fun m => ?_⟩
    have hbyte : Mutexes.byte { s.toMutexes with kernel := kernel } m = s.byte m := by
      cases m <;> rfl
    show LockInv 0 1 (Mutexes.byte { s.toMutexes with kernel := kernel } m) _
    rw [hbyte]
    exact h.lock m

end ContentionInv

variable {P : Type*} [DecidableEq P]

theorem contentionInv_reachable {s : Contenders P} (h : (contention P).Reachable s) :
    ContentionInv s := by
  apply h.invariant ContentionInv
  · intro s hinit
    obtain ⟨hbyte, hcall, hheld⟩ := hinit
    refine ⟨fun p m => ?_, fun m => ?_⟩
    · rw [hheld, hcall]
      cases m <;> rfl
    · rw [hbyte]
      exact LockInv.init fun p => by simp [hheld]
  · exact fun s event s' hinv hs => hinv.step hs

/-- At most one process is between `mutex_lock` and `mutex_unlock` of a kernel mutex, the
    mutex is 1 iff one is there, and a process whose call has returned holds none. -/
theorem mutexes_exclude {s : Contenders P} (h : (contention P).Reachable s) (m : Mutex) :
    (∀ p q, s.held p m = true → s.held q m = true → p = q) ∧
    (s.byte m = 0 ∨ s.byte m = 1) ∧
    (s.byte m = 1 ↔ ∃! p, s.held p m = true) ∧
    ∀ p, (s.call p).Returned → s.held p m = false := by
  have hinv := contentionInv_reachable h
  refine ⟨(hinv.lock m).unique, (hinv.lock m).free_or_taken,
    (hinv.lock m).taken_iff (by decide), ?_⟩
  intro p hp
  rw [hinv.held]
  exact hp.phase m

/-- The variables as the loader leaves them. -/
def Kernel.bss (mem : Memory) (entries : Nat → PcbEntry) (nodes : Nat → Node) : Kernel where
  mem := mem
  pages := .bss
  pcb := .bss entries
  sched := .bss nodes
  files := .cleared
  mqs := fun _ => .zero
  numMQs := 0
  tty := .bss
  rawKeys := .empty

/-- No process is in a call. -/
def Contenders.idle (kernel : Kernel) : Contenders P where
  kernel := kernel
  openMutex := 0
  closeMutex := 0
  uniqNameMutex := 0
  nextUniqueID := 0
  createProcessMutex := 0
  call := fun _ => .outside
  held := fun _ _ => false

/-- A process that closes a queue keeps another one waiting. -/
theorem mutexes_exclude_closing : ∃ s : Contenders Nat, (contention Nat).Reachable s ∧
    s.held 0 .closeMutex = true ∧ s.call 1 = .closing 7 .lock ∧
    (∃! p, s.held p .closeMutex = true) ∧ s.held 2 .closeMutex = false := by
  let s₀ : Contenders Nat :=
    .idle (.bss (fun _ => 0) (fun _ => .zero) (fun _ => ⟨0, .RUNNING, 0, 0⟩))
  have hinit : (contention Nat).init s₀ :=
    ⟨fun m => by cases m <;> rfl, fun _ => rfl, fun _ _ => rfl⟩
  have h₁ : (contention Nat).Reachable (s₀.enter 0 (.MQclose 0)) :=
    .step (.enter 0 (.MQclose 0)) (.init hinit) ⟨trivial, rfl⟩
  have h₂ : (contention Nat).Reachable ((s₀.enter 0 (.MQclose 0)).stepOf 0) :=
    .step (.step 0) h₁ rfl
  have h₃ : (contention Nat).Reachable
      (((s₀.enter 0 (.MQclose 0)).stepOf 0).enter 1 (.MQclose 7)) :=
    .step (.enter 1 (.MQclose 7)) h₂ ⟨trivial, rfl⟩
  have h₄ : (contention Nat).Reachable
      ((((s₀.enter 0 (.MQclose 0)).stepOf 0).enter 1 (.MQclose 7)).stepOf 1) :=
    .step (.step 1) h₃ rfl
  have hexclude := mutexes_exclude h₄ .closeMutex
  exact ⟨_, h₄, rfl, rfl, hexclude.2.2.1.mp rfl, hexclude.2.2.2 2 trivial⟩

end TP2Kernel
