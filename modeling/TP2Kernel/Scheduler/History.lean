import TP2Kernel.Scheduler.Recycling

/-! # Where a process resumes

    The scheduler together with the history of its calls.  The stack pointer a process
    resumes with is a function of that history, and so are the processes that finished
    and the pids.

    A process is named by its index in the PCB; an index names the process most recently
    created in that entry.
-/

namespace TP2Kernel

open Transition Scheduler Machine

/-- What a call of the scheduler means for one process. -/
inductive Event where
  | created (PCBIndex : UInt64) (stack : Addr)
  | saved (PCBIndex : UInt64) (rsp : Addr)
  | finished (PCBIndex : UInt64)

/-- The most recent event first. -/
abbrev History := List Event

namespace History

/-- The stack pointer saved last for the process, or the initial one. -/
def resumeStack (k : UInt64) : History → Option Addr
  | [] => none
  | .created j stack :: log => if j = k then some stack else resumeStack k log
  | .saved j rsp :: log => if j = k then some rsp else resumeStack k log
  | .finished _ :: log => resumeStack k log

def hasFinished (k : UInt64) : History → Bool
  | [] => false
  | .created j _ :: log => if j = k then false else hasFinished k log
  | .saved _ _ :: log => hasFinished k log
  | .finished j :: log => if j = k then true else hasFinished k log

/-- The number of processes created so far. -/
def creations : History → Nat
  | [] => 0
  | .created _ _ :: log => creations log + 1
  | .saved _ _ :: log => creations log
  | .finished _ :: log => creations log

/-- The number of the process among all created ones, from 1 on. -/
def serial (k : UInt64) : History → Nat
  | [] => 0
  | .created j _ :: log => if j = k then creations log + 1 else serial k log
  | .saved _ _ :: log => serial k log
  | .finished _ :: log => serial k log

theorem serial_le (k : UInt64) (log : History) : serial k log ≤ creations log := by
  induction log with
  | nil => simp [serial]
  | cons event log ih =>
    cases event with
    | created j stack =>
      simp only [serial, creations]
      split <;> omega
    | saved j rsp => exact ih
    | finished j => exact ih

/-- No two processes have the same number. -/
theorem serial_inj {k j : UInt64} {log : History} (hk : 0 < serial k log)
    (h : serial k log = serial j log) : k = j := by
  induction log with
  | nil => simp [serial] at hk
  | cons event log ih =>
    cases event with
    | created i stack =>
      have hlek := serial_le k log
      have hlej := serial_le j log
      simp only [serial] at hk h
      by_cases hik : i = k <;> by_cases hij : i = j
      · exact hik.symm.trans hij
      · simp only [if_pos hik, if_neg hij] at h
        omega
      · simp only [if_neg hik, if_pos hij] at h
        omega
      · simp only [if_neg hik] at hk
        simp only [if_neg hik, if_neg hij] at h
        exact ih hk h
    | saved i rsp => exact ih hk h
    | finished i => exact ih hk h

end History

/-- The events of a call. -/
def eventsOf (t : Tasks) (action : TaskAction) (t' : Tasks) : History :=
  match action with
  | .addProcess _ =>
    match t.sched.getFreeNode.1 with
    | none => []
    | some _ => [.created (UInt64.ofNat (freeEntry t.pcb))
        (t'.pcb.entries (freeEntry t.pcb)).stack]
  | .finishProcess =>
    match t.sched.current with
    | none => []
    | some _ => [.finished t.sched.getCurrentPCBIndex]
  | .nextProcess currentRSP =>
    match t.sched.current with
    | none => []
    -- the first call comes from the kernel itself
    | some _ => if t.sched.firstIteration then []
        else [.saved t.sched.getCurrentPCBIndex currentRSP]
  | .other => []

/-- The scheduler and the history of its calls. -/
structure Traced where
  tasks : Tasks
  log : History

/-- Runs whose creations succeed, with their history. -/
def tracing : System Traced TaskAction where
  init := fun s => scheduling.init s.tasks ∧ s.log = []
  step := fun s action s' =>
    (∀ a, action = .addProcess a → AddsCleanly s.tasks a) ∧
    scheduling.step s.tasks action s'.tasks ∧
    s'.log = eventsOf s.tasks action s'.tasks ++ s.log

/-- What the history says of the process of node `i` is what the PCB and the node say. -/
structure Follows (t : Tasks) (log : History) (i : Nat) : Prop where
  good : t.pcb.badIndex (t.sched.nodes i).PCBIndex = false
  stack : log.resumeStack (t.sched.nodes i).PCBIndex =
    some (t.pcb.process (t.sched.nodes i).PCBIndex).stack
  finished : log.hasFinished (t.sched.nodes i).PCBIndex = t.sched.isFinished i
  numbered : 0 < log.serial (t.sched.nodes i).PCBIndex
  pid : (t.pcb.process (t.sched.nodes i).PCBIndex).pid =
    UInt64.ofNat (log.serial (t.sched.nodes i).PCBIndex)

/-- The PCB and the ring agree with the history. -/
structure HistoryInv (t : Tasks) (log : History) (q : List Nat) : Prop where
  inv : TaskInv t q
  nextPid : t.pcb.nextPid = UInt64.ofNat (log.creations + 1)
  follows : ∀ i ∈ q, Follows t log i

variable {t t' : Tasks} {q : List Nat} {log : History}

theorem historyInv_init (h : scheduling.init t) : HistoryInv t [] [] := by
  obtain ⟨mem, pages, entries, nodes, hboot⟩ := h
  obtain ⟨-, -, -, -, -, hpid, -⟩ := Tasks.boot_ok hboot
  refine ⟨taskInv_boot hboot, ?_, by simp⟩
  rw [hpid]
  rfl

theorem getFreeNode_isSome_iff (s : Scheduler) :
    s.getFreeNode.1.isSome = true ↔ ¬ NoNode s := by
  rcases s.getFreeNode_cases with ⟨hnone, hfull⟩ | ⟨i, hi, hfree, hsome⟩
  · rw [hnone]
    exact iff_of_false (by simp) (fun h => h hfull)
  · rw [hsome]
    exact iff_of_true rfl (fun hfull => hfree (hfull i hi))

/-- The event of a creation names the new process and the stack it starts with. -/
theorem eventsOf_joined {a : ProcessParams} {i : Nat} (hnode : ¬ NoNode t.sched)
    (hcan : CanCreate t.toMachine a) (hjoin : Joined t q a i t') :
    eventsOf t (.addProcess a) t' =
      [.created (t'.sched.nodes i).PCBIndex
        (t'.pcb.process (t'.sched.nodes i).PCBIndex).stack] := by
  obtain ⟨j, hj⟩ := Option.isSome_iff_exists.mp ((getFreeNode_isSome_iff t.sched).mpr hnode)
  simp only [eventsOf, hj, hjoin.pcbIndex, Pcb.process, hcan.toNat_freeEntry]

theorem historyInv_addProcess (h : HistoryInv t log q) {a : ProcessParams} {r : Int}
    (hclean : AddsCleanly t a) (hadd : t.addProcess a = some (r, t')) :
    ∃ q', HistoryInv t' (eventsOf t (.addProcess a) t' ++ log) q' := by
  -- without a free node nothing happens; else node `i` joins the queue
  rcases addProcess_joined h.inv hclean hadd with ⟨hfull, rfl⟩ | ⟨hnode, i, hjoin⟩
  · have hnone : t'.sched.getFreeNode.1 = none := by
      have hiff := getFreeNode_isSome_iff t'.sched
      simpa [hfull] using hiff
    exact ⟨q, by simpa [eventsOf, hnone] using h⟩
  have hcan : CanCreate t.toMachine a := hclean.resolve_left hnode
  obtain ⟨mem, sp, -, hentry⟩ := hjoin.entry
  rw [eventsOf_joined hnode hcan hjoin, hjoin.pcbIndex]
  refine ⟨q ++ [i], hjoin.inv, ?_, ?_⟩
  · show t'.pcb.nextPid = UInt64.ofNat (log.creations + 1 + 1)
    rw [UInt64.ofNat_add, ← h.nextPid, hjoin.nextPid]
    rfl
  intro l hl
  by_cases hli : l = i
  · -- the new process
    subst hli
    refine ⟨?_, ?_, ?_, ?_, ?_⟩ <;> rw [hjoin.pcbIndex]
    · exact hjoin.good
    · rw [hentry]
      simp [History.resumeStack, createdEntry]
    · rw [hjoin.isFinished]
      simp [History.hasFinished]
    · simp [History.serial]
    · rw [hentry]
      simp [History.serial, createdEntry, claimedEntry, h.nextPid]
  · -- a process that was there
    have hlq : l ∈ q := by simpa [hli] using hl
    have hl := h.follows l hlq
    have hne := (hjoin.apart l hlq hl.good).symm
    have hprocess := hjoin.process hcan hlq hl.good
    refine ⟨?_, ?_, ?_, ?_, ?_⟩ <;> rw [(hjoin.kept l hlq).1]
    · rw [hjoin.badIndex]
      exact hl.good
    · rw [hprocess]
      simpa [History.resumeStack, hne] using hl.stack
    · rw [(hjoin.kept l hlq).2]
      simpa [History.hasFinished, hne] using hl.finished
    · simpa [History.serial, hne] using hl.numbered
    · rw [hprocess]
      simpa [History.serial, hne] using hl.pid

theorem historyInv_finishProcess (h : HistoryInv t log q) :
    HistoryInv t.finishProcess.2 (eventsOf t .finishProcess t.finishProcess.2 ++ log) q := by
  have hinv := taskInv_finishProcess h.inv
  cases q with
  | nil =>
    have hcur : t.sched.current = none := h.inv.ring.current_eq h.inv.running
    rw [Tasks.finishProcess_empty h.inv.ring]
    simpa [eventsOf, hcur] using h
  | cons f q =>
    obtain ⟨hcur, hindex⟩ := h.inv.getCurrentPCBIndex_eq
    have hevents : ∀ t', eventsOf t .finishProcess t' =
        [.finished (t.sched.nodes f).PCBIndex] := by
      intro t'
      simp [eventsOf, hcur, hindex]
    rw [hevents]
    rw [Tasks.finishProcess_eq h.inv.ring h.inv.running] at hinv ⊢
    refine ⟨hinv, h.nextPid, ?_⟩
    intro i hi
    have hi' := h.follows i hi
    -- the front is marked; the others have other entries
    by_cases hif : i = f
    · subst hif
      refine ⟨?_, ?_, ?_, ?_, ?_⟩
      · simpa using hi'.good
      · simpa [History.resumeStack] using hi'.stack
      · simp [History.hasFinished, isFinished]
      · simpa [History.serial] using hi'.numbered
      · simpa [History.serial] using hi'.pid
    · have hne : (t.sched.nodes f).PCBIndex ≠ (t.sched.nodes i).PCBIndex := by
        intro heq
        exact hif (h.inv.apart i hi f (by simp) hi'.good heq.symm)
      refine ⟨?_, ?_, ?_, ?_, ?_⟩
      · simpa [hif] using hi'.good
      · simpa [hif, History.resumeStack] using hi'.stack
      · simpa [hif, History.hasFinished, isFinished, hne] using hi'.finished
      · simpa [hif, History.serial] using hi'.numbered
      · simpa [hif, History.serial] using hi'.pid

/-- A call of `nextProcess` saves one stack pointer, or none. -/
theorem eventsOf_nextProcess (t t' : Tasks) (currentRSP : Addr) :
    eventsOf t (.nextProcess currentRSP) t' = [] ∨
    ∃ k, eventsOf t (.nextProcess currentRSP) t' = [.saved k currentRSP] := by
  cases hcur : t.sched.current with
  | none => exact .inl (by simp [eventsOf, hcur])
  | some c =>
    by_cases hfirst : t.sched.firstIteration = true
    · exact .inl (by simp [eventsOf, hcur, hfirst])
    · exact .inr ⟨t.sched.getCurrentPCBIndex, by simp [eventsOf, hcur, hfirst]⟩

section
variable (t t' : Tasks) (currentRSP : Addr) (log : History)

theorem serial_nextProcess (k : UInt64) :
    History.serial k (eventsOf t (.nextProcess currentRSP) t' ++ log) = log.serial k := by
  rcases eventsOf_nextProcess t t' currentRSP with h | ⟨j, h⟩ <;> rw [h] <;> rfl

theorem creations_nextProcess :
    History.creations (eventsOf t (.nextProcess currentRSP) t' ++ log) = log.creations := by
  rcases eventsOf_nextProcess t t' currentRSP with h | ⟨j, h⟩ <;> rw [h] <;> rfl

theorem hasFinished_nextProcess (k : UInt64) :
    History.hasFinished k (eventsOf t (.nextProcess currentRSP) t' ++ log) =
      log.hasFinished k := by
  rcases eventsOf_nextProcess t t' currentRSP with h | ⟨j, h⟩ <;> rw [h] <;> rfl

end

theorem historyInv_nextProcess (h : HistoryInv t log q) {currentRSP rsp : Addr}
    (hnext : t.nextProcess currentRSP = some (rsp, t')) :
    HistoryInv t' (eventsOf t (.nextProcess currentRSP) t' ++ log) (nextQueue t.sched q) := by
  cases q with
  | nil =>
    have hcur : t.sched.current = none := h.inv.ring.current_eq h.inv.running
    rw [Tasks.nextProcess_empty h.inv.ring] at hnext
    obtain ⟨rfl, rfl⟩ := Prod.mk.inj (Option.some.inj hnext)
    simpa [eventsOf, hcur, nextQueue] using h
  | cons f q =>
    obtain ⟨hcur, hindex⟩ := h.inv.getCurrentPCBIndex_eq
    have hturn := nextProcess_inv h.inv hnext
    refine ⟨hturn.inv, ?_, ?_⟩
    · rw [hturn.nextPid, creations_nextProcess]
      exact h.nextPid
    intro i hi
    have hiq := mem_nextQueue hi
    have hi' := h.follows i hiq
    have hprocess := hturn.process i hi hi'.good
    refine ⟨?_, ?_, ?_, ?_, ?_⟩
    · rw [hturn.pcbIndex, hturn.badIndex]
      exact hi'.good
    · have hstack := hi'.stack
      have hevents : eventsOf t (.nextProcess currentRSP) t' =
          if t.sched.firstIteration then []
          else [.saved (t.sched.nodes f).PCBIndex currentRSP] := by
        simp [eventsOf, hcur, hindex]
      rw [Pcb.process] at hstack
      rw [hturn.pcbIndex, hprocess, Pcb.process, Tasks.rotate_entries, hevents]
      -- the first turn saves nothing; later ones save the stack of the front
      by_cases hfirst : t.sched.firstIteration = true
      · simpa [hfirst] using hstack
      · by_cases hif : i = f
        · subst hif
          simp [hfirst, hi'.good, History.resumeStack]
        · have hne : (t.sched.nodes f).PCBIndex ≠ (t.sched.nodes i).PCBIndex := by
            intro heq
            exact hif (h.inv.apart i hiq f (by simp) hi'.good heq.symm)
          have hne' : (t.sched.nodes f).PCBIndex.toNat ≠
              (t.sched.nodes i).PCBIndex.toNat := fun heq => hne (UInt64.toNat_inj.mp heq)
          simpa [hfirst, hne', hne, History.resumeStack] using hstack
    · rw [hturn.pcbIndex, hasFinished_nextProcess, hturn.isFinished]
      exact hi'.finished
    · rw [hturn.pcbIndex, serial_nextProcess]
      exact hi'.numbered
    · rw [hturn.pcbIndex, serial_nextProcess, hprocess, Pcb.process, Tasks.rotate_pid]
      exact hi'.pid

theorem historyInv_elsewhere (h : HistoryInv t log q) (helse : Elsewhere t t') :
    HistoryInv t' log q := by
  obtain ⟨nodes, hsched, hnodes⟩ := helse.sched
  refine ⟨taskInv_elsewhere h.inv helse, helse.nextPid.trans h.nextPid, ?_⟩
  intro i hi
  have hi' := h.follows i hi
  have hindex : (t'.sched.nodes i).PCBIndex = (t.sched.nodes i).PCBIndex := by
    rw [hsched]
    exact (hnodes i).1
  refine ⟨?_, ?_, ?_, ?_, ?_⟩
  · rw [hindex]
    simpa only [Pcb.badIndex, helse.pcb, helse.maxProcesses] using hi'.good
  · rw [hindex, Pcb.process, helse.stack]
    exact hi'.stack
  · rw [hindex, hi'.finished]
    simp [isFinished, hsched, (hnodes i).2.2.2]
  · rw [hindex]
    exact hi'.numbered
  · rw [hindex, Pcb.process, helse.pid]
    exact hi'.pid

theorem historyInv_reachable {s : Traced} (h : tracing.Reachable s) :
    HistoryInv s.tasks s.log s.tasks.sched.queue := by
  refine h.invariant (fun s => HistoryInv s.tasks s.log s.tasks.sched.queue) ?_ ?_
  · rintro ⟨t, log⟩ ⟨hinit, rfl⟩
    have hinv := historyInv_init hinit
    rwa [hinv.inv.queue_eq]
  · rintro ⟨t, log⟩ action ⟨t', log'⟩ h ⟨hclean, hstep, hlog⟩
    have hlog : log' = eventsOf t action t' ++ log := hlog
    have hinv : ∃ q, HistoryInv t' (eventsOf t action t' ++ log) q := by
      cases action with
      | addProcess a =>
        obtain ⟨-, r, hadd⟩ := hstep
        exact historyInv_addProcess h (hclean a rfl) hadd
      | finishProcess =>
        obtain rfl := hstep
        exact ⟨_, historyInv_finishProcess h⟩
      | nextProcess currentRSP =>
        obtain ⟨rsp, hnext⟩ := hstep
        exact ⟨_, historyInv_nextProcess h hnext⟩
      | other => exact ⟨_, historyInv_elsewhere h hstep⟩
    obtain ⟨q, hq⟩ := hinv
    show HistoryInv t' log' t'.sched.queue
    rwa [hlog, hq.inv.queue_eq]

/-- Numbers from 1 to `2 ^ 64` are told apart by their words. -/
theorem ofNat_serial_inj {m n : Nat} (hm : 0 < m) (hn : 0 < n) (hm' : m ≤ 2 ^ 64)
    (hn' : n ≤ 2 ^ 64) (h : UInt64.ofNat m = UInt64.ofNat n) : m = n := by
  have hmod : m % 2 ^ 64 = n % 2 ^ 64 := by
    have := congrArg UInt64.toNat h
    simpa only [UInt64.toNat_ofNat'] using this
  omega

/-- **Context switching is faithful.**  In runs whose creations succeed, with frames that fit
    in their pages, distinct nodes refer to distinct occupied entries, with distinct pids as
    long as at most `2 ^ 64` processes were created; and the process `nextProcess` selects has
    not finished and resumes with the stack pointer saved last for it, or with its initial
    one. -/
theorem context_switch_faithful {s : Traced} (h : tracing.Reachable s) :
    (∀ i ∈ s.tasks.sched.queue, ∀ j ∈ s.tasks.sched.queue, i ≠ j →
      (s.tasks.sched.nodes i).PCBIndex ≠ (s.tasks.sched.nodes j).PCBIndex) ∧
    (∀ i ∈ s.tasks.sched.queue,
      (s.tasks.sched.nodes i).PCBIndex.toNat < s.tasks.pcb.maxProcesses.toNat ∧
      (s.tasks.pcb.process (s.tasks.sched.nodes i).PCBIndex).occupied ≠ 0) ∧
    (s.log.creations ≤ 2 ^ 64 →
      ∀ i ∈ s.tasks.sched.queue, ∀ j ∈ s.tasks.sched.queue, i ≠ j →
        s.tasks.pcb.getProcessPID (s.tasks.sched.nodes i).PCBIndex ≠
          s.tasks.pcb.getProcessPID (s.tasks.sched.nodes j).PCBIndex) ∧
    ∀ currentRSP rsp t', s.tasks.nextProcess currentRSP = some (rsp, t') →
      ∀ front rest, t'.sched.queue = front :: rest →
        History.resumeStack (t'.sched.nodes front).PCBIndex
          (eventsOf s.tasks (.nextProcess currentRSP) t' ++ s.log) = some rsp ∧
        s.log.hasFinished (t'.sched.nodes front).PCBIndex = false := by
  have hinv := historyInv_reachable h
  refine ⟨?_, ?_, ?_, ?_⟩
  · intro i hi j hj hne heq
    exact hne (hinv.inv.apart i hi j hj (hinv.follows i hi).good heq)
  · intro i hi
    rw [hinv.inv.toNat_maxProcesses]
    exact hinv.inv.refers i hi (hinv.follows i hi).good
  · intro hcount i hi j hj hne heq
    have hfi := hinv.follows i hi
    have hfj := hinv.follows j hj
    simp only [Pcb.getProcessPID, hfi.good, hfj.good, Bool.false_eq_true, if_false,
      hfi.pid, hfj.pid] at heq
    have hserial := ofNat_serial_inj hfi.numbered hfj.numbered
      ((History.serial_le _ _).trans hcount) ((History.serial_le _ _).trans hcount) heq
    have hindex := History.serial_inj hfi.numbered hserial
    exact hne (hinv.inv.apart i hi j hj hfi.good hindex)
  · intro currentRSP rsp t' hnext front rest hqueue
    have hinv' := historyInv_nextProcess hinv hnext
    have hq := hinv'.inv.queue_eq
    rw [hqueue] at hq
    have hfront := hinv'.follows front (by rw [← hq]; simp)
    -- the answer is the front's stack
    obtain ⟨t'', hnext', -, hfin⟩ := taskInv_nextProcess hinv.inv currentRSP
    rw [hnext] at hnext'
    obtain ⟨hrsp, rfl⟩ := Prod.mk.inj (Option.some.inj hnext')
    constructor
    · rw [hfront.stack, hrsp, ← hq]
      simp [Tasks.answer, Pcb.getProcessStack, hfront.good]
    · rw [← hasFinished_nextProcess s.tasks t' currentRSP, hfront.finished, hfin]
      have hhead := List.head?_dropWhile_not s.tasks.sched.isFinished
        (s.tasks.sched.queue.rotate 1)
      rw [nextQueue] at hq
      rw [← hq] at hhead
      simpa using hhead

/-! ### Runs, one call at a time -/

theorem tracing_boot {mem : Memory} {pages : PageStack} {entries : Nat → PcbEntry}
    {nodes : Nat → Node} (h : Tasks.boot mem pages entries nodes = some t) :
    tracing.Reachable ⟨t, []⟩ :=
  .init ⟨⟨_, _, _, _, h⟩, rfl⟩

theorem tracing_addProcess {a : ProcessParams} {r : Int} (h : tracing.Reachable ⟨t, log⟩)
    (hclean : AddsCleanly t a) (hfits : t.FrameFits a)
    (hadd : t.addProcess a = some (r, t')) :
    tracing.Reachable ⟨t', eventsOf t (.addProcess a) t' ++ log⟩ :=
  .step (.addProcess a) h ⟨fun b hb => by cases hb; exact hclean, ⟨hfits, r, hadd⟩, rfl⟩

theorem tracing_withNullArgument (h : tracing.Reachable ⟨t, log⟩) :
    tracing.Reachable ⟨t.withNullArgument, log⟩ :=
  .step .other h ⟨by simp, elsewhere_withNullArgument t, rfl⟩

theorem tracing_finishProcess (h : tracing.Reachable ⟨t, log⟩) :
    tracing.Reachable ⟨t.finishProcess.2,
      eventsOf t .finishProcess t.finishProcess.2 ++ log⟩ :=
  .step .finishProcess h ⟨by simp, rfl, rfl⟩

theorem tracing_nextProcess {currentRSP rsp : Addr} (h : tracing.Reachable ⟨t, log⟩)
    (hnext : t.nextProcess currentRSP = some (rsp, t')) :
    tracing.Reachable ⟨t', eventsOf t (.nextProcess currentRSP) t' ++ log⟩ :=
  .step (.nextProcess currentRSP) h ⟨by simp, ⟨rsp, hnext⟩, rfl⟩

/-- A process that joins an empty queue after the kernel's call, before it was ever
    selected, is at the front, and what `nextProcess` is called with becomes its stack. -/
theorem first_turn_overwrites_stack :
    ∃ s, tracing.Reachable s ∧ ∃ i k stack log, s.tasks.sched.queue = [i] ∧
      (s.tasks.sched.nodes i).PCBIndex = k ∧ s.log = .created k stack :: log ∧
      ∃ t', s.tasks.nextProcess (stack + 1) = some (stack + 1, t') ∧
        t'.sched.queue = [i] := by
  obtain ⟨t₀, r₁, t₁, i, hboot, hfits₁, hadd₁, hclean, h₁, hres₁, hguest₁, -⟩ :=
    first_addProcess (fun _ => .zero) (fun _ => ⟨0, .RUNNING, 0, 0⟩)
  have hreach₁ := tracing_addProcess (tracing_boot hboot) hclean hfits₁ hadd₁
  -- the kernel's own call
  obtain ⟨r₂, t₂, hnext₂, hturn₂⟩ := nextProcess_turnTaken h₁ 0
  have hreach₂ := tracing_nextProcess hreach₁ hnext₂
  have hqueue₂ : nextQueue t₁.sched [i] = [i] := by simp [nextQueue, hres₁.isFinished]
  have h₂ := hturn₂.inv
  rw [hqueue₂] at h₂
  have hguest₂ := hguest₁.turn hturn₂ (by rw [hturn₂.machine]; simp [hres₁.isFinished])
  -- the only process finishes and is removed
  obtain ⟨hguest₃, hfin₃⟩ := hguest₂.finish h₂
  have h₃ := taskInv_finishProcess h₂
  have hreach₃ := tracing_finishProcess hreach₂
  obtain ⟨r₄, t₄, hnext₄, hturn₄⟩ := nextProcess_turnTaken h₃ 0
  obtain ⟨log, hreach₄⟩ : ∃ log, tracing.Reachable ⟨t₄, log⟩ :=
    ⟨_, tracing_nextProcess hreach₃ hnext₄⟩
  have hqueue₄ : nextQueue t₂.finishProcess.2.sched [i] = [] := by
    simp [nextQueue, hfin₃]
  have h₄ := hturn₄.inv
  rw [hqueue₄] at h₄
  have hroom₄ : Room t₄ := Guest.room i 0 hguest₃ h₃ (by simp) (by
    rw [hturn₄.machine]
    simp [hfin₃])
  -- another one joins, and has the turn at once
  have h₄' := taskInv_elsewhere h₄ (elsewhere_withNullArgument t₄)
  obtain ⟨r₅, t₅, j, hadd₅, hnode₅, hjoin₅, -, hres₅⟩ := room_addProcess hroom₄.withNullArgument
    h₄' (show 0 < MAX_PROCESSES by decide) (a := ⟨0, NULL, NULL, 1, NULL⟩) rfl
  have hcan₅ := hroom₄.withNullArgument.canCreate h₄' (a := ⟨0, NULL, NULL, 1, NULL⟩) rfl
  have hreach₅ := tracing_addProcess (tracing_withNullArgument hreach₄) (.inr hcan₅)
    (frameFits_withNullArgument t₄) hadd₅
  rw [eventsOf_joined hnode₅ hcan₅ hjoin₅] at hreach₅
  have hfirst₅ : t₅.sched.firstIteration = false := by
    rw [hjoin₅.firstIteration]
    exact hturn₄.firstIteration
  obtain ⟨r₆, t₆, hnext₆, hturn₆⟩ := nextProcess_turnTaken hjoin₅.inv
    ((t₅.pcb.process (t₅.sched.nodes j).PCBIndex).stack + 1)
  have hqueue₆ : nextQueue t₅.sched [j] = [j] := by simp [nextQueue, hres₅.isFinished]
  have h₆ := hturn₆.inv
  rw [hqueue₆] at h₆
  have hstack : (t₆.pcb.process (t₅.sched.nodes j).PCBIndex).stack =
      (t₅.pcb.process (t₅.sched.nodes j).PCBIndex).stack + 1 := by
    rw [hturn₆.process j (by rw [hqueue₆]; simp) hres₅.good, Pcb.process,
      Tasks.rotate_entries, if_pos ⟨hfirst₅, hres₅.good, rfl⟩]
  have hanswer : r₆ = (t₅.pcb.process (t₅.sched.nodes j).PCBIndex).stack + 1 := by
    rw [hturn₆.rsp_eq, hqueue₆, ← hstack]
    simp [Tasks.answer, Pcb.getProcessStack, hturn₆.pcbIndex, hturn₆.badIndex, hres₅.good]
  exact ⟨_, hreach₅, j, _, _, log, hjoin₅.inv.queue_eq, rfl, rfl, t₆,
    by rw [hnext₆, hanswer], h₆.queue_eq⟩

/-- A pid can be given twice, and a process can start with a stack pointer other than its
    initial one. -/
theorem context_switch_limits :
    (∃ t, creating.Reachable t ∧ ∃ i ∈ t.sched.queue, ∃ j ∈ t.sched.queue, i ≠ j ∧
      t.pcb.getProcessPID (t.sched.nodes i).PCBIndex =
        t.pcb.getProcessPID (t.sched.nodes j).PCBIndex) ∧
    ∃ s, tracing.Reachable s ∧ ∃ i k stack log, s.tasks.sched.queue = [i] ∧
      (s.tasks.sched.nodes i).PCBIndex = k ∧ s.log = .created k stack :: log ∧
      ∃ rsp t', s.tasks.nextProcess (stack + 1) = some (rsp, t') ∧
        t'.sched.queue = [i] ∧ rsp ≠ stack := by
  refine ⟨pid_given_twice, ?_⟩
  obtain ⟨s, hreach, i, k, stack, log, hqueue, hindex, hlog, t', hnext, hqueue'⟩ :=
    first_turn_overwrites_stack
  refine ⟨s, hreach, i, k, stack, log, hqueue, hindex, hlog, _, t', hnext, hqueue', ?_⟩
  intro heq
  have h01 := congrArg (fun x => x - stack) heq
  simp at h01

/-- The first process is selected with its initial stack. -/
theorem context_switch_faithful_first_process :
    ∃ s, tracing.Reachable s ∧ ∃ rsp t', s.tasks.nextProcess 0x1000 = some (rsp, t') ∧
      ∃ front rest, t'.sched.queue = front :: rest ∧
        History.resumeStack (t'.sched.nodes front).PCBIndex
          (eventsOf s.tasks (.nextProcess 0x1000) t' ++ s.log) = some rsp := by
  obtain ⟨t₀, r₁, t₁, i, hboot, hfits₁, hadd₁, hclean, h₁, hres₁, -, -⟩ :=
    first_addProcess (fun _ => .zero) (fun _ => ⟨0, .RUNNING, 0, 0⟩)
  have hreach₁ := tracing_addProcess (tracing_boot hboot) hclean hfits₁ hadd₁
  obtain ⟨rsp, t₂, hnext, hturn⟩ := nextProcess_turnTaken h₁ 0x1000
  have hqueue : nextQueue t₁.sched [i] = [i] := by simp [nextQueue, hres₁.isFinished]
  have h₂ := hturn.inv
  rw [hqueue] at h₂
  exact ⟨_, hreach₁, rsp, t₂, hnext, i, [], h₂.queue_eq,
    ((context_switch_faithful hreach₁).2.2.2 _ _ _ hnext _ _ h₂.queue_eq).1⟩

end TP2Kernel
