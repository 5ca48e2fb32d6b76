import TP2Kernel.Process.Failure
import TP2Kernel.Scheduler.Refinement

/-! # Processes that cannot be added

    `enqueueProcess` tests the unsigned result of `createProcess` for `< 0`, which is
    never true, so a node is attached for a process that was not created.  The scheduler
    stays untouched by a failed creation exactly when it has no node to give; and as long
    as no creation fails every node refers to a process.
-/

namespace TP2Kernel

open Transition Scheduler Machine

variable {t t' : Tasks} {q : List Nat}

/-- The codes `createProcess` documents for its errors. -/
def IsErrorCode (r : UInt64) : Prop :=
  r = -1 ∨ r = -2 ∨ r = -3 ∨ r = -4 ∨ r = -5 ∨ r = -6

theorem IsErrorCode.large {r : UInt64} (h : IsErrorCode r) : 2 ^ 63 ≤ r.toNat := by
  rcases h with rfl | rfl | rfl | rfl | rfl | rfl <;> decide

/-- `addProcess` has no node for the process, or nothing is missing for its creation. -/
def AddsCleanly (t : Tasks) (a : ProcessParams) : Prop :=
  NoNode t.sched ∨ CanCreate t.toMachine a

/-- When something is missing, `createProcess` reports an error. -/
theorem createProcess_error {m : Machine} {a : ProcessParams} (h : ¬ CanCreate m a) :
    ∃ r m', m.createProcess a = some (r, m') ∧ IsErrorCode r := by
  unfold createProcess
  split
  · exact ⟨_, _, rfl, .inl rfl⟩
  next hnull =>
  simp only
  split
  · exact ⟨_, _, rfl, .inr (.inl rfl)⟩
  next hfull =>
  have hlt : freeEntry m.pcb < m.pcb.maxProcesses.toNat :=
    lt_of_le_of_ne (freeEntry_le m.pcb) hfull
  rw [createStack_eq m _ (claimedEntry m (m.pcb.entries _) a) rfl]
  split
  · exact ⟨_, _, rfl, .inr (.inr (.inl rfl))⟩
  next hpage =>
  have hargc : a.argc = 0 := by
    by_contra hargc
    exact h ⟨hnull, hlt, hpage, hargc⟩
  have hinit : ∀ mem sp, initializeStack mem sp a.entryPoint a.argc a.argv =
      some (-1, mem, sp) := by
    intro mem sp
    rw [hargc]
    rfl
  simp only [ne_eq, not_true_eq_false, if_false, hinit]
  exact ⟨_, _, rfl, .inr (.inr (.inr (.inl rfl)))⟩

/-- An error of `createProcess` is a node for nobody. -/
theorem addProcess_of_error (h : TaskInv t q) {a : ProcessParams} {k : UInt64} {m : Machine}
    (hcreate : t.toMachine.createProcess a = some (k, m)) (hk : IsErrorCode k)
    (hnode : ¬ NoNode t.sched) :
    ∃ i, i < MAX_PROCESSES ∧ i ∉ q ∧ t.addProcess a =
      some (-1, { toMachine := m, sched := t.sched.attachNode i k }) := by
  obtain ⟨r, t', hadd⟩ := Tasks.addProcess_isSome ⟨k, m, hcreate⟩
  cases Tasks.addProcess_added hadd with
  | noNode hfull => exact absurd hfull hnode
  | ok i k' m' hi hfree hcreate' =>
    rw [hcreate] at hcreate'
    obtain ⟨rfl, rfl⟩ := Prod.mk.inj (Option.some.inj hcreate')
    have hbad : m.pcb.badIndex k = true := by
      rw [(createProcess_created hcreate).badIndex]
      exact h.badIndex_error hk.large
    have hpid : (m.pcb.getProcessPID k).toInt64.toInt = -1 := by
      simp only [Pcb.getProcessPID, hbad, if_true]
      decide
    refine ⟨i, hi, fun hmem => hfree ((h.ring.used i hi).mpr hmem), ?_⟩
    rw [hadd, hpid]
    rfl

/-- What a failed creation should do to `addProcess`. -/
def FailedAddUntouched (t : Tasks) (a : ProcessParams) : Prop :=
  ∀ k m, t.toMachine.createProcess a = some (k, m) → IsErrorCode k →
    ∃ t', t.addProcess a = some (-1, t') ∧ t'.sched = t.sched

theorem failedAddUntouched_iff (h : TaskInv t q) (a : ProcessParams) :
    FailedAddUntouched t a ↔ AddsCleanly t a := by
  constructor
  · intro huntouched
    by_contra hclean
    obtain ⟨hnode, hcan⟩ := not_or.mp hclean
    obtain ⟨k, m, hcreate, hk⟩ := createProcess_error hcan
    obtain ⟨i, hi, hnew, hadd⟩ := addProcess_of_error h hcreate hk hnode
    obtain ⟨t', hadd', hsched⟩ := huntouched k m hcreate hk
    rw [hadd] at hadd'
    obtain rfl := (Prod.mk.inj (Option.some.inj hadd')).2
    have hsame : t.sched.attachNode i k = t.sched := hsched
    have hqueue := (h.ring.attachNode hi hnew k).queue_eq
    rw [hsame, h.queue_eq] at hqueue
    simp at hqueue
  · intro h k m hcreate hk
    rcases h with hfull | hcan
    · obtain ⟨r, t', hadd⟩ := Tasks.addProcess_isSome ⟨k, m, hcreate⟩
      cases Tasks.addProcess_added hadd with
      | noNode => exact ⟨t, hadd, rfl⟩
      | ok i _ _ hi hfree => exact absurd (hfull i hi) hfree
    · have hfailed := (createProcess_created hcreate).failed_iff (by
        rw [h.maxProcesses]
        exact UInt64.le_refl _)
      exact absurd hcan (hfailed.mp hk.large)

/-! ### A creation that succeeds -/

/-- What `addProcess` leaves when the new process got node `i`. -/
structure Joined (t : Tasks) (q : List Nat) (a : ProcessParams) (i : Nat) (t' : Tasks) :
    Prop where
  inv : TaskInv t' (q ++ [i])
  new : i ∉ q
  pcbIndex : (t'.sched.nodes i).PCBIndex = UInt64.ofNat (freeEntry t.pcb)
  good : t'.pcb.badIndex (UInt64.ofNat (freeEntry t.pcb)) = false
  entry : ∃ mem sp, initializeStack t.mem
      ((t.stackPageFor (freeEntry t.pcb)).2 + PAGE_SIZE) a.entryPoint a.argc a.argv =
        some (0, mem, sp) ∧
    t'.pcb.process (UInt64.ofNat (freeEntry t.pcb)) =
      t.createdEntry a (freeEntry t.pcb) sp
  isFinished : t'.sched.isFinished i = false
  firstIteration : t'.sched.firstIteration = t.sched.firstIteration
  pages : t'.pages = (t.stackPageFor (freeEntry t.pcb)).1
  badIndex : ∀ k, t'.pcb.badIndex k = t.pcb.badIndex k
  nextPid : t'.pcb.nextPid = t.pcb.nextPid + 1
  entries : ∀ e, e ≠ freeEntry t.pcb → t'.pcb.entries e = t.pcb.entries e
  kept : ∀ j ∈ q, (t'.sched.nodes j).PCBIndex = (t.sched.nodes j).PCBIndex ∧
    t'.sched.isFinished j = t.sched.isFinished j
  apart : ∀ j ∈ q, t.pcb.badIndex (t.sched.nodes j).PCBIndex = false →
    (t.sched.nodes j).PCBIndex ≠ UInt64.ofNat (freeEntry t.pcb)

theorem addProcess_joined (h : TaskInv t q) {a : ProcessParams} {r : Int}
    (hclean : AddsCleanly t a) (hadd : t.addProcess a = some (r, t')) :
    (NoNode t.sched ∧ t' = t) ∨ (¬ NoNode t.sched ∧ ∃ i, Joined t q a i t') := by
  cases Tasks.addProcess_added hadd with
  | noNode hfull => exact .inl ⟨hfull, rfl⟩
  | ok i k m hi hfree hcreate =>
    have hnode : ¬ NoNode t.sched := fun hfull => hfree (hfull i hi)
    have hcan : CanCreate t.toMachine a := hclean.resolve_left hnode
    have hcr := createProcess_created hcreate
    have hnew : i ∉ q := fun hmem => hfree ((h.ring.used i hi).mpr hmem)
    obtain ⟨q', hinv⟩ := taskInv_addProcess h hadd
    -- the queue is read off the ring, so it is the old one and `i`
    have hq' : q' = q ++ [i] := by
      rw [← hinv.queue_eq]
      exact (h.ring.attachNode hi hnew k).queue_eq
    subst hq'
    obtain ⟨mem, sp, hk, hinit, hm⟩ := hcr.of_canCreate hcan
    subst hk hm
    refine .inr ⟨hnode, i, hinv, hnew, by rw [attachNode_self], ?_, ⟨mem, sp, hinit, ?_⟩,
      attachNode_isFinished_self _ _ _, rfl, rfl, hcr.badIndex, rfl, ?_, ?_, ?_⟩
    -- the entry it refers to is one of the PCB
    · have hlt := hcan.2.1
      have hindex := hcan.toNat_freeEntry
      rw [h.toNat_maxProcesses] at hlt
      by_contra hbad
      have := (hinv.badIndex_iff _).mp (by simpa using hbad)
      omega
    · rw [Pcb.process, hcan.toNat_freeEntry, withNewProcess_entries_self]
    · intro e he
      simp [withNewProcess, he]
    · intro j hj
      have hji : j ≠ i := fun hji : j = i => hnew (hji ▸ hj)
      rw [attachNode_isFinished_ne _ _ _ hji, attachNode_ne _ _ _ hji]
      exact ⟨rfl, rfl⟩
    · intro j hj hbad
      exact h.new_entry_apart hcr hj hbad

/-- The processes there are keep their entries. -/
theorem Joined.process {a : ProcessParams} {i j : Nat} (h : Joined t q a i t')
    (hcan : CanCreate t.toMachine a) (hj : j ∈ q)
    (hbad : t.pcb.badIndex (t.sched.nodes j).PCBIndex = false) :
    t'.pcb.process (t.sched.nodes j).PCBIndex = t.pcb.process (t.sched.nodes j).PCBIndex := by
  apply h.entries
  intro heq
  apply h.apart j hj hbad
  rw [← UInt64.toNat_inj, hcan.toNat_freeEntry, heq]

/-! ### A property of every process -/

/-- Every node in `q` refers to a process that has the property. -/
def AllHave (P : PcbEntry → Prop) (t : Tasks) (q : List Nat) : Prop :=
  ∀ i ∈ q, t.pcb.badIndex (t.sched.nodes i).PCBIndex = false ∧
    P (t.pcb.process (t.sched.nodes i).PCBIndex)

variable {P : PcbEntry → Prop}

/-- Nobody is there at first. -/
theorem allHave_init (h : scheduling.init t) :
    TaskInv t t.sched.queue ∧ AllHave P t t.sched.queue := by
  obtain ⟨mem, pages, entries, nodes, hboot⟩ := h
  have htask := taskInv_boot hboot
  rw [htask.queue_eq]
  exact ⟨htask, fun i hi => absurd hi List.not_mem_nil⟩

theorem allHave_addProcess (h : TaskInv t q) (hall : AllHave P t q) {a : ProcessParams} {r : Int}
    (hclean : AddsCleanly t a)
    (hnew : ¬ NoNode t.sched → ∀ mem sp, initializeStack t.mem t.nextStackTop
      a.entryPoint a.argc a.argv = some (0, mem, sp) →
      P (t.createdEntry a (freeEntry t.pcb) sp))
    (hadd : t.addProcess a = some (r, t')) : AllHave P t' t'.sched.queue := by
  rcases addProcess_joined h hclean hadd with ⟨-, rfl⟩ | ⟨hnode, i, hjoin⟩
  · rwa [h.queue_eq]
  have hcan : CanCreate t.toMachine a := hclean.resolve_left hnode
  rw [hjoin.inv.queue_eq]
  intro j hj
  by_cases hji : j = i
  · subst hji
    obtain ⟨mem, sp, hinit, hentry⟩ := hjoin.entry
    rw [hjoin.pcbIndex, hentry]
    exact ⟨hjoin.good, hnew hnode _ _ hinit⟩
  · have hjq : j ∈ q := by simpa [hji] using hj
    obtain ⟨hbad, hhas⟩ := hall j hjq
    rw [(hjoin.kept j hjq).1, hjoin.badIndex, hjoin.process hcan hjq hbad]
    exact ⟨hbad, hhas⟩

theorem allHave_finishProcess (h : TaskInv t q) (hall : AllHave P t q) :
    AllHave P t.finishProcess.2 q := by
  cases q with
  | nil => exact fun i hi => absurd hi List.not_mem_nil
  | cons f q =>
    rw [Tasks.finishProcess_eq h.ring h.running]
    intro i hi
    by_cases hif : i = f
    · subst hif
      simpa using hall i hi
    · simpa [hif] using hall i hi

theorem allHave_nextProcess (h : TaskInv t q) (hall : AllHave P t q) {currentRSP rsp : Addr}
    (hsave : ∀ e, P e → P { e with stack := currentRSP })
    (hnext : t.nextProcess currentRSP = some (rsp, t')) : AllHave P t' t'.sched.queue := by
  cases q with
  | nil =>
    rw [Tasks.nextProcess_empty h.ring] at hnext
    obtain ⟨-, rfl⟩ := Prod.mk.inj (Option.some.inj hnext)
    rwa [h.queue_eq]
  | cons f q =>
    have hturn := nextProcess_inv h hnext
    rw [hturn.inv.queue_eq]
    intro i hi
    obtain ⟨hbad, hhas⟩ := hall i (mem_nextQueue hi)
    rw [hturn.pcbIndex, hturn.badIndex, hturn.process i hi hbad]
    refine ⟨hbad, ?_⟩
    -- the front's stack pointer has been saved, the others are as they were
    rw [Pcb.process, Tasks.rotate_entries]
    split
    · exact hsave _ hhas
    · exact hhas

theorem allHave_elsewhere (hall : AllHave P t q) (helse : Elsewhere t t')
    (hkeep : ∀ e, P (t.pcb.entries e) → P (t'.pcb.entries e)) : AllHave P t' q := by
  obtain ⟨nodes, hsched, hnodes⟩ := helse.sched
  intro i hi
  obtain ⟨hbad, hhas⟩ := hall i hi
  have hindex : (t'.sched.nodes i).PCBIndex = (t.sched.nodes i).PCBIndex := by
    rw [hsched]
    exact (hnodes i).1
  rw [hindex]
  refine ⟨?_, hkeep _ hhas⟩
  simpa only [Pcb.badIndex, helse.pcb, helse.maxProcesses] using hbad

/-- A property is kept when new processes have it, a saved stack pointer does not matter,
    and nothing else takes it away. -/
theorem allHave_step (h : TaskInv t q) (hall : AllHave P t q) (action : TaskAction)
    (hadd : ∀ a, action = .addProcess a → AddsCleanly t a ∧ (¬ NoNode t.sched → ∀ mem sp,
      initializeStack t.mem t.nextStackTop a.entryPoint a.argc a.argv = some (0, mem, sp) →
      P (t.createdEntry a (freeEntry t.pcb) sp)))
    (hsave : ∀ currentRSP, action = .nextProcess currentRSP →
      ∀ e, P e → P { e with stack := currentRSP })
    (hkeep : action = .other → ∀ e, P (t.pcb.entries e) → P (t'.pcb.entries e))
    (hstep : scheduling.step t action t') : AllHave P t' t'.sched.queue := by
  cases action with
  | addProcess a =>
    obtain ⟨-, r, hadded⟩ := hstep
    obtain ⟨hclean, hnew⟩ := hadd a rfl
    exact allHave_addProcess h hall hclean hnew hadded
  | finishProcess =>
    obtain rfl := hstep
    rw [(taskInv_finishProcess h).queue_eq]
    exact allHave_finishProcess h hall
  | nextProcess currentRSP =>
    obtain ⟨rsp, hnext⟩ := hstep
    exact allHave_nextProcess h hall (hsave currentRSP rfl) hnext
  | other =>
    rw [(taskInv_elsewhere h hstep).queue_eq]
    exact allHave_elsewhere hall hstep (hkeep rfl)

/-! ### Runs without failed creations -/

/-- No creation fails, a stack page is one above address 0, as those of the page stack are,
    and stack pointers are not `NULL`. -/
def Orderly (t : Tasks) (action : TaskAction) : Prop :=
  match action with
  | .addProcess a => AddsCleanly t a ∧
      (CanCreate t.toMachine a → PAGE_SIZE.toNat < t.nextStackTop.toNat)
  | .nextProcess currentRSP => currentRSP ≠ NULL
  | .finishProcess => True
  | .other => True

/-- A frame that fits in its page does not reach down to address 0. -/
theorem initializeStack_ne_null {m : Machine} {a : ProcessParams} {mem : Memory} {sp : Addr}
    (hcan : CanCreate m a) (hpage : PAGE_SIZE.toNat < m.nextStackTop.toNat) (hfits : m.Fits a)
    (hinit : initializeStack m.mem m.nextStackTop a.entryPoint a.argc a.argv =
      some (0, mem, sp)) : sp ≠ NULL := by
  obtain ⟨-, hbottom, -⟩ := initializeStack_inPage hcan hpage hfits hinit
  rintro rfl
  have hzero : NULL.toNat = 0 := rfl
  omega

/-- Every node refers to a process with a stack. -/
def Served (t : Tasks) (q : List Nat) : Prop :=
  ∀ i ∈ q, t.pcb.badIndex (t.sched.nodes i).PCBIndex = false ∧
    (t.pcb.process (t.sched.nodes i).PCBIndex).stack ≠ NULL

theorem served_step (h : TaskInv t q) (hs : Served t q) (action : TaskAction)
    (hok : Orderly t action) (hstep : scheduling.step t action t') :
    Served t' t'.sched.queue := by
  refine allHave_step (P := fun e => e.stack ≠ NULL) h hs action ?_ ?_ ?_ hstep
  · rintro a rfl
    obtain ⟨hclean, hpage⟩ := hok
    obtain ⟨hframe, -⟩ := hstep
    refine ⟨hclean, fun hnode mem sp hinit => ?_⟩
    have hcan := hclean.resolve_left hnode
    exact initializeStack_ne_null hcan (hpage hcan) (hframe.resolve_left hnode) hinit
  · rintro currentRSP rfl e -
    exact hok
  · rintro rfl e hstack
    show (t'.pcb.entries e).stack ≠ NULL
    rwa [hstep.stack]

theorem served_reachable (h : (scheduling.restrict Orderly).Reachable t) :
    TaskInv t t.sched.queue ∧ Served t t.sched.queue := by
  refine h.invariant (fun t => TaskInv t t.sched.queue ∧ Served t t.sched.queue) ?_ ?_
  · intro t h
    exact allHave_init (P := fun e => e.stack ≠ NULL) h
  · rintro t action t' ⟨htask, hs⟩ ⟨hok, hstep⟩
    exact ⟨taskInv_step action htask hstep, served_step htask hs action hok hstep⟩

/-- The stack `nextProcess` answers with is the one of the process that has the turn. -/
theorem Served.rsp_ne_null (h : TaskInv t q) (hs : Served t q) {currentRSP rsp : Addr}
    (hrsp : currentRSP ≠ NULL) (hnext : t.nextProcess currentRSP = some (rsp, t'))
    (hne : t'.sched.queue ≠ []) : rsp ≠ NULL := by
  have hserved : Served t' t'.sched.queue :=
    allHave_nextProcess (P := fun e => e.stack ≠ NULL) h hs (fun _ _ => hrsp) hnext
  cases q with
  | nil =>
    rw [Tasks.nextProcess_empty h.ring] at hnext
    obtain ⟨-, rfl⟩ := Prod.mk.inj (Option.some.inj hnext)
    exact absurd h.queue_eq hne
  | cons f q =>
    have hturn := nextProcess_inv h hnext
    have hqueue := hturn.inv.queue_eq
    obtain ⟨g, r, hgr⟩ := List.exists_cons_of_ne_nil hne
    obtain ⟨hbad, hstack⟩ := hserved g (by rw [hgr]; exact List.mem_cons_self)
    rw [hturn.rsp_eq, ← hqueue, hgr]
    simpa [Tasks.answer, Pcb.getProcessStack, hbad] using hstack

/-- **A failed `addProcess` leaves the scheduler untouched** exactly when there is no node
    for the process or nothing is missing for its creation.  In runs in which this holds
    of every call, and every frame fits in its page, each node refers to an occupied entry
    of the PCB, and the stack `nextProcess` answers with is not `NULL`. -/
theorem failed_addProcess_untouched_iff (h : scheduling.Reachable t) :
    (∀ a, FailedAddUntouched t a ↔ AddsCleanly t a) ∧
    ((scheduling.restrict Orderly).Reachable t →
      (∀ i ∈ t.sched.queue,
        (t.sched.nodes i).PCBIndex.toNat < t.pcb.maxProcesses.toNat ∧
        (t.pcb.process (t.sched.nodes i).PCBIndex).occupied ≠ 0) ∧
      ∀ currentRSP rsp t', currentRSP ≠ NULL → t.nextProcess currentRSP = some (rsp, t') →
        t'.sched.queue ≠ [] → rsp ≠ NULL) := by
  have hinv := tasks_inv h
  refine ⟨failedAddUntouched_iff hinv, fun hrun => ?_⟩
  obtain ⟨-, hs⟩ := served_reachable hrun
  constructor
  · intro i hi
    rw [hinv.toNat_maxProcesses]
    exact hinv.refers i hi (hs i hi).1
  · intro currentRSP rsp t' hrsp hnext
    exact hs.rsp_ne_null hinv hrsp hnext

/-- Adding a process without arguments puts a node for nobody on the ring, and the next
    call of `nextProcess` answers with `NULL`. -/
theorem addProcess_noArguments_attaches :
    ∃ t, scheduling.Reachable t ∧ t.sched.queue = [] ∧ ¬ FailedAddUntouched t noArguments ∧
      ∃ i t₁, t.addProcess noArguments = some (-1, t₁) ∧ t₁.sched.queue = [i] ∧
        IsErrorCode (t₁.sched.nodes i).PCBIndex ∧
        ∃ t₂, t₁.nextProcess 0x1000 = some (NULL, t₂) := by
  obtain ⟨t, hboot, -, -⟩ := Tasks.boot_fresh (fun _ => 0) (fun _ => .zero)
    (fun _ => ⟨0, .RUNNING, 0, 0⟩)
  have h : scheduling.Reachable t := .init ⟨_, _, _, _, hboot⟩
  have hinv := taskInv_boot hboot
  have hnode : ¬ NoNode t.sched := hinv.not_noNode (by decide)
  have hcan : ¬ CanCreate t.toMachine noArguments := fun hcan => hcan.2.2.2 rfl
  -- the error code is enqueued for an index
  obtain ⟨k, m, hcreate, hk⟩ := createProcess_error hcan
  obtain ⟨i, hi, hnew, hadd⟩ := addProcess_of_error hinv hcreate hk hnode
  have hring := hinv.ring.attachNode hi hnew k
  have hinv₁ := taskInv_step (.addProcess noArguments) (tasks_inv h)
    ⟨.inr (fits_of_not_canCreate hcan), _, hadd⟩
  have hself : ((t.sched.attachNode i k).nodes i).PCBIndex = k := by rw [attachNode_self]
  refine ⟨t, h, hinv.queue_eq, ?_, i, _, hadd, hring.queue_eq, ?_, ?_⟩
  · rw [failedAddUntouched_iff hinv]
    exact not_or.mpr ⟨hnode, hcan⟩
  · rw [hself]
    exact hk
  · -- the new node is at the front, and its index is rejected by `getProcessStack`
    rw [hring.queue_eq] at hinv₁
    obtain ⟨rsp, t₂, hnext, hturn⟩ := nextProcess_turnTaken hinv₁ 0x1000
    have hfin : (t.sched.attachNode i k).isFinished i = false := by simp
    have hqueue : nextQueue (t.sched.attachNode i k) [i] = [i] := by simp [nextQueue, hfin]
    have hbad : t₂.pcb.badIndex k = true := by
      rw [hturn.badIndex]
      exact hinv₁.badIndex_error hk.large
    have hindex : (t₂.sched.nodes i).PCBIndex = k := (hturn.pcbIndex i).trans hself
    have hrsp : rsp = NULL := by
      rw [hturn.rsp_eq, hqueue]
      simp [Tasks.answer, Pcb.getProcessStack, hindex, hbad]
    exact ⟨t₂, by rw [hnext, hrsp]⟩

/-- On a fresh machine, a process without arguments touches the ring and one with its name
    for an argument gets a node of its own. -/
theorem failed_addProcess_untouched_iff_fresh :
    ∃ t, scheduling.Reachable t ∧ ¬ FailedAddUntouched t noArguments ∧
      ∃ r i t', t.addProcess ⟨0, NULL, NULL, 1, NULL⟩ = some (r, t') ∧
        t'.sched.queue = [i] ∧ (t'.pcb.process (t'.sched.nodes i).PCBIndex).occupied ≠ 0 := by
  obtain ⟨t, hboot, hmem, hpages⟩ := Tasks.boot_fresh (fun _ => 0) (fun _ => .zero)
    (fun _ => ⟨0, .RUNNING, 0, 0⟩)
  have h : scheduling.Reachable t := .init ⟨_, _, _, _, hboot⟩
  have h' : (scheduling.restrict Orderly).Reachable t := .init ⟨_, _, _, _, hboot⟩
  have hinv := taskInv_boot hboot
  -- every node is free
  have hnode : ¬ NoNode t.sched := hinv.not_noNode (by decide)
  -- every entry is free, and the first is taken
  obtain ⟨hfree, hpage, hcreates⟩ := Tasks.boot_firstEntry hboot hpages
  have hcan : CanCreate t.toMachine ⟨0, NULL, NULL, 1, NULL⟩ := hcreates _ (by decide)
  have hfits : t.FrameFits ⟨0, NULL, NULL, 1, NULL⟩ :=
    .inr (fits_of_nullArgument rfl (fun _ _ => by rw [hmem]))
  have htop : PAGE_SIZE.toNat < t.nextStackTop.toNat := by
    show PAGE_SIZE.toNat < ((t.stackPageFor (freeEntry t.pcb)).2 + PAGE_SIZE).toNat
    rw [hfree, hpage]
    decide
  -- with its name for an argument the process is created and enqueued
  obtain ⟨k, m, hcreate⟩ := createProcess_isSome t.toMachine (a := ⟨0, NULL, NULL, 1, NULL⟩) rfl
  obtain ⟨r, t', hadd⟩ := Tasks.addProcess_isSome ⟨k, m, hcreate⟩
  have h₁ : (scheduling.restrict Orderly).Reachable t' :=
    .step (.addProcess _) h' ⟨⟨.inr hcan, fun _ => htop⟩, hfits, r, hadd⟩
  obtain ⟨-, hfull⟩ | ⟨i, -, -, -, hqueue, -⟩ := addProcess_enqueues hinv hadd
  · exact absurd hfull hnode
  · refine ⟨t, h, ?_, r, i, t', hadd, hqueue, ?_⟩
    · rw [(failed_addProcess_untouched_iff h).1]
      exact not_or.mpr ⟨hnode, fun hcan => hcan.2.2.2 rfl⟩
    · refine (((failed_addProcess_untouched_iff h₁.of_restrict).2 h₁).1 i ?_).2
      rw [hqueue]
      simp

end TP2Kernel
