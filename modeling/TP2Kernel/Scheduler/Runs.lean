import TP2Kernel.Framework.Transition
import TP2Kernel.Process.StackWrites
import TP2Kernel.Scheduler.Outcome

/-! # Runs of the scheduler

    The scheduler from `startScheduler` on: processes are added, finish and take turns,
    in any order, and between these calls the rest of the kernel and the processes do
    what they want with everything but the scheduler's and the PCB's own data.  These data
    lie in pages of memory, so the frame of each new process has to fit in its own page:
    one that does not overwrites the nodes and the entries.

    `TaskInv` is what holds in every reachable state.
-/

namespace TP2Kernel

open Transition Scheduler

inductive TaskAction where
  | addProcess (a : ProcessParams)
  | finishProcess
  | nextProcess (currentRSP : Addr)
  | other

/-- What happens between calls of the scheduler: memory, pages, open files, names and
    the marks for sleeping may change, the rest does not.  Heaps are left out. -/
structure Elsewhere (t t' : Tasks) : Prop where
  sched : ∃ nodes, t'.sched = { t.sched with nodes := nodes } ∧
    ∀ i, (nodes i).PCBIndex = (t.sched.nodes i).PCBIndex ∧
      (nodes i).index = (t.sched.nodes i).index ∧
      (nodes i).next = (t.sched.nodes i).next ∧
      ((nodes i).state = .FINISHED ↔ (t.sched.nodes i).state = .FINISHED)
  pcb : t'.pcb.pcb = t.pcb.pcb
  maxProcesses : t'.pcb.maxProcesses = t.pcb.maxProcesses
  nextPid : t'.pcb.nextPid = t.pcb.nextPid
  occupied : ∀ i, (t'.pcb.entries i).occupied = (t.pcb.entries i).occupied
  pid : ∀ i, (t'.pcb.entries i).pid = (t.pcb.entries i).pid
  stack : ∀ i, (t'.pcb.entries i).stack = (t.pcb.entries i).stack
  heapPage : ∀ i, (t'.pcb.entries i).heapPage = (t.pcb.entries i).heapPage

theorem elsewhere_mem (t : Tasks) (mem : Memory) : Elsewhere t { t with mem := mem } :=
  ⟨⟨t.sched.nodes, rfl, fun _ => ⟨rfl, rfl, rfl, Iff.rfl⟩⟩, rfl, rfl, rfl, fun _ => rfl,
    fun _ => rfl, fun _ => rfl, fun _ => rfl⟩

/-- The kernel's start: `initializePCB`, `initializeScheduler` and `startScheduler`, when
    the first two succeed. -/
def Tasks.boot (mem : Memory) (pages : PageStack) (entries : Nat → PcbEntry)
    (nodes : Nat → Node) : Option Tasks :=
  match Machine.initializePCB { mem := mem, pages := pages, pcb := .bss entries } with
  | (code, m) =>
    if code ≠ 0 then none
    else
      match Tasks.initializeScheduler { toMachine := m, sched := .bss nodes } with
      | (code, t) =>
        if code ≠ 0 then none else some { t with sched := t.sched.startScheduler }

/-- All nodes are in use. -/
def NoNode (s : Scheduler) : Prop := ∀ i, i < MAX_PROCESSES → s.usedNodes i = 1

/-- `addProcess` creates no process, having no node for it, or one whose frame fits in its
    page. -/
def Tasks.FrameFits (t : Tasks) (a : ProcessParams) : Prop :=
  NoNode t.sched ∨ t.toMachine.Fits a

/-- The scheduler at work. -/
def scheduling : System Tasks TaskAction where
  init := fun t => ∃ mem pages entries nodes, Tasks.boot mem pages entries nodes = some t
  step := fun t action t' =>
    match action with
    | .addProcess a => t.FrameFits a ∧ ∃ r, t.addProcess a = some (r, t')
    | .finishProcess => t' = t.finishProcess.2
    | .nextProcess currentRSP => ∃ rsp, t.nextProcess currentRSP = some (rsp, t')
    | .other => Elsewhere t t'

/-! ### The invariant -/

/-- The scheduler runs, `q` is its queue, and the PCB indices of the nodes are error codes
    or refer to occupied entries, no two to one. -/
structure TaskInv (t : Tasks) (q : List Nat) : Prop where
  running : t.sched.running = true
  ring : RingInv t.sched q
  pcb : t.pcb.pcb ≠ NULL
  maxProcesses : t.pcb.maxProcesses = UInt64.ofNat pcbEntries
  noHeap : ∀ i, i < pcbEntries → (t.pcb.entries i).heapPage = NULL
  refers : ∀ i ∈ q, t.pcb.badIndex (t.sched.nodes i).PCBIndex = false →
    (t.sched.nodes i).PCBIndex.toNat < pcbEntries ∧
    (t.pcb.process (t.sched.nodes i).PCBIndex).occupied ≠ 0
  apart : ∀ i ∈ q, ∀ j ∈ q, t.pcb.badIndex (t.sched.nodes i).PCBIndex = false →
    (t.sched.nodes i).PCBIndex = (t.sched.nodes j).PCBIndex → i = j

namespace TaskInv

variable {t t' : Tasks} {q : List Nat}

theorem toNat_maxProcesses (h : TaskInv t q) : t.pcb.maxProcesses.toNat = pcbEntries := by
  rw [h.maxProcesses]
  rfl

theorem queue_eq (h : TaskInv t q) : t.sched.queue = q := h.ring.queue_eq

/-- A queue that is shorter than the array leaves a node free. -/
theorem not_noNode (h : TaskInv t q) (hlen : q.length < MAX_PROCESSES) : ¬ NoNode t.sched := by
  intro hfull
  have hsub : List.range MAX_PROCESSES ⊆ q := by
    intro k hk
    have hk := List.mem_range.mp hk
    exact (h.ring.used k hk).mp (hfull k hk)
  have := (List.subperm_of_subset List.nodup_range hsub).length_le
  rw [List.length_range] at this
  omega

theorem noHeap_queue (h : TaskInv t q) : t.NoHeap q := by
  intro i hi hbad
  exact h.noHeap _ (h.refers i hi hbad).1

theorem badIndex_iff (h : TaskInv t q) (k : UInt64) :
    t.pcb.badIndex k = true ↔ pcbEntries < k.toNat := by
  simp only [Pcb.badIndex, h.pcb, decide_false, Bool.false_or, decide_eq_true_eq, gt_iff_lt,
    UInt64.lt_iff_toNat_lt, h.toNat_maxProcesses]

/-- `getCurrentPCBIndex` is the front's index. -/
theorem getCurrentPCBIndex_eq {f : Nat} (h : TaskInv t (f :: q)) :
    t.sched.current = some f ∧ t.sched.getCurrentPCBIndex = (t.sched.nodes f).PCBIndex := by
  have hcur : t.sched.current = some f := h.ring.current_eq h.running
  refine ⟨hcur, ?_⟩
  simp [getCurrentPCBIndex, hcur]

/-- An error code of `createProcess` is no index. -/
theorem badIndex_error (h : TaskInv t q) {k : UInt64} (hk : 2 ^ 63 ≤ k.toNat) :
    t.pcb.badIndex k = true := by
  rw [h.badIndex_iff]
  unfold pcbEntries
  omega

/-- Without a running process there is no index that is accepted. -/
theorem current_of_good (h : TaskInv t q) {sched : Scheduler}
    (hgood : t.pcb.badIndex sched.getCurrentPCBIndex = false) : sched.current ≠ none := by
  intro hcur
  have hnone : sched.getCurrentPCBIndex = -1 := by
    simp [getCurrentPCBIndex, hcur]
  rw [hnone, h.badIndex_error (by decide)] at hgood
  cases hgood

/-- A running process has an entry of its own. -/
theorem current_entry (h : TaskInv t q)
    (hbad : t.pcb.badIndex t.sched.getCurrentPCBIndex = false) :
    t.sched.getCurrentPCBIndex.toNat < pcbEntries ∧
    (t.pcb.process t.sched.getCurrentPCBIndex).occupied ≠ 0 := by
  cases q with
  | nil =>
    exact absurd (h.ring.current_eq h.running) (h.current_of_good hbad)
  | cons f q =>
    rw [(h.getCurrentPCBIndex_eq).2] at hbad ⊢
    exact h.refers f List.mem_cons_self hbad

end TaskInv

/-! ### The start -/

theorem initializeScheduler_ok {t t' : Tasks} (h : t.initializeScheduler = (0, t')) :
    t'.mem = t.mem ∧ t'.pcb = t.pcb ∧ ∃ page, t'.sched = { t.sched with
      memoryPage := page
      usedNodes := fun i => if i < MAX_PROCESSES then 0 else t.sched.usedNodes i } := by
  unfold Tasks.initializeScheduler at h
  split at h
  next pages page hpop =>
  split at h
  · cases h
  next hpage =>
  obtain rfl := (Prod.mk.inj h).2
  exact ⟨rfl, rfl, page, rfl⟩

/-- What the start leaves: an empty ring and a cleared PCB. -/
theorem Tasks.boot_ok {t : Tasks} {mem : Memory} {pages : PageStack}
    {entries : Nat → PcbEntry} {nodes : Nat → Node}
    (h : Tasks.boot mem pages entries nodes = some t) :
    t.sched.running = true ∧ t.sched.firstIteration = true ∧ RingInv t.sched [] ∧
    t.pcb.pcb ≠ NULL ∧ t.pcb.maxProcesses = UInt64.ofNat pcbEntries ∧
    t.pcb.nextPid = 1 ∧ ∀ i, i < pcbEntries → t.pcb.entries i = .zero := by
  unfold Tasks.boot at h
  split at h
  next code m hpcb =>
  split at h
  · cases h
  next hcode =>
  obtain rfl : code = 0 := by simpa using hcode
  split at h
  next code t₁ hsched =>
  split at h
  · cases h
  next hcode =>
  obtain rfl : code = 0 := by simpa using hcode
  obtain rfl := Option.some.inj h
  obtain ⟨hnull, hmax, hpid, hzero⟩ := initializePCB_ok hpcb
  obtain ⟨-, hpcb₁, page, hs⟩ := initializeScheduler_ok hsched
  simp only [hs, hpcb₁]
  refine ⟨rfl, rfl, ringInv_empty rfl rfl ?_, hnull, hmax, hpid, hzero⟩
  intro i hi
  simp [startScheduler, hi]

/-- Two pages are enough to start. -/
theorem Tasks.boot_popped {k : UInt16} (hk : k.toNat + 1 < STACK_SIZE) (mem : Memory)
    (entries : Nat → PcbEntry) (nodes : Nat → Node) :
    ∃ t, Tasks.boot mem (.popped k) entries nodes = some t ∧ t.mem = mem ∧
      t.pages = .popped (k + 1 + 1) := by
  have hsucc : (k + 1).toNat = k.toNat + 1 :=
    Word.uint16_toNat_succ (by unfold STACK_SIZE at hk; omega)
  have hk0 : k.toNat < STACK_SIZE := by omega
  have hk1 : (k + 1).toNat < STACK_SIZE := by omega
  simp only [boot, Machine.initializePCB, initializeScheduler, PageStack.popped_pop hk0,
    PageStack.popped_pop hk1, if_neg (PageStack.pageAddress_ne_null hk0),
    if_neg (PageStack.pageAddress_ne_null hk1)]
  exact ⟨_, rfl, rfl, rfl⟩

/-- A freshly initialised page stack is enough to start. -/
theorem Tasks.boot_fresh (mem : Memory) (entries : Nat → PcbEntry) (nodes : Nat → Node) :
    ∃ t, Tasks.boot mem (.popped 0) entries nodes = some t ∧ t.mem = mem ∧
      t.pages = .popped 2 :=
  Tasks.boot_popped (by decide) mem entries nodes

/-- The first process of a machine that just started gets the first entry and the third page. -/
theorem Tasks.boot_firstEntry {t : Tasks} {mem : Memory} {entries : Nat → PcbEntry}
    {nodes : Nat → Node} (hboot : Tasks.boot mem (.popped 0) entries nodes = some t)
    (hpages : t.pages = .popped 2) :
    Machine.freeEntry t.pcb = 0 ∧ t.stackPageFor 0 = (.popped 3, PageStack.pageAddress 2) ∧
    ∀ a : ProcessParams, a.argc ≠ 0 → Machine.CanCreate t.toMachine a := by
  obtain ⟨-, -, -, hnull, hmax, -, hzero⟩ := Tasks.boot_ok hboot
  have hfree : Machine.freeEntry t.pcb = 0 := by
    by_contra hne
    exact Scan.not_of_lt_scan (Nat.pos_of_ne_zero hne) (by rw [hzero 0 (by decide)]; rfl)
  have hpop : t.stackPageFor 0 = (.popped 3, PageStack.pageAddress 2) := by
    rw [Machine.stackPageFor, hpages]
    rfl
  refine ⟨hfree, hpop, fun a hargc => ⟨hnull, ?_, ?_, hargc⟩⟩
  · rw [hfree, hmax]
    decide
  · rw [hfree, hpop]
    decide

theorem taskInv_boot {t : Tasks} {mem : Memory} {pages : PageStack}
    {entries : Nat → PcbEntry} {nodes : Nat → Node}
    (h : Tasks.boot mem pages entries nodes = some t) : TaskInv t [] := by
  obtain ⟨hrun, -, hring, hnull, hmax, -, hzero⟩ := Tasks.boot_ok h
  refine ⟨hrun, hring, hnull, hmax, ?_, by simp, by simp⟩
  intro i hi
  rw [hzero i hi]
  rfl

/-! ### Each call keeps the invariant -/

/-- When the index of the new process is good, its entry was free. -/
theorem TaskInv.new_entry {t : Tasks} {q : List Nat} {a : ProcessParams} {k : UInt64}
    {m : Machine} (h : TaskInv t q) (hcr : Machine.Created t.toMachine a k m)
    (hbad : t.pcb.badIndex k = false) :
    k.toNat < pcbEntries ∧ (m.pcb.process k).occupied = 1 ∧
    (t.pcb.process k).occupied = 0 := by
  rcases hcr.index with herr | ⟨index, sp, rfl, hlt, hfree, hm⟩
  · rw [h.badIndex_error herr] at hbad
    cases hbad
  · rw [h.toNat_maxProcesses] at hlt
    have hidx : (UInt64.ofNat index).toNat = index := by
      apply UInt64.toNat_ofNat_of_lt'
      unfold pcbEntries at hlt
      show index < 2 ^ 64
      omega
    refine ⟨by rw [hidx]; exact hlt, ?_, ?_⟩
    · rw [Pcb.process, hidx, hm, Machine.withNewProcess_entries_self]
      rfl
    · rw [Pcb.process, hidx]
      exact hfree

/-- No node that was there refers to the entry of the new process. -/
theorem TaskInv.new_entry_apart {t : Tasks} {q : List Nat} {a : ProcessParams} {k : UInt64}
    {m : Machine} (h : TaskInv t q) (hcr : Machine.Created t.toMachine a k m) {j : Nat}
    (hj : j ∈ q) (hbad : t.pcb.badIndex (t.sched.nodes j).PCBIndex = false) :
    (t.sched.nodes j).PCBIndex ≠ k := by
  rintro rfl
  exact (h.refers j hj hbad).2 (h.new_entry hcr hbad).2.2

theorem taskInv_addProcess {t t' : Tasks} {q : List Nat} {a : ProcessParams} {r : Int}
    (h : TaskInv t q) (hadd : t.addProcess a = some (r, t')) : ∃ q', TaskInv t' q' := by
  cases Tasks.addProcess_added hadd with
  | noNode => exact ⟨q, h⟩
  | ok i k m hi hfree hcreate =>
    have hcr := Machine.createProcess_created hcreate
    have hnew : i ∉ q := fun hmem => hfree ((h.ring.used i hi).mpr hmem)
    have hself : ((t.sched.attachNode i k).nodes i).PCBIndex = k := by
      rw [attachNode_self]
    have hold : ∀ j ∈ q, ((t.sched.attachNode i k).nodes j).PCBIndex =
        (t.sched.nodes j).PCBIndex := by
      intro j hj
      rw [attachNode_ne _ _ _ (fun hji : j = i => hnew (hji ▸ hj))]
    refine ⟨q ++ [i], h.running, h.ring.attachNode hi hnew k, hcr.pcb_pcb ▸ h.pcb,
      hcr.maxProcesses.trans h.maxProcesses, fun j hj => hcr.heapPage (h.noHeap j hj), ?_, ?_⟩
    -- the new node has the entry that was filled in, the others keep theirs
    · intro j hj hbad
      rw [hcr.badIndex] at hbad
      by_cases hji : j = i
      · subst hji
        rw [hself] at hbad ⊢
        obtain ⟨hlt, hocc, -⟩ := h.new_entry hcr hbad
        exact ⟨hlt, by rw [hocc]; decide⟩
      · have hj' : j ∈ q := by simpa [hji] using hj
        rw [hold j hj'] at hbad ⊢
        obtain ⟨hlt, hocc⟩ := h.refers j hj' hbad
        rw [Pcb.process, hcr.entries_of_occupied hocc]
        exact ⟨hlt, hocc⟩
    -- that entry was free, so no other node has it
    · intro j hj l hl hbad heq
      rw [hcr.badIndex] at hbad
      by_cases hji : j = i <;> by_cases hli : l = i
      · rw [hji, hli]
      · have hl' : l ∈ q := by simpa [hli] using hl
        rw [hji, hself, hold l hl'] at heq
        rw [hji, hself, heq] at hbad
        exact absurd heq.symm (h.new_entry_apart hcr hl' hbad)
      · have hj' : j ∈ q := by simpa [hji] using hj
        rw [hold j hj'] at hbad
        rw [hli, hself, hold j hj'] at heq
        exact absurd heq (h.new_entry_apart hcr hj' hbad)
      · have hj' : j ∈ q := by simpa [hji] using hj
        have hl' : l ∈ q := by simpa [hli] using hl
        rw [hold j hj'] at hbad heq
        rw [hold l hl'] at heq
        exact h.apart j hj' l hl' hbad heq

theorem taskInv_finishProcess {t : Tasks} {q : List Nat} (h : TaskInv t q) :
    TaskInv t.finishProcess.2 q := by
  cases q with
  | nil =>
    rw [Tasks.finishProcess_empty h.ring]
    exact h
  | cons f q =>
    have hsame : ∀ i, ((t.sched.setNode f { t.sched.nodes f with
        state := .FINISHED }).nodes i).PCBIndex = (t.sched.nodes i).PCBIndex := by
      intro i
      by_cases hif : i = f <;> simp [hif]
    rw [Tasks.finishProcess_eq h.ring h.running]
    refine ⟨h.running, Tasks.RingInv.finish h.ring f, h.pcb, h.maxProcesses, h.noHeap, ?_, ?_⟩
    · intro i hi hbad
      rw [hsame] at hbad ⊢
      exact h.refers i hi hbad
    · intro i hi j hj hbad heq
      rw [hsame] at hbad heq
      rw [hsame] at heq
      exact h.apart i hi j hj hbad heq

/-- Saving a stack pointer changes no entry otherwise. -/
theorem taskInv_rotate {t : Tasks} {f : Nat} {q : List Nat} (h : TaskInv t (f :: q))
    (rsp : Addr) : TaskInv (t.rotate f rsp) (q ++ [f]) := by
  have hmem : ∀ i, i ∈ q ++ [f] ↔ i ∈ f :: q := by
    intro i
    simp [or_comm]
  have hpcb : (t.rotate f rsp).pcb.pcb = t.pcb.pcb := by
    rw [Tasks.rotate_pcb]
    split <;> simp
  have hmax : (t.rotate f rsp).pcb.maxProcesses = t.pcb.maxProcesses := by
    rw [Tasks.rotate_pcb]
    split <;> simp
  refine ⟨(t.rotate_running f rsp).trans h.running, Tasks.RingInv.rotated h.ring rsp,
    hpcb ▸ h.pcb, hmax.trans h.maxProcesses, ?_, ?_, ?_⟩
  · intro i hi
    rw [Tasks.rotate_heapPage]
    exact h.noHeap i hi
  · intro i hi hbad
    rw [Tasks.rotate_nodes] at hbad ⊢
    rw [Tasks.rotate_badIndex] at hbad
    obtain ⟨hlt, ho⟩ := h.refers i ((hmem i).mp hi) hbad
    exact ⟨hlt, by rw [Pcb.process, Tasks.rotate_occupied]; exact ho⟩
  · intro i hi j hj hbad heq
    rw [Tasks.rotate_nodes] at hbad heq
    rw [Tasks.rotate_badIndex] at hbad
    exact h.apart i ((hmem i).mp hi) j ((hmem j).mp hj) hbad heq

/-- The processes of the nodes that stay keep their entries. -/
theorem TaskInv.swept_process {t t' : Tasks} {q : List Nat} (h : TaskInv t q)
    (hsw : Tasks.Swept t q t') {i : Nat} (hi : i ∈ q.dropWhile t.sched.isFinished)
    (hbad : t.pcb.badIndex (t.sched.nodes i).PCBIndex = false) :
    t'.pcb.process (t.sched.nodes i).PCBIndex = t.pcb.process (t.sched.nodes i).PCBIndex := by
  rw [Pcb.process, hsw.machine, Machine.withoutProcesses_entries, if_neg]
  · rfl
  intro h
  obtain ⟨k, hk, -, hki⟩ := h
  obtain ⟨j, hj, rfl⟩ := List.mem_map.mp hk
  have hjq : j ∈ q := (List.takeWhile_sublist _).subset hj
  have hiq : i ∈ q := (List.dropWhile_sublist _).subset hi
  obtain rfl : i = j := h.apart i hiq j hjq hbad (UInt64.toNat_inj.mp hki.symm)
  -- no node is both removed and kept
  have hnd := h.ring.ring.nodup
  rw [← List.takeWhile_append_dropWhile (p := t.sched.isFinished) (l := q)] at hnd
  exact List.disjoint_of_nodup_append hnd hj hi

theorem taskInv_swept {t t' : Tasks} {q : List Nat} (h : TaskInv t q)
    (hsw : Tasks.Swept t q t') : TaskInv t' (q.dropWhile t.sched.isFinished) := by
  have hsub : ∀ i ∈ q.dropWhile t.sched.isFinished, i ∈ q := fun i hi =>
    (List.dropWhile_sublist _).subset hi
  have hbad' : ∀ k, t'.pcb.badIndex k = t.pcb.badIndex k := by
    intro k
    rw [hsw.machine, Machine.withoutProcesses_badIndex]
  refine ⟨hsw.running.trans h.running, hsw.ring, ?_, ?_, ?_, ?_, ?_⟩
  · rw [hsw.machine, Machine.withoutProcesses_pcb_pcb]
    exact h.pcb
  · rw [hsw.machine, Machine.withoutProcesses_maxProcesses]
    exact h.maxProcesses
  · intro i hi
    rw [hsw.machine, Machine.withoutProcesses_entries]
    -- a cleared entry has no heap either
    split
    · rfl
    · exact h.noHeap i hi
  · intro i hi hbad
    rw [hbad', hsw.pcbIndex] at hbad
    rw [hsw.pcbIndex, h.swept_process hsw hi hbad]
    exact h.refers i (hsub i hi) hbad
  · intro i hi j hj hbad heq
    rw [hbad', hsw.pcbIndex] at hbad
    rw [hsw.pcbIndex, hsw.pcbIndex] at heq
    exact h.apart i (hsub i hi) j (hsub j hj) hbad heq

/-- What `nextProcess` does to a queue of nodes. -/
def nextQueue (s : Scheduler) (q : List Nat) : List Nat :=
  (q.rotate 1).dropWhile s.isFinished

/-- What `nextProcess` leaves when `f` had the turn. -/
structure TurnTaken (t : Tasks) (f : Nat) (q : List Nat) (currentRSP rsp : Addr)
    (t' : Tasks) : Prop where
  inv : TaskInv t' (nextQueue t.sched (f :: q))
  rsp_eq : rsp = t'.answer (nextQueue t.sched (f :: q))
  pcbIndex : ∀ i, (t'.sched.nodes i).PCBIndex = (t.sched.nodes i).PCBIndex
  isFinished : t'.sched.isFinished = t.sched.isFinished
  firstIteration : t'.sched.firstIteration = false
  machine : t'.toMachine = (t.rotate f currentRSP).toMachine.withoutProcesses
    (((q ++ [f]).takeWhile t.sched.isFinished).map fun i => (t.sched.nodes i).PCBIndex)
  badIndex : ∀ k, t'.pcb.badIndex k = t.pcb.badIndex k
  nextPid : t'.pcb.nextPid = t.pcb.nextPid
  process : ∀ i ∈ nextQueue t.sched (f :: q),
    t.pcb.badIndex (t.sched.nodes i).PCBIndex = false →
    t'.pcb.process (t.sched.nodes i).PCBIndex =
      (t.rotate f currentRSP).pcb.process (t.sched.nodes i).PCBIndex

/-- `nextProcess` always returns when the queue is not empty. -/
theorem nextProcess_turnTaken {t : Tasks} {f : Nat} {q : List Nat}
    (h : TaskInv t (f :: q)) (currentRSP : Addr) :
    ∃ rsp t', t.nextProcess currentRSP = some (rsp, t') ∧
      TurnTaken t f q currentRSP rsp t' := by
  obtain ⟨t', hnext, hsw⟩ :=
    Tasks.nextProcess_swept currentRSP h.ring h.running h.noHeap_queue
  -- the front goes to the back, then the finished ones at the front go
  have hrot := taskInv_rotate h currentRSP
  have hinv := taskInv_swept hrot hsw
  have hqueue : nextQueue t.sched (f :: q) = (q ++ [f]).dropWhile t.sched.isFinished := by
    simp [nextQueue]
  rw [Tasks.rotate_isFinished, ← hqueue] at hinv
  have hpid : (t.rotate f currentRSP).pcb.nextPid = t.pcb.nextPid := by
    rw [Tasks.rotate_pcb]
    split <;> simp
  refine ⟨_, t', hnext, hinv, by rw [hqueue], ?_, ?_, ?_, ?_, ?_, ?_, ?_⟩
  · intro i
    rw [hsw.pcbIndex, Tasks.rotate_nodes]
  · funext i
    rw [Scheduler.isFinished, hsw.state, Tasks.rotate_nodes]
    rfl
  · rw [hsw.firstIteration, Tasks.rotate_firstIteration]
  · rw [hsw.machine, Tasks.rotate_isFinished, Tasks.rotate_nodes]
  · intro k
    rw [hsw.machine, Machine.withoutProcesses_badIndex, Tasks.rotate_badIndex]
  · rw [hsw.machine, Machine.withoutProcesses_nextPid, hpid]
  · intro i hi hbad
    have hstay := hrot.swept_process hsw (i := i)
    rw [Tasks.rotate_nodes, Tasks.rotate_isFinished, Tasks.rotate_badIndex, ← hqueue] at hstay
    exact hstay hi hbad

theorem nextProcess_inv {t t' : Tasks} {f : Nat} {q : List Nat} {currentRSP rsp : Addr}
    (h : TaskInv t (f :: q)) (hnext : t.nextProcess currentRSP = some (rsp, t')) :
    TurnTaken t f q currentRSP rsp t' := by
  obtain ⟨rsp', t'', hnext', hturn⟩ := nextProcess_turnTaken h currentRSP
  rw [hnext] at hnext'
  obtain ⟨rfl, rfl⟩ := Prod.mk.inj (Option.some.inj hnext')
  exact hturn

/-- The entries that `nextProcess` clears: those of the finished nodes it comes to. -/
def Tasks.Leaves (t : Tasks) (i : Nat) : Prop :=
  ∃ n ∈ (t.sched.queue.rotate 1).takeWhile t.sched.isFinished,
    t.pcb.badIndex (t.sched.nodes n).PCBIndex = false ∧
    (t.sched.nodes n).PCBIndex.toNat = i

/-- What `nextProcess` does to the PCB. -/
structure TurnEntries (t t' : Tasks) : Prop where
  nextPid : t'.pcb.nextPid = t.pcb.nextPid
  left : ∀ i, t.Leaves i → t'.pcb.entries i = .zero
  stays : ∀ i, ¬ t.Leaves i → ∃ stack,
    t'.pcb.entries i = { t.pcb.entries i with stack := stack }

theorem nextProcess_entries {t t' : Tasks} {q : List Nat} {currentRSP rsp : Addr}
    (h : TaskInv t q) (hnext : t.nextProcess currentRSP = some (rsp, t')) :
    TurnEntries t t' := by
  cases q with
  | nil =>
    rw [Tasks.nextProcess_empty h.ring] at hnext
    obtain ⟨-, rfl⟩ := Prod.mk.inj (Option.some.inj hnext)
    refine ⟨rfl, ?_, fun i _ => ⟨_, rfl⟩⟩
    intro i h
    obtain ⟨n, hn, -⟩ := h
    rw [h.queue_eq] at hn
    cases hn
  | cons f q =>
    have hturn := nextProcess_inv h hnext
    -- saving the stack pointer does not change who is removed
    have hleaves : ∀ i, t.Leaves i ↔
        ∃ k ∈ ((q ++ [f]).takeWhile t.sched.isFinished).map (fun n => (t.sched.nodes n).PCBIndex),
          (t.rotate f currentRSP).pcb.badIndex k = false ∧ k.toNat = i := by
      intro i
      simp only [Tasks.Leaves, h.queue_eq, List.rotate_cons_succ, List.rotate_zero,
        List.mem_map, Tasks.rotate_badIndex]
      constructor
      · intro h
        obtain ⟨n, hn, hrest⟩ := h
        exact ⟨_, ⟨n, hn, rfl⟩, hrest⟩
      · intro h
        obtain ⟨_, ⟨n, hn, rfl⟩, hrest⟩ := h
        exact ⟨n, hn, hrest⟩
    refine ⟨hturn.nextPid, ?_, ?_⟩
    · intro i hi
      rw [hturn.machine, Machine.withoutProcesses_entries, if_pos ((hleaves i).mp hi)]
    · intro i hi
      rw [hturn.machine, Machine.withoutProcesses_entries,
        if_neg (fun hl => hi ((hleaves i).mpr hl)), Tasks.rotate_entries]
      split
      · exact ⟨currentRSP, rfl⟩
      · exact ⟨_, rfl⟩

theorem mem_nextQueue {s : Scheduler} {q : List Nat} {i : Nat} (hi : i ∈ nextQueue s q) :
    i ∈ q :=
  List.mem_rotate.mp ((List.dropWhile_sublist _).subset hi)

/-- A process that has not finished stays. -/
theorem mem_nextQueue_of_unfinished {s : Scheduler} {q : List Nat} {i : Nat} (hi : i ∈ q)
    (hfin : s.isFinished i = false) : i ∈ nextQueue s q := by
  have hrot : i ∈ q.rotate 1 := List.mem_rotate.mpr hi
  rw [← List.takeWhile_append_dropWhile (p := s.isFinished) (l := q.rotate 1)] at hrot
  refine (List.mem_append.mp hrot).resolve_left fun htake => ?_
  rw [List.mem_takeWhile_imp htake] at hfin
  cases hfin

/-- `nextProcess` always returns, and the queue moves on. -/
theorem taskInv_nextProcess {t : Tasks} {q : List Nat} (h : TaskInv t q) (rsp : Addr) :
    ∃ t', t.nextProcess rsp = some (t'.answer (nextQueue t.sched q), t') ∧
      TaskInv t' (nextQueue t.sched q) ∧ t'.sched.isFinished = t.sched.isFinished := by
  cases q with
  | nil => exact ⟨t, Tasks.nextProcess_empty h.ring, h, rfl⟩
  | cons f q =>
    obtain ⟨sp, t', hnext, hturn⟩ := nextProcess_turnTaken h rsp
    exact ⟨t', by rw [hnext, hturn.rsp_eq], hturn.inv, hturn.isFinished⟩

theorem taskInv_elsewhere {t t' : Tasks} {q : List Nat} (h : TaskInv t q)
    (helse : Elsewhere t t') : TaskInv t' q := by
  obtain ⟨nodes, hs, hnodes⟩ := helse.sched
  have hbad' : ∀ k, t'.pcb.badIndex k = t.pcb.badIndex k := by
    intro k
    simp only [Pcb.badIndex, helse.pcb, helse.maxProcesses]
  have hindex : ∀ i, (t'.sched.nodes i).PCBIndex = (t.sched.nodes i).PCBIndex := by
    intro i
    rw [hs]
    exact (hnodes i).1
  refine ⟨by rw [hs]; exact h.running, ?_, helse.pcb ▸ h.pcb,
    helse.maxProcesses.trans h.maxProcesses,
    fun i hi => (helse.heapPage i).trans (h.noHeap i hi), ?_, ?_⟩
  · rw [hs]
    exact h.ring.congr_nodes (fun i _ => (hnodes i).2.2.1) (fun i _ => (hnodes i).2.1)
  · intro i hi hbad
    rw [hbad', hindex] at hbad
    rw [hindex, Pcb.process, helse.occupied]
    exact h.refers i hi hbad
  · intro i hi j hj hbad heq
    rw [hbad', hindex] at hbad
    rw [hindex, hindex] at heq
    exact h.apart i hi j hj hbad heq

theorem taskInv_step {t t' : Tasks} (action : TaskAction)
    (h : TaskInv t t.sched.queue) (hstep : scheduling.step t action t') :
    TaskInv t' t'.sched.queue := by
  have hinv : ∃ q, TaskInv t' q := by
    cases action with
    | addProcess a =>
      obtain ⟨-, r, hadd⟩ := hstep
      exact taskInv_addProcess h hadd
    | finishProcess =>
      obtain rfl := hstep
      exact ⟨_, taskInv_finishProcess h⟩
    | nextProcess currentRSP =>
      obtain ⟨rsp, hnext⟩ := hstep
      obtain ⟨t'', hnext', hinv, -⟩ := taskInv_nextProcess h currentRSP
      rw [hnext] at hnext'
      obtain rfl := (Prod.mk.inj (Option.some.inj hnext')).2
      exact ⟨_, hinv⟩
    | other => exact ⟨_, taskInv_elsewhere h hstep⟩
  obtain ⟨q, hq⟩ := hinv
  rw [hq.queue_eq]
  exact hq

/-- The invariant holds in every reachable state. -/
theorem tasks_inv {t : Tasks} (h : scheduling.Reachable t) : TaskInv t t.sched.queue := by
  refine h.invariant (fun t => TaskInv t t.sched.queue) ?_
    (fun _ action _ => taskInv_step action)
  intro t h
  obtain ⟨mem, pages, entries, nodes, hboot⟩ := h
  have hinv := taskInv_boot hboot
  rw [hinv.queue_eq]
  exact hinv

end TP2Kernel
