import TP2Kernel.Scheduler.Failure

/-! # Processes that come and go

    Beside a process that stays, others can be added, finish and be removed any number of
    times: each round gives its entry, its node and its page back and uses up one pid.
-/

namespace TP2Kernel

open Transition Scheduler Machine

/-- A page can be popped, and the popped page can be pushed back. -/
def Spare (m : PageStack) : Prop :=
  m.initialized = true ∧ m.stackTop.toNat + 1 < STACK_SIZE ∧
  m.pageStack m.stackTop.toNat ≠ NULL

theorem Spare.pop {m : PageStack} (h : Spare m) (page : Addr) :
    (m.pageManager .POP_PAGE page).2 ≠ NULL ∧ (m.pageManager .POP_PAGE page).1.Open := by
  obtain ⟨hinit, htop, hpage⟩ := h
  have hlt : m.stackTop.toNat < STACK_SIZE := by omega
  have hsucc : (m.stackTop + 1).toNat = m.stackTop.toNat + 1 := by
    apply Word.uint16_toNat_succ
    unfold STACK_SIZE at hlt
    omega
  simp only [PageStack.pageManager, hinit, if_true, PageStack.popPage, if_pos hlt]
  exact ⟨hpage, rfl, by rw [hsucc]; omega, by rw [hsucc]; omega⟩

theorem Spare.push {m : PageStack} (h : m.Open) {page : Addr} (hpage : page ≠ NULL) :
    Spare (m.pageManager .PUSH_PAGE page).1 := by
  obtain ⟨hinit, hpos, hlt⟩ := h
  have hguard : 0 < m.stackTop ∧ m.stackTop.toNat < STACK_SIZE :=
    ⟨UInt16.lt_iff_toNat_lt.mpr hpos, hlt⟩
  have hpred : (m.stackTop - 1).toNat = m.stackTop.toNat - 1 := Word.uint16_toNat_pred hpos
  simp only [PageStack.pageManager, hinit, if_true, PageStack.pushPage, if_pos hguard]
  refine ⟨rfl, ?_, ?_⟩
  · show (m.stackTop - 1).toNat + 1 < STACK_SIZE
    omega
  · show Function.update m.pageStack (m.stackTop - 1).toNat page (m.stackTop - 1).toNat ≠ NULL
    rwa [Function.update_self]

/-- Node `i` has the process with pid `p`, it has not finished, and the next pid is `n`. -/
structure Resident (t : Tasks) (i : Nat) (p n : UInt64) : Prop where
  good : t.pcb.badIndex (t.sched.nodes i).PCBIndex = false
  isFinished : t.sched.isFinished i = false
  pid : (t.pcb.process (t.sched.nodes i).PCBIndex).pid = p
  nextPid : t.pcb.nextPid = n

/-- There is room for one more process. -/
def Room (t : Tasks) : Prop :=
  Spare t.pages ∧ ∃ e, e < pcbEntries ∧ (t.pcb.entries e).occupied = 0

/-- Node `j` has a process besides, and its page can be pushed back. -/
structure Guest (t : Tasks) (j : Nat) : Prop where
  good : t.pcb.badIndex (t.sched.nodes j).PCBIndex = false
  stackPage : (t.pcb.process (t.sched.nodes j).PCBIndex).stackPage ≠ NULL
  pages : t.pages.Open

variable {t t' : Tasks} {q : List Nat} {i j : Nat} {p n : UInt64}

/-- The caller stores `NULL` to `argv[0]`, at address 0. -/
def Tasks.withNullArgument (t : Tasks) : Tasks :=
  { t with mem := fun x => if x.toNat < 8 then 0 else t.mem x }

theorem elsewhere_withNullArgument (t : Tasks) : Elsewhere t t.withNullArgument :=
  elsewhere_mem t _

/-- With that for its only argument, a process has a frame that fits in its page. -/
theorem frameFits_withNullArgument (t : Tasks) :
    t.withNullArgument.FrameFits ⟨0, NULL, NULL, 1, NULL⟩ := by
  right
  apply fits_of_nullArgument rfl
  intro k hk
  have hlow : ∀ k < 8, (NULL + UInt64.ofNat k).toNat < 8 := by decide
  exact if_pos (hlow k hk)

theorem Resident.withNullArgument (h : Resident t i p n) : Resident t.withNullArgument i p n :=
  ⟨h.good, h.isFinished, h.pid, h.nextPid⟩

theorem Room.withNullArgument (h : Room t) : Room t.withNullArgument := h

theorem Room.canCreate (hroom : Room t) (h : TaskInv t q) {a : ProcessParams}
    (ha : a.argc = 1) : CanCreate t.toMachine a := by
  obtain ⟨hspare, e, he, hfree⟩ := hroom
  refine ⟨h.pcb, ?_, (hspare.pop _).1, by rw [ha]; decide⟩
  apply Scan.scan_lt_iff.mpr
  exact ⟨e, by rw [h.toNat_maxProcesses]; exact he, hfree⟩

/-- With a free node and room, one more process joins. -/
theorem room_addProcess (hroom : Room t) (h : TaskInv t q) (hlen : q.length < MAX_PROCESSES)
    {a : ProcessParams} (ha : a.argc = 1) :
    ∃ r t' j, t.addProcess a = some (r, t') ∧ ¬ NoNode t.sched ∧ Joined t q a j t' ∧
      Guest t' j ∧ Resident t' j t.pcb.nextPid (t.pcb.nextPid + 1) := by
  have hcan := hroom.canCreate h ha
  have hnode := h.not_noNode hlen
  obtain ⟨k, m, hcreate⟩ := createProcess_isSome t.toMachine ha
  obtain ⟨r, t', hadd⟩ := Tasks.addProcess_isSome ⟨k, m, hcreate⟩
  rcases addProcess_joined h (.inr hcan) hadd with ⟨hfull, -⟩ | ⟨-, j, hjoin⟩
  · exact absurd hfull hnode
  obtain ⟨mem, sp, -, hentry⟩ := hjoin.entry
  have hpop := hroom.1.pop (t.pcb.entries (freeEntry t.pcb)).stackPage
  refine ⟨r, t', j, hadd, hnode, hjoin, ⟨?_, ?_, ?_⟩, ⟨?_, hjoin.isFinished, ?_, hjoin.nextPid⟩⟩
  · rw [hjoin.pcbIndex]
    exact hjoin.good
  · rw [hjoin.pcbIndex, hentry]
    exact hpop.1
  · rw [hjoin.pages]
    exact hpop.2
  · rw [hjoin.pcbIndex]
    exact hjoin.good
  · rw [hjoin.pcbIndex, hentry]
    rfl

theorem Resident.joined (h : Resident t i p n) {a : ProcessParams} (hi : i ∈ q)
    (hjoin : Joined t q a j t') (hcan : CanCreate t.toMachine a) :
    Resident t' i p (n + 1) := by
  obtain ⟨hindex, hfin⟩ := hjoin.kept i hi
  refine ⟨?_, ?_, ?_, ?_⟩
  · rw [hindex, hjoin.badIndex]
    exact h.good
  · rw [hfin]
    exact h.isFinished
  · rw [hindex, hjoin.process hcan hi h.good]
    exact h.pid
  · rw [hjoin.nextPid, h.nextPid]

theorem Resident.turn {f : Nat} {currentRSP rsp : Addr} (h : Resident t i p n)
    (hturn : TurnTaken t f q currentRSP rsp t') (hi : i ∈ nextQueue t.sched (f :: q)) :
    Resident t' i p n := by
  refine ⟨?_, ?_, ?_, ?_⟩
  · rw [hturn.pcbIndex, hturn.badIndex]
    exact h.good
  · rw [hturn.isFinished]
    exact h.isFinished
  · rw [hturn.pcbIndex, hturn.process i hi h.good, Pcb.process, Tasks.rotate_pid]
    exact h.pid
  · rw [hturn.nextPid, h.nextPid]

/-! ### The turns of two processes -/

/-- The second of two processes gets the turn when it has not finished. -/
theorem two_nextProcess {f g : Nat} (h : TaskInv t [f, g])
    (hg : t.sched.isFinished g = false) (currentRSP : Addr) :
    ∃ rsp t', t.nextProcess currentRSP = some (rsp, t') ∧ TaskInv t' [g, f] ∧
      TurnTaken t f [g] currentRSP rsp t' ∧ nextQueue t.sched [f, g] = [g, f] ∧
      t'.toMachine = (t.rotate f currentRSP).toMachine := by
  obtain ⟨rsp, t', hnext, hturn⟩ := nextProcess_turnTaken h currentRSP
  have hqueue : nextQueue t.sched [f, g] = [g, f] := by simp [nextQueue, hg]
  have hinv := hturn.inv
  rw [hqueue] at hinv
  refine ⟨rsp, t', hnext, hinv, hturn, hqueue, ?_⟩
  rw [hturn.machine]
  simp [hg]

theorem Guest.turn {f : Nat} {currentRSP rsp : Addr} (h : Guest t j)
    (hturn : TurnTaken t f q currentRSP rsp t')
    (hmachine : t'.toMachine = (t.rotate f currentRSP).toMachine) : Guest t' j := by
  refine ⟨?_, ?_, ?_⟩
  · rw [hturn.pcbIndex, hturn.badIndex]
    exact h.good
  · rw [hturn.pcbIndex, hmachine, Pcb.process, Tasks.rotate_stackPage]
    exact h.stackPage
  · rw [hmachine, Tasks.rotate_pages]
    exact h.pages

/-- The guest, in front, finishes. -/
theorem Guest.finish (hguest : Guest t j) (h : TaskInv t (j :: q)) :
    Guest t.finishProcess.2 j ∧ t.finishProcess.2.sched.isFinished j = true := by
  rw [Tasks.finishProcess_eq h.ring h.running]
  refine ⟨⟨?_, ?_, hguest.pages⟩, ?_⟩
  · simpa using hguest.good
  · simpa using hguest.stackPage
  · simp [Scheduler.isFinished]

theorem Resident.finish (hres : Resident t i p n) (h : TaskInv t (j :: q)) (hi : i ∈ q) :
    Resident t.finishProcess.2 i p n := by
  have hij : i ≠ j := by
    rintro rfl
    exact (List.nodup_cons.mp h.ring.ring.nodup).1 hi
  rw [Tasks.finishProcess_eq h.ring h.running]
  refine ⟨?_, ?_, ?_, hres.nextPid⟩
  · simpa [hij] using hres.good
  · simpa [Scheduler.isFinished, hij] using hres.isFinished
  · simpa [hij] using hres.pid

/-- A process that is removed leaves room. -/
theorem Guest.room (f : Nat) (currentRSP : Addr) (hguest : Guest t j) (h : TaskInv t q)
    (hj : j ∈ q) (hmachine : t'.toMachine =
      (t.rotate f currentRSP).toMachine.withoutProcess (t.sched.nodes j).PCBIndex) :
    Room t' := by
  have hgood : (t.rotate f currentRSP).pcb.badIndex (t.sched.nodes j).PCBIndex = false := by
    rw [Tasks.rotate_badIndex]
    exact hguest.good
  have hpage : ((t.rotate f currentRSP).pcb.process (t.sched.nodes j).PCBIndex).stackPage ≠
      NULL := by
    rw [Pcb.process, Tasks.rotate_stackPage]
    exact hguest.stackPage
  constructor
  · rw [hmachine, withoutProcess, if_neg (by simp [hgood]), Tasks.rotate_pages]
    exact Spare.push hguest.pages hpage
  · refine ⟨_, (h.refers j hj hguest.good).1, ?_⟩
    rw [hmachine, withoutProcess_entries, if_pos ⟨hgood, rfl⟩]
    rfl

/-- When its turn comes again, the guest is removed and leaves room. -/
theorem guest_removed (h : TaskInv t [i, j]) (hres : Resident t i p n) (hguest : Guest t j)
    (hfin : t.sched.isFinished j = true) (currentRSP : Addr) :
    ∃ rsp t', t.nextProcess currentRSP = some (rsp, t') ∧ TaskInv t' [i] ∧
      Resident t' i p n ∧ Room t' := by
  obtain ⟨rsp, t', hnext, hturn⟩ := nextProcess_turnTaken h currentRSP
  have hqueue : nextQueue t.sched [i, j] = [i] := by
    simp [nextQueue, hfin, hres.isFinished]
  have hinv := hturn.inv
  rw [hqueue] at hinv
  refine ⟨rsp, t', hnext, hinv, hres.turn hturn (by rw [hqueue]; simp),
    Guest.room i currentRSP hguest h (by simp) ?_⟩
  rw [hturn.machine]
  simp [hfin, hres.isFinished]

/-- Runs whose creations succeed. -/
def creating : System Tasks TaskAction :=
  scheduling.restrict fun t action => ∀ a, action = .addProcess a → AddsCleanly t a

/-- A guest comes and goes. -/
theorem guest_round (hreach : creating.Reachable t) (h : TaskInv t [i])
    (hres : Resident t i p n) (hroom : Room t) :
    ∃ t', creating.Reachable t' ∧ TaskInv t' [i] ∧ Resident t' i p (n + 1) ∧ Room t' := by
  have hfree : ∀ {t : Tasks} {action : TaskAction}, (∀ a, action ≠ .addProcess a) →
      ∀ a, action = .addProcess a → AddsCleanly t a := fun h a ha => absurd ha (h a)
  -- the resident sets up `argv` and creates the guest
  have hreach₀ : creating.Reachable t.withNullArgument := .step .other hreach
    ⟨hfree (by simp), elsewhere_withNullArgument t⟩
  have h₀ := taskInv_elsewhere h (elsewhere_withNullArgument t)
  obtain ⟨r₁, t₁, j, hadd, -, hjoin, hguest₁, hnew⟩ :=
    room_addProcess hroom.withNullArgument h₀ (show 1 < MAX_PROCESSES by decide)
      (a := ⟨0, NULL, NULL, 1, NULL⟩) rfl
  have hcan := hroom.withNullArgument.canCreate h₀ (a := ⟨0, NULL, NULL, 1, NULL⟩) rfl
  have hreach₁ : creating.Reachable t₁ := .step (.addProcess _) hreach₀
    ⟨fun a ha => by cases ha; exact .inr hcan, frameFits_withNullArgument t, r₁, hadd⟩
  have hres₁ := hres.withNullArgument.joined (by simp) hjoin hcan
  -- the guest gets the turn
  obtain ⟨r₂, t₂, hnext₂, hinv₂, hturn₂, hqueue₂, hm₂⟩ :=
    two_nextProcess hjoin.inv hnew.isFinished 0
  have hreach₂ : creating.Reachable t₂ := .step (.nextProcess 0) hreach₁
    ⟨hfree (by simp), r₂, hnext₂⟩
  have hres₂ := hres₁.turn hturn₂ (by rw [hqueue₂]; simp)
  have hguest₂ := hguest₁.turn hturn₂ hm₂
  -- and finishes
  have hinv₃ := taskInv_finishProcess hinv₂
  have hres₃ := hres₂.finish hinv₂ (by simp)
  obtain ⟨hguest₃, hfin₃⟩ := hguest₂.finish hinv₂
  have hreach₃ : creating.Reachable t₂.finishProcess.2 := .step .finishProcess hreach₂
    ⟨hfree (by simp), rfl⟩
  -- the turn goes on to the resident, and then the guest is removed
  obtain ⟨r₄, t₄, hnext₄, hinv₄, hturn₄, hqueue₄, hm₄⟩ :=
    two_nextProcess hinv₃ hres₃.isFinished 0
  have hreach₄ : creating.Reachable t₄ := .step (.nextProcess 0) hreach₃
    ⟨hfree (by simp), r₄, hnext₄⟩
  have hres₄ := hres₃.turn hturn₄ (by rw [hqueue₄]; simp)
  have hguest₄ := hguest₃.turn hturn₄ hm₄
  have hfin₄ : t₄.sched.isFinished j = true := by rw [hturn₄.isFinished, hfin₃]
  obtain ⟨r₅, t₅, hnext₅, hinv₅, hres₅, hroom₅⟩ := guest_removed hinv₄ hres₄ hguest₄ hfin₄ 0
  have hreach₅ : creating.Reachable t₅ := .step (.nextProcess 0) hreach₄
    ⟨hfree (by simp), r₅, hnext₅⟩
  exact ⟨t₅, hreach₅, hinv₅, hres₅, hroom₅⟩

/-- Any number of guests come and go, and each uses up a pid. -/
theorem guest_rounds (hreach : creating.Reachable t) (h : TaskInv t [i])
    (hres : Resident t i p n) (hroom : Room t) (rounds : Nat) :
    ∃ t', creating.Reachable t' ∧ TaskInv t' [i] ∧
      Resident t' i p (n + UInt64.ofNat rounds) ∧ Room t' := by
  induction rounds with
  | zero => exact ⟨t, hreach, h, by simpa using hres, hroom⟩
  | succ rounds ih =>
    obtain ⟨t₁, hreach₁, h₁, hres₁, hroom₁⟩ := ih
    obtain ⟨t₂, hreach₂, h₂, hres₂, hroom₂⟩ := guest_round hreach₁ h₁ hres₁ hroom₁
    refine ⟨t₂, hreach₂, h₂, ?_, hroom₂⟩
    have hsucc : n + UInt64.ofNat (rounds + 1) = n + UInt64.ofNat rounds + 1 := by
      rw [UInt64.ofNat_add, UInt64.add_assoc]
      rfl
    rw [hsucc]
    exact hres₂

/-- A machine that just started has room. -/
theorem room_boot {mem : Memory} {entries : Nat → PcbEntry} {nodes : Nat → Node}
    (hboot : Tasks.boot mem (.popped 0) entries nodes = some t) (hpages : t.pages = .popped 2) :
    Room t := by
  obtain ⟨-, -, -, -, -, -, hzero⟩ := Tasks.boot_ok hboot
  refine ⟨by rw [hpages]; exact ⟨rfl, by decide, by decide⟩, 0, by decide, ?_⟩
  rw [hzero 0 (by decide)]
  rfl

/-- The first process, added to a machine that just started. -/
theorem first_addProcess (entries : Nat → PcbEntry) (nodes : Nat → Node) :
    ∃ t r t' i, Tasks.boot (fun _ => 0) (.popped 0) entries nodes = some t ∧
      t.FrameFits ⟨0, NULL, NULL, 1, NULL⟩ ∧
      t.addProcess ⟨0, NULL, NULL, 1, NULL⟩ = some (r, t') ∧
      AddsCleanly t ⟨0, NULL, NULL, 1, NULL⟩ ∧ TaskInv t' [i] ∧ Resident t' i 1 2 ∧
      Guest t' i ∧ Room t' := by
  obtain ⟨t, hboot, hmem, hpages⟩ := Tasks.boot_fresh (fun _ => 0) entries nodes
  have hfits : t.FrameFits ⟨0, NULL, NULL, 1, NULL⟩ :=
    .inr (fits_of_nullArgument rfl (fun _ _ => by rw [hmem]))
  obtain ⟨-, -, -, -, hmax, hpid, hzero⟩ := Tasks.boot_ok hboot
  have h := taskInv_boot hboot
  have hroom := room_boot hboot hpages
  obtain ⟨r, t', i, hadd, -, hjoin, hguest, hres⟩ := room_addProcess hroom h
    (show 0 < MAX_PROCESSES by decide) (a := ⟨0, NULL, NULL, 1, NULL⟩) rfl
  rw [hpid] at hres
  refine ⟨t, r, t', i, hboot, hfits, hadd, .inr (hroom.canCreate h rfl), hjoin.inv, hres, hguest,
    ?_⟩
  have hpages' : t'.pages = .popped 3 := by
    rw [hjoin.pages, stackPageFor, hpages]
    rfl
  refine ⟨by rw [hpages']; exact ⟨rfl, by decide, by decide⟩, ?_⟩
  -- one of the first two entries is still free
  by_cases h0 : freeEntry t.pcb = 0
  · refine ⟨1, by decide, ?_⟩
    rw [hjoin.entries 1 (by omega), hzero 1 (by decide)]
    rfl
  · refine ⟨0, by decide, ?_⟩
    rw [hjoin.entries 0 (Ne.symm h0), hzero 0 (by decide)]
    rfl

/-- With `2 ^ 64` creations behind, the pid of a process that is still there is given out
    once more. -/
theorem pid_given_twice :
    ∃ t, creating.Reachable t ∧ ∃ i ∈ t.sched.queue, ∃ j ∈ t.sched.queue, i ≠ j ∧
      t.pcb.getProcessPID (t.sched.nodes i).PCBIndex =
        t.pcb.getProcessPID (t.sched.nodes j).PCBIndex := by
  obtain ⟨t₀, r₁, t₁, i, hboot, hfits₀, hadd₁, hclean, h₁, hres₁, -, hroom₁⟩ :=
    first_addProcess (fun _ => .zero) (fun _ => ⟨0, .RUNNING, 0, 0⟩)
  have hreach₁ : creating.Reachable t₁ := .step (.addProcess _) (.init ⟨_, _, _, _, hboot⟩)
    ⟨fun a ha => by cases ha; exact hclean, hfits₀, r₁, hadd₁⟩
  obtain ⟨t₂, hreach₂, h₂, hres₂, hroom₂⟩ :=
    guest_rounds hreach₁ h₁ hres₁ hroom₁ (2 ^ 64 - 1)
  have hwrap : (2 : UInt64) + UInt64.ofNat (2 ^ 64 - 1) = 1 := by decide
  rw [hwrap] at hres₂
  -- one more process joins
  have hreach₃ : creating.Reachable t₂.withNullArgument := .step .other hreach₂
    ⟨by simp, elsewhere_withNullArgument t₂⟩
  have h₃ := taskInv_elsewhere h₂ (elsewhere_withNullArgument t₂)
  obtain ⟨r, t, j, hadd, -, hjoin, -, hnew⟩ := room_addProcess hroom₂.withNullArgument h₃
    (show 1 < MAX_PROCESSES by decide) (a := ⟨0, NULL, NULL, 1, NULL⟩) rfl
  have hcan := hroom₂.withNullArgument.canCreate h₃ (a := ⟨0, NULL, NULL, 1, NULL⟩) rfl
  have hreach : creating.Reachable t := .step (.addProcess _) hreach₃
    ⟨fun a ha => by cases ha; exact .inr hcan, frameFits_withNullArgument t₂, r, hadd⟩
  have hold := hres₂.withNullArgument.joined (by simp) hjoin hcan
  have hij : i ≠ j := fun hij => hjoin.new (by simp [hij])
  have hqueue := hjoin.inv.queue_eq
  refine ⟨t, hreach, i, by simp [hqueue], j, by simp [hqueue], hij, ?_⟩
  simp [Pcb.getProcessPID, hold.good, hold.pid, hnew.good, hnew.pid, hres₂.withNullArgument.nextPid]

end TP2Kernel
