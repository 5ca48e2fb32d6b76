import TP2Kernel.Scheduler.Recycling
import TP2Kernel.Scheduler.Walking

/-! # Waiting for a process (`waitpid`)

    `waitpid` calls `isProcessRunning`, which goes round the ring looking for the pid, and
    yields as long as it is found.  The call runs with interrupts enabled, so the others
    can have the turn between any two of its steps, and take nodes off the ring that the
    scan has come to.

    A scan that nobody adds a process to comes to an end within `MAX_PROCESSES` turns, and
    finds the pid if it is on the ring.  But a pid that nobody has is not told apart from
    one whose process has finished: `waitpid` returns it where -1 is documented.
-/

namespace TP2Kernel

open Transition Scheduler LinkedRing

/-! ### The call -/

/-- What the caller does next. -/
inductive WaitPoint where
  /-- Compare the pid with its own. -/
  | call
  /-- Call `isProcessRunning`. -/
  | loop
  /-- In the loop of `isProcessRunning`: set `flag`. -/
  | compare (current pointer : Nat)
  /-- Move `pointer` on and test whether the loop ends. -/
  | advance (current pointer : Nat) (flag : Bool)
  | yield
  /-- Come back from `yield`. -/
  | yielded
  | returned (result : Int)

/-- A call of `waitpid` under way. -/
structure Waiting where
  tasks : Tasks
  point : WaitPoint
  /-- How often it has yielded. -/
  yields : Nat
  /-- The turns of the loop of `isProcessRunning`, in the scan begun last. -/
  turns : Nat

/-- One step of `waitpid(pid)`; `rsp` is the caller's stack pointer if it yields. -/
def Waiting.waitpid (s : Waiting) (pid : UInt64) (rsp : Addr) : Option Waiting :=
  match s.point with
  | .call =>
    match s.tasks.sched.current with
    | none => some { s with point := .returned (-1) }
    | some current =>
      if pid = s.tasks.pidOf current then some { s with point := .returned (-1) }
      else some { s with point := .loop }
  | .loop =>
    match s.tasks.sched.current with
    -- `checkScheduler` failed, and -1 counts as true
    | none => some { s with point := .yield }
    | some current => some { s with point := .compare current current, turns := 0 }
  | .compare current pointer =>
    some { s with
      point := .advance current pointer (pid = s.tasks.pidOf pointer)
      turns := s.turns + 1 }
  | .advance current pointer flag =>
    let pointer := s.tasks.sched.next pointer
    if pointer ≠ current ∧ ¬flag then some { s with point := .compare current pointer }
    else if flag then some { s with point := .yield }
    else some { s with point := .returned pid.toInt64.toInt }
  | .yield =>
    match s.tasks.nextProcess rsp with
    | none => none
    | some (_, t) => some { s with tasks := t, point := .yielded, yields := s.yields + 1 }
  | .yielded => some { s with point := .loop }
  | .returned _ => none

inductive WaitAction where
  | caller (rsp : Addr)
  | others (action : TaskAction)

/-- The process of node `c` calls `waitpid(pid)` in state `t`.  It takes its steps when it
    has the turn, and in between the others do what they want.  A run ends when the call
    returns, or when the caller is taken off the ring and never goes on. -/
def waiting (t : Tasks) (c : Nat) (pid : UInt64) : System Waiting WaitAction where
  init := fun s => s = ⟨t, .call, 0, 0⟩
  step := fun s action s' => c ∈ s'.tasks.sched.queue ∧
    match action with
    | .caller rsp => s.tasks.sched.current = some c ∧ s.waitpid pid rsp = some s'
    | .others action => (∀ r, s.point ≠ .returned r) ∧
        scheduling.step s.tasks action s'.tasks ∧ s' = { s with tasks := s'.tasks }

/-- Processes are added only while the caller is in `yield`. -/
def CreatesWhileYielding (s : Waiting) (action : WaitAction) : Prop :=
  ∀ a, action = .others (.addProcess a) → s.point = .yielded

/-- The runs in which no scan sees a new process. -/
def quietWaiting (t : Tasks) (c : Nat) (pid : UInt64) : System Waiting WaitAction :=
  (waiting t c pid).restrict CreatesWhileYielding

/-- A process on the ring has the pid. -/
def Tasks.HasPid (t : Tasks) (pid : UInt64) : Prop := ∃ i ∈ t.sched.queue, t.pidOf i = pid

instance (t : Tasks) (pid : UInt64) : Decidable (t.HasPid pid) :=
  inferInstanceAs (Decidable (∃ i ∈ t.sched.queue, t.pidOf i = pid))

/-- What is documented of `waitpid(pid)`, called in `t` by the process of node `c`: -1 at
    once for its own pid and for one that no process has, else the pid, when no process
    has it any more. -/
def Documented (t : Tasks) (c : Nat) (pid : UInt64) (s : Waiting) : Prop :=
  ∀ r, s.point = .returned r →
    if pid = t.pidOf c ∨ ¬ t.HasPid pid then r = -1 ∧ s.yields = 0
    else r = pid.toInt64.toInt ∧ ¬ s.tasks.HasPid pid

variable {t : Tasks} {c : Nat} {pid : UInt64} {s s' : Waiting}

/-! ### What the scan knows -/

/-- The nodes with the pid that the scan has not come to yet are on its way back to `c`,
    which is as short as the turns that are left. -/
def ScanInv (c : Nat) (pid : UInt64) (s : Waiting) : Prop :=
  match s.point with
  | .compare current pointer => current = c ∧ ∃ l, Path s.tasks.sched.next pointer l c ∧
      c ∉ l ∧ (∀ i ∈ s.tasks.sched.queue, s.tasks.pidOf i = pid → i = pointer ∨ i ∈ l) ∧
      s.turns + l.length + 1 ≤ MAX_PROCESSES
  | .advance current pointer flag => current = c ∧
      ∃ l, Path s.tasks.sched.next pointer l c ∧ c ∉ l ∧
      (flag = false → ∀ i ∈ s.tasks.sched.queue, s.tasks.pidOf i = pid → i ∈ l) ∧
      s.turns + l.length ≤ MAX_PROCESSES
  | _ => s.turns ≤ MAX_PROCESSES

/-- What holds at every point of a call that no scan of which sees a new process. -/
structure WaitInv (t : Tasks) (c : Nat) (pid : UInt64) (s : Waiting) : Prop where
  tasks : TaskInv s.tasks s.tasks.sched.queue
  mem : c ∈ s.tasks.sched.queue
  scan : ScanInv c pid s
  called : s.point = .call → s.tasks.pidOf c = t.pidOf c
  own : pid = t.pidOf c → s.yields = 0 ∧ (s.point = .call ∨ s.point = .returned (-1))
  other : pid ≠ t.pidOf c → ∀ r, s.point = .returned r →
    r = pid.toInt64.toInt ∧ ¬ s.tasks.HasPid pid

/-- From the front, the ring leads once through the queue. -/
theorem TaskInv.path_current {t : Tasks} {q : List Nat} (h : TaskInv t q)
    (hcur : t.sched.current = some c) :
    ∃ l, q = c :: l ∧ Path t.sched.next c l c ∧ c ∉ l ∧ l.length + 1 ≤ MAX_PROCESSES := by
  rw [h.ring.current_eq h.running] at hcur
  obtain ⟨l, rfl⟩ := List.head?_eq_some_iff.mp hcur
  refine ⟨l, rfl, ?_, (List.nodup_cons.mp h.ring.ring.nodup).1, by simpa using h.ring.length_le⟩
  have hring := h.ring.ring
  cases hlast : t.sched.last with
  | none => exact absurd (h.ring.last_eq_none_iff.mp hlast) (by simp)
  | some last =>
    rw [hlast] at hring
    exact hring.path_front

theorem ScanInv.turns_le (h : ScanInv c pid s) : s.turns ≤ MAX_PROCESSES := by
  unfold ScanInv at h
  split at h
  · obtain ⟨-, l, -, -, -, hle⟩ := h
    omega
  · obtain ⟨-, l, -, -, -, hle⟩ := h
    omega
  · exact h

/-- A step of the others that adds nobody leaves a scan what it knows. -/
theorem ScanInv.undisturbed {t' : Tasks} (h : ScanInv c pid s)
    (hmove : Undisturbed c s.tasks t') : ScanInv c pid { s with tasks := t' } := by
  unfold ScanInv at h ⊢
  simp only
  split at h
  · obtain ⟨hcur, l, hpath, hc, hfind, hle⟩ := h
    obtain ⟨l', hpath', hsub, hkeep⟩ := hmove.path _ l hpath
    have hlen := hsub.length_le
    refine ⟨hcur, l', hpath', fun hmem => hc (hsub.subset hmem), ?_, by omega⟩
    intro i hi hpid
    rw [hmove.pid_of_mem i hi] at hpid
    exact (hfind i (hmove.queue i hi) hpid).imp_right fun hil => hkeep i hil hi
  · obtain ⟨hcur, l, hpath, hc, hfind, hle⟩ := h
    obtain ⟨l', hpath', hsub, hkeep⟩ := hmove.path _ l hpath
    have hlen := hsub.length_le
    refine ⟨hcur, l', hpath', fun hmem => hc (hsub.subset hmem), ?_, by omega⟩
    intro hflag i hi hpid
    rw [hmove.pid_of_mem i hi] at hpid
    exact hkeep i (hfind hflag i (hmove.queue i hi) hpid) hi
  · exact h

/-! ### The steps of the caller -/

/-- What a step of the caller, the process of node `c`, can do.  Unless it yields, only
    its own state changes. -/
inductive Stepped (c : Nat) (pid : UInt64) (s : Waiting) : Waiting → Prop where
  | own : s.point = .call → pid = s.tasks.pidOf c →
      Stepped c pid s { s with point := .returned (-1) }
  | other : s.point = .call → pid ≠ s.tasks.pidOf c → Stepped c pid s { s with point := .loop }
  | scan : s.point = .loop → Stepped c pid s { s with point := .compare c c, turns := 0 }
  | compare (current pointer : Nat) : s.point = .compare current pointer →
      Stepped c pid s { s with
        point := .advance current pointer (pid = s.tasks.pidOf pointer)
        turns := s.turns + 1 }
  | found (current pointer : Nat) : s.point = .advance current pointer true →
      Stepped c pid s { s with point := .yield }
  | further (current pointer : Nat) : s.point = .advance current pointer false →
      s.tasks.sched.next pointer ≠ current →
      Stepped c pid s { s with point := .compare current (s.tasks.sched.next pointer) }
  | absent (current pointer : Nat) : s.point = .advance current pointer false →
      s.tasks.sched.next pointer = current →
      Stepped c pid s { s with point := .returned pid.toInt64.toInt }
  | yield (rsp sp : Addr) (t : Tasks) : s.point = .yield →
      s.tasks.nextProcess rsp = some (sp, t) →
      Stepped c pid s { s with tasks := t, point := .yielded, yields := s.yields + 1 }
  | resume : s.point = .yielded → Stepped c pid s { s with point := .loop }

theorem waitpid_stepped {rsp : Addr} (hcur : s.tasks.sched.current = some c)
    (h : s.waitpid pid rsp = some s') : Stepped c pid s s' := by
  unfold Waiting.waitpid at h
  cases hpoint : s.point with
  | call =>
    simp only [hpoint, hcur] at h
    split at h
    · next hown =>
      obtain rfl := Option.some.inj h
      exact .own hpoint hown
    · next hother =>
      obtain rfl := Option.some.inj h
      exact .other hpoint hother
  | loop =>
    simp only [hpoint, hcur] at h
    obtain rfl := Option.some.inj h
    exact .scan hpoint
  | compare current pointer =>
    simp only [hpoint] at h
    obtain rfl := Option.some.inj h
    exact .compare current pointer hpoint
  | advance current pointer flag =>
    simp only [hpoint] at h
    cases flag with
    | true =>
      obtain rfl : { s with point := .yield } = s' := by simpa using h
      exact .found current pointer hpoint
    | false =>
      by_cases hend : s.tasks.sched.next pointer = current
      · obtain rfl : { s with point := .returned pid.toInt64.toInt } = s' := by
          simpa [hend] using h
        exact .absent current pointer hpoint hend
      · obtain rfl : { s with point := .compare current (s.tasks.sched.next pointer) } = s' := by
          simpa [hend] using h
        exact .further current pointer hpoint hend
  | yield =>
    simp only [hpoint] at h
    cases hnext : s.tasks.nextProcess rsp with
    | none => simp [hnext] at h
    | some result =>
      obtain ⟨sp, t⟩ := result
      simp only [hnext] at h
      obtain rfl := Option.some.inj h
      exact .yield rsp sp t hpoint hnext
  | yielded =>
    simp only [hpoint] at h
    obtain rfl := Option.some.inj h
    exact .resume hpoint
  | returned r => simp [hpoint] at h

/-- Between the call and its return, only what the scan knows matters. -/
theorem WaitInv.underWay (htasks : TaskInv s.tasks s.tasks.sched.queue)
    (hmem : c ∈ s.tasks.sched.queue) (hscan : ScanInv c pid s) (hne : pid ≠ t.pidOf c)
    (hcall : s.point ≠ .call) (hret : ∀ r, s.point ≠ .returned r) : WaitInv t c pid s :=
  ⟨htasks, hmem, hscan, fun hpoint => absurd hpoint hcall, fun hown => absurd hown hne,
    fun _ r hpoint => absurd hpoint (hret r)⟩

/-- The caller's own steps keep the invariant. -/
theorem WaitInv.stepped (h : WaitInv t c pid s) (hcur : s.tasks.sched.current = some c)
    (hmem : c ∈ s'.tasks.sched.queue) (hstep : Stepped c pid s s') : WaitInv t c pid s' := by
  have hturns := h.scan.turns_le
  have hscan := h.scan
  -- a caller that waits for itself has been answered
  have hother : s.point ≠ .call → (∀ r, s.point ≠ .returned r) → pid ≠ t.pidOf c := by
    intro hcall hret hown
    rcases (h.own hown).2 with hpoint | hpoint
    · exact hcall hpoint
    · exact hret _ hpoint
  cases hstep with
  | own hpoint hpid =>
    have hown := hpid.trans (h.called hpoint)
    exact ⟨h.tasks, hmem, hturns, by simp, fun _ => ⟨(h.own hown).1, .inr rfl⟩,
      fun hne => absurd hown hne⟩
  | other hpoint hpid =>
    have hne : pid ≠ t.pidOf c := fun hown => hpid (hown.trans (h.called hpoint).symm)
    exact .underWay h.tasks hmem hturns hne (by simp) (by simp)
  | scan hpoint =>
    have hne := hother (by simp [hpoint]) (by simp [hpoint])
    obtain ⟨l, hqueue, hpath, hc, hle⟩ := h.tasks.path_current hcur
    refine .underWay h.tasks hmem ⟨rfl, l, hpath, hc, ?_, by simpa using hle⟩ hne
      (by simp) (by simp)
    intro i hi _
    have hi : i ∈ c :: l := hqueue ▸ hi
    exact List.mem_cons.mp hi
  | compare current pointer hpoint =>
    have hne := hother (by simp [hpoint]) (by simp [hpoint])
    simp only [ScanInv, hpoint] at hscan
    obtain ⟨hcurrent, l, hpath, hc, hfind, hle⟩ := hscan
    refine .underWay h.tasks hmem ⟨hcurrent, l, hpath, hc, ?_, ?_⟩ hne (by simp) (by simp)
    · intro hflag i hi hpid
      -- the node compared is not the one
      refine (hfind i hi hpid).resolve_left ?_
      rintro rfl
      exact of_decide_eq_false hflag hpid.symm
    · show s.turns + 1 + l.length ≤ MAX_PROCESSES
      omega
  | found current pointer hpoint =>
    have hne := hother (by simp [hpoint]) (by simp [hpoint])
    exact .underWay h.tasks hmem hturns hne (by simp) (by simp)
  | further current pointer hpoint hend =>
    have hne := hother (by simp [hpoint]) (by simp [hpoint])
    simp only [ScanInv, hpoint] at hscan
    obtain ⟨rfl, l, hpath, hc, hfind, hle⟩ := hscan
    cases l with
    | nil => exact absurd hpath hend
    | cons n l =>
      obtain ⟨hn, hpath⟩ := hpath
      rw [hn]
      have hc' : current ∉ l := fun hmem => hc (List.mem_cons_of_mem n hmem)
      refine .underWay h.tasks hmem ⟨rfl, l, hpath, hc', ?_, ?_⟩ hne (by simp) (by simp)
      · intro i hi hpid
        exact List.mem_cons.mp (hfind trivial i hi hpid)
      · simp only [List.length_cons] at hle
        show s.turns + l.length + 1 ≤ MAX_PROCESSES
        omega
  | absent current pointer hpoint hend =>
    have hne := hother (by simp [hpoint]) (by simp [hpoint])
    simp only [ScanInv, hpoint] at hscan
    obtain ⟨rfl, l, hpath, hc, hfind, -⟩ := hscan
    -- the way round ends here
    obtain rfl : l = [] := by
      cases l with
      | nil => rfl
      | cons n l => exact absurd (by simp [← hpath.1, hend]) hc
    refine ⟨h.tasks, hmem, hturns, by simp, fun hown => absurd hown hne, ?_⟩
    intro _ r hr
    refine ⟨by cases hr; rfl, fun hhas => ?_⟩
    obtain ⟨i, hi, hpid⟩ := hhas
    exact absurd (hfind trivial i hi hpid) List.not_mem_nil
  | yield rsp sp t' hpoint hnext =>
    have hne := hother (by simp [hpoint]) (by simp [hpoint])
    have htasks := taskInv_step (.nextProcess rsp) h.tasks ⟨sp, hnext⟩
    exact .underWay htasks hmem hturns hne (by simp) (by simp)
  | resume hpoint =>
    have hne := hother (by simp [hpoint]) (by simp [hpoint])
    exact .underWay h.tasks hmem hturns hne (by simp) (by simp)

/-- So do the steps of the others, when no scan sees a new process. -/
theorem WaitInv.others {t' : Tasks} {action : TaskAction} (h : WaitInv t c pid s)
    (hquiet : CreatesWhileYielding s (.others action)) (hret : ∀ r, s.point ≠ .returned r)
    (hmem : c ∈ t'.sched.queue) (hstep : scheduling.step s.tasks action t') :
    WaitInv t c pid { s with tasks := t' } := by
  have htasks := taskInv_step action h.tasks hstep
  have hother : pid ≠ t.pidOf c → ∀ r, s.point = .returned r →
      r = pid.toInt64.toInt ∧ ¬ t'.HasPid pid := fun _ r hr => absurd hr (hret r)
  by_cases hadd : ∃ a, action = .addProcess a
  · obtain ⟨a, rfl⟩ := hadd
    have hpoint := hquiet a rfl
    refine ⟨htasks, hmem, ?_, by simp [hpoint], h.own, hother⟩
    simpa [ScanInv, hpoint] using h.scan.turns_le
  · have hmove := undisturbed_step action h.tasks (fun a ha => hadd ⟨a, ha⟩) hstep hmem
    refine ⟨htasks, hmem, h.scan.undisturbed hmove, ?_, h.own, hother⟩
    intro hpoint
    exact (hmove.pid_of_mem c hmem).trans (h.called hpoint)

theorem TaskInv.current_mem {q : List Nat} (h : TaskInv t q)
    (hcur : t.sched.current = some c) : c ∈ t.sched.queue := by
  obtain ⟨l, rfl, -, -, -⟩ := h.path_current hcur
  rw [h.queue_eq]
  exact List.mem_cons_self

theorem waitInv_reachable (h : TaskInv t t.sched.queue) (hcur : t.sched.current = some c)
    (hs : (quietWaiting t c pid).Reachable s) : WaitInv t c pid s := by
  refine hs.invariant (WaitInv t c pid) ?_ ?_
  · rintro s rfl
    exact ⟨h, h.current_mem hcur, Nat.zero_le _, fun _ => rfl, fun _ => ⟨rfl, .inl rfl⟩, by simp⟩
  · rintro s action s' hinv ⟨hquiet, hmem, hstep⟩
    cases action with
    | caller rsp => exact hinv.stepped hstep.1 hmem (waitpid_stepped hstep.1 hstep.2)
    | others action =>
      obtain ⟨hret, htasks, heq⟩ := hstep
      rw [heq]
      exact hinv.others hquiet hret hmem htasks

/-! ### A pid that nobody has -/

/-- Neither the ring nor what is left of the scan has the pid, and nothing was found. -/
structure Unseen (c : Nat) (pid : UInt64) (s : Waiting) : Prop where
  yields : s.yields = 0
  absent : ¬ s.tasks.HasPid pid
  scan : match s.point with
    | .compare _ pointer => ∃ l, Path s.tasks.sched.next pointer l c ∧
        ∀ i ∈ pointer :: l, s.tasks.pidOf i ≠ pid
    | .advance _ pointer flag => flag = false ∧ ∃ l, Path s.tasks.sched.next pointer l c ∧
        ∀ i ∈ l, s.tasks.pidOf i ≠ pid
    | .yield => False
    | .yielded => False
    | _ => True

theorem Unseen.stepped (h : Unseen c pid s) (hinv : WaitInv t c pid s)
    (hcur : s.tasks.sched.current = some c) (hstep : Stepped c pid s s') :
    Unseen c pid s' := by
  obtain ⟨hyields, habsent, hscan⟩ := h
  cases hstep with
  | own hpoint hpid => exact ⟨hyields, habsent, trivial⟩
  | other hpoint hpid => exact ⟨hyields, habsent, trivial⟩
  | scan hpoint =>
    obtain ⟨l, hqueue, hpath, -, -⟩ := hinv.tasks.path_current hcur
    refine ⟨hyields, habsent, l, hpath, fun i hi hpid => habsent ⟨i, hqueue ▸ hi, hpid⟩⟩
  | compare current pointer hpoint =>
    simp only [hpoint] at hscan
    obtain ⟨l, hpath, hne⟩ := hscan
    refine ⟨hyields, habsent, ?_, l, hpath, fun i hi => hne i (List.mem_cons_of_mem _ hi)⟩
    exact decide_eq_false (Ne.symm (hne pointer List.mem_cons_self))
  | found current pointer hpoint => simp [hpoint] at hscan
  | further current pointer hpoint hend =>
    have hcurrent : current = c := by
      have := hinv.scan
      simp only [ScanInv, hpoint] at this
      exact this.1
    simp only [hpoint] at hscan
    obtain ⟨-, l, hpath, hne⟩ := hscan
    cases l with
    | nil => exact absurd (hpath.trans hcurrent.symm) hend
    | cons n l =>
      refine ⟨hyields, habsent, l, ?_, ?_⟩
      · rw [hpath.1]
        exact hpath.2
      · rw [hpath.1]
        exact hne
  | absent current pointer hpoint hend => exact ⟨hyields, habsent, trivial⟩
  | yield rsp sp t' hpoint hnext => simp [hpoint] at hscan
  | resume hpoint => simp [hpoint] at hscan

theorem Unseen.others {t' : Tasks} (h : Unseen c pid s) (hpid : pid ≠ 0)
    (hmove : Undisturbed c s.tasks t') : Unseen c pid { s with tasks := t' } := by
  obtain ⟨hyields, habsent, hscan⟩ := h
  -- a node gets no pid but 0
  have hkeep : ∀ i, s.tasks.pidOf i ≠ pid → t'.pidOf i ≠ pid := by
    intro i hne
    rcases hmove.pid i with heq | heq <;> rw [heq]
    · exact hne
    · exact hpid.symm
  refine ⟨hyields, ?_, ?_⟩
  · intro hhas
    obtain ⟨i, hi, heq⟩ := hhas
    exact habsent ⟨i, hmove.queue i hi, (hmove.pid_of_mem i hi).symm.trans heq⟩
  · simp only
    split at hscan
    · obtain ⟨l, hpath, hne⟩ := hscan
      obtain ⟨l', hpath', hsub, -⟩ := hmove.path _ l hpath
      refine ⟨l', hpath', fun i hi => hkeep i (hne i ?_)⟩
      exact (hsub.cons_cons _).subset hi
    · obtain ⟨hflag, l, hpath, hne⟩ := hscan
      obtain ⟨l', hpath', hsub, -⟩ := hmove.path _ l hpath
      exact ⟨hflag, l', hpath', fun i hi => hkeep i (hne i (hsub.subset hi))⟩
    · exact hscan
    · exact hscan
    · trivial

theorem unseen_reachable (h : TaskInv t t.sched.queue) (hcur : t.sched.current = some c)
    (hpid : pid ≠ 0) (habsent : ¬ t.HasPid pid) (hs : (quietWaiting t c pid).Reachable s) :
    Unseen c pid s := by
  have hinv : WaitInv t c pid s ∧ Unseen c pid s := by
    induction hs with
    | init hinit =>
      refine ⟨waitInv_reachable h hcur (.init hinit), ?_⟩
      obtain rfl := hinit
      exact ⟨rfl, habsent, trivial⟩
    | step action hreach hstep ih =>
      refine ⟨waitInv_reachable h hcur (.step action hreach hstep), ?_⟩
      obtain ⟨hinv, hunseen⟩ := ih
      obtain ⟨hquiet, hmem, hstep⟩ := hstep
      cases action with
      | caller rsp => exact hunseen.stepped hinv hstep.1 (waitpid_stepped hstep.1 hstep.2)
      | others action =>
        obtain ⟨-, htasks, heq⟩ := hstep
        rw [heq]
        -- nobody is added to a call that never yields
        have hadd : ∀ a, action ≠ .addProcess a := by
          rintro a rfl
          have hscan := hunseen.scan
          simp [hquiet a rfl] at hscan
        exact hunseen.others hpid (undisturbed_step action hinv.tasks hadd htasks hmem)
  exact hinv.2

/-! ### A scan that is not interrupted -/

/-- The caller's steps are steps of the quiet system. -/
theorem quiet_caller {rsp : Addr} (hmem : c ∈ s'.tasks.sched.queue)
    (hcur : s.tasks.sched.current = some c) (h : s.waitpid pid rsp = some s') :
    (quietWaiting t c pid).step s (.caller rsp) s' := by
  refine ⟨?_, hmem, hcur, h⟩
  intro a ha
  cases ha

/-- Where the loop is after one turn. -/
def Waiting.turned (s : Waiting) (c p : Nat) (pid : UInt64) : Waiting :=
  { s with
    point :=
      if s.tasks.pidOf p = pid then .yield
      else if s.tasks.sched.next p = c then .returned pid.toInt64.toInt
      else .compare c (s.tasks.sched.next p)
    turns := s.turns + 1 }

theorem turn_alone (t : Tasks) (pid : UInt64) {p : Nat} (hmem : c ∈ s.tasks.sched.queue)
    (hcur : s.tasks.sched.current = some c) (hpoint : s.point = .compare c p) :
    (quietWaiting t c pid).StepsFrom s (List.replicate 2 (.caller NULL))
      (s.turned c p pid) := by
  have hcompare : (quietWaiting t c pid).step s (.caller NULL) { s with
      point := .advance c p (pid = s.tasks.pidOf p), turns := s.turns + 1 } :=
    quiet_caller hmem hcur (by simp [Waiting.waitpid, hpoint])
  have hadvance : (quietWaiting t c pid).step { s with
      point := .advance c p (pid = s.tasks.pidOf p), turns := s.turns + 1 } (.caller NULL)
      (s.turned c p pid) := by
    refine quiet_caller hmem hcur ?_
    by_cases hpid : s.tasks.pidOf p = pid
    · simp [Waiting.waitpid, Waiting.turned, hpid]
    · by_cases hend : s.tasks.sched.next p = c <;>
        simp [Waiting.waitpid, Waiting.turned, hpid, Ne.symm hpid, hend]
  exact .cons _ _ hcompare (.cons _ _ hadvance (.nil _))

/-- From `p` on, the scan goes round to `c` and finds the pid if it is on its way. -/
theorem scan_alone (t : Tasks) (pid : UInt64) {p : Nat} {l : List Nat}
    (hmem : c ∈ s.tasks.sched.queue) (hcur : s.tasks.sched.current = some c)
    (hpoint : s.point = .compare c p)
    (hpath : Path s.tasks.sched.next p l c) (hc : c ∉ l) :
    ∃ n turns, n ≤ 2 * (l.length + 1) ∧
      (quietWaiting t c pid).StepsFrom s (List.replicate n (.caller NULL))
        { s with
          point := if ∃ i ∈ p :: l, s.tasks.pidOf i = pid then .yield
            else .returned pid.toInt64.toInt
          turns := turns } := by
  induction l generalizing s p with
  | nil =>
    have hend : s.tasks.sched.next p = c := hpath
    refine ⟨2, s.turns + 1, le_refl 2, ?_⟩
    have hturn := turn_alone t pid hmem hcur hpoint
    simpa [Waiting.turned, hend] using hturn
  | cons n l ih =>
    have hturn := turn_alone t pid hmem hcur hpoint
    rw [Waiting.turned] at hturn
    by_cases hpid : s.tasks.pidOf p = pid
    · refine ⟨2, s.turns + 1, by omega, ?_⟩
      simpa [hpid] using hturn
    · have hend : n ≠ c := fun hn => hc (by simp [hn])
      rw [if_neg hpid, hpath.1, if_neg hend] at hturn
      obtain ⟨m, turns, hm, hrest⟩ :=
        ih (s := { s with point := .compare c n, turns := s.turns + 1 }) (p := n) hmem hcur
          rfl hpath.2 (fun hmem => hc (List.mem_cons_of_mem n hmem))
      refine ⟨2 + m, turns, by simp only [List.length_cons]; omega, ?_⟩
      rw [List.replicate_add]
      simpa [hpid] using hturn.append hrest

/-- Left alone, `isProcessRunning` says whether a process on the ring has the pid. -/
theorem isProcessRunning_alone (t : Tasks) (pid : UInt64)
    (h : TaskInv s.tasks s.tasks.sched.queue)
    (hcur : s.tasks.sched.current = some c) (hpoint : s.point = .loop) :
    ∃ n turns, n ≤ 2 * MAX_PROCESSES + 1 ∧
      (quietWaiting t c pid).StepsFrom s (List.replicate n (.caller NULL))
        { s with
          point := if s.tasks.HasPid pid then .yield else .returned pid.toInt64.toInt
          turns := turns } := by
  have hmem := h.current_mem hcur
  obtain ⟨l, hqueue, hpath, hc, hle⟩ := h.path_current hcur
  obtain ⟨n, turns, hn, hscan⟩ :=
    scan_alone (s := { s with point := .compare c c, turns := 0 }) t pid hmem hcur rfl hpath hc
  refine ⟨n + 1, turns, by omega, ?_⟩
  have hfirst : (quietWaiting t c pid).step s (.caller NULL)
      { s with point := .compare c c, turns := 0 } :=
    quiet_caller hmem hcur (by simp [Waiting.waitpid, hpoint, hcur])
  have hfound : (∃ i ∈ c :: l, s.tasks.pidOf i = pid) ↔ s.tasks.HasPid pid := by
    rw [← hqueue]
    exact Iff.rfl
  simp only [hfound] at hscan
  rw [List.replicate_succ]
  exact .cons _ _ hfirst hscan

/-- The call itself compares the pid with the caller's. -/
theorem call_alone (hmem : c ∈ s.tasks.sched.queue) (hcur : s.tasks.sched.current = some c)
    (hpoint : s.point = .call) (hpid : pid ≠ s.tasks.pidOf c) :
    (quietWaiting t c pid).step s (.caller NULL) { s with point := .loop } :=
  quiet_caller hmem hcur (by simp [Waiting.waitpid, hpoint, hcur, hpid])

/-- A pid that nobody has can be returned at once. -/
theorem absent_returned (h : TaskInv t t.sched.queue) (hcur : t.sched.current = some c)
    (hpid : ¬ t.HasPid pid) :
    ∃ s, (quietWaiting t c pid).Reachable s ∧ s.point = .returned pid.toInt64.toInt := by
  have hmem := h.current_mem hcur
  have hown : pid ≠ t.pidOf c := fun hown => hpid ⟨c, hmem, hown.symm⟩
  have hreach : (quietWaiting t c pid).Reachable ⟨t, .loop, 0, 0⟩ :=
    .step (.caller NULL) (.init rfl) (call_alone (s := ⟨t, .call, 0, 0⟩) hmem hcur rfl hown)
  obtain ⟨n, turns, -, hrun⟩ :=
    isProcessRunning_alone (s := ⟨t, .loop, 0, 0⟩) t pid h hcur rfl
  exact ⟨_, hreach.run hrun, if_neg hpid⟩

/-! ### The documentation -/

theorem toInt_eq_neg_one_iff : pid.toInt64.toInt = -1 ↔ pid = -1 := by
  constructor
  · intro h
    have hword : pid.toInt64 = -1 := Int64.toInt.inj h
    rw [← UInt64.toUInt64_toInt64 pid, hword]
    rfl
  · rintro rfl
    decide

/-- In the runs in which no scan sees a new process, a pid that is there or is all ones is
    answered as documented. -/
theorem documented_of_hasPid (h : TaskInv t t.sched.queue) (hcur : t.sched.current = some c)
    (hpid : pid = -1 ∨ t.HasPid pid) (hs : (quietWaiting t c pid).Reachable s) :
    Documented t c pid s := by
  have hinv := waitInv_reachable h hcur hs
  intro r hr
  by_cases hown : pid = t.pidOf c
  · obtain ⟨hyields, hpoint⟩ := hinv.own hown
    rw [if_pos (.inl hown)]
    rw [hr] at hpoint
    exact ⟨by simpa using hpoint, hyields⟩
  obtain ⟨hresult, hgone⟩ := hinv.other hown r hr
  by_cases hhas : t.HasPid pid
  · rw [if_neg (by simp [hown, hhas])]
    exact ⟨hresult, hgone⟩
  · obtain rfl := hpid.resolve_right hhas
    rw [if_pos (.inr hhas)]
    refine ⟨hresult.trans (toInt_eq_neg_one_iff.mpr rfl), ?_⟩
    exact (unseen_reachable h hcur (by decide) hhas hs).yields

/-- **`waitpid` does as documented** exactly for a pid that a process on the ring has and
    for the one that reads as -1, in the runs in which no scan sees a new process.  Its own
    pid the caller is refused at once; a scan takes at most `MAX_PROCESSES` turns, and one
    that is not interrupted says whether a process on the ring has the pid. -/
theorem waitpid_documented_iff (h : scheduling.Reachable t) (hcur : t.sched.current = some c)
    (pid : UInt64) :
    ((∀ s, (quietWaiting t c pid).Reachable s → Documented t c pid s) ↔
      pid = -1 ∨ t.HasPid pid) ∧
    ∀ s, (quietWaiting t c pid).Reachable s → s.turns ≤ MAX_PROCESSES ∧
      (s.tasks.sched.current = some c →
        (s.point = .call → pid = t.pidOf c → ∀ rsp,
          s.waitpid pid rsp = some { s with point := .returned (-1) }) ∧
        (s.point = .loop → ∃ n turns, n ≤ 2 * MAX_PROCESSES + 1 ∧
          (quietWaiting t c pid).StepsFrom s (List.replicate n (.caller NULL))
            { s with
              point := if s.tasks.HasPid pid then .yield else .returned pid.toInt64.toInt
              turns := turns })) := by
  have htasks := tasks_inv h
  refine ⟨⟨?_, fun hpid s hs => documented_of_hasPid htasks hcur hpid hs⟩, ?_⟩
  · intro hdoc
    by_contra hpid
    obtain ⟨hne, hhas⟩ := not_or.mp hpid
    obtain ⟨s, hs, hpoint⟩ := absent_returned htasks hcur hhas
    have hresult := hdoc s hs _ hpoint
    rw [if_pos (.inr hhas)] at hresult
    exact hne (toInt_eq_neg_one_iff.mp hresult.1)
  · intro s hs
    have hinv := waitInv_reachable htasks hcur hs
    refine ⟨hinv.scan.turns_le, fun hcur' => ⟨?_, isProcessRunning_alone t pid hinv.tasks hcur'⟩⟩
    intro hpoint hown rsp
    simp [Waiting.waitpid, hpoint, hcur', hinv.called hpoint, hown]

/-- A machine with one process, which has pid 1 and the turn. -/
theorem one_process : ∃ t c, scheduling.Reachable t ∧ t.sched.current = some c ∧
    t.sched.queue = [c] ∧ t.pidOf c = 1 := by
  obtain ⟨t₀, r, t, c, hboot, hfits, hadd, -, h, hres, -, -⟩ :=
    first_addProcess (fun _ => .zero) (fun _ => ⟨0, .RUNNING, 0, 0⟩)
  refine ⟨t, c, .step (.addProcess _) (.init ⟨_, _, _, _, hboot⟩) ⟨hfits, r, hadd⟩,
    h.ring.current_eq h.running, h.queue_eq, ?_⟩
  simp [Tasks.pidOf, Pcb.getProcessPID, hres.good, hres.pid]

/-- A second one, with pid 2, has been created by the first, which goes on. -/
theorem two_processes : ∃ t c, scheduling.Reachable t ∧ t.sched.current = some c ∧
    t.pidOf c = 1 ∧ t.HasPid 2 := by
  obtain ⟨t₀, r, t, c, hboot, hfits, hadd, -, h, hres, -, hroom⟩ :=
    first_addProcess (fun _ => .zero) (fun _ => ⟨0, .RUNNING, 0, 0⟩)
  have hreach : scheduling.Reachable t :=
    .step (.addProcess _) (.init ⟨_, _, _, _, hboot⟩) ⟨hfits, r, hadd⟩
  have hreach' : scheduling.Reachable t.withNullArgument :=
    .step .other hreach (elsewhere_withNullArgument t)
  have h' := taskInv_elsewhere h (elsewhere_withNullArgument t)
  obtain ⟨r', t', j, hadd', -, hjoin, -, hres'⟩ := room_addProcess hroom.withNullArgument h'
    (show 1 < MAX_PROCESSES by decide) (a := ⟨0, NULL, NULL, 1, NULL⟩) rfl
  have hcan := hroom.withNullArgument.canCreate h' (a := ⟨0, NULL, NULL, 1, NULL⟩) rfl
  have hfirst := hres.withNullArgument.joined (by simp) hjoin hcan
  have hsecond : Resident t' j 2 (2 + 1) := hres.nextPid ▸ hres'
  have hqueue : t'.sched.queue = [c, j] := hjoin.inv.queue_eq
  refine ⟨t', c, .step (.addProcess _) hreach' ⟨frameFits_withNullArgument t, r', hadd'⟩,
    hjoin.inv.ring.current_eq hjoin.inv.running, ?_, j, by simp [hqueue], ?_⟩
  · simp [Tasks.pidOf, Pcb.getProcessPID, hfirst.good, hfirst.pid]
  · simp [Tasks.pidOf, Pcb.getProcessPID, hsecond.good, hsecond.pid]

/-- The first of two processes waits for the second: it finds its pid and yields. -/
theorem waitpid_documented_iff_other : ∃ t c, scheduling.Reachable t ∧
    t.sched.current = some c ∧ t.pidOf c = 1 ∧ t.HasPid 2 ∧
    (∀ s, (quietWaiting t c 2).Reachable s → Documented t c 2 s) ∧
    ∃ s, (quietWaiting t c 2).Reachable s ∧ s.point = .yield ∧ s.turns ≤ MAX_PROCESSES := by
  obtain ⟨t, c, h, hcur, hpid, hhas⟩ := two_processes
  obtain ⟨hdoc, hcall⟩ := waitpid_documented_iff h hcur 2
  refine ⟨t, c, h, hcur, hpid, hhas, hdoc.mpr (.inr hhas), ?_⟩
  have hmem := (tasks_inv h).current_mem hcur
  have hother : (2 : UInt64) ≠ t.pidOf c := by
    rw [hpid]
    decide
  have hreach : (quietWaiting t c 2).Reachable ⟨t, .loop, 0, 0⟩ :=
    .step (.caller NULL) (.init rfl) (call_alone (s := ⟨t, .call, 0, 0⟩) hmem hcur rfl hother)
  obtain ⟨n, turns, -, hscan⟩ := ((hcall _ hreach).2 hcur).2 rfl
  have hscanned := hreach.run hscan
  exact ⟨_, hscanned, if_pos hhas, (hcall _ hscanned).1⟩

/-- The only process there is, with pid 1, waits for pid 2, and 2 is returned. -/
theorem waitpid_absent : ∃ t c, scheduling.Reachable t ∧ t.sched.current = some c ∧
    ¬ t.HasPid 2 ∧ ¬ ∀ s, (waiting t c 2).Reachable s → Documented t c 2 s := by
  obtain ⟨t, c, h, hcur, hqueue, hpid⟩ := one_process
  have hhas : ¬ t.HasPid 2 := by
    simp [Tasks.HasPid, hqueue, hpid]
  refine ⟨t, c, h, hcur, hhas, fun hdoc => ?_⟩
  obtain ⟨s, hs, hpoint⟩ := absent_returned (tasks_inv h) hcur hhas
  have hresult := hdoc s hs.of_restrict _ hpoint
  rw [if_pos (.inr hhas)] at hresult
  exact absurd hresult.1 (by decide)

end TP2Kernel
