import TP2Kernel.Scheduler.Waiting

/-! # Sleeping (`waitForTime`, and the clock of `Kernel/c/time.c`)

    `sleep` turns the miliseconds into a number of ticks and yields until more than that
    many have passed.  The number is rounded down, and one tick more is waited for, so the
    time is never too short; but the product of miliseconds and frequency is taken modulo
    `2 ^ 64` before it is divided, and what is lost there is not slept.
-/

namespace TP2Kernel

open Transition Scheduler

/-! ### The clock -/

/-- The static variables of `time.c`. -/
structure Clock where
  freq : UInt16
  tickCount : UInt64

namespace Clock

def getPITfrequency (clock : Clock) : UInt16 := clock.freq

def tick (clock : Clock) : UInt64 × Clock :=
  (clock.tickCount + 1, { clock with tickCount := clock.tickCount + 1 })

def ticks (clock : Clock) : UInt64 := clock.tickCount

end Clock

/-! ### The call -/

/-- The ticks that are waited for. -/
def sleepTicks (miliseconds : UInt64) (freq : UInt16) : UInt64 :=
  miliseconds * freq.toUInt64 / 1000

/-- What the sleeper does next, with the values of its local variables. -/
inductive SleepPoint where
  /-- Set `ticksAtStart`. -/
  | call
  /-- Set `sleepFor`. -/
  | target (ticksAtStart : UInt64)
  /-- Call `checkScheduler` and mark the node. -/
  | check (ticksAtStart sleepFor : UInt64)
  /-- Test whether the loop goes on. -/
  | test (current : Nat) (ticksAtStart sleepFor elapsed : UInt64)
  /-- Set `elapsed`. -/
  | measure (current : Nat) (ticksAtStart sleepFor : UInt64)
  | yield (current : Nat) (ticksAtStart sleepFor elapsed : UInt64)
  | returned (result : UInt64)

/-- A call of `sleep` under way. -/
structure Sleeping where
  tasks : Tasks
  clock : Clock
  /-- The number of ticks since the call. -/
  passed : Nat
  point : SleepPoint

/-- One step of `waitForTime(miliseconds)`; `rsp` is the stack pointer if it yields. -/
def Sleeping.waitForTime (s : Sleeping) (miliseconds : UInt64) (rsp : Addr) :
    Option Sleeping :=
  match s.point with
  | .call => some { s with point := .target s.clock.ticks }
  | .target ticksAtStart =>
    some { s with point := .check ticksAtStart (sleepTicks miliseconds s.clock.getPITfrequency) }
  | .check ticksAtStart sleepFor =>
    match s.tasks.sched.current with
    | none => some { s with point := .returned (-1) }
    | some current => some { s with
        tasks.sched := s.tasks.sched.setState current .SLEPT
        point := .test current ticksAtStart sleepFor 0 }
  | .test current ticksAtStart sleepFor elapsed =>
    if elapsed ≤ sleepFor then some { s with point := .measure current ticksAtStart sleepFor }
    else some { s with
      tasks.sched := s.tasks.sched.setState current .RUNNING
      point := .returned 0 }
  | .measure current ticksAtStart sleepFor =>
    some { s with
      point := .yield current ticksAtStart sleepFor (s.clock.ticks - ticksAtStart) }
  | .yield current ticksAtStart sleepFor elapsed =>
    match s.tasks.nextProcess rsp with
    | none => none
    | some (_, t) => some { s with
        tasks := t
        point := .test current ticksAtStart sleepFor elapsed }
  | .returned _ => none

inductive SleepAction where
  | caller (rsp : Addr)
  | tick
  | others (action : TaskAction)

/-- The process of node `c` calls `sleep(miliseconds)` in state `t`.  It takes its steps
    when it has the turn; the clock ticks at any time, and the others do what they want. -/
def sleeping (t : Tasks) (c : Nat) (clock : Clock) (miliseconds : UInt64) :
    System Sleeping SleepAction where
  init := fun s => s = ⟨t, clock, 0, .call⟩
  step := fun s action s' =>
    match action with
    | .caller rsp => s.tasks.sched.current = some c ∧ s.waitForTime miliseconds rsp = some s'
    | .tick => s' = { s with clock := s.clock.tick.2, passed := s.passed + 1 }
    | .others action => scheduling.step s.tasks action s'.tasks ∧
        s' = { s with tasks := s'.tasks }

variable {t : Tasks} {c : Nat} {clock : Clock} {miliseconds : UInt64} {s s' : Sleeping}

theorem toNat_sleepTicks (miliseconds : UInt64) (freq : UInt16) :
    (sleepTicks miliseconds freq).toNat =
      miliseconds.toNat * freq.toNat % 2 ^ 64 / 1000 := by
  simp [sleepTicks, UInt64.toNat_mul]

/-! ### What the sleeper measures -/

/-- `ticks` was read at some moment since the call. -/
def ReadSince (clock : Clock) (passed : Nat) (ticks : UInt64) : Prop :=
  ∃ before, before ≤ passed ∧ ticks = clock.tickCount + UInt64.ofNat before

/-- The variables of the sleeper, against the ticks that have passed. -/
def SleepInv (clock : Clock) (miliseconds : UInt64) (s : Sleeping) : Prop :=
  match s.point with
  | .call => True
  | .target ticksAtStart => ReadSince clock s.passed ticksAtStart
  | .check ticksAtStart sleepFor => ReadSince clock s.passed ticksAtStart ∧
      sleepFor = sleepTicks miliseconds clock.freq
  | .test _ ticksAtStart sleepFor elapsed => ReadSince clock s.passed ticksAtStart ∧
      sleepFor = sleepTicks miliseconds clock.freq ∧ elapsed.toNat ≤ s.passed
  | .measure _ ticksAtStart sleepFor => ReadSince clock s.passed ticksAtStart ∧
      sleepFor = sleepTicks miliseconds clock.freq
  | .yield _ ticksAtStart sleepFor elapsed => ReadSince clock s.passed ticksAtStart ∧
      sleepFor = sleepTicks miliseconds clock.freq ∧ elapsed.toNat ≤ s.passed
  | .returned _ => (sleepTicks miliseconds clock.freq).toNat < s.passed

/-- The clock counts the ticks, modulo `2 ^ 64`. -/
structure ClockInv (clock : Clock) (s : Sleeping) : Prop where
  freq : s.clock.freq = clock.freq
  tickCount : s.clock.tickCount = clock.tickCount + UInt64.ofNat s.passed

theorem ReadSince.mono {passed passed' : Nat} {ticks : UInt64}
    (h : ReadSince clock passed ticks) (hle : passed ≤ passed') :
    ReadSince clock passed' ticks := by
  obtain ⟨before, hbefore, heq⟩ := h
  exact ⟨before, hbefore.trans hle, heq⟩

/-- What is measured is no more than what has passed, even if the counter wraps. -/
theorem ReadSince.elapsed_le {passed : Nat} {ticks : UInt64}
    (h : ReadSince clock passed ticks) :
    (clock.tickCount + UInt64.ofNat passed - ticks).toNat ≤ passed := by
  obtain ⟨before, hle, rfl⟩ := h
  have hsub : clock.tickCount + UInt64.ofNat passed - (clock.tickCount + UInt64.ofNat before) =
      UInt64.ofNat (passed - before) := by
    rw [add_sub_add_left_eq_sub, ← UInt64.ofNat_sub hle]
  rw [hsub, UInt64.toNat_ofNat']
  exact (Nat.mod_le _ _).trans (Nat.sub_le _ _)

theorem sleepInv_caller {rsp : Addr} (hclock : ClockInv clock s)
    (h : SleepInv clock miliseconds s) (hcur : s.tasks.sched.current = some c)
    (hstep : s.waitForTime miliseconds rsp = some s') :
    ClockInv clock s' ∧ SleepInv clock miliseconds s' := by
  unfold Sleeping.waitForTime at hstep
  unfold SleepInv at h
  cases hpoint : s.point with
  | call =>
    simp only [hpoint] at hstep
    obtain rfl := Option.some.inj hstep
    exact ⟨⟨hclock.freq, hclock.tickCount⟩, s.passed, le_refl _, hclock.tickCount⟩
  | target ticksAtStart =>
    simp only [hpoint] at hstep h
    obtain rfl := Option.some.inj hstep
    refine ⟨⟨hclock.freq, hclock.tickCount⟩, h, ?_⟩
    rw [Clock.getPITfrequency, hclock.freq]
  | check ticksAtStart sleepFor =>
    simp only [hpoint, hcur] at hstep h
    obtain rfl := Option.some.inj hstep
    exact ⟨⟨hclock.freq, hclock.tickCount⟩, h.1, h.2, Nat.zero_le _⟩
  | test current ticksAtStart sleepFor elapsed =>
    simp only [hpoint] at hstep h
    obtain ⟨hstart, rfl, hle⟩ := h
    split at hstep
    · obtain rfl := Option.some.inj hstep
      exact ⟨⟨hclock.freq, hclock.tickCount⟩, hstart, rfl⟩
    · next hover =>
      -- more than the target has been measured
      obtain rfl := Option.some.inj hstep
      refine ⟨⟨hclock.freq, hclock.tickCount⟩, ?_⟩
      rw [UInt64.le_iff_toNat_le] at hover
      exact lt_of_lt_of_le (not_le.mp hover) hle
  | measure current ticksAtStart sleepFor =>
    simp only [hpoint] at hstep h
    obtain rfl := Option.some.inj hstep
    refine ⟨⟨hclock.freq, hclock.tickCount⟩, h.1, h.2, ?_⟩
    rw [Clock.ticks, hclock.tickCount]
    exact h.1.elapsed_le
  | yield current ticksAtStart sleepFor elapsed =>
    simp only [hpoint] at hstep h
    cases hnext : s.tasks.nextProcess rsp with
    | none => simp [hnext] at hstep
    | some result =>
      simp only [hnext] at hstep
      obtain rfl := Option.some.inj hstep
      exact ⟨⟨hclock.freq, hclock.tickCount⟩, h⟩
  | returned result => simp [hpoint] at hstep

theorem sleepInv_tick (hclock : ClockInv clock s) (h : SleepInv clock miliseconds s) :
    ClockInv clock { s with clock := s.clock.tick.2, passed := s.passed + 1 } ∧
    SleepInv clock miliseconds { s with clock := s.clock.tick.2, passed := s.passed + 1 } := by
  have hmono : ∀ {ticks : UInt64}, ReadSince clock s.passed ticks →
      ReadSince clock (s.passed + 1) ticks := fun hread => hread.mono (Nat.le_succ _)
  refine ⟨⟨hclock.freq, ?_⟩, ?_⟩
  · show s.clock.tickCount + 1 = clock.tickCount + UInt64.ofNat (s.passed + 1)
    rw [hclock.tickCount, UInt64.ofNat_add, add_assoc]
    rfl
  · unfold SleepInv at h ⊢
    simp only
    split at h
    · trivial
    · exact hmono h
    · exact ⟨hmono h.1, h.2⟩
    · exact ⟨hmono h.1, h.2.1, h.2.2.trans (Nat.le_succ _)⟩
    · exact ⟨hmono h.1, h.2⟩
    · exact ⟨hmono h.1, h.2.1, h.2.2.trans (Nat.le_succ _)⟩
    · exact h.trans (Nat.lt_succ_self _)

theorem sleepInv_reachable (h : (sleeping t c clock miliseconds).Reachable s) :
    ClockInv clock s ∧ SleepInv clock miliseconds s := by
  refine h.invariant (fun s => ClockInv clock s ∧ SleepInv clock miliseconds s) ?_ ?_
  · rintro s rfl
    exact ⟨⟨rfl, by simp⟩, trivial⟩
  · rintro s action s' ⟨hclock, hsleep⟩ hstep
    cases action with
    | caller rsp => exact sleepInv_caller hclock hsleep hstep.1 hstep.2
    | tick =>
      obtain rfl := hstep
      exact sleepInv_tick hclock hsleep
    | others action =>
      rw [hstep.2]
      exact ⟨⟨hclock.freq, hclock.tickCount⟩, hsleep⟩

/-- `sleep` returns only after more ticks than it waits for. -/
theorem returned_after (h : (sleeping t c clock miliseconds).Reachable s) {result : UInt64}
    (hpoint : s.point = .returned result) :
    (sleepTicks miliseconds clock.freq).toNat < s.passed := by
  have hinv := (sleepInv_reachable h).2
  simpa only [SleepInv, hpoint] using hinv

/-! ### Returning as early as possible -/

theorem TaskInv.setState {t : Tasks} {q : List Nat} (h : TaskInv t q) (node : Nat)
    (state : State) : TaskInv { t with sched := t.sched.setState node state } q := by
  refine ⟨h.running, h.ring.congr_nodes ?_ ?_, h.pcb, h.maxProcesses, h.noHeap, ?_, ?_⟩
  · intro i _
    exact t.sched.setState_next node state i
  · intro i _
    by_cases hi : i = node <;> simp [hi]
  · intro i hi hbad
    simp only [setState_PCBIndex] at hbad ⊢
    exact h.refers i hi hbad
  · intro i hi j hj hbad heq
    simp only [setState_PCBIndex] at hbad heq
    exact h.apart i hi j hj hbad heq

theorem tick_run (h : (sleeping t c clock miliseconds).Reachable s) (n : Nat) :
    (sleeping t c clock miliseconds).Reachable
      { s with
        clock.tickCount := s.clock.tickCount + UInt64.ofNat n
        passed := s.passed + n } := by
  induction n with
  | zero => simpa using h
  | succ n ih =>
    refine .step .tick ih ?_
    have hcount : s.clock.tickCount + UInt64.ofNat (n + 1) =
        s.clock.tickCount + UInt64.ofNat n + 1 := by
      rw [UInt64.ofNat_add, ← add_assoc]
      rfl
    simp only [sleeping, Clock.tick, hcount, Nat.add_assoc]

theorem others_run {as : List TaskAction} {t₁ t₂ : Tasks}
    (hrun : scheduling.StepsFrom t₁ as t₂)
    (h : (sleeping t c clock miliseconds).Reachable { s with tasks := t₁ }) :
    (sleeping t c clock miliseconds).Reachable { s with tasks := t₂ } := by
  induction hrun with
  | nil => exact h
  | cons a as ha _ ih => exact ih (.step (.others a) h ⟨ha, rfl⟩)

theorem sleepTicks_le (miliseconds : UInt64) (freq : UInt16) :
    (sleepTicks miliseconds freq).toNat + 1 < 2 ^ 64 := by
  rw [toNat_sleepTicks]
  have := Nat.mod_lt (miliseconds.toNat * freq.toNat) (show 0 < 2 ^ 64 by decide)
  omega

/-- The sleeper marks its node and enters the loop. -/
theorem enters_loop (hcur : t.sched.current = some c) (clock : Clock) (miliseconds : UInt64) :
    (sleeping t c clock miliseconds).Reachable
      ⟨{ t with sched := t.sched.setState c .SLEPT }, clock, 0,
        .measure c clock.ticks (sleepTicks miliseconds clock.freq)⟩ := by
  have hread : (sleeping t c clock miliseconds).Reachable ⟨t, clock, 0, .target clock.ticks⟩ :=
    .step (.caller NULL) (.init rfl) ⟨hcur, rfl⟩
  have htarget : (sleeping t c clock miliseconds).Reachable ⟨t, clock, 0,
      .check clock.ticks (sleepTicks miliseconds clock.freq)⟩ :=
    .step (.caller NULL) hread ⟨hcur, rfl⟩
  have hcheck : (sleeping t c clock miliseconds).Reachable
      ⟨{ t with sched := t.sched.setState c .SLEPT }, clock, 0,
        .test c clock.ticks (sleepTicks miliseconds clock.freq) 0⟩ :=
    .step (.caller NULL) htarget ⟨hcur, by simp [Sleeping.waitForTime, hcur]⟩
  exact .step (.caller NULL) hcheck ⟨by simpa using hcur, by simp [Sleeping.waitForTime]⟩

/-- `sleep` can return after one tick more than it waits for: the ticks pass before it
    measures for the first time, and then its turn comes again. -/
theorem returns_after (h : TaskInv t t.sched.queue) (hcur : t.sched.current = some c)
    (clock : Clock) (miliseconds : UInt64) :
    ∃ s, (sleeping t c clock miliseconds).Reachable s ∧ s.point = .returned 0 ∧
      s.passed = (sleepTicks miliseconds clock.freq).toNat + 1 := by
  have hloop := enters_loop hcur clock miliseconds
  have hlt := sleepTicks_le miliseconds clock.freq
  obtain ⟨b, hb⟩ : ∃ b, b = sleepTicks miliseconds clock.freq := ⟨_, rfl⟩
  obtain ⟨t₁, ht₁⟩ : ∃ t₁ : Tasks,
    t₁ = { t with sched := t.sched.setState c .SLEPT } := ⟨_, rfl⟩
  rw [← hb, ← ht₁] at hloop
  rw [← hb] at hlt ⊢
  have hcur₁ : t₁.sched.current = some c := by simpa [ht₁] using hcur
  have h₁ : TaskInv t₁ t₁.sched.queue := by
    have hset := h.setState c .SLEPT
    rw [← ht₁] at hset
    rwa [hset.queue_eq]
  -- time passes, and is measured
  obtain ⟨clock', hclock⟩ : ∃ clock' : Clock, clock' =
    { clock with tickCount := clock.tickCount + UInt64.ofNat (b.toNat + 1) } := ⟨_, rfl⟩
  have hticks : (sleeping t c clock miliseconds).Reachable
      ⟨t₁, clock', b.toNat + 1, .measure c clock.ticks b⟩ := by
    simpa [hclock] using tick_run hloop (b.toNat + 1)
  have helapsed : clock'.ticks - clock.ticks = UInt64.ofNat (b.toNat + 1) := by
    simp [Clock.ticks, hclock]
  have hmeasured : (sleeping t c clock miliseconds).Reachable
      ⟨t₁, clock', b.toNat + 1, .yield c clock.ticks b (UInt64.ofNat (b.toNat + 1))⟩ :=
    .step (.caller NULL) hticks ⟨hcur₁, by simp [Sleeping.waitForTime, helapsed]⟩
  -- the turn goes round
  obtain ⟨t₂, hnext, h₂, hfin⟩ := taskInv_nextProcess h₁ NULL
  have hyielded : (sleeping t c clock miliseconds).Reachable
      ⟨t₂, clock', b.toNat + 1, .test c clock.ticks b (UInt64.ofNat (b.toNat + 1))⟩ :=
    .step (.caller NULL) hmeasured ⟨hcur₁, by simp [Sleeping.waitForTime, hnext]⟩
  have hslept : t₁.sched.isFinished c = false := by
    rw [ht₁]
    simp [isFinished, Scheduler.setState]
  have hmem : c ∈ t₂.sched.queue := by
    rw [h₂.queue_eq]
    exact mem_nextQueue_of_unfinished (h₁.current_mem hcur₁) hslept
  obtain ⟨n, t₃, hrun, hcur₃⟩ := turn_comes (by rwa [h₂.queue_eq]) hmem (by rwa [hfin])
  have hback := others_run hrun (s := ⟨t₂, clock', b.toNat + 1,
    .test c clock.ticks b (UInt64.ofNat (b.toNat + 1))⟩) hyielded
  -- more than the target has been measured
  have hover : ¬ UInt64.ofNat (b.toNat + 1) ≤ b := by
    rw [UInt64.le_iff_toNat_le, UInt64.toNat_ofNat', Nat.mod_eq_of_lt hlt]
    omega
  have hreturned : (sleeping t c clock miliseconds).Reachable
      ⟨{ t₃ with sched := t₃.sched.setState c .RUNNING }, clock', b.toNat + 1, .returned 0⟩ :=
    .step (.caller NULL) hback ⟨hcur₃, by simp only [Sleeping.waitForTime, if_neg hover]⟩
  exact ⟨_, hreturned, rfl, rfl⟩

/-! ### How long it sleeps -/

/-- **`sleep` is never short** exactly for the miliseconds whose product with the frequency
    is less than `2 ^ 64`.  In every state it is called in, `sleep` returns after more than
    `sleepTicks` ticks, and there is a run in which it returns after one more. -/
theorem sleep_never_short_iff (h : scheduling.Reachable t) (hcur : t.sched.current = some c)
    (clock : Clock) (miliseconds : UInt64) :
    (∀ s result, (sleeping t c clock miliseconds).Reachable s → s.point = .returned result →
      miliseconds.toNat * clock.freq.toNat ≤ s.passed * 1000) ↔
    miliseconds.toNat * clock.freq.toNat < 2 ^ 64 := by
  have htarget := toNat_sleepTicks miliseconds clock.freq
  constructor
  · intro hlong
    by_contra hover
    obtain ⟨s, hs, hpoint, hpassed⟩ := returns_after (tasks_inv h) hcur clock miliseconds
    have hle := hlong s 0 hs hpoint
    -- what the product loses modulo `2 ^ 64` is not slept
    have hmod := Nat.mod_add_div (miliseconds.toNat * clock.freq.toNat) (2 ^ 64)
    have hdiv : 1 ≤ miliseconds.toNat * clock.freq.toNat / 2 ^ 64 :=
      (Nat.one_le_div_iff (by decide)).mpr (not_lt.mp hover)
    rw [hpassed, htarget] at hle
    omega
  · intro hlt s result hs hpoint
    have hpassed := returned_after hs hpoint
    rw [htarget, Nat.mod_eq_of_lt hlt] at hpassed
    omega

/-- With the clock the kernel sets, a second is a second for the only process there is. -/
theorem sleep_never_short_iff_second : ∃ t c, scheduling.Reachable t ∧
    ∀ s result, (sleeping t c ⟨200, 0⟩ 1000).Reachable s → s.point = .returned result →
      1000 * 200 ≤ s.passed * 1000 := by
  obtain ⟨t, c, h, hcur, -, -⟩ := one_process
  exact ⟨t, c, h, (sleep_never_short_iff h hcur ⟨200, 0⟩ 1000).mpr (by decide)⟩

/-- With that clock, the least number of miliseconds whose product with the frequency does
    not fit into 64 bits is slept for one tick. -/
theorem sleep_short : ∃ t c s, scheduling.Reachable t ∧ t.sched.current = some c ∧
    (sleeping t c ⟨200, 0⟩ 92233720368547759).Reachable s ∧ s.point = .returned 0 ∧
    s.passed = 1 ∧ ¬ 92233720368547759 * 200 ≤ s.passed * 1000 := by
  obtain ⟨t, c, h, hcur, -, -⟩ := one_process
  obtain ⟨s, hs, hpoint, hpassed⟩ :=
    returns_after (tasks_inv h) hcur ⟨200, 0⟩ 92233720368547759
  have hone : s.passed = 1 := by
    rw [hpassed]
    decide
  exact ⟨t, c, s, h, hcur, hs, hpoint, hone, by rw [hone]; decide⟩

end TP2Kernel
