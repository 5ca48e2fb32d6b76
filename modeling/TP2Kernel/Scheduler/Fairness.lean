import TP2Kernel.Scheduler.Processor
import TP2Kernel.Scheduler.Refinement

/-! # Everybody gets the processor (`nextProcess` in `Kernel/c/scheduler.c`)

    The timer, `yield` and `exit` pass the turn on, at any moment.  Whatever else happens, a
    process that has not finished executes after no more turns than there were processes
    ahead of it: those that join do so behind it, and those that leave make its wait shorter.
-/

namespace TP2Kernel

open Transition Scheduler

/-- The actions that pass the turn on. -/
def ComputerAction.isTurn : ComputerAction → Bool
  | .nextProcess _ => true
  | _ => false

namespace Sharing

variable {c c' : Computer} {q : List Nat} {i : Nat}

theorem tasks_eq (h : Sharing c q) :
    c.sched.tasks = q.map fun i => ⟨i, c.sched.isFinished i⟩ := by
  rw [Scheduler.tasks, h.housed.queue_eq]

/-- The queue is as it was. -/
theorem same_tasks (h : Sharing c q) (h' : Housed c'.toTasks q)
    (hfinished : ∀ i, c'.sched.isFinished i = c.sched.isFinished i) :
    c'.sched.tasks = c.sched.tasks := by
  rw [h.tasks_eq, Scheduler.tasks, h'.queue_eq]
  apply List.map_congr_left
  intro i _
  rw [hfinished]

/-- A newcomer is put behind the others. -/
theorem tasks_admitted (h : Sharing c q) {a : ProcessParams} {t' : Tasks}
    (hadmitted : Housed.Admitted c.toTasks q a i t') :
    (RoundRobin.system Nat).step c.sched.tasks (.enqueue i) t'.sched.tasks := by
  constructor
  · intro task htask heq
    rw [h.tasks_eq] at htask
    obtain ⟨j, hj, rfl⟩ := List.mem_map.mp htask
    obtain rfl : j = i := heq
    exact hadmitted.new hj
  · rw [h.tasks_eq, Scheduler.tasks, hadmitted.housed.queue_eq, RoundRobin.enqueue,
      List.map_append]
    congr 1
    · apply List.map_congr_left
      intro j hj
      rw [(hadmitted.kept j hj).1]
    · rw [List.map_singleton, hadmitted.isFinished]

theorem tasks_finish (h : Sharing c (i :: q)) :
    c.toTasks.finishProcess.2.sched.tasks = RoundRobin.finishFront c.sched.tasks := by
  obtain ⟨hhoused, -, hkept⟩ := h.housed.finishProcess
  have hnew : i ∉ q := (List.nodup_cons.mp h.housed.ring.ring.nodup).1
  rw [Scheduler.tasks, hhoused.queue_eq, h.tasks_eq, List.map_cons, List.map_cons,
    RoundRobin.finishFront]
  congr 1
  · rw [(hkept i).1]
    simp
  · apply List.map_congr_left
    intro j hj
    have hji : j ≠ i := by
      rintro rfl
      exact hnew hj
    rw [(hkept j).1]
    simp [hji]

/-- A turn moves the front to the back and removes the finished ones in front. -/
theorem tasks_turn (h : Sharing c q) (hfree : c.pages.free ≠ []) (hroom : c.StackRoom)
    {rsp : Addr} {t' : Tasks} (hnext : c.interrupted.nextProcess c.savedRSP = some (rsp, t'))
    {mem : Memory} (hmem : ∀ x : Addr, 0x10000000 ≤ x.toNat → mem x = t'.mem x)
    (hc' : c' = { toTasks := { t' with mem := mem }, cpu := c.cpu.switchTo mem rsp }) :
    c'.sched.tasks = RoundRobin.next c.sched.tasks := by
  cases q with
  | nil =>
    have hinterrupted : RingInv c.interrupted.sched [] := h.housed.ring
    rw [Tasks.nextProcess_empty hinterrupted] at hnext
    obtain ⟨-, rfl⟩ := Prod.mk.inj (Option.some.inj hnext)
    have hsame : c'.sched.tasks = c.sched.tasks := by
      rw [hc']
      rfl
    rw [hsame, h.tasks_eq]
    rfl
  | cons f r =>
    obtain ⟨hsharing, hfinished, -⟩ := h.nextProcess hfree hroom hnext hmem hc'
    rw [hsharing.tasks_eq, h.tasks_eq, funext hfinished, nextQueue, RoundRobin.next,
      RoundRobin.sweep, ← List.map_rotate, List.dropWhile_map]
    rfl

/-- What a step is to the queue of tasks. -/
theorem tasks_step {action : ComputerAction} (h : Sharing c q) (hfree : c.pages.free ≠ [])
    (hstep : computer.step c action c') :
    (c'.sched.tasks = c.sched.tasks ∧ action.isTurn = false) ∨
    (∃ i, (RoundRobin.system Nat).step c.sched.tasks (.enqueue i) c'.sched.tasks ∧
      action.isTurn = false) ∨
    ((RoundRobin.system Nat).step c.sched.tasks .finishFront c'.sched.tasks ∧
      action.isTurn = false) ∨
    (RoundRobin.system Nat).step c.sched.tasks .next c'.sched.tasks := by
  cases action with
  | execute i cpu mem =>
    obtain ⟨-, -, rfl⟩ := hstep
    exact .inl ⟨rfl, rfl⟩
  | idle cpu mem =>
    obtain ⟨-, -, rfl⟩ := hstep
    exact .inl ⟨rfl, rfl⟩
  | addProcess a =>
    obtain ⟨-, hclean, hfits, hslots, r, t', hadd, rfl⟩ := hstep
    rcases h.housed.addProcess hclean hfree hfits
      (fun k hk x hx hheader => hslots k hk x hx (.inl hheader)) hadd with rfl | ⟨i, hadmitted⟩
    · exact .inl ⟨rfl, rfl⟩
    · exact .inr (.inl ⟨i, h.tasks_admitted hadmitted, rfl⟩)
  | finishProcess i =>
    obtain ⟨hexec, rfl⟩ := hstep
    obtain ⟨r, rfl⟩ := h.front_of_executing hexec
    exact .inr (.inr (.inl ⟨h.tasks_finish, rfl⟩))
  | malloc PCBIndex size =>
    obtain ⟨-, p, m', -, rfl⟩ := hstep
    exact .inl ⟨rfl, rfl⟩
  | other =>
    obtain ⟨helse, hmem, hpages, hstackPage, -⟩ := hstep
    obtain ⟨hhoused, -, hkept⟩ := h.housed.elsewhere helse hmem hpages hstackPage
    exact .inl ⟨h.same_tasks hhoused fun i => (hkept i).1, rfl⟩
  | pop =>
    obtain rfl : c' = _ := hstep
    exact .inl ⟨rfl, rfl⟩
  | push page =>
    obtain ⟨-, -, -, -, rfl⟩ := hstep
    exact .inl ⟨rfl, rfl⟩
  | keyboard mem =>
    obtain ⟨-, -, rfl⟩ := hstep
    exact .inl ⟨rfl, rfl⟩
  | nextProcess mem =>
    obtain ⟨hroom, rsp, t', hnext, hmem, hc'⟩ := hstep
    exact .inr (.inr (.inr (h.tasks_turn hfree hroom hnext hmem hc')))

/-- Once there was a turn, it is always a process that executes, if there is one. -/
theorem firstIteration_step {action : ComputerAction} (h : Sharing c q)
    (hfree : c.pages.free ≠ []) (hbegun : c.sched.firstIteration = false)
    (hstep : computer.step c action c') : c'.sched.firstIteration = false := by
  cases action with
  | execute i cpu mem =>
    obtain ⟨-, -, rfl⟩ := hstep
    exact hbegun
  | idle cpu mem =>
    obtain ⟨-, -, rfl⟩ := hstep
    exact hbegun
  | addProcess a =>
    obtain ⟨-, -, -, -, r, t', hadd, rfl⟩ := hstep
    rcases Tasks.addProcess_added hadd with _ | _ <;> exact hbegun
  | finishProcess i =>
    obtain ⟨hexec, rfl⟩ := hstep
    obtain ⟨r, rfl⟩ := h.front_of_executing hexec
    obtain ⟨-, hfirst, -⟩ := h.housed.finishProcess
    exact hfirst.trans hbegun
  | malloc PCBIndex size =>
    obtain ⟨-, p, m', -, rfl⟩ := hstep
    exact hbegun
  | other =>
    obtain ⟨helse, hmem, hpages, hstackPage, -⟩ := hstep
    obtain ⟨-, hfirst, -⟩ := h.housed.elsewhere helse hmem hpages hstackPage
    exact hfirst.trans hbegun
  | pop =>
    obtain rfl : c' = _ := hstep
    exact hbegun
  | push page =>
    obtain ⟨-, -, -, -, rfl⟩ := hstep
    exact hbegun
  | keyboard mem =>
    obtain ⟨-, -, rfl⟩ := hstep
    exact hbegun
  | nextProcess mem =>
    obtain ⟨hroom, rsp, t', hnext, -, rfl⟩ := hstep
    obtain ⟨hinterrupted, -⟩ := h.foreign_header fun x hx => h.interrupted_mem hroom hx
    have hinterrupted : Housed c.interrupted q := hinterrupted
    cases q with
    | nil =>
      rw [Tasks.nextProcess_empty hinterrupted.ring] at hnext
      obtain ⟨-, rfl⟩ := Prod.mk.inj (Option.some.inj hnext)
      exact hbegun
    | cons f r =>
      obtain ⟨t₁, hnext₁, hleft⟩ := hinterrupted.nextProcess hfree c.savedRSP
      obtain ⟨-, rfl⟩ := Prod.mk.inj (Option.some.inj (hnext₁.symm.trans hnext))
      show t₁.sched.firstIteration = false
      rw [hleft.firstIteration, Tasks.rotate_firstIteration]

end Sharing

/-! ### Waiting for the turn -/

/-- `n` processes are ahead of node `i`, which has not finished. -/
def Computer.Awaits (i n : Nat) (c : Computer) : Prop :=
  (∃ q, Sharing c q) ∧ c.sched.firstIteration = false ∧ RoundRobin.Waits i n c.sched.tasks

theorem awaits_step {c c' : Computer} {action : ComputerAction} {i n : Nat}
    (h : c.Awaits i (n + 1)) (hstep : (computer.restrict PageLeft).step c action c') :
    ∃ m, c'.Awaits i m ∧ m + (if action.isTurn then 1 else 0) ≤ n + 1 := by
  obtain ⟨hsharing, hbegun, hwaits⟩ := h
  have hsharing' := (sharing_step hsharing hstep).1
  obtain ⟨q, hsharing⟩ := hsharing
  obtain ⟨hfree, hstep⟩ := hstep
  have hbegun' := hsharing.firstIteration_step hfree hbegun hstep
  rcases hsharing.tasks_step hfree hstep with
    ⟨hsame, hturn⟩ | ⟨j, henqueue, hturn⟩ | ⟨hfinish, hturn⟩ | hnext
  · rw [hturn]
    exact ⟨n + 1, ⟨hsharing', hbegun', hsame ▸ hwaits⟩, Nat.le_refl _⟩
  · obtain ⟨m, hm, hle⟩ := hwaits.step henqueue
    rw [hturn]
    exact ⟨m, ⟨hsharing', hbegun', hm⟩, hle⟩
  · obtain ⟨m, hm, hle⟩ := hwaits.step hfinish
    rw [hturn]
    exact ⟨m, ⟨hsharing', hbegun', hm⟩, hle⟩
  · obtain ⟨m, hm, hle⟩ := hwaits.step hnext
    refine ⟨m, ⟨hsharing', hbegun', hm⟩, ?_⟩
    have hone : m + 1 ≤ n + 1 := hle
    split <;> omega

/-- Who is first among those that wait executes. -/
theorem executing_of_awaits {c : Computer} {i : Nat} (h : c.Awaits i 0) :
    c.executing = some i := by
  obtain ⟨-, hbegun, hwaits⟩ := h
  have hhead := RoundRobin.waits_zero hwaits
  rw [Scheduler.tasks, List.head?_map] at hhead
  obtain ⟨j, hj, heq⟩ := Option.map_eq_some_iff.mp hhead
  obtain rfl : j = i := congrArg RoundRobin.Task.job heq
  rw [Computer.executing, hbegun]
  exact hj

/-- **Nobody starves.**  After the first turn, a process that has not finished executes after
    no more turns than there are processes ahead of it in the queue, fewer than
    `MAX_PROCESSES`, whatever happens between the turns and whoever joins or leaves. -/
theorem executes_within {c c' : Computer} {actions : List ComputerAction} {i : Nat}
    (hreach : (computer.restrict PageLeft).Reachable c)
    (hbegun : c.sched.firstIteration = false) (hi : i ∈ c.sched.queue)
    (hfin : c.sched.isFinished i = false)
    (hrun : (computer.restrict PageLeft).StepsFrom c actions c')
    (henough : c.sched.queue.idxOf i ≤ actions.countP ComputerAction.isTurn) :
    c.sched.queue.idxOf i < MAX_PROCESSES ∧
    ∃ before after c₁, actions = before ++ after ∧
      (computer.restrict PageLeft).StepsFrom c before c₁ ∧
      (computer.restrict PageLeft).StepsFrom c₁ after c' ∧
      before.countP ComputerAction.isTurn ≤ c.sched.queue.idxOf i ∧ c₁.executing = some i := by
  have hsharing := sharing_reachable hreach
  constructor
  · have hlength := hsharing.housed.ring.length_le
    have hlt := List.idxOf_lt_length_iff.mpr hi
    omega
  · obtain ⟨ahead, behind, hqueue, hnot⟩ := List.eq_append_cons_of_mem hi
    have hposition : c.sched.queue.idxOf i = ahead.length := by
      rw [hqueue, List.idxOf_append_of_notMem hnot, List.idxOf_cons_self, Nat.add_zero]
    have hwaits : RoundRobin.Waits i (c.sched.queue.idxOf i) c.sched.tasks := by
      rw [hposition, Scheduler.tasks, hqueue, List.map_append, List.map_cons, hfin]
      exact ⟨_, _, rfl, List.length_map _⟩
    obtain ⟨before, after, c₁, hsplit, hbefore, hafter, hcount, hfirst⟩ :=
      hrun.countdown ComputerAction.isTurn (Computer.Awaits i)
        (fun n c action c' h hstep => awaits_step h hstep) ⟨⟨_, hsharing⟩, hbegun, hwaits⟩ henough
    exact ⟨before, after, c₁, hsplit, hbefore, hafter, hcount, executing_of_awaits hfirst⟩

/-! ### A run -/

/-- Two processes: while one of them executes, the other one waits for one turn. -/
theorem executes_within_second : ∃ (c c' : Computer) (i : Nat) (actions : List ComputerAction),
    (computer.restrict PageLeft).Reachable c ∧ c.executing ≠ some i ∧
    c.sched.queue.idxOf i = 1 ∧ (computer.restrict PageLeft).StepsFrom c actions c' ∧
    ∃ before after c₁, actions = before ++ after ∧
      (computer.restrict PageLeft).StepsFrom c before c₁ ∧
      before.countP ComputerAction.isTurn ≤ 1 ∧ c₁.executing = some i := by
  obtain ⟨c, i, j, hreach, hqueue, hij, hfini, hfinj, hfree, hroom⟩ := computer_twoProcesses
  have hsharing := sharing_reachable hreach
  rw [hqueue] at hsharing
  obtain ⟨mem, c₁, hturn₁, hfree₁, hsharing₁, hexec₁, hfin₁⟩ := hsharing.exists_turn hfree hroom
  have hnext : nextQueue c.sched [i, j] = [j, i] := by simp [nextQueue, hfinj]
  rw [hnext] at hsharing₁ hexec₁
  obtain ⟨c₂, hexecute, htasks, hsharing₂, hroom₂⟩ := hsharing₁.computes hexec₁ Cpu.zero
  have hfree₂ : c₂.pages.free ≠ [] := htasks ▸ hfree₁
  obtain ⟨mem', c₃, hturn₃, -⟩ := hsharing₂.exists_turn hfree₂ hroom₂
  have hreach₁ : (computer.restrict PageLeft).Reachable c₁ := .step _ hreach ⟨hfree, hturn₁⟩
  have hrun : (computer.restrict PageLeft).StepsFrom c₁ [.execute j _ c₁.mem, .nextProcess mem']
      c₃ := .cons _ _ ⟨hfree₁, hexecute⟩ (.cons _ _ ⟨hfree₂, hturn₃⟩ (.nil _))
  have hposition : c₁.sched.queue.idxOf i = 1 := by
    rw [hsharing₁.housed.queue_eq]
    simp [Ne.symm hij]
  have hbegun : c₁.sched.firstIteration = false := by
    have heq := hsharing₁.executing_eq
    rw [hexec₁] at heq
    by_contra hfirst
    simp [hfirst] at heq
  obtain ⟨-, before, after, c', hsplit, hbefore, -, hcount, hexec⟩ :=
    executes_within hreach₁ hbegun (by rw [hsharing₁.housed.queue_eq]; simp)
      ((hfin₁ i).trans hfini) hrun (by rw [hposition]; exact Nat.le_refl 1)
  refine ⟨c₁, c₃, i, _, hreach₁, ?_, hposition, hrun, before, after, c', hsplit, hbefore,
    hposition ▸ hcount, hexec⟩
  rw [hexec₁]
  exact fun heq => hij (Option.some.inj heq).symm

end TP2Kernel
