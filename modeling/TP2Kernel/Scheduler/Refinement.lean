import TP2Kernel.Scheduler.Runs

/-! # The scheduler is a round-robin queue

    The ring, in every reachable state, stands for a queue of tasks on which `addProcess`,
    `finishProcess` and `nextProcess` act as the operations of `RoundRobin` do.
-/

namespace TP2Kernel

open Transition Scheduler

variable {t t' : Tasks} {q : List Nat}

theorem TaskInv.tasks_eq (h : TaskInv t q) :
    t.sched.tasks = q.map fun i => ⟨i, t.sched.isFinished i⟩ := by
  rw [Scheduler.tasks, h.queue_eq]

/-- A call of `addProcess` that finds a node enqueues it. -/
theorem addProcess_enqueues (h : TaskInv t q) {a : ProcessParams} {r : Int}
    (hadd : t.addProcess a = some (r, t')) :
    (t' = t ∧ ∀ i, i < MAX_PROCESSES → t.sched.usedNodes i = 1) ∨
    ∃ i, i < MAX_PROCESSES ∧ t.sched.usedNodes i ≠ 1 ∧ i ∉ q ∧
      t'.sched.queue = q ++ [i] ∧
      t'.sched.tasks = RoundRobin.enqueue t.sched.tasks i := by
  cases Tasks.addProcess_added hadd with
  | noNode hfull => exact .inl ⟨rfl, hfull⟩
  | ok i k m hi hfree hcreate =>
    have hnew : i ∉ q := fun hmem => hfree ((h.ring.used i hi).mpr hmem)
    have hqueue := (h.ring.attachNode hi hnew k).queue_eq
    refine .inr ⟨i, hi, hfree, hnew, hqueue, ?_⟩
    have hsame : ∀ j ∈ q, (t.sched.attachNode i k).isFinished j = t.sched.isFinished j := by
      intro j hj
      exact attachNode_isFinished_ne _ _ _ (fun hji : j = i => hnew (hji ▸ hj))
    rw [Scheduler.tasks, hqueue, h.tasks_eq, RoundRobin.enqueue, List.map_append]
    congr 1
    · apply List.map_congr_left
      intro j hj
      rw [hsame j hj]
    · simp

theorem finishProcess_finishes (h : TaskInv t q) :
    t.finishProcess.2.sched.tasks = RoundRobin.finishFront t.sched.tasks := by
  rw [(taskInv_finishProcess h).tasks_eq, h.tasks_eq]
  cases q with
  | nil => rfl
  | cons f q =>
    have hnd := (List.nodup_cons.mp h.ring.ring.nodup).1
    rw [Tasks.finishProcess_eq h.ring h.running]
    simp only [List.map_cons, RoundRobin.finishFront]
    congr 1
    · simp [isFinished]
    · apply List.map_congr_left
      intro i hi
      have hif : i ≠ f := fun hif => hnd (hif ▸ hi)
      simp [isFinished, hif]

theorem nextProcess_next (h : TaskInv t q) (rsp : Addr) :
    ∃ t', t.nextProcess rsp = some (t'.answer t'.sched.queue, t') ∧
      t'.sched.queue = nextQueue t.sched q ∧
      t'.sched.tasks = RoundRobin.next t.sched.tasks := by
  obtain ⟨t', hnext, hinv, hfin⟩ := taskInv_nextProcess h rsp
  refine ⟨t', by rw [hinv.queue_eq]; exact hnext, hinv.queue_eq, ?_⟩
  rw [hinv.tasks_eq, h.tasks_eq, hfin, nextQueue, RoundRobin.next, RoundRobin.sweep,
    ← List.map_rotate, List.dropWhile_map]
  rfl

/-- Calls of `nextProcess` one after the other. -/
theorem nextProcess_iterate (h : TaskInv t t.sched.queue) (n : Nat) :
    ∃ t', scheduling.StepsFrom t (List.replicate n (.nextProcess NULL)) t' ∧
      TaskInv t' t'.sched.queue ∧ t'.sched.tasks = RoundRobin.next^[n] t.sched.tasks := by
  induction n generalizing t with
  | zero => exact ⟨t, .nil t, h, rfl⟩
  | succ n ih =>
    obtain ⟨t₁, hnext, -, htasks⟩ := nextProcess_next h NULL
    have hstep : scheduling.step t (.nextProcess NULL) t₁ := ⟨_, hnext⟩
    obtain ⟨t', hrun, h', htasks'⟩ := ih (taskInv_step _ h hstep)
    refine ⟨t', .cons _ _ hstep hrun, h', ?_⟩
    rw [htasks', htasks, Function.iterate_succ_apply]

/-- A process that has not finished gets the turn again. -/
theorem turn_comes {c : Nat} (h : TaskInv t t.sched.queue) (hc : c ∈ t.sched.queue)
    (hfin : t.sched.isFinished c = false) :
    ∃ n t', scheduling.StepsFrom t (List.replicate n (.nextProcess NULL)) t' ∧
      t'.sched.current = some c := by
  have htask : (⟨c, false⟩ : RoundRobin.Task Nat) ∈ t.sched.tasks :=
    List.mem_map.mpr ⟨c, hc, by rw [hfin]⟩
  obtain ⟨l, r, hsplit⟩ := List.append_of_mem htask
  have hrunning : (⟨c, false⟩ : RoundRobin.Task Nat).finished = false := rfl
  obtain ⟨n, -, hfront⟩ := RoundRobin.comes_to_front hrunning l r
  obtain ⟨t', hrun, h', htasks⟩ := nextProcess_iterate h n
  refine ⟨n, t', hrun, ?_⟩
  rw [← hsplit, ← htasks, Scheduler.tasks, List.head?_map] at hfront
  obtain ⟨i, hi, heq⟩ := Option.map_eq_some_iff.mp hfront
  rw [h'.ring.current_eq h'.running, hi]
  simpa using congrArg RoundRobin.Task.job heq

/-- Between the calls nothing happens to the queue. -/
theorem elsewhere_tasks (h : TaskInv t q) (helse : Elsewhere t t') :
    t'.sched.tasks = t.sched.tasks := by
  obtain ⟨nodes, hs, hnodes⟩ := helse.sched
  rw [(taskInv_elsewhere h helse).tasks_eq, h.tasks_eq]
  apply List.map_congr_left
  intro i _
  simp [isFinished, hs, (hnodes i).2.2.2]

/-- The scheduler refines the round-robin queue. -/
theorem scheduling_refines (h : scheduling.Reachable t) :
    (RoundRobin.system Nat).Reachable t.sched.tasks := by
  refine h.map (f := fun t : Tasks => t.sched.tasks) (fun _ => tasks_inv) ?_ ?_
  · intro t h
    obtain ⟨mem, pages, entries, nodes, hboot⟩ := h
    exact (taskInv_boot hboot).tasks_eq
  · intro t action t' hinv hstep
    cases action with
    | addProcess a =>
      obtain ⟨-, r, hadd⟩ := hstep
      obtain ⟨rfl, -⟩ | ⟨i, -, -, hnew, -, htasks⟩ := addProcess_enqueues hinv hadd
      · exact .inr rfl
      · refine .inl ⟨.enqueue i, ?_, htasks⟩
        rintro task htask rfl
        obtain ⟨j, hj, rfl⟩ := List.mem_map.mp htask
        exact hnew hj
    | finishProcess =>
      obtain rfl := hstep
      exact .inl ⟨.finishFront, finishProcess_finishes hinv⟩
    | nextProcess currentRSP =>
      obtain ⟨rsp, hnext⟩ := hstep
      obtain ⟨t'', hnext', -, htasks⟩ := nextProcess_next hinv currentRSP
      rw [hnext] at hnext'
      obtain rfl := (Prod.mk.inj (Option.some.inj hnext')).2
      exact .inl ⟨.next, htasks⟩
    | other => exact .inr (elsewhere_tasks hinv hstep)

/-! ### The first process -/

/-- The caller stores letters and the `argv` that leads to them. -/
def Tasks.withLetters (t : Tasks) (n : Nat) : Tasks :=
  { t with mem := fun x => if 0x1000 ≤ x.toNat ∧ x.toNat ≤ 0x2000 + n then
      (Machine.withLetters n).mem x else t.mem x }

end TP2Kernel
