import Mathlib.Data.List.Rotate
import Mathlib.Data.List.TakeWhile
import TP2Kernel.Framework.Transition

/-! # Round robin with deferred removal

    A queue of tasks that take turns.  The front has the turn; it may finish, but a
    finished task leaves the queue only when it reaches the front again.

    * `enqueue`, `finishFront`: a task joins at the back; the front finishes.
    * `next`: the front goes to the back and the finished tasks now in front leave.
    * `comes_to_front`: every task that has not finished gets the turn.
    * `system`: the queue under any sequence of these.
    * `Waits.step`: nobody who waits is overtaken.
-/

namespace RoundRobin

variable {α : Type*}

/-- A task of the queue and whether it has finished. -/
structure Task (α : Type*) where
  job : α
  finished : Bool
  deriving DecidableEq

def enqueue (q : List (Task α)) (job : α) : List (Task α) := q ++ [⟨job, false⟩]

def finishFront : List (Task α) → List (Task α)
  | [] => []
  | task :: q => { task with finished := true } :: q

/-- The finished tasks in front leave. -/
def sweep (q : List (Task α)) : List (Task α) := q.dropWhile (·.finished)

def next (q : List (Task α)) : List (Task α) := sweep (q.rotate 1)

/-- A task that has not finished moves up by one or more. -/
theorem next_cons_append {task : Task α} (hfin : task.finished = false) (front : Task α)
    (l r : List (Task α)) :
    next (front :: l ++ task :: r) = sweep l ++ task :: (r ++ [front]) := by
  induction l with
  | nil => simp [next, sweep, hfin]
  | cons first l ih =>
    simp only [next, sweep, List.cons_append, List.rotate_cons_succ, List.rotate_zero,
      List.append_assoc, List.dropWhile_cons] at ih ⊢
    split
    · exact ih
    · rfl

/-- A task that has not finished is in front after as many turns as there are tasks ahead
    of it, or earlier. -/
theorem comes_to_front {task : Task α} (hfin : task.finished = false) (l r : List (Task α)) :
    ∃ n, n ≤ l.length ∧ (next^[n] (l ++ task :: r)).head? = some task := by
  induction hlen : l.length using Nat.strong_induction_on generalizing l r with
  | _ len ih =>
    cases l with
    | nil => exact ⟨0, Nat.zero_le _, rfl⟩
    | cons front l =>
      have hsweep : (sweep l).length ≤ l.length := (List.dropWhile_sublist _).length_le
      simp only [List.length_cons] at hlen
      obtain ⟨n, hn, hfront⟩ := ih _ (by omega) (sweep l) (r ++ [front]) rfl
      refine ⟨n + 1, by omega, ?_⟩
      rw [Function.iterate_succ_apply, next_cons_append hfin]
      exact hfront

inductive Op (α : Type*) where
  | enqueue (job : α)
  | finishFront
  | next

/-- The queue at work: a job joins only while it is not in the queue. -/
def system (α : Type*) : Transition.System (List (Task α)) (Op α) where
  init := fun q => q = []
  step := fun q op q' =>
    match op with
    | .enqueue job => (∀ task ∈ q, task.job ≠ job) ∧ q' = enqueue q job
    | .finishFront => q' = finishFront q
    | .next => q' = next q

/-! ### Nobody is overtaken -/

/-- `n` tasks are ahead of the job, which has not finished. -/
def Waits (job : α) (n : Nat) (q : List (Task α)) : Prop :=
  ∃ l r, q = l ++ ⟨job, false⟩ :: r ∧ l.length = n

theorem waits_zero {job : α} {q : List (Task α)} (h : Waits job 0 q) :
    q.head? = some ⟨job, false⟩ := by
  obtain ⟨l, r, rfl, hl⟩ := h
  rw [List.eq_nil_of_length_eq_zero hl]
  rfl

/-- A job waits for those ahead of it, and `next` takes at least one away. -/
theorem Waits.step {job : α} {n : Nat} {q q' : List (Task α)} {op : Op α}
    (h : Waits job (n + 1) q) (hstep : (system α).step q op q') :
    ∃ m, Waits job m q' ∧ m + (match op with | .next => 1 | _ => 0) ≤ n + 1 := by
  obtain ⟨l, r, rfl, hl⟩ := h
  cases l with
  | nil => cases hl
  | cons front l =>
    cases op with
    -- the newcomer is behind
    | enqueue other =>
      obtain ⟨-, rfl⟩ := hstep
      exact ⟨n + 1, ⟨front :: l, r ++ [⟨other, false⟩], by simp [enqueue], hl⟩, Nat.le_refl _⟩
    | finishFront =>
      obtain rfl := hstep
      exact ⟨n + 1, ⟨{ front with finished := true } :: l, r, rfl, hl⟩, Nat.le_refl _⟩
    | next =>
      obtain rfl := hstep
      have hsweep : (sweep l).length ≤ l.length := (List.dropWhile_sublist _).length_le
      rw [List.length_cons] at hl
      refine ⟨_, ⟨sweep l, r ++ [front], next_cons_append rfl front l r, rfl⟩, ?_⟩
      show (sweep l).length + 1 ≤ n + 1
      omega

end RoundRobin
