import TP2Kernel.Framework.Transition

/-! # Bounded queues

    A queue of at most `capacity` values: a value is refused when the queue is full, and
    there is none to take when it is empty.
-/

namespace BoundedQueue

open Transition

universe u

variable {α : Type u}

def enqueue (capacity : Nat) (l : List α) (a : α) : Option (List α) :=
  if l.length < capacity then some (l ++ [a]) else none

def dequeue (l : List α) : Option (α × List α) :=
  match l with
  | [] => none
  | a :: rest => some (a, rest)

variable {capacity : Nat} {l : List α} {a : α}

theorem enqueue_of_lt (h : l.length < capacity) (a : α) :
    enqueue capacity l a = some (l ++ [a]) := if_pos h

theorem enqueue_eq_none_iff : enqueue capacity l a = none ↔ capacity ≤ l.length := by
  unfold enqueue
  split <;> simp <;> omega

/-! ### Runs -/

inductive Call (α : Type u) where
  | enqueue (a : α)
  | dequeue

/-- A call that is refused leaves the queue as it is. -/
def afterCall (capacity : Nat) (l : List α) : Call α → List α
  | .enqueue a => (enqueue capacity l a).getD l
  | .dequeue => l.tail

/-- A queue that starts empty. -/
def queue (α : Type u) (capacity : Nat) : System (List α) (Call α) where
  init := fun l => l = []
  step := fun l call l' => l' = afterCall capacity l call

theorem length_afterCall_le (h : l.length ≤ capacity) (call : Call α) :
    (afterCall capacity l call).length ≤ capacity := by
  cases call with
  | enqueue a =>
    show ((enqueue capacity l a).getD l).length ≤ capacity
    by_cases hlt : l.length < capacity
    · rw [enqueue_of_lt hlt, Option.getD_some, List.length_append]
      exact hlt
    · rw [enqueue_eq_none_iff.mpr (Nat.le_of_not_lt hlt)]
      exact h
  | dequeue =>
    show l.tail.length ≤ capacity
    rw [List.length_tail]
    omega

/-- The queue never holds more than it has room for. -/
theorem length_le (h : (queue α capacity).Reachable l) : l.length ≤ capacity := by
  apply h.invariant (fun l => l.length ≤ capacity)
  · intro l hinit
    have hnil : l = [] := hinit
    rw [hnil]
    exact Nat.zero_le capacity
  · intro l call l' hle hstep
    have heq : l' = afterCall capacity l call := hstep
    rw [heq]
    exact length_afterCall_le hle call

end BoundedQueue
