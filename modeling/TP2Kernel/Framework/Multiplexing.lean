import TP2Kernel.Framework.Transition

/-! # One processor for several parties

    The parties take turns on one processor, and each has a context.  A party changes its
    own context, when it has the turn; a change of the turn changes none.

    * `system`: parties join, leave, compute and pass the turn on, in any order.
    * `context_of_run`: at the end of any run a party has the context that it computed
      last, whatever the others did in between.
-/

namespace Multiplexing

open Transition

variable {P C : Type*}

/-- Who is there, who has the turn and the contexts. -/
structure Processor (P C : Type*) where
  present : P → Prop
  turn : Option P
  context : P → C

inductive Use (P C : Type*) where
  /-- The party that has the turn computes, up to a context. -/
  | run (p : P) (c : C)
  | pass
  /-- Parties join, or none does. -/
  | join
  | leave (p : P)

/-- The contexts of those present, except those of `changed`, stay. -/
def Keeps (s s' : Processor P C) (changed : P → Prop) : Prop :=
  ∀ p, s.present p → ¬ changed p → s'.context p = s.context p

/-- The processor with its parties.  Nothing is said of the context of a party that joins,
    nor of one that has left. -/
def system (P C : Type*) : System (Processor P C) (Use P C) where
  init := fun s => ∀ p, ¬ s.present p
  step := fun s use s' =>
    match use with
    | .run p c => s.turn = some p ∧ s'.turn = some p ∧ s'.context p = c ∧
        (∀ q, s'.present q ↔ s.present q) ∧ Keeps s s' (· = p)
    | .pass => (∀ q, s'.present q ↔ s.present q) ∧ Keeps s s' fun _ => False
    | .join => s'.turn = s.turn ∧ (∃ new : P → Prop, (∀ p, new p → ¬ s.present p) ∧
        ∀ q, s'.present q ↔ s.present q ∨ new q) ∧ Keeps s s' fun _ => False
    | .leave p => s'.turn = s.turn ∧ (∀ q, s'.present q ↔ s.present q ∧ q ≠ p) ∧
        Keeps s s' (· = p)

/-- The contexts that `p` computes. -/
def computed [DecidableEq P] (p : P) (uses : List (Use P C)) : List C :=
  uses.filterMap fun
    | .run q c => if q = p then some c else none
    | _ => none

section
variable [DecidableEq P] {s s' : Processor P C} {p : P}

/-- One step: a party that does not leave has its context, or the one it computes. -/
theorem context_of_step {use : Use P C} (h : (system P C).step s use s') (hp : s.present p)
    (hstay : use ≠ .leave p) :
    s'.present p ∧ s'.context p = (computed p [use]).getLastD (s.context p) := by
  cases use with
  | run q c =>
    obtain ⟨-, -, hc, hpresent, hkeeps⟩ := h
    refine ⟨(hpresent p).mpr hp, ?_⟩
    by_cases hqp : q = p
    · subst hqp
      simpa [computed] using hc
    · simpa [computed, hqp] using hkeeps p hp (Ne.symm hqp)
  | pass =>
    obtain ⟨hpresent, hkeeps⟩ := h
    exact ⟨(hpresent p).mpr hp, hkeeps p hp id⟩
  | join =>
    obtain ⟨-, ⟨q, -, hpresent⟩, hkeeps⟩ := h
    exact ⟨(hpresent p).mpr (.inl hp), hkeeps p hp id⟩
  | leave q =>
    obtain ⟨-, hpresent, hkeeps⟩ := h
    have hpq : p ≠ q := by
      rintro rfl
      exact hstay rfl
    exact ⟨(hpresent p).mpr ⟨hp, hpq⟩, hkeeps p hp hpq⟩

/-- A run: what the others do does not show. -/
theorem context_of_run {uses : List (Use P C)} (h : (system P C).StepsFrom s uses s')
    (hp : s.present p) (hstay : .leave p ∉ uses) :
    s'.present p ∧ s'.context p = (computed p uses).getLastD (s.context p) := by
  induction h with
  | nil s => exact ⟨hp, rfl⟩
  | @cons s s₁ s' use uses hstep _ ih =>
    rw [List.mem_cons, not_or] at hstay
    obtain ⟨hp₁, hc₁⟩ := context_of_step hstep hp (Ne.symm hstay.1)
    obtain ⟨hp', hc'⟩ := ih hp₁ hstay.2
    refine ⟨hp', ?_⟩
    have hsplit : computed p (use :: uses) = computed p [use] ++ computed p uses := by
      rw [computed, computed, computed, ← List.filterMap_append]
      rfl
    rw [hc', hc₁, hsplit]
    cases hrest : computed p uses with
    | nil => rw [List.append_nil]; rfl
    | cons c cs => simp [List.getLastD_eq_getLast?, List.getLast?_append]

end

end Multiplexing
