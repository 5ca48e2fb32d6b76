import Mathlib.Data.List.Basic

/-! # Labelled transition systems

    A system is an initial-state predicate and a labelled step relation.
    This module collects what every development over such a system needs:

    * `Reachable` and `StepsFrom`: states and finite runs.
    * The invariant rule, for reachable states and along a run.
    * Bounded waiting: a run whose marked steps count down to a goal.
    * `restrict`: the runs all of whose steps meet a side condition.
    * Simulation: mapping the runs of one system to those of another.
-/

namespace Transition

universe u v w

/-- A labelled transition system. -/
structure System (σ : Type u) (α : Type v) where
  init : σ → Prop
  step : σ → α → σ → Prop

variable {σ : Type u} {α : Type v} {τ : Type w}

namespace System

/-- States reachable from an initial state. -/
inductive Reachable (sys : System σ α) : σ → Prop where
  | init {s} : sys.init s → Reachable sys s
  | step {s s'} (a : α) : Reachable sys s → sys.step s a s' → Reachable sys s'

/-- `StepsFrom s as s'`: the labels `as` take `s` to `s'`. -/
inductive StepsFrom (sys : System σ α) : σ → List α → σ → Prop where
  | nil (s) : StepsFrom sys s [] s
  | cons {s s' s''} (a : α) (as : List α) :
      sys.step s a s' → StepsFrom sys s' as s'' → StepsFrom sys s (a :: as) s''

/-! ### The invariant rule -/

/-- An inductive invariant holds in every reachable state. -/
theorem Reachable.invariant {sys : System σ α} (Inv : σ → Prop)
    (hinit : ∀ s, sys.init s → Inv s)
    (hstep : ∀ s a s', Inv s → sys.step s a s' → Inv s')
    {s : σ} (h : Reachable sys s) : Inv s := by
  induction h with
  | init hi => exact hinit _ hi
  | step a _ hs ih => exact hstep _ a _ ih hs

/-- What one step preserves, a run preserves. -/
theorem StepsFrom.invariant {sys : System σ α} (Inv : σ → Prop)
    (hstep : ∀ s a s', Inv s → sys.step s a s' → Inv s')
    {s s' : σ} {as : List α} (h : StepsFrom sys s as s') (hinv : Inv s) : Inv s' := by
  induction h with
  | nil s => exact hinv
  | cons a as ha _ ih => exact ih (hstep _ a _ hinv ha)

/-- A run from a reachable state ends in a reachable state. -/
theorem Reachable.run {sys : System σ α} {s s' : σ} {as : List α} (h : Reachable sys s)
    (hrun : StepsFrom sys s as s') : Reachable sys s' := by
  induction hrun with
  | nil s => exact h
  | cons a as ha _ ih => exact ih (.step a h ha)

theorem StepsFrom.append {sys : System σ α} {s s' s'' : σ} {as bs : List α}
    (h : StepsFrom sys s as s') (h' : StepsFrom sys s' bs s'') :
    StepsFrom sys s (as ++ bs) s'' := by
  induction h with
  | nil s => exact h'
  | cons a as ha _ ih => exact .cons a _ ha (ih h')

/-! ### Bounded waiting -/

/-- If each marked step brings `s` nearer to a goal that is `n` away, and no other step takes it
    further away, then a run with `n` marked steps passes the goal, after at most `n` of them. -/
theorem StepsFrom.countdown {sys : System σ α} (mark : α → Bool) (Away : Nat → σ → Prop)
    (hstep : ∀ n s a s', Away (n + 1) s → sys.step s a s' →
      ∃ m, Away m s' ∧ m + (if mark a then 1 else 0) ≤ n + 1)
    {s s' : σ} {as : List α} (h : StepsFrom sys s as s') {n : Nat} (hs : Away n s)
    (henough : n ≤ as.countP mark) :
    ∃ bs cs t, as = bs ++ cs ∧ StepsFrom sys s bs t ∧ StepsFrom sys t cs s' ∧
      bs.countP mark ≤ n ∧ Away 0 t := by
  induction h generalizing n with
  | nil s =>
    obtain rfl : n = 0 := by simpa using henough
    exact ⟨[], [], s, rfl, .nil s, .nil s, Nat.le_refl _, hs⟩
  | @cons s s₁ s' a as ha hrest ih =>
    cases n with
    | zero => exact ⟨[], a :: as, s, rfl, .nil s, .cons a as ha hrest, Nat.le_refl _, hs⟩
    | succ n =>
      obtain ⟨m, hm, hle⟩ := hstep n s a s₁ hs ha
      rw [List.countP_cons] at henough
      obtain ⟨bs, cs, t, rfl, hbs, hcs, hcount, ht⟩ := ih hm (by omega)
      refine ⟨a :: bs, cs, t, rfl, .cons a bs ha hbs, hcs, ?_, ht⟩
      rw [List.countP_cons]
      omega

/-! ### Restricted runs -/

/-- The system whose steps also meet `ok`, a condition on the state before the step. -/
def restrict (sys : System σ α) (ok : σ → α → Prop) : System σ α where
  init := sys.init
  step s a s' := ok s a ∧ sys.step s a s'

theorem Reachable.of_restrict {sys : System σ α} {ok : σ → α → Prop} {s : σ}
    (h : Reachable (sys.restrict ok) s) : Reachable sys s := by
  induction h with
  | init hi => exact .init hi
  | step a _ hs ih => exact .step a ih hs.2

theorem StepsFrom.of_restrict {sys : System σ α} {ok : σ → α → Prop} {s s' : σ} {as : List α}
    (h : StepsFrom (sys.restrict ok) s as s') : StepsFrom sys s as s' := by
  induction h with
  | nil s => exact .nil s
  | cons a as ha _ ih => exact .cons a as ha.2 ih

/-! ### Simulation -/

/-- If `f` maps initial states to initial states and every concrete step, taken in a
    state where `Inv` holds, to an abstract step or a stutter, then `f` maps reachable
    states to reachable states. -/
theorem Reachable.map {β : Type v} {conc : System σ α} {abs : System τ β} {f : σ → τ}
    {Inv : σ → Prop}
    (hinv : ∀ s, Reachable conc s → Inv s)
    (hinit : ∀ s, conc.init s → abs.init (f s))
    (hstep : ∀ s a s', Inv s → conc.step s a s' →
      (∃ b, abs.step (f s) b (f s')) ∨ f s' = f s)
    {s : σ} (h : Reachable conc s) : Reachable abs (f s) := by
  induction h with
  | init hi => exact .init (hinit _ hi)
  | step a hr hs ih =>
    rcases hstep _ a _ (hinv _ hr) hs with ⟨b, hb⟩ | heq
    · exact .step b ih hb
    · rw [heq]; exact ih

/-- When every step taken where `Inv` holds is mapped to a step, runs are mapped to runs. -/
theorem StepsFrom.map {β : Type*} {conc : System σ α} {abs : System τ β} {f : σ → τ} {g : α → β}
    {Inv : σ → Prop}
    (hinv : ∀ s a s', Inv s → conc.step s a s' → Inv s')
    (hstep : ∀ s a s', Inv s → conc.step s a s' → abs.step (f s) (g a) (f s'))
    {s s' : σ} {as : List α} (h : StepsFrom conc s as s') (hs : Inv s) :
    StepsFrom abs (f s) (as.map g) (f s') := by
  induction h with
  | nil s => exact .nil _
  | cons a as ha _ ih => exact .cons _ _ (hstep _ a _ hs ha) (ih (hinv _ a _ hs ha))

/-- When every step taken where `Inv` holds is mapped to a step that is seen from outside, or
    to none, runs are mapped to the runs of what is seen. -/
theorem StepsFrom.filterMap {β : Type*} {conc : System σ α} {abs : System τ β} {f : σ → τ}
    {g : α → Option β} {Inv : σ → Prop}
    (hinv : ∀ s a s', Inv s → conc.step s a s' → Inv s')
    (hseen : ∀ s a s' b, Inv s → conc.step s a s' → g a = some b → abs.step (f s) b (f s'))
    (hunseen : ∀ s a s', Inv s → conc.step s a s' → g a = none → f s' = f s)
    {s s' : σ} {as : List α} (h : StepsFrom conc s as s') (hs : Inv s) :
    StepsFrom abs (f s) (as.filterMap g) (f s') := by
  induction h with
  | nil s => exact .nil _
  | @cons s₁ s₂ s₃ a as ha _ ih =>
    have hrest := ih (hinv _ a _ hs ha)
    cases hg : g a with
    | none =>
      rw [List.filterMap_cons_none hg, ← hunseen _ a _ hs ha hg]
      exact hrest
    | some b =>
      rw [List.filterMap_cons_some hg]
      exact .cons _ _ (hseen _ a _ b hs ha hg) hrest

end System

end Transition
