import Mathlib.Data.Set.Lattice

/-! # Painting

    A function that is changed at one place after the other, where what a place gets
    depends on the place alone.  Then the order of the changes does not matter, nor that a
    place is painted twice: all that counts is the set of the places.
-/

namespace Painting

universe u v

variable {α : Type u} {β : Type v}

/-- `f'` is `f` with the places of `S` painted in the colours of `c`. -/
structure Paints (c : α → β) (S : Set α) (f f' : α → β) : Prop where
  painted : ∀ x ∈ S, f' x = c x
  kept : ∀ x ∉ S, f' x = f x

variable {c : α → β} {S T : Set α} {f f' f'' : α → β}

theorem Paints.empty (c : α → β) (f : α → β) : Paints c ∅ f f :=
  ⟨fun _ h => absurd h (Set.notMem_empty _), fun _ _ => rfl⟩

theorem Paints.update [DecidableEq α] (c : α → β) (f : α → β) (a : α) :
    Paints c {a} f (Function.update f a (c a)) := by
  constructor
  · rintro x rfl
    exact Function.update_self ..
  · intro x hx
    exact Function.update_of_ne hx ..

theorem Paints.trans (h : Paints c S f f') (h' : Paints c T f' f'') : Paints c (S ∪ T) f f'' := by
  constructor
  · intro x hx
    by_cases hT : x ∈ T
    · exact h'.painted x hT
    · rw [h'.kept x hT]
      exact h.painted x (hx.resolve_right hT)
  · intro x hx
    rw [Set.mem_union, not_or] at hx
    rw [h'.kept x hx.2, h.kept x hx.1]

theorem Paints.foldl {step : (α → β) → Nat → α → β} {S : Nat → Set α} {n : Nat}
    (h : ∀ i < n, ∀ f, Paints c (S i) f (step f i)) (f : α → β) :
    Paints c {x | ∃ i < n, x ∈ S i} f ((List.range n).foldl step f) := by
  induction n with
  | zero =>
    have hnone : {x | ∃ i < 0, x ∈ S i} = ∅ := by simp
    rw [hnone]
    exact .empty c f
  | succ n ih =>
    have hunion : {x | ∃ i < n + 1, x ∈ S i} = {x | ∃ i < n, x ∈ S i} ∪ S n := by
      ext x
      simp only [Set.mem_ofPred_eq, Set.mem_union, Nat.lt_succ_iff_lt_or_eq]
      constructor
      · rintro ⟨i, hi | rfl, hx⟩
        · exact .inl ⟨i, hi, hx⟩
        · exact .inr hx
      · rintro (⟨i, hi, hx⟩ | hx)
        · exact ⟨i, .inl hi, hx⟩
        · exact ⟨n, .inr rfl, hx⟩
    rw [hunion, List.range_succ, List.foldl_append]
    exact (ih fun i hi => h i (Nat.lt_succ_of_lt hi)).trans (h n (Nat.lt_succ_self n) _)

end Painting
