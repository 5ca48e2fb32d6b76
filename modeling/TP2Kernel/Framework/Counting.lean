import Mathlib.Algebra.BigOperators.Group.Finset.Sigma
import Mathlib.Algebra.BigOperators.Ring.Finset
import Mathlib.Data.Finset.Card
import Mathlib.Order.Interval.Finset.Nat

/-! # Counting entries of a table

    `count p n` is the number of indices below `n` that meet `p`.  A table is a function
    from indices to entries; the lemmas say how the count follows one write to it.
-/

namespace Counting

section
variable {p q : Nat → Prop} [DecidablePred p] [DecidablePred q] {n : Nat}

def count (p : Nat → Prop) [DecidablePred p] (n : Nat) : Nat :=
  ((Finset.range n).filter p).card

theorem count_congr (h : ∀ i, i < n → (p i ↔ q i)) : count p n = count q n := by
  unfold count
  congr 1
  apply Finset.filter_congr
  intro i hi
  exact h i (Finset.mem_range.mp hi)

theorem count_le : count p n ≤ n := by
  have := Finset.card_filter_le (Finset.range n) p
  rwa [Finset.card_range] at this

theorem count_pos_iff : 0 < count p n ↔ ∃ i, i < n ∧ p i := by
  unfold count
  rw [Finset.card_pos]
  constructor
  · intro h
    obtain ⟨i, hi⟩ := h
    rw [Finset.mem_filter, Finset.mem_range] at hi
    exact ⟨i, hi⟩
  · intro h
    obtain ⟨i, hi⟩ := h
    exact ⟨i, by rwa [Finset.mem_filter, Finset.mem_range]⟩

theorem count_eq_zero_iff : count p n = 0 ↔ ∀ i, i < n → ¬ p i := by
  have h := count_pos_iff (p := p) (n := n)
  constructor
  · intro h0 i hi hp
    have := h.mpr ⟨i, hi, hp⟩
    omega
  · intro hall
    by_contra hne
    obtain ⟨i, hi, hp⟩ := h.mp (Nat.pos_of_ne_zero hne)
    exact hall i hi hp

/-- When not all indices are counted, one is left. -/
theorem exists_of_count_lt (h : count p n < n) : ∃ i, i < n ∧ ¬ p i := by
  by_contra hall
  have heq : (Finset.range n).filter p = Finset.range n := by
    apply Finset.filter_true_of_mem
    intro i hi
    by_contra hp
    exact hall ⟨i, Finset.mem_range.mp hi, hp⟩
  unfold count at h
  rw [heq, Finset.card_range] at h
  exact Nat.lt_irrefl n h

theorem count_lt_iff : count p n < n ↔ ∃ i, i < n ∧ ¬ p i := by
  constructor
  · exact exists_of_count_lt
  · intro h
    obtain ⟨i, hi, hp⟩ := h
    have hlt : ((Finset.range n).filter p).card < (Finset.range n).card := by
      apply Finset.card_lt_card
      exact Finset.filter_ssubset.mpr ⟨i, Finset.mem_range.mpr hi, hp⟩
    rwa [Finset.card_range] at hlt

/-- At most one index is counted when any two of them are equal. -/
theorem count_le_one (h : ∀ i j, i < n → j < n → p i → p j → i = j) : count p n ≤ 1 := by
  apply Finset.card_le_one.mpr
  intro i hi j hj
  rw [Finset.mem_filter, Finset.mem_range] at hi hj
  exact h i j hi.1 hj.1 hi.2 hj.2

/-- Of more values than there are counted indices, one is at none of them. -/
theorem exists_unmatched {β : Type*} {f g : Nat → β}
    (hinj : ∀ j k, j ≤ count p n → k ≤ count p n → f j = f k → j = k) :
    ∃ j, j ≤ count p n ∧ ∀ i, i < n → p i → g i ≠ f j := by
  by_contra hall
  have hmatch : ∀ j : Fin (count p n + 1), ∃ i, i ∈ (Finset.range n).filter p ∧ g i = f j := by
    intro j
    by_contra hno
    refine hall ⟨j, Nat.le_of_lt_succ j.isLt, ?_⟩
    intro i hi hp heq
    exact hno ⟨i, Finset.mem_filter.mpr ⟨Finset.mem_range.mpr hi, hp⟩, heq⟩
  choose slot hmem heq using hmatch
  -- two values cannot share an index
  obtain ⟨j, -, k, -, hne, hslot⟩ := Finset.exists_ne_map_eq_of_card_lt_of_maps_to
    (s := Finset.univ) (t := (Finset.range n).filter p) (f := slot)
    (by rw [Finset.card_fin]; exact Nat.lt_succ_self _) (fun j _ => hmem j)
  have hjk : f j = f k := by rw [← heq j, hslot, heq k]
  exact hne (Fin.ext (hinj j k (Nat.le_of_lt_succ j.isLt) (Nat.le_of_lt_succ k.isLt) hjk))

end

/-- Counting the entries of all rows of a table, row by row. -/
theorem card_product_filter (p : Nat → Nat → Prop) [∀ i, DecidablePred (p i)] (m n : Nat) :
    ((Finset.range m ×ˢ Finset.range n).filter fun x => p x.1 x.2).card =
      ∑ i ∈ Finset.range m, count (p i) n := by
  rw [Finset.card_filter, Finset.sum_product]
  apply Finset.sum_congr rfl
  intro i _
  rw [count, Finset.card_filter]

/-! ### One write to a table -/

section
variable {β : Type*} (p : β → Prop) [DecidablePred p] (f : Nat → β) {n a : Nat} (b : β)

theorem count_update (ha : a < n) :
    count (fun i => p (Function.update f a b i)) n + (if p (f a) then 1 else 0) =
      count (fun i => p (f i)) n + (if p b then 1 else 0) := by
  have hmem : a ∈ Finset.range n := Finset.mem_range.mpr ha
  have hother : ∀ i ∈ (Finset.range n).erase a,
      (if p (Function.update f a b i) then 1 else 0) = (if p (f i) then 1 else 0) := by
    intro i hi
    rw [Function.update_of_ne (Finset.ne_of_mem_erase hi)]
  have hnew := Finset.add_sum_erase (Finset.range n)
    (fun i => if p (Function.update f a b i) then 1 else 0) hmem
  have hold := Finset.add_sum_erase (Finset.range n) (fun i => if p (f i) then 1 else 0) hmem
  rw [Finset.sum_congr rfl hother] at hnew
  simp only [Function.update_self] at hnew
  simp only [count, Finset.card_filter]
  omega

/-- An index that was not counted now is. -/
theorem count_update_set (ha : a < n) (hold : ¬ p (f a)) (hnew : p b) :
    count (fun i => p (Function.update f a b i)) n = count (fun i => p (f i)) n + 1 := by
  have := count_update p f b ha
  simpa [hold, hnew] using this

/-- An index that was counted no longer is. -/
theorem count_update_clear (ha : a < n) (hold : p (f a)) (hnew : ¬ p b) :
    count (fun i => p (Function.update f a b i)) n + 1 = count (fun i => p (f i)) n := by
  have := count_update p f b ha
  simpa [hold, hnew] using this

end

end Counting
