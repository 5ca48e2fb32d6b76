import Mathlib.Algebra.BigOperators.Group.Finset.Basic
import Mathlib.Algebra.Order.BigOperators.Group.Finset
import Mathlib.Data.Fintype.Basic

/-! # Ledgers

    Finitely many owners hold things of one pool.  A transfer between some of them that
    leaves what these hold together as it was leaves the total as it was; and when the
    total is the pool, each thing of the pool has exactly one owner.
-/

namespace Ledger

universe u v

variable {ι : Type u} {α : Type v} [Fintype ι]

/-- What all owners hold together. -/
def total (holds : ι → Multiset α) : Multiset α := ∑ i, holds i

variable {holds holds' : ι → Multiset α} {pool : Multiset α} {a : α} {i j : ι}

theorem mem_total : a ∈ total holds ↔ ∃ i, a ∈ holds i := by
  simp [total, Multiset.mem_sum]

theorem holds_le_total (holds : ι → Multiset α) (i : ι) : holds i ≤ total holds :=
  Finset.single_le_sum (fun _ _ => Multiset.zero_le _) (Finset.mem_univ i)

/-- **Transfer**: the owners of `S` have together what they had, the others are not
    concerned. -/
theorem total_transfer [DecidableEq ι] (S : Finset ι) (hout : ∀ i ∉ S, holds' i = holds i)
    (hin : ∑ i ∈ S, holds' i = ∑ i ∈ S, holds i) : total holds' = total holds := by
  have hrest : ∑ i ∈ Finset.univ \ S, holds' i = ∑ i ∈ Finset.univ \ S, holds i := by
    apply Finset.sum_congr rfl
    intro i hi
    exact hout i (Finset.mem_sdiff.mp hi).2
  unfold total
  rw [← Finset.sum_sdiff (Finset.subset_univ S), hrest, hin,
    Finset.sum_sdiff (Finset.subset_univ S)]

/-- A transfer between two owners. -/
theorem total_transfer_pair [DecidableEq ι] (hij : i ≠ j)
    (hout : ∀ k, k ≠ i → k ≠ j → holds' k = holds k)
    (hin : holds' i + holds' j = holds i + holds j) : total holds' = total holds := by
  apply total_transfer {i, j}
  · intro k hk
    rw [Finset.mem_insert, Finset.mem_singleton, not_or] at hk
    exact hout k hk.1 hk.2
  · rw [Finset.sum_pair hij, Finset.sum_pair hij]
    exact hin

/-- The owners hold the things of the pool, and the pool has each of them once. -/
structure Balanced (holds : ι → Multiset α) (pool : Multiset α) : Prop where
  total : total holds = pool
  nodup : pool.Nodup

namespace Balanced

theorem holds_nodup (h : Balanced holds pool) (i : ι) : (holds i).Nodup := by
  have hle := holds_le_total holds i
  rw [h.total] at hle
  exact Multiset.nodup_of_le hle h.nodup

theorem mem_pool (h : Balanced holds pool) (ha : a ∈ holds i) : a ∈ pool := by
  rw [← h.total]
  exact mem_total.mpr ⟨i, ha⟩

theorem disjoint (h : Balanced holds pool) (hij : i ≠ j) (ha : a ∈ holds i) : a ∉ holds j := by
  classical
  have hpair : holds i + holds j ≤ Ledger.total holds := by
    rw [← Finset.sum_pair hij]
    exact Finset.sum_le_sum_of_subset (Finset.subset_univ _)
  rw [h.total] at hpair
  have hnd := Multiset.nodup_of_le hpair h.nodup
  exact Multiset.disjoint_left.mp (Multiset.nodup_add.mp hnd).2.2 ha

/-- **One owner each.** -/
theorem mem_pool_iff (h : Balanced holds pool) : a ∈ pool ↔ ∃! i, a ∈ holds i := by
  rw [← h.total, mem_total]
  constructor
  · rintro ⟨i, hi⟩
    refine ⟨i, hi, ?_⟩
    intro j hj
    by_contra hji
    exact h.disjoint hji hj hi
  · rintro ⟨i, hi, -⟩
    exact ⟨i, hi⟩

/-- Nothing is lost in number. -/
theorem card (h : Balanced holds pool) : ∑ i, (holds i).card = pool.card := by
  rw [← h.total, Ledger.total, Multiset.card_sum]

end Balanced

end Ledger
