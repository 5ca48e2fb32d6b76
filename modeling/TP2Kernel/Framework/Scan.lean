import Mathlib.Data.Finset.Card
import Mathlib.Order.Interval.Finset.Nat

/-! # Linear searches in tables

    Two idioms of table code:

    * `scan p n`: the loop `while (i < n && !p(i)) i++`, ending at the first index that
      meets `p`, or at `n`.
    * `countedScan live p num n`: the loop that stops after it has seen `num` live entries,
      and returns the first live one that meets `p`.

    The second finds what is there exactly when `num` is the number of live entries.
-/

namespace Scan

/-! ## First match -/

section scan
variable {p : Nat → Prop} [DecidablePred p]

def scanFrom (p : Nat → Prop) [DecidablePred p] (i : Nat) : Nat → Nat
  | 0 => i
  | fuel + 1 => if p i then i else scanFrom p (i + 1) fuel

/-- The first `i < n` with `p i`, or `n`. -/
def scan (p : Nat → Prop) [DecidablePred p] (n : Nat) : Nat :=
  scanFrom p 0 n

theorem scanFrom_spec (i fuel : Nat) :
    i ≤ scanFrom p i fuel ∧ scanFrom p i fuel ≤ i + fuel ∧
    (scanFrom p i fuel < i + fuel → p (scanFrom p i fuel)) ∧
    ∀ j, i ≤ j → j < scanFrom p i fuel → ¬ p j := by
  induction fuel generalizing i with
  | zero => simp [scanFrom]; omega
  | succ fuel ih =>
    obtain ⟨hlo, hhi, hmatch, hbefore⟩ := ih (i + 1)
    by_cases hp : p i
    · simp [scanFrom, hp]; omega
    · simp only [scanFrom, if_neg hp]
      refine ⟨by omega, by omega, fun hlt => hmatch (by omega), ?_⟩
      intro j hij hj
      by_cases hji : j = i
      · rwa [hji]
      · exact hbefore j (by omega) hj

theorem scan_le (n : Nat) : scan p n ≤ n := by
  have := (scanFrom_spec (p := p) 0 n).2.1
  simpa [scan] using this

theorem scan_match {n : Nat} (h : scan p n < n) : p (scan p n) :=
  (scanFrom_spec (p := p) 0 n).2.2.1 (by simpa [scan] using h)

theorem not_of_lt_scan {n j : Nat} (h : j < scan p n) : ¬ p j :=
  (scanFrom_spec (p := p) 0 n).2.2.2 j (Nat.zero_le j) h

theorem scan_lt_iff {n : Nat} : scan p n < n ↔ ∃ j, j < n ∧ p j := by
  constructor
  · intro h
    exact ⟨_, h, scan_match h⟩
  · intro h
    obtain ⟨j, hj, hp⟩ := h
    by_contra hge
    exact not_of_lt_scan (Nat.lt_of_lt_of_le hj (Nat.le_of_not_lt hge)) hp

theorem scan_eq_iff_none {n : Nat} : scan p n = n ↔ ∀ j, j < n → ¬ p j := by
  have hle := scan_le (p := p) n
  constructor
  · intro h j hj
    exact not_of_lt_scan (h.symm ▸ hj)
  · intro h
    by_contra hne
    have hlt : scan p n < n := by omega
    exact h _ hlt (scan_match hlt)

end scan

/-! ## First match among a known number of live entries -/

section countedScan
variable {live p : Nat → Prop} [DecidablePred live] [DecidablePred p]

def countedScanFrom (live p : Nat → Prop) [DecidablePred live] [DecidablePred p]
    (num i checked : Nat) : Nat → Option Nat
  | 0 => none
  | fuel + 1 =>
    if checked < num then
      if live i then
        if p i then some i else countedScanFrom live p num (i + 1) (checked + 1) fuel
      else countedScanFrom live p num (i + 1) checked fuel
    else none

/-- The first live `i < n` with `p i` among the first `num` live entries. -/
def countedScan (live p : Nat → Prop) [DecidablePred live] [DecidablePred p]
    (num n : Nat) : Option Nat :=
  countedScanFrom live p num 0 0 n

theorem countedScanFrom_some {num i checked fuel k : Nat}
    (h : countedScanFrom live p num i checked fuel = some k) :
    i ≤ k ∧ k < i + fuel ∧ live k ∧ p k ∧ ∀ j, i ≤ j → j < k → ¬ (live j ∧ p j) := by
  induction fuel generalizing i checked with
  | zero => simp [countedScanFrom] at h
  | succ fuel ih =>
    simp only [countedScanFrom] at h
    split at h
    · split at h
      · next hlive =>
        split at h
        · next hp =>
          obtain rfl := Option.some.inj h
          exact ⟨le_rfl, by omega, hlive, hp, fun j hij hjk => by omega⟩
        · next hp =>
          obtain ⟨hlo, hhi, hl, hpk, hfirst⟩ := ih h
          refine ⟨by omega, by omega, hl, hpk, ?_⟩
          intro j hij hjk
          by_cases hji : j = i
          · intro h
            obtain ⟨-, hpj⟩ := h
            exact hp (hji ▸ hpj)
          · exact hfirst j (by omega) hjk
      · next hlive =>
        obtain ⟨hlo, hhi, hl, hpk, hfirst⟩ := ih h
        refine ⟨by omega, by omega, hl, hpk, ?_⟩
        intro j hij hjk
        by_cases hji : j = i
        · intro h
          obtain ⟨hlj, -⟩ := h
          exact hlive (hji ▸ hlj)
        · exact hfirst j (by omega) hjk
    · cases h

/-- A match is found when there are no more live entries up to it than are to be seen. -/
theorem countedScanFrom_complete {num i checked fuel k : Nat}
    (hnum : ((Finset.Ico i (k + 1)).filter live).card + checked ≤ num)
    (hik : i ≤ k) (hk : k < i + fuel) (hlive : live k) (hp : p k) :
    (countedScanFrom live p num i checked fuel).isSome := by
  induction fuel generalizing i checked with
  | zero => omega
  | succ fuel ih =>
    have hsplit : Finset.Ico i (k + 1) = insert i (Finset.Ico (i + 1) (k + 1)) := by
      ext j
      simp only [Finset.mem_Ico, Finset.mem_insert]
      omega
    have hmem : k ∈ (Finset.Ico i (k + 1)).filter live := by
      simp only [Finset.mem_filter, Finset.mem_Ico]
      exact ⟨⟨hik, Nat.lt_succ_self k⟩, hlive⟩
    have hpos := Finset.card_pos.mpr ⟨k, hmem⟩
    have hlt : checked < num := by omega
    rw [hsplit, Finset.filter_insert] at hnum
    simp only [countedScanFrom, if_pos hlt]
    by_cases hi : live i
    · have hni : i ∉ (Finset.Ico (i + 1) (k + 1)).filter live := by
        simp only [Finset.mem_filter, Finset.mem_Ico]
        omega
      rw [if_pos hi, Finset.card_insert_of_notMem hni] at hnum
      by_cases hpi : p i
      · simp [hi, hpi]
      · have hne : i ≠ k := fun h => hpi (h ▸ hp)
        simp only [if_pos hi, if_neg hpi]
        exact ih (by omega) (by omega) (by omega)
    · have hne : i ≠ k := fun h => hi (h ▸ hlive)
      rw [if_neg hi] at hnum
      simp only [if_neg hi]
      exact ih hnum (by omega) (by omega)

theorem countedScan_isSome {num n k : Nat}
    (hnum : ((Finset.range (k + 1)).filter live).card ≤ num)
    (hk : k < n) (hlive : live k) (hp : p k) : (countedScan live p num n).isSome := by
  apply countedScanFrom_complete (k := k) ?_ (Nat.zero_le k) (by omega) hlive hp
  rwa [← Finset.range_eq_Ico, Nat.add_zero]

theorem countedScan_some {num n k : Nat} (h : countedScan live p num n = some k) :
    k < n ∧ live k ∧ p k ∧ ∀ j, j < k → ¬ (live j ∧ p j) := by
  obtain ⟨-, hk, hl, hp, hfirst⟩ := countedScanFrom_some h
  exact ⟨by omega, hl, hp, fun j hj => hfirst j (Nat.zero_le j) hj⟩

/-- When every entry counts as live, nothing from the `num`-th on is seen. -/
theorem countedScanFrom_lt {num i checked fuel k : Nat} (hall : ∀ j, live j)
    (h : countedScanFrom live p num i checked fuel = some k) : k + checked < i + num := by
  induction fuel generalizing i checked with
  | zero => cases h
  | succ fuel ih =>
    simp only [countedScanFrom, if_pos (hall i)] at h
    split at h
    · next hlt =>
      split at h
      · obtain rfl := Option.some.inj h
        omega
      · have := ih h
        omega
    · cases h

theorem countedScan_lt {num n k : Nat} (hall : ∀ j, live j)
    (h : countedScan live p num n = some k) : k < num := by
  have := countedScanFrom_lt hall h
  omega

/-- With `num` the number of live entries, the early stop loses nothing. -/
theorem countedScan_isSome_iff {num n : Nat}
    (hnum : num = ((Finset.range n).filter live).card) :
    (countedScan live p num n).isSome ↔ ∃ k, k < n ∧ live k ∧ p k := by
  constructor
  · intro h
    obtain ⟨k, hk⟩ := Option.isSome_iff_exists.mp h
    obtain ⟨hlt, hl, hp, -⟩ := countedScan_some hk
    exact ⟨k, hlt, hl, hp⟩
  · intro h
    obtain ⟨k, hk, hl, hp⟩ := h
    apply countedScan_isSome ?_ hk hl hp
    rw [hnum]
    apply Finset.card_le_card
    apply Finset.filter_subset_filter
    intro j hj
    rw [Finset.mem_range] at hj ⊢
    omega

end countedScan

end Scan
