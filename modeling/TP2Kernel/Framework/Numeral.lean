import Mathlib.Data.Nat.Digits.Lemmas

/-! # Positional numerals

    The digits of a number in a base, the lowest first, as a program writes them: unlike in
    `Nat.digits`, zero has a digit.  What a division loop does is said by `digits_of_lt` and
    `digits_of_ge`.
-/

namespace Numeral

/-- The digits of `n`, the lowest first; at least one. -/
def digits (b n : Nat) : List Nat := if n = 0 then [0] else Nat.digits b n

variable {b n d k : Nat}

theorem digits_of_lt (h : n < b) : digits b n = [n] := by
  unfold digits
  split
  · next hzero => rw [hzero]
  · next hpos => exact Nat.digits_of_lt b n hpos h

theorem digits_of_ge (hb : 2 ≤ b) (h : b ≤ n) : digits b n = n % b :: digits b (n / b) := by
  have hdiv : n / b ≠ 0 := Nat.div_ne_zero_iff.mpr ⟨by omega, h⟩
  rw [digits, if_neg (by omega), digits, if_neg hdiv]
  exact Nat.digits_def' hb (by omega)

theorem digits_ne_nil (b n : Nat) : digits b n ≠ [] := by
  unfold digits
  split
  · exact List.cons_ne_nil 0 []
  · next hpos => exact Nat.digits_ne_nil_iff_ne_zero.mpr hpos

theorem lt_base (hb : 2 ≤ b) (hd : d ∈ digits b n) : d < b := by
  unfold digits at hd
  split at hd
  · rw [List.mem_singleton.mp hd]
    omega
  · exact Nat.digits_lt_base hb hd

/-- The digits say the number. -/
theorem ofDigits_digits (b n : Nat) : Nat.ofDigits b (digits b n) = n := by
  unfold digits
  split
  · next hzero => rw [hzero, Nat.ofDigits_singleton]
  · exact Nat.ofDigits_digits b n

/-- Only zero begins with a zero. -/
theorem getLast_ne_zero (hn : n ≠ 0) : (digits b n).getLast (digits_ne_nil b n) ≠ 0 := by
  have hdigits : digits b n = Nat.digits b n := if_neg hn
  simp only [hdigits]
  exact Nat.getLast_digit_ne_zero b hn

theorem length_pos (b n : Nat) : 0 < (digits b n).length :=
  List.length_pos_of_ne_nil (digits_ne_nil b n)

/-- How many digits there are. -/
theorem length_le_iff (hb : 2 ≤ b) (hk : 0 < k) : (digits b n).length ≤ k ↔ n < b ^ k := by
  unfold digits
  split
  · next hzero =>
    rw [hzero]
    exact iff_of_true hk (Nat.pow_pos (by omega))
  · exact Nat.digits_length_le_iff hb n

end Numeral
