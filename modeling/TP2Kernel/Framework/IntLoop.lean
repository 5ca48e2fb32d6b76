import Mathlib.Data.List.Basic
import Mathlib.Data.UInt

/-! # Loops that count with an `int`

    The C loop `for (int i = 0; i < n; i++)` for an unsigned bound `n` of 64 bits.  The
    counter has 32 bits and wraps; to be compared it is extended with its sign.  So the
    loop counts up to `n` as long as `n` is at most `2 ^ 31`; for a larger `n` the counter
    goes on through the negative numbers, which are compared as very large ones.
-/

namespace IntLoop

universe u

variable {σ : Type u}

/-- An `int` where an unsigned number of 64 bits is asked for. -/
def extend (i : Int32) : UInt64 := i.toInt64.toUInt64

def loop (n : UInt64) (body : Int32 → σ → Option σ) : Nat → Int32 → σ → Option σ
  | 0, _, _ => none
  | fuel + 1, i, s =>
    if extend i < n then
      match body i s with
      | none => none
      | some s => loop n body fuel (i + 1) s
    else some s

/-- The loop; `none` is one that does not end. -/
def forInt (n : UInt64) (body : Int32 → σ → Option σ) (s : σ) : Option σ :=
  loop n body (2 ^ 32) 0 s

/-- The number of its rounds. -/
def rounds (n : UInt64) : Nat :=
  if n.toNat ≤ 2 ^ 64 - 2 ^ 31 then min n.toNat (2 ^ 31) else n.toNat - (2 ^ 64 - 2 ^ 32)

theorem rounds_eq {n : UInt64} (h : n.toNat ≤ 2 ^ 31) : rounds n = n.toNat := by
  rw [rounds, if_pos (by omega), Nat.min_eq_left h]

theorem rounds_lt (n : UInt64) : rounds n < 2 ^ 32 := by
  have hn := n.toNat_lt
  unfold rounds
  split <;> omega

/-- The first `2 ^ 31` rounds are made for every bound that is large enough. -/
theorem lt_rounds {n : UInt64} {k : Nat} (hn : k < n.toNat) (hk : k < 2 ^ 31) : k < rounds n := by
  unfold rounds
  split <;> omega

theorem toNat_extend_ofNat {k : Nat} (h : k < 2 ^ 32) :
    (extend (Int32.ofNat k)).toNat = if k < 2 ^ 31 then k else k + (2 ^ 64 - 2 ^ 32) := by
  have hbits : (extend (Int32.ofNat k)).toBitVec = (BitVec.ofNat 32 k).signExtend 64 := rfl
  have hmod : k % 2 ^ 32 = k := Nat.mod_eq_of_lt h
  rw [← UInt64.toNat_toBitVec, hbits, BitVec.toNat_signExtend, BitVec.toNat_setWidth,
    BitVec.toNat_ofNat, BitVec.msb_eq_decide, BitVec.toNat_ofNat, hmod,
    Nat.mod_eq_of_lt (show k < 2 ^ 64 by omega)]
  by_cases hk : k < 2 ^ 31
  · rw [if_pos hk, if_neg (by simpa using hk), Nat.add_zero]
  · rw [if_neg hk, if_pos (by simpa using hk)]

/-- A number that fits stays the same. -/
theorem extend_ofNat {k : Nat} (hk : k < 2 ^ 31) :
    extend (Int32.ofNat k) = UInt64.ofNat k := by
  rw [← UInt64.toNat_inj, toNat_extend_ofNat (by omega), if_pos hk,
    UInt64.toNat_ofNat_of_lt' (by show _ < 2 ^ 64; omega)]

theorem ofNat_succ (k : Nat) : Int32.ofNat k + 1 = Int32.ofNat (k + 1) := by
  rw [Int32.ofNat_add]
  rfl

/-- The test of the loop. -/
theorem extend_lt_iff {n : UInt64} {k : Nat} (h : k ≤ rounds n) :
    extend (Int32.ofNat k) < n ↔ k < rounds n := by
  have hrounds := rounds_lt n
  have hn := n.toNat_lt
  rw [UInt64.lt_iff_toNat_lt, toNat_extend_ofNat (by omega)]
  unfold rounds at h ⊢
  by_cases hsmall : n.toNat ≤ 2 ^ 64 - 2 ^ 31
  · rw [if_pos hsmall] at h ⊢
    split <;> omega
  · rw [if_neg hsmall] at h ⊢
    split <;> omega

theorem loop_eq {body : Int32 → σ → Option σ} {g : Int32 → σ → σ}
    (hbody : ∀ i s, body i s = some (g i s)) (n : UInt64) {k left fuel : Nat}
    (hleft : k + left = rounds n) (hfuel : left < fuel) (s : σ) :
    loop n body fuel (Int32.ofNat k) s =
      some ((List.range' k left).foldl (fun s i => g (Int32.ofNat i) s) s) := by
  induction left generalizing k fuel s with
  | zero =>
    obtain ⟨fuel, rfl⟩ := Nat.exists_eq_add_of_le' (show 1 ≤ fuel from hfuel)
    have hend : ¬ extend (Int32.ofNat k) < n := by
      rw [extend_lt_iff (by omega)]
      omega
    rw [loop, if_neg hend]
    rfl
  | succ left ih =>
    obtain ⟨fuel, rfl⟩ := Nat.exists_eq_add_of_le' (show 1 ≤ fuel by omega)
    have hgo : extend (Int32.ofNat k) < n := (extend_lt_iff (by omega)).mpr (by omega)
    rw [loop, if_pos hgo, hbody, ofNat_succ, List.range'_succ, List.foldl_cons]
    exact ih (by omega) (by omega) _

/-- A loop whose body ends does end, after so many rounds. -/
theorem forInt_eq {body : Int32 → σ → Option σ} {g : Int32 → σ → σ}
    (hbody : ∀ i s, body i s = some (g i s)) (n : UInt64) (s : σ) :
    forInt n body s =
      some ((List.range (rounds n)).foldl (fun s i => g (Int32.ofNat i) s) s) := by
  rw [List.range_eq_range']
  exact loop_eq hbody n (Nat.zero_add _) (rounds_lt n) s

end IntLoop
