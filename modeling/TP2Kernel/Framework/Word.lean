import Mathlib.Tactic.Ring
import Mathlib.Data.UInt

/-! # Machine words as natural numbers

    The C idioms `x++` and `x--` on unsigned words, read as arithmetic on `toNat`.
    Each lemma names the side condition under which nothing wraps.

    A word is its lowest byte below the rest of it: what little-endian memory makes of it.
-/

namespace Word

theorem uint64_toNat_succ {x : UInt64} (h : x.toNat + 1 < 2 ^ 64) :
    (x + 1).toNat = x.toNat + 1 := by
  rw [UInt64.toNat_add]
  simpa using h

theorem uint64_toNat_succ_of_lt {x y : UInt64} (h : x < y) :
    (x + 1).toNat = x.toNat + 1 := by
  have hy := y.toNat_lt
  have hxy := UInt64.lt_iff_toNat_lt.mp h
  exact uint64_toNat_succ (by omega)

theorem uint64_toNat_pred {x : UInt64} (h : 0 < x.toNat) :
    (x - 1).toNat = x.toNat - 1 := by
  have hle : (1 : UInt64) ≤ x := UInt64.le_iff_toNat_le.mpr h
  simpa using UInt64.toNat_sub_of_le x 1 hle

theorem uint16_toNat_succ {x : UInt16} (h : x.toNat + 1 < 2 ^ 16) :
    (x + 1).toNat = x.toNat + 1 := by
  rw [UInt16.toNat_add]
  simpa using h

theorem uint16_toNat_pred {x : UInt16} (h : 0 < x.toNat) :
    (x - 1).toNat = x.toNat - 1 := by
  have hle : (1 : UInt16) ≤ x := UInt16.le_iff_toNat_le.mpr h
  simpa using UInt16.toNat_sub_of_le x 1 hle

/-! ### Bytes -/

theorem bitVec_join {w : Nat} (x : BitVec w) :
    x >>> 8 <<< 8 ||| (x.setWidth 8).setWidth w = x := by
  apply BitVec.eq_of_getLsbD_eq
  intro i hi
  rw [BitVec.getLsbD_or, BitVec.getLsbD_shiftLeft, BitVec.getLsbD_ushiftRight,
    BitVec.getLsbD_setWidth, BitVec.getLsbD_setWidth]
  by_cases hlow : i < 8
  · simp [hlow, hi]
  · simp [hlow, hi, show 8 + (i - 8) = i by omega]

theorem uint32_join (x : UInt32) : (x >>> 8) <<< 8 ||| x.toUInt8.toUInt32 = x :=
  UInt32.eq_of_toBitVec_eq (bitVec_join x.toBitVec)

theorem uint64_join (x : UInt64) : (x >>> 8) <<< 8 ||| x.toUInt8.toUInt64 = x :=
  UInt64.eq_of_toBitVec_eq (bitVec_join x.toBitVec)

end Word
