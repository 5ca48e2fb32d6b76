import Mathlib.Data.List.Basic
import Mathlib.Data.List.GetD
import TP2Kernel.Memory.Words

/-! # Bytes of files in memory

    Images and songs are files that other programs write and the loader puts somewhere in
    memory.  Numbers are stored with the lowest byte first.
-/

namespace TP2Kernel

/-- The bytes lie in memory from `a` on. -/
def LiesAt (m : Memory) (a : Addr) (bytes : List UInt8) : Prop :=
  ∀ i (h : i < bytes.length), m (a + UInt64.ofNat i) = bytes[i]

/-- `*((uint32_t *) a)` -/
def Memory.readUInt32 (m : Memory) (a : Addr) : UInt32 :=
  (List.range 4).foldr (fun k acc => acc <<< 8 ||| (m (a + UInt64.ofNat k)).toUInt32) 0

/-- `fwrite` of a `uint32_t`. -/
def encodeWord (w : UInt32) : List UInt8 :=
  [w.toUInt8, (w >>> 8).toUInt8, (w >>> 16).toUInt8, (w >>> 24).toUInt8]

/-- `fwrite` of a `uint64_t`. -/
def encodeLong (w : UInt64) : List UInt8 :=
  (List.range 8).map fun k => (w >>> UInt64.ofNat (8 * k)).toUInt8

/-- Memory with these bytes from `a` on. -/
def imageAt (a : Addr) (bytes : List UInt8) : Memory := fun x => bytes.getD (x - a).toNat 0

theorem liesAt_imageAt (a : Addr) {bytes : List UInt8} (h : bytes.length ≤ 2 ^ 64) :
    LiesAt (imageAt a bytes) a bytes := by
  intro i hi
  unfold imageAt
  rw [UInt64.add_comm, UInt64.add_sub_cancel, UInt64.toNat_ofNat_of_lt' (Nat.lt_of_lt_of_le hi h),
    List.getD_eq_getElem?_getD, List.getElem?_eq_getElem hi]
  rfl

variable {m : Memory} {a : Addr} {bs bs' : List UInt8}

theorem liesAt_append : LiesAt m a (bs ++ bs') ↔
    LiesAt m a bs ∧ LiesAt m (a + UInt64.ofNat bs.length) bs' := by
  have hshift : ∀ i, a + UInt64.ofNat bs.length + UInt64.ofNat i =
      a + UInt64.ofNat (bs.length + i) := by
    intro i
    rw [UInt64.ofNat_add, UInt64.add_assoc]
  constructor
  · intro h
    constructor
    · intro i hi
      rw [h i (by rw [List.length_append]; omega), List.getElem_append_left hi]
    · intro i hi
      rw [hshift, h (bs.length + i) (by rw [List.length_append]; omega),
        List.getElem_append_right (Nat.le_add_right _ _)]
      simp
  · intro h i hi
    obtain ⟨hl, hr⟩ := h
    by_cases hlt : i < bs.length
    · rw [hl i hlt, List.getElem_append_left hlt]
    · have hri := hr (i - bs.length) (by rw [List.length_append] at hi; omega)
      rw [hshift, show bs.length + (i - bs.length) = i by omega] at hri
      rw [hri, List.getElem_append_right (by omega)]

theorem liesAt_cons {b : UInt8} : LiesAt m a (b :: bs) ↔ m a = b ∧ LiesAt m (a + 1) bs := by
  rw [show b :: bs = [b] ++ bs from rfl, liesAt_append]
  refine and_congr_left' ?_
  constructor
  · intro h
    have hfirst := h 0 (Nat.zero_lt_one)
    rwa [show UInt64.ofNat 0 = 0 from rfl, UInt64.add_zero] at hfirst
  · rintro rfl i hi
    obtain rfl : i = 0 := Nat.lt_one_iff.mp hi
    exact congrArg m (UInt64.add_zero a)

/-- A string and its NUL. -/
theorem length_withNul (text : List UInt8) : (text ++ [0]).length = text.length + 1 :=
  List.length_append

/-- The NUL is what is read behind the string anyway. -/
theorem getD_withNul (text : List UInt8) (i : Nat) : (text ++ [0]).getD i 0 = text.getD i 0 := by
  by_cases hi : i < text.length
  · exact List.getD_append _ _ _ _ hi
  · have hbehind : text.length ≤ i := Nat.le_of_not_lt hi
    rw [List.getD_append_right _ _ _ _ hbehind, List.getD_eq_default text 0 hbehind]
    cases i - text.length with
    | zero => rfl
    | succ j => rfl

/-! ### Stores -/

theorem Memory.writeBytes_append (m : Memory) (a : Addr) (bs bs' : List UInt8) :
    m.writeBytes a (bs ++ bs') =
      (m.writeBytes a bs).writeBytes (a + UInt64.ofNat bs.length) bs' := by
  induction bs generalizing m a with
  | nil => exact congrArg (m.writeBytes · bs') (UInt64.add_zero a).symm
  | cons b bs ih =>
    have hlength : a + 1 + UInt64.ofNat bs.length = a + UInt64.ofNat (b :: bs).length := by
      rw [List.length_cons, UInt64.ofNat_add, UInt64.add_comm (UInt64.ofNat bs.length),
        ← UInt64.add_assoc]
      rfl
    rw [List.cons_append, Memory.writeBytes, ih, hlength, Memory.writeBytes]

theorem Memory.writeBytes_apply (m : Memory) (a x : Addr) (h : bs.length ≤ 2 ^ 64) :
    m.writeBytes a bs x =
      if (x - a).toNat < bs.length then bs.getD (x - a).toNat 0 else m x := by
  induction bs using List.reverseRecOn with
  | nil => rfl
  | append_singleton bs b ih =>
    rw [List.length_append, List.length_singleton] at h ⊢
    rw [Memory.writeBytes_append]
    show Function.update (m.writeBytes a bs) (a + UInt64.ofNat bs.length) b x = _
    by_cases hx : (x - a).toNat = bs.length
    · rw [(addr_sub_toNat_eq_iff (by omega)).mp hx, Function.update_self,
        (addr_sub_toNat_eq_iff (by omega)).mpr rfl, if_pos (Nat.lt_succ_self _)]
      simp
    · have hne : x ≠ a + UInt64.ofNat bs.length := fun heq =>
        hx ((addr_sub_toNat_eq_iff (by omega)).mpr heq)
      have hiff : (x - a).toNat < bs.length + 1 ↔ (x - a).toNat < bs.length := by omega
      rw [Function.update_of_ne hne, ih (by omega)]
      simp only [hiff]
      split
      · next hlt => simp [List.getElem?_append_left hlt]
      · rfl

/-- A string that is stored with its NUL. -/
theorem Memory.writeString_apply (m : Memory) (a x : Addr) (h : bs.length < 2 ^ 64) :
    m.writeBytes a (bs ++ [0]) x =
      if (x - a).toNat ≤ bs.length then bs.getD (x - a).toNat 0 else m x := by
  have hlength := length_withNul bs
  rw [Memory.writeBytes_apply m a x (by omega), hlength, getD_withNul]
  simp only [Nat.lt_succ_iff]

theorem liesAt_writeBytes (m : Memory) (a : Addr) (h : bs.length ≤ 2 ^ 64) :
    LiesAt (m.writeBytes a bs) a bs := by
  intro i hi
  rw [Memory.writeBytes_apply m a _ h, (addr_sub_toNat_eq_iff (by omega)).mpr rfl, if_pos hi,
    List.getD_eq_getElem?_getD, List.getElem?_eq_getElem hi]
  rfl

theorem Memory.writeBytes_frame {x : Addr} (m : Memory) (h : bs.length ≤ 2 ^ 64)
    (hx : ¬ (x - a).toNat < bs.length) : m.writeBytes a bs x = m x := by
  rw [Memory.writeBytes_apply m a x h, if_neg hx]

/-! ### Numbers -/

@[simp] theorem length_encodeWord (w : UInt32) : (encodeWord w).length = 4 := rfl

@[simp] theorem length_encodeLong (w : UInt64) : (encodeLong w).length = 8 := rfl

/-- A word is read as it was written. -/
theorem readUInt32_encodeWord {w : UInt32} (h : LiesAt m a (encodeWord w)) :
    m.readUInt32 a = w := by
  have h₀ : m (a + UInt64.ofNat 0) = w.toUInt8 := h 0 (by simp)
  have h₁ : m (a + UInt64.ofNat 1) = (w >>> 8).toUInt8 := h 1 (by simp)
  have h₂ : m (a + UInt64.ofNat 2) = (w >>> 16).toUInt8 := h 2 (by simp)
  have h₃ : m (a + UInt64.ofNat 3) = (w >>> 24).toUInt8 := h 3 (by simp)
  -- the shifts, one byte at a time
  have hshift₂ : w >>> 16 = w >>> 8 >>> 8 := by
    apply UInt32.toNat_inj.mp
    simp [Nat.shiftRight_eq_div_pow, Nat.div_div_eq_div_mul]
  have hshift₃ : w >>> 24 = w >>> 8 >>> 8 >>> 8 := by
    apply UInt32.toNat_inj.mp
    simp [Nat.shiftRight_eq_div_pow, Nat.div_div_eq_div_mul]
  have hzero : w >>> 8 >>> 8 >>> 8 >>> 8 = 0 := by
    apply UInt32.toNat_inj.mp
    simp [Nat.shiftRight_eq_div_pow, Nat.div_div_eq_div_mul]
    exact w.toNat_lt
  show ((((0 : UInt32) <<< 8 ||| (m (a + UInt64.ofNat 3)).toUInt32) <<< 8 |||
    (m (a + UInt64.ofNat 2)).toUInt32) <<< 8 ||| (m (a + UInt64.ofNat 1)).toUInt32) <<< 8 |||
    (m (a + UInt64.ofNat 0)).toUInt32 = w
  rw [h₀, h₁, h₂, h₃, hshift₃, hshift₂, ← hzero, Word.uint32_join, Word.uint32_join,
    Word.uint32_join, Word.uint32_join]

theorem readWord_encodeLong {w : UInt64} (h : LiesAt m a (encodeLong w)) : m.readWord a = w := by
  apply Memory.readWord_eq
  intro k hk
  rw [h k (by rwa [length_encodeLong])]
  simp [encodeLong]

end TP2Kernel
