import TP2Kernel.Framework.IntLoop
import TP2Kernel.Process.StackFrame

/-! # The copies of the arguments

    `initializeStack` copies the strings of `argv` to the new stack, the last one first,
    each rounded up to words, and lets the caller's `argv[i]` point to its copy before it
    goes on to the string before.  A string that overlaps one of these pointers is not
    the caller's any more when its turn comes.
-/

namespace TP2Kernel

namespace Machine

/-- The bytes that a string takes on the stack: with its NUL, in whole words. -/
def alignedSize (t : CString) : Nat := (t.length + 8) / 8 * 8

/-- The bytes that the first `n` strings take. -/
def stringsSize (args : Nat → CString) : Nat → Nat
  | 0 => 0
  | n + 1 => stringsSize args n + alignedSize (args n)

theorem length_lt_alignedSize (t : CString) : t.length < alignedSize t := by
  unfold alignedSize
  omega

theorem mul_le_stringsSize (args : Nat → CString) (n : Nat) : 8 * n ≤ stringsSize args n := by
  induction n with
  | zero => exact Nat.le_refl 0
  | succ n ih =>
    unfold stringsSize alignedSize
    omega

/-- A small number stays the same through the conversions between `int` and `uint64_t`. -/
theorem toUInt64_ofNat_int32 {n : Nat} (hn : n < 2 ^ 31) :
    (Int32.ofNat n).toInt64.toUInt64 = UInt64.ofNat n :=
  IntLoop.extend_ofNat hn

/-- The `int` arithmetic of the rounding is exact while it does not overflow. -/
theorem alignedLength_ofNat {n : Nat} (hn : n + 8 < 2 ^ 31) :
    (alignedLength (UInt64.ofNat n)).toInt64.toUInt64 = UInt64.ofNat ((n + 8) / 8 * 8) := by
  have hlength : (UInt64.ofNat n + 1).toInt64.toInt32 = Int32.ofNat (n + 1) := by
    have hsucc : UInt64.ofNat n + 1 = UInt64.ofNat (n + 1) := (UInt64.ofNat_add n 1).symm
    rw [hsucc, UInt64.toInt64_ofNat', Int64.toInt32_ofNat']
  have haux : ((Int32.ofNat (n + 1)).toInt64.toUInt64 % 8).toInt64.toInt32 =
      Int32.ofNat ((n + 1) % 8) := by
    have hmod : UInt64.ofNat (n + 1) % 8 = UInt64.ofNat ((n + 1) % 8) := by
      apply UInt64.toNat_inj.mp
      rw [UInt64.toNat_mod, UInt64.toNat_ofNat_of_lt' (by show n + 1 < 2 ^ 64; omega),
        UInt64.toNat_ofNat_of_lt' (by show (n + 1) % 8 < 2 ^ 64; omega)]
      rfl
    rw [toUInt64_ofNat_int32 (by omega), hmod, UInt64.toInt64_ofNat', Int64.toInt32_ofNat']
  have hzero : Int32.ofNat ((n + 1) % 8) = 0 ↔ (n + 1) % 8 = 0 := by
    rw [← Int32.toInt_inj, Int32.toInt_ofNat_of_lt (by omega)]
    show (((n + 1) % 8 : Nat) : Int) = 0 ↔ _
    omega
  unfold alignedLength
  simp only [hlength, haux, ne_eq, hzero]
  -- a whole number of words already, or the rest is filled up
  split
  · next hne =>
    have hround : Int32.ofNat (n + 1) + (8 - Int32.ofNat ((n + 1) % 8)) =
        Int32.ofNat ((n + 8) / 8 * 8) := by
      have hsub : (8 : Int32) - Int32.ofNat ((n + 1) % 8) = Int32.ofNat (8 - (n + 1) % 8) :=
        (Int32.ofNat_sub 8 _ (by omega)).symm
      rw [hsub, ← Int32.ofNat_add]
      congr 1
      omega
    rw [hround, toUInt64_ofNat_int32 (by omega)]
  · next he =>
    rw [toUInt64_ofNat_int32 (by omega)]
    congr 1
    omega

/-- Widening an `int` to `uint64_t` keeps it modulo eight. -/
theorem toUInt64_toInt64_mod (v : Int32) :
    v.toInt64.toUInt64.toNat % 8 = v.toUInt32.toNat % 8 := by
  have hext : v.toInt64.toUInt64.toNat = (v.toBitVec.signExtend 64).toNat := rfl
  have hnat : v.toUInt32.toNat = v.toBitVec.toNat := rfl
  have hlt := v.toBitVec.isLt
  rw [hext, hnat, BitVec.toNat_signExtend, BitVec.toNat_setWidth]
  split <;> omega

/-- The rounded length is a whole number of words, also when the `int` overflows. -/
theorem alignedLength_mod (len : UInt64) :
    (alignedLength len).toInt64.toUInt64.toNat % 8 = 0 := by
  rw [toUInt64_toInt64_mod]
  unfold alignedLength
  generalize (len + 1).toInt64.toInt32 = length
  have haux : ((length.toInt64.toUInt64 % 8).toInt64.toInt32).toUInt32.toNat =
      length.toUInt32.toNat % 8 := by
    have hmod := toUInt64_toInt64_mod length
    have hcut : ((length.toInt64.toUInt64 % 8).toInt64.toInt32).toUInt32.toNat =
        ((length.toInt64.toUInt64 % 8).toBitVec.signExtend 32).toNat := rfl
    have hrest : (length.toInt64.toUInt64 % 8).toBitVec.toNat =
        length.toInt64.toUInt64.toNat % 8 := UInt64.toNat_mod _ _
    rw [hcut, BitVec.toNat_signExtend, BitVec.toNat_setWidth, hrest]
    split <;> omega
  simp only [ne_eq]
  generalize (length.toInt64.toUInt64 % 8).toInt64.toInt32 = aux at haux
  have hlt := length.toUInt32.toNat_lt
  split
  · have hsum : (length + (8 - aux)).toUInt32 = length.toUInt32 + (8 - aux.toUInt32) := rfl
    rw [hsum, UInt32.toNat_add, UInt32.toNat_sub, haux]
    show (length.toUInt32.toNat + (2 ^ 32 - length.toUInt32.toNat % 8 + 8) % 2 ^ 32) % 2 ^ 32 % 8 =
      0
    omega
  · next h =>
    have h0 : aux = 0 := by simpa using h
    rw [h0] at haux
    rw [← haux]
    rfl

theorem alignedLength_words (len : UInt64) :
    (alignedLength len).toInt64.toUInt64 / 8 * 8 = (alignedLength len).toInt64.toUInt64 := by
  have hmod := alignedLength_mod len
  have hlt := (alignedLength len).toInt64.toUInt64.toNat_lt
  apply UInt64.toNat_inj.mp
  rw [UInt64.toNat_mul, UInt64.toNat_div]
  show _ / 8 * 8 % 2 ^ 64 = _
  omega

/-! ### Slots -/

/-- A byte of `argv[i]`. -/
def SlotByte (argv : Addr) (i : Nat) (x : Addr) : Prop := (x - argvSlot argv i).toNat < 8

theorem slotByte_offset (argv : Addr) (i : Nat) {k : Nat} (hk : k < 8) :
    SlotByte argv i (argvSlot argv i + UInt64.ofNat k) := by
  have hoffset : (argvSlot argv i + UInt64.ofNat k - argvSlot argv i).toNat = k :=
    (addr_sub_toNat_eq_iff (by omega)).mpr rfl
  rw [SlotByte, hoffset]
  exact hk

theorem SlotByte.ne {argv x : Addr} {i n : Nat} (hi : SlotByte argv i x) (hin : i ≠ n)
    (hbound : 8 * i < 2 ^ 63 ∧ 8 * n < 2 ^ 63) : ¬ SlotByte argv n x := by
  intro hn
  have hx := (x - argv).toNat_lt
  rw [SlotByte, sub_add_toNat x argv (by omega)] at hi hn
  omega

/-- `argv[i]` is found as it was while none of its bytes changes. -/
theorem readWord_argvSlot {m m' : Memory} {argv : Addr} {i : Nat}
    (h : ∀ x, SlotByte argv i x → m' x = m x) :
    m'.readWord (argvSlot argv i) = m.readWord (argvSlot argv i) := by
  apply Memory.readWord_congr
  intro k hk
  exact h _ (slotByte_offset argv i hk)

/-- A store to `argv[i]` leaves the other bytes. -/
theorem writeWord_argvSlot {argv x : Addr} {i : Nat} (h : ¬ SlotByte argv i x) (m : Memory)
    (v : UInt64) : m.writeWord (argvSlot argv i) v x = m x := by
  rw [Memory.writeWord_apply]
  exact if_neg h

/-! ### The caller's strings -/

/-- The first `n` slots of `argv` point to the strings `args`.  All of it lies outside of
    `lo .. hi - 1`, and no string overlaps the slots behind its own. -/
structure Arguments (m : Memory) (argv : Addr) (lo hi : Nat) (args : Nat → CString)
    (n : Nat) : Prop where
  holds : ∀ i < n, HoldsString m (m.readWord (argvSlot argv i)) (args i)
  slots : ∀ i < n, ∀ x, SlotByte argv i x → Outside lo hi x
  strings : ∀ i < n, ∀ j ≤ (args i).length,
    Outside lo hi (m.readWord (argvSlot argv i) + UInt64.ofNat j)
  apart : ∀ i < n, ∀ j ≤ (args i).length, ∀ k, i < k → k < n →
    ¬ SlotByte argv k (m.readWord (argvSlot argv i) + UInt64.ofNat j)

namespace Arguments

variable {m m' : Memory} {argv : Addr} {lo hi n k : Nat} {args : Nat → CString}

/-- The first strings are still there when only the region and later slots change. -/
theorem first (h : Arguments m argv lo hi args n) (hn : 8 * n < 2 ^ 63) (hk : k ≤ n)
    (hsame : ∀ x, Outside lo hi x → (∀ i, k ≤ i → i < n → ¬ SlotByte argv i x) →
      m' x = m x) : Arguments m' argv lo hi args k := by
  -- slots do not overlap, so the first ones still point to their strings
  have hslot : ∀ i < k, m'.readWord (argvSlot argv i) = m.readWord (argvSlot argv i) := by
    intro i hi
    apply readWord_argvSlot
    intro x hx
    apply hsame x (h.slots i (by omega) x hx)
    intro i' hki' hi'
    apply hx.ne
    · omega
    · omega
  constructor
  · intro i hi
    have hholds := h.holds i (by omega)
    rw [hslot i hi]
    apply hholds.copy hholds.1
    intro j hj
    apply hsame _ (h.strings i (by omega) j hj)
    intro i' hki' hi'
    exact h.apart i (by omega) j hj i' (by omega) hi'
  · intro i hi x hx
    exact h.slots i (by omega) x hx
  · intro i hi j hj
    rw [hslot i hi]
    exact h.strings i (by omega) j hj
  · intro i hi j hj i' hii' hi'
    rw [hslot i hi]
    exact h.apart i (by omega) j hj i' hii' (by omega)

theorem congr (h : Arguments m argv lo hi args n) (hn : 8 * n < 2 ^ 63)
    (hsame : ∀ x, Outside lo hi x → m' x = m x) : Arguments m' argv lo hi args n :=
  h.first hn (Nat.le_refl n) (fun x hx _ => hsame x hx)

end Arguments

/-! ### Copying one string -/

section
variable {m : Memory} {sp a : Addr} {t : CString}

theorem copyString_frame (hroom : alignedSize t ≤ sp.toNat) {x : Addr}
    (hx : Outside (sp.toNat - alignedSize t) sp.toNat x) :
    memcpy m (sp - UInt64.ofNat (alignedSize t)) a (UInt64.ofNat (alignedSize t)) x = m x := by
  have hlt := sp.toNat_lt
  have hsp := addr_sub_toNat hroom
  have hsize : (UInt64.ofNat (alignedSize t)).toNat = alignedSize t :=
    UInt64.toNat_ofNat_of_lt' (by show _ < 2 ^ 64; omega)
  apply memcpy_frame
  rw [hsize, addr_sub_toNat_lt_iff (by omega), hsp]
  unfold Outside at hx
  omega

/-- The copy of a string that does not lie where it goes. -/
theorem copyString_holds (h : HoldsString m a t) (hroom : alignedSize t < sp.toNat)
    (hout : ∀ j ≤ t.length,
      Outside (sp.toNat - alignedSize t) sp.toNat (a + UInt64.ofNat j)) :
    HoldsString (memcpy m (sp - UInt64.ofNat (alignedSize t)) a (UInt64.ofNat (alignedSize t)))
      (sp - UInt64.ofNat (alignedSize t)) t := by
  have hlt := sp.toNat_lt
  have hsp := addr_sub_toNat hroom.le
  have hsize : (UInt64.ofNat (alignedSize t)).toNat = alignedSize t :=
    UInt64.toNat_ofNat_of_lt' (by show _ < 2 ^ 64; omega)
  have hlength := length_lt_alignedSize t
  apply h.copy
  · intro hnull
    rw [hnull] at hsp
    have hzero : NULL.toNat = 0 := rfl
    omega
  · intro j hj
    have hoffset : sp - UInt64.ofNat (alignedSize t) + UInt64.ofNat j -
        (sp - UInt64.ofNat (alignedSize t)) = UInt64.ofNat j := by
      simp
    have hj' : (UInt64.ofNat j).toNat = j :=
      UInt64.toNat_ofNat_of_lt' (by show _ < 2 ^ 64; omega)
    rw [memcpy_apply, hoffset]
    · rw [hoffset, hsize, hj']
      omega
    · have hbyte := hout j hj
      unfold Outside at hbyte
      rw [hoffset, hsize, addr_sub_toNat_lt_iff (by omega), hsp]
      omega

end

/-! ### The loop -/

/-- The string lies at `p`, with its NUL within `lo .. hi - 1`. -/
structure StringWithin (m : Memory) (lo hi : Nat) (p : Addr) (t : CString) : Prop where
  holds : HoldsString m p t
  lower : lo ≤ p.toNat
  upper : p.toNat + t.length < hi

theorem StringWithin.mono {m m' : Memory} {lo hi lo' hi' : Nat} {p : Addr} {t : CString}
    (h : StringWithin m lo hi p t) (hlo : lo' ≤ lo) (hhi : hi ≤ hi') (hbound : hi < 2 ^ 64)
    (hsame : ∀ x : Addr, lo ≤ x.toNat → x.toNat < hi → m' x = m x) :
    StringWithin m' lo' hi' p t := by
  have hlower := h.lower
  have hupper := h.upper
  constructor
  · apply h.holds.copy h.holds.1
    intro j hj
    have hbyte : (p + UInt64.ofNat j).toNat = p.toNat + j := addr_add_toNat (by omega)
    apply hsame
    · omega
    · omega
  · omega
  · omega

/-- The memory after one round of the loop: the string at `a` is copied and `argv[i]` points
    to the copy. -/
def copyArgument (m : Memory) (sp argv : Addr) (i : Nat) (t : CString) : Memory :=
  (memcpy m (sp - UInt64.ofNat (alignedSize t)) (m.readWord (argvSlot argv i))
    (UInt64.ofNat (alignedSize t))).writeWord (argvSlot argv i)
    (sp - UInt64.ofNat (alignedSize t))

section
variable {m : Memory} {sp argv : Addr} {lo hi n : Nat} {args : Nat → CString}

theorem pushArguments_succ {t : CString} (h : HoldsString m (m.readWord (argvSlot argv n)) t)
    (hsmall : t.length + 8 < 2 ^ 31) :
    pushArguments m sp argv (n + 1) =
      pushArguments (copyArgument m sp argv n t) (sp - UInt64.ofNat (alignedSize t)) argv n := by
  have hlen : strlen m (m.readWord (argvSlot argv n)) = some (UInt64.ofNat t.length) :=
    strlen_holds h (by show _ < 2 ^ 64; omega)
  have hwords := alignedLength_words (UInt64.ofNat t.length)
  rw [alignedLength_ofNat hsmall] at hwords
  rw [pushArguments]
  simp only [hlen, alignedLength_ofNat hsmall, hwords]
  rfl

theorem copyArgument_frame {t : CString} (hroom : alignedSize t ≤ sp.toNat) {x : Addr}
    (hx : Outside (sp.toNat - alignedSize t) sp.toNat x) (hslot : ¬ SlotByte argv n x) :
    copyArgument m sp argv n t x = m x := by
  rw [copyArgument, writeWord_argvSlot hslot]
  exact copyString_frame hroom hx

theorem copyArgument_slot (m : Memory) (sp argv : Addr) (n : Nat) (t : CString) :
    (copyArgument m sp argv n t).readWord (argvSlot argv n) =
      sp - UInt64.ofNat (alignedSize t) :=
  Memory.readWord_writeWord _ _ _

theorem copyArgument_copy {t : CString} (h : HoldsString m (m.readWord (argvSlot argv n)) t)
    (hroom : alignedSize t < sp.toNat)
    (hout : ∀ j ≤ t.length, Outside (sp.toNat - alignedSize t) sp.toNat
      (m.readWord (argvSlot argv n) + UInt64.ofNat j))
    (hslot : ∀ x, SlotByte argv n x → Outside (sp.toNat - alignedSize t) sp.toNat x) :
    StringWithin (copyArgument m sp argv n t) (sp.toNat - alignedSize t) sp.toNat
      (sp - UInt64.ofNat (alignedSize t)) t := by
  have hlt := sp.toNat_lt
  have hsp := addr_sub_toNat hroom.le
  have hlength := length_lt_alignedSize t
  have hcopy := copyString_holds h hroom hout
  constructor
  · apply hcopy.copy hcopy.1
    intro j hj
    have hbyte := @addr_add_toNat (sp - UInt64.ofNat (alignedSize t)) j (by omega)
    -- the slot lies outside the region, so redirecting it leaves the copy
    have hnot : ¬ SlotByte argv n (sp - UInt64.ofNat (alignedSize t) + UInt64.ofNat j) := by
      intro hx
      have hx := hslot _ hx
      unfold Outside at hx
      omega
    rw [copyArgument, writeWord_argvSlot hnot]
  · rw [hsp]
  · omega

/-- What the loop leaves: the strings on the stack, and the slots pointing to them. -/
structure Copied (before after : Memory × Addr) (argv : Addr) (args : Nat → CString)
    (n : Nat) : Prop where
  sp : after.2.toNat + stringsSize args n = before.2.toNat
  frame : ∀ x, Outside after.2.toNat before.2.toNat x → (∀ i < n, ¬ SlotByte argv i x) →
    after.1 x = before.1 x
  copies : ∀ i < n, StringWithin after.1 after.2.toNat before.2.toNat
    (after.1.readWord (argvSlot argv i)) (args i)

/-- The bytes outside of the whole region lie outside of what one round writes. -/
theorem outside_round (hhi : sp.toNat ≤ hi)
    (hroom : lo + stringsSize args (n + 1) ≤ sp.toNat) {x : Addr} (hx : Outside lo hi x) :
    Outside (sp.toNat - alignedSize (args n)) sp.toNat x := by
  rw [stringsSize] at hroom
  rcases hx with hx | hx
  · left
    omega
  · right
    omega

/-- One round leaves the strings that are still to copy. -/
theorem Arguments.round (h : Arguments m argv lo hi args (n + 1)) (hhi : sp.toNat ≤ hi)
    (hroom : lo + stringsSize args (n + 1) ≤ sp.toNat) (hn : 8 * (n + 1) < 2 ^ 63) :
    Arguments (copyArgument m sp argv n (args n)) argv lo hi args n := by
  apply h.first hn (Nat.le_succ n)
  intro x hx hslot
  apply copyArgument_frame
  · rw [stringsSize] at hroom
    omega
  · exact outside_round hhi hroom hx
  · exact hslot n (Nat.le_refl n) (Nat.lt_succ_self n)

/-- The rounds after the first one go on below its copy. -/
theorem Copied.round {after : Memory × Addr} (h : Arguments m argv lo hi args (n + 1))
    (hlo : 0 < lo) (hhi : sp.toNat ≤ hi) (hroom : lo + stringsSize args (n + 1) ≤ sp.toNat)
    (hn : 8 * (n + 1) < 2 ^ 63)
    (hdone : Copied (copyArgument m sp argv n (args n),
      sp - UInt64.ofNat (alignedSize (args n))) after argv args n) :
    Copied (m, sp) after argv args (n + 1) := by
  have hregion : ∀ x, Outside lo hi x → Outside (sp.toNat - alignedSize (args n)) sp.toNat x :=
    fun x => outside_round hhi hroom
  rw [stringsSize] at hroom
  have hlt := sp.toNat_lt
  have hsp : (sp - UInt64.ofNat (alignedSize (args n))).toNat =
      sp.toNat - alignedSize (args n) := addr_sub_toNat (by omega)
  have hdown : after.2.toNat + stringsSize args n = sp.toNat - alignedSize (args n) := by
    rw [← hsp]
    exact hdone.sp
  -- what lies above the later copies stays, but for their slots
  have hlater : ∀ x : Addr, x.toNat < after.2.toNat ∨ sp.toNat - alignedSize (args n) ≤ x.toNat →
      (∀ i < n, ¬ SlotByte argv i x) → after.1 x = copyArgument m sp argv n (args n) x := by
    intro x hx hslot
    apply hdone.frame x _ hslot
    rcases hx with hx | hx
    · exact .inl hx
    · right
      show (sp - UInt64.ofNat (alignedSize (args n))).toNat ≤ x.toNat
      omega
  constructor
  · show after.2.toNat + (stringsSize args n + alignedSize (args n)) = sp.toNat
    omega
  · intro x hx hslot
    have hx : x.toNat < after.2.toNat ∨ sp.toNat ≤ x.toNat := hx
    have hround : copyArgument m sp argv n (args n) x = m x := by
      apply copyArgument_frame (by omega) _ (hslot n (Nat.lt_succ_self n))
      rcases hx with hx | hx
      · left
        omega
      · exact .inr hx
    show after.1 x = m x
    rw [← hround]
    apply hlater x
    · omega
    · exact fun i hi => hslot i (by omega)
  · intro i hi
    rcases Nat.lt_succ_iff_lt_or_eq.mp hi with hi | rfl
    · apply (hdone.copies i hi).mono (Nat.le_refl _)
      · show (sp - UInt64.ofNat (alignedSize (args n))).toNat ≤ sp.toNat
        omega
      · exact UInt64.toNat_lt _
      · exact fun _ _ _ => rfl
    · have hslot : after.1.readWord (argvSlot argv i) =
          sp - UInt64.ofNat (alignedSize (args i)) := by
        rw [← copyArgument_slot m sp argv i (args i)]
        apply readWord_argvSlot
        intro x hx
        apply hlater x
        · rcases h.slots i hi x hx with hx | hx
          · left
            omega
          · right
            omega
        · intro i' hi'
          apply hx.ne
          · omega
          · omega
      have hcopy := copyArgument_copy (h.holds i hi) (by omega)
        (fun j hj => hregion _ (h.strings i hi j hj))
        (fun x hx => hregion x (h.slots i hi x hx))
      rw [hslot]
      apply hcopy.mono
      · show after.2.toNat ≤ sp.toNat - alignedSize (args i)
        omega
      · exact Nat.le_refl _
      · exact hlt
      · intro x hlower hupper
        apply hlater x (.inr hlower)
        intro i' hi' hx
        have hx := h.slots i' (by omega) x hx
        unfold Outside at hx
        omega

theorem pushArguments_copied (h : Arguments m argv lo hi args n) (hlo : 0 < lo)
    (hhi : sp.toNat ≤ hi) (hroom : lo + stringsSize args n ≤ sp.toNat)
    (hsmall : stringsSize args n + 8 < 2 ^ 31) :
    ∃ after, pushArguments m sp argv n = some after ∧ Copied (m, sp) after argv args n := by
  induction n generalizing m sp with
  | zero =>
    refine ⟨(m, sp), rfl, rfl, fun x _ _ => rfl, ?_⟩
    intro i hi
    omega
  | succ n ih =>
    have hn := mul_le_stringsSize args (n + 1)
    have hlength := length_lt_alignedSize (args n)
    have hsize : stringsSize args (n + 1) = stringsSize args n + alignedSize (args n) := rfl
    have hsp : (sp - UInt64.ofNat (alignedSize (args n))).toNat =
        sp.toNat - alignedSize (args n) := addr_sub_toNat (by omega)
    -- after one round the first `n` arguments are as they were
    have hrest := h.round hhi hroom (by omega)
    obtain ⟨after, hcall, hdone⟩ := @ih _ (sp - UInt64.ofNat (alignedSize (args n))) hrest
      (by omega) (by omega) (by omega)
    refine ⟨after, ?_, hdone.round h hlo hhi hroom (by omega)⟩
    rw [pushArguments_succ (h.holds n (Nat.lt_succ_self n)) (by omega)]
    exact hcall

/-- The stack base leaves the arguments: it lies in the region too. -/
theorem Arguments.base {top : Addr} (h : Arguments m argv lo top.toNat args n)
    (hroom : lo + 8 + stringsSize args n ≤ top.toNat) (hsmall : stringsSize args n + 8 < 2 ^ 31) :
    Arguments (pushZeros m top 8).1 argv lo top.toNat args n ∧
      (pushZeros m top 8).2.toNat + 8 = top.toNat := by
  have hcount := mul_le_stringsSize args n
  have hbase : Pushed (m, top) (pushZeros m top 8) [0] := pushZeros_pushed (n := 1) (by omega)
  have hsp : (pushZeros m top 8).2.toNat + 8 = top.toNat := hbase.sp
  have hkeeps : ∀ x, Outside lo top.toNat x → (pushZeros m top 8).1 x = m x := by
    intro x hx
    apply hbase.frame
    rcases hx with hx | hx
    · left
      omega
    · exact .inr hx
  exact ⟨h.congr (by omega) hkeeps, hsp⟩

/-- The loop as `initializeStack` runs it, below the stack base. -/
theorem pushArguments_base {top : Addr} (h : Arguments m argv lo top.toNat args n) (hlo : 0 < lo)
    (hroom : lo + 8 + stringsSize args n ≤ top.toNat) (hsmall : stringsSize args n + 8 < 2 ^ 31) :
    ∃ after, pushArguments (pushZeros m top 8).1 (pushZeros m top 8).2 argv n = some after ∧
      after.2.toNat + stringsSize args n + 8 = top.toNat ∧
      ∀ i < n, StringWithin after.1 after.2.toNat top.toNat
        (after.1.readWord (argvSlot argv i)) (args i) := by
  obtain ⟨hargs, hsp⟩ := h.base hroom hsmall
  obtain ⟨after, hpush, hcopied⟩ := @pushArguments_copied _ (pushZeros m top 8).2 _ _ _ _ _
    hargs hlo (by omega) (by omega) hsmall
  have hdown : after.2.toNat + stringsSize args n = (pushZeros m top 8).2.toNat := hcopied.sp
  refine ⟨after, hpush, ?_, ?_⟩
  · omega
  · intro i hi
    apply (hcopied.copies i hi).mono (Nat.le_refl _)
    · show (pushZeros m top 8).2.toNat ≤ top.toNat
      omega
    · exact UInt64.toNat_lt _
    · exact fun _ _ _ => rfl

end

end Machine

end TP2Kernel
