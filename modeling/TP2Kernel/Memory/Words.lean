import TP2Kernel.Stdlib

/-! # Words in memory

    What a store changes, and what a load finds after it.  Addresses are compared as
    natural numbers; a word that does not wrap around lies at `a .. a + 7`.
-/

namespace TP2Kernel

theorem addr_sub_toNat_eq_iff {x a : Addr} {k : Nat} (hk : k < 2 ^ 64) :
    (x - a).toNat = k ↔ x = a + UInt64.ofNat k := by
  have hofNat : (UInt64.ofNat k).toNat = k := UInt64.toNat_ofNat_of_lt' hk
  constructor
  · intro h
    have hsub : x - a = UInt64.ofNat k := UInt64.toNat_inj.mp (h.trans hofNat.symm)
    rw [← hsub]
    simp
  · rintro rfl
    rw [show a + UInt64.ofNat k - a = UInt64.ofNat k by simp, hofNat]

/-- The address `k` bytes behind `a`, when that does not wrap around. -/
theorem addr_add_toNat {a : Addr} {k : Nat} (h : a.toNat + k < 2 ^ 64) :
    (a + UInt64.ofNat k).toNat = a.toNat + k := by
  have hk : (UInt64.ofNat k).toNat = k := UInt64.toNat_ofNat_of_lt' (by
    show k < 2 ^ 64
    omega)
  rw [UInt64.toNat_add, hk]
  exact Nat.mod_eq_of_lt h

/-- The address `k` bytes below `a`, when there is one. -/
theorem addr_sub_toNat {a : Addr} {k : Nat} (h : k ≤ a.toNat) :
    (a - UInt64.ofNat k).toNat = a.toNat - k := by
  have ha := a.toNat_lt
  have hk : (UInt64.ofNat k).toNat = k := UInt64.toNat_ofNat_of_lt' (by
    show k < 2 ^ 64
    omega)
  rw [UInt64.toNat_sub, hk]
  omega

/-- The `n` bytes from `a` on, when they do not wrap around. -/
theorem addr_sub_toNat_lt_iff {x a : Addr} {n : Nat} (h : a.toNat + n ≤ 2 ^ 64) :
    (x - a).toNat < n ↔ a.toNat ≤ x.toNat ∧ x.toNat < a.toNat + n := by
  have hx := x.toNat_lt
  have ha := a.toNat_lt
  rw [UInt64.toNat_sub]
  omega

namespace Memory

variable {m m' : Memory} {a b x : Addr} {v : UInt64}

/-- Bytes stored one after the other, read back at any address. -/
theorem foldl_update_apply (m : Memory) (a x : Addr) (f : Nat → UInt8) {n : Nat}
    (hn : n ≤ 2 ^ 64) :
    (List.range n).foldl (fun m k => Function.update m (a + UInt64.ofNat k) (f k)) m x =
      if (x - a).toNat < n then f (x - a).toNat else m x := by
  induction n with
  | zero => rfl
  | succ n ih =>
    rw [List.range_succ, List.foldl_append, List.foldl_cons, List.foldl_nil]
    by_cases hx : (x - a).toNat = n
    · have hxa := (addr_sub_toNat_eq_iff (by omega)).mp hx
      rw [if_pos (by omega), hx, hxa, Function.update_self]
    · have hne : x ≠ a + UInt64.ofNat n := fun hxa =>
        hx ((addr_sub_toNat_eq_iff (by omega)).mpr hxa)
      rw [Function.update_of_ne hne, ih (by omega)]
      have hiff : (x - a).toNat < n + 1 ↔ (x - a).toNat < n := by omega
      simp only [hiff]

theorem writeWord_apply (m : Memory) (a x : Addr) (v : UInt64) :
    m.writeWord a v x =
      if (x - a).toNat < 8 then (v >>> UInt64.ofNat (8 * (x - a).toNat)).toUInt8 else m x :=
  foldl_update_apply m a x (fun k => (v >>> UInt64.ofNat (8 * k)).toUInt8) (by decide)

/-! ### Loads -/

theorem readWord_congr (h : ∀ k < 8, m (a + UInt64.ofNat k) = m' (a + UInt64.ofNat k)) :
    m.readWord a = m'.readWord a := by
  unfold readWord
  apply List.foldr_ext
  intro k hk acc
  rw [h k (List.mem_range.mp hk)]

/-- The bytes of `v` from the `k`-th on are the `k`-th below the rest. -/
theorem shiftRight_join (v : UInt64) {k : Nat} (hk : k < 7) :
    (v >>> UInt64.ofNat (8 * (k + 1))) <<< 8 ||| (v >>> UInt64.ofNat (8 * k)).toUInt8.toUInt64 =
      v >>> UInt64.ofNat (8 * k) := by
  have hstep : v >>> UInt64.ofNat (8 * (k + 1)) = (v >>> UInt64.ofNat (8 * k)) >>> 8 := by
    apply UInt64.toNat_inj.mp
    have h₀ : (UInt64.ofNat (8 * k)).toNat % 64 = 8 * k := by
      rw [UInt64.toNat_ofNat_of_lt' (by show _ < 2 ^ 64; omega)]
      omega
    have h₁ : (UInt64.ofNat (8 * (k + 1))).toNat % 64 = 8 * k + 8 := by
      rw [UInt64.toNat_ofNat_of_lt' (by show _ < 2 ^ 64; omega)]
      omega
    rw [UInt64.toNat_shiftRight, UInt64.toNat_shiftRight, UInt64.toNat_shiftRight, h₀, h₁,
      Nat.shiftRight_add]
    rfl
  rw [hstep]
  exact Word.uint64_join _

/-- A word is read from its bytes. -/
theorem readWord_eq
    (h : ∀ k < 8, m (a + UInt64.ofNat k) = (v >>> UInt64.ofNat (8 * k)).toUInt8) :
    m.readWord a = v := by
  have htop : (0 : UInt64) <<< 8 ||| (v >>> UInt64.ofNat (8 * 7)).toUInt8.toUInt64 =
      v >>> UInt64.ofNat (8 * 7) := by
    have hzero : (v >>> UInt64.ofNat (8 * 7)) >>> 8 = 0 := by
      apply UInt64.toNat_inj.mp
      have hv := v.toNat_lt
      rw [UInt64.toNat_shiftRight, UInt64.toNat_shiftRight]
      show v.toNat >>> 56 >>> 8 = 0
      rw [← Nat.shiftRight_add, Nat.shiftRight_eq_div_pow]
      exact Nat.div_eq_of_lt hv
    rw [← hzero]
    exact Word.uint64_join _
  have hread : m.readWord a =
      (((((((((0 : UInt64) <<< 8 ||| (m (a + UInt64.ofNat 7)).toUInt64)
        <<< 8 ||| (m (a + UInt64.ofNat 6)).toUInt64)
        <<< 8 ||| (m (a + UInt64.ofNat 5)).toUInt64)
        <<< 8 ||| (m (a + UInt64.ofNat 4)).toUInt64)
        <<< 8 ||| (m (a + UInt64.ofNat 3)).toUInt64)
        <<< 8 ||| (m (a + UInt64.ofNat 2)).toUInt64)
        <<< 8 ||| (m (a + UInt64.ofNat 1)).toUInt64)
        <<< 8 ||| (m (a + UInt64.ofNat 0)).toUInt64) := rfl
  rw [hread, h 7 (by decide), h 6 (by decide), h 5 (by decide), h 4 (by decide),
    h 3 (by decide), h 2 (by decide), h 1 (by decide), h 0 (by decide), htop,
    shiftRight_join v (by decide), shiftRight_join v (by decide), shiftRight_join v (by decide),
    shiftRight_join v (by decide), shiftRight_join v (by decide), shiftRight_join v (by decide),
    shiftRight_join v (by decide)]
  simp

/-- What was stored is loaded. -/
theorem readWord_writeWord (m : Memory) (a : Addr) (v : UInt64) :
    (m.writeWord a v).readWord a = v := by
  apply readWord_eq
  intro k hk
  have hoffset : (a + UInt64.ofNat k - a).toNat = k :=
    (addr_sub_toNat_eq_iff (by omega)).mpr rfl
  rw [writeWord_apply, hoffset, if_pos hk]

/-! ### Stores elsewhere -/

/-- A store leaves the bytes outside of it. -/
theorem writeWord_of_lt (m : Memory) (v : UInt64)
    (h : x.toNat < a.toNat ∨ a.toNat + 8 ≤ x.toNat) (ha : a.toNat + 8 ≤ 2 ^ 64) :
    m.writeWord a v x = m x := by
  have hout : ¬ (x - a).toNat < 8 := by
    rw [addr_sub_toNat_lt_iff ha]
    omega
  rw [writeWord_apply, if_neg hout]

/-- Two words that do not overlap. -/
def Apart (a b : Addr) : Prop :=
  (a.toNat + 8 ≤ b.toNat ∨ b.toNat + 8 ≤ a.toNat) ∧ a.toNat + 8 ≤ 2 ^ 64 ∧ b.toNat + 8 ≤ 2 ^ 64

theorem readWord_writeWord_of_apart (m : Memory) (v : UInt64) (h : Apart a b) :
    (m.writeWord a v).readWord b = m.readWord b := by
  obtain ⟨hapart, ha, hb⟩ := h
  apply readWord_congr
  intro k hk
  have hbyte : (b + UInt64.ofNat k).toNat = b.toNat + k := addr_add_toNat (by omega)
  apply writeWord_of_lt m v _ ha
  rw [hbyte]
  omega

end Memory

end TP2Kernel
