import Mathlib.Data.List.GetD
import TP2Kernel.Memory.Words

/-! # Filling and copying memory

    What `memset`, `memcpy` and `strlen` do, byte by byte.  Whether an address lies in the
    `n` bytes from `d` on is said by its distance from `d`, which also covers addresses that
    wrap around.
-/

namespace TP2Kernel

variable {m : Memory} {d s x : Addr} {c : UInt8} {n width j : Nat} {length : UInt64}

theorem sub_add_toNat (x d : Addr) {offset : Nat} (hoffset : offset < 2 ^ 64) :
    (x - (d + UInt64.ofNat offset)).toNat =
      (2 ^ 64 - offset + (x - d).toNat) % 2 ^ 64 := by
  rw [sub_add_eq_sub_sub, UInt64.toNat_sub, UInt64.toNat_ofNat_of_lt' hoffset]

theorem memset_apply (hn : n ≤ 2 ^ 64) :
    memset m d c n x = if (x - d).toNat < n then c else m x := by
  induction n generalizing m with
  | zero => rfl
  | succ n ih =>
    rw [memset, ih (by omega)]
    by_cases hx : (x - d).toNat = n
    · have hxd := (addr_sub_toNat_eq_iff (by omega)).mp hx
      rw [if_neg (by omega), if_pos (by omega), hxd, Function.update_self]
    · have hne : x ≠ d + UInt64.ofNat n := fun hxd =>
        hx ((addr_sub_toNat_eq_iff (by omega)).mpr hxd)
      have hiff : (x - d).toNat < n + 1 ↔ (x - d).toNat < n := by omega
      rw [Function.update_of_ne hne]
      simp only [hiff]

/-! ### Copies -/

/-- The bytes of the first `n` elements from `base` on: those that a copy reads, at its
    source, and those that it writes, at its target. -/
def Elements (base : Addr) (width n : Nat) (x : Addr) : Prop :=
  ∃ i < n, ∃ k < width, x = base + UInt64.ofNat (i * width) + UInt64.ofNat k

theorem elements_iff (hbound : n * width ≤ 2 ^ 64) :
    Elements s width n x ↔ (x - s).toNat < n * width := by
  have helement : ∀ {i k : Nat}, i < n → k < width → i * width + k < n * width := by
    intro i k hi hk
    have hsucc : (i + 1) * width ≤ n * width := Nat.mul_le_mul_right width hi
    have hmul : (i + 1) * width = i * width + width := Nat.succ_mul i width
    omega
  constructor
  · rintro ⟨i, hi, k, hk, rfl⟩
    have hlt := helement hi hk
    have hsum : s + UInt64.ofNat (i * width) + UInt64.ofNat k - s =
        UInt64.ofNat (i * width + k) := by
      rw [UInt64.ofNat_add]
      grind
    rw [hsum, UInt64.toNat_ofNat_of_lt' (by show _ < 2 ^ 64; omega)]
    exact hlt
  · intro hx
    have hwidth : 0 < width := Nat.pos_of_mul_pos_left (Nat.zero_lt_of_lt hx)
    refine ⟨(x - s).toNat / width, ?_, (x - s).toNat % width, Nat.mod_lt _ hwidth, ?_⟩
    · exact (Nat.div_lt_iff_lt_mul hwidth).mpr hx
    · rw [UInt64.add_assoc, ← UInt64.ofNat_add, Nat.div_add_mod', UInt64.ofNat_toNat]
      grind

/-- One element of the copy. -/
theorem copyLoop_succ (m : Memory) (d s x : Addr) {width i : Nat}
    (hbound : (i + 1) * width ≤ 2 ^ 64) :
    copyLoop m d s width (i + 1) x =
      if i * width ≤ (x - d).toNat ∧ (x - d).toNat < (i + 1) * width then
        copyLoop m d s width i (s + (x - d))
      else copyLoop m d s width i x := by
  have hmul : (i + 1) * width = i * width + width := Nat.succ_mul i width
  have hoffset : i * width < 2 ^ 64 := by
    by_cases hw : width = 0
    · rw [hw, Nat.mul_zero]
      decide
    · omega
  have hdistance := sub_add_toNat x d hoffset
  have hx := (x - d).toNat_lt
  -- distances from `d` do not wrap, so the element is an interval of them
  have hin : (x - (d + UInt64.ofNat (i * width))).toNat < width ↔
      i * width ≤ (x - d).toNat ∧ (x - d).toNat < (i + 1) * width := by
    rw [hdistance]
    omega
  have helement : copyLoop m d s width (i + 1) x =
      if (x - (d + UInt64.ofNat (i * width))).toNat < width then
        copyLoop m d s width i (s + UInt64.ofNat (i * width) +
          UInt64.ofNat (x - (d + UInt64.ofNat (i * width))).toNat)
      else copyLoop m d s width i x :=
    Memory.foldl_update_apply _ _ _
      (fun k => copyLoop m d s width i (s + UInt64.ofNat (i * width) + UInt64.ofNat k)) (by omega)
  have hfrom : s + UInt64.ofNat (i * width) +
      UInt64.ofNat (x - (d + UInt64.ofNat (i * width))).toNat = s + (x - d) := by
    rw [UInt64.ofNat_toNat, sub_add_eq_sub_sub, add_assoc, add_sub_cancel]
  rw [helement, hfrom]
  simp only [hin]

/-- A copy leaves the bytes outside of it. -/
theorem copyLoop_frame (hbound : n * width ≤ 2 ^ 64) (hx : ¬ (x - d).toNat < n * width) :
    copyLoop m d s width n x = m x := by
  induction n with
  | zero => rfl
  | succ n ih =>
    have hmul : (n + 1) * width = n * width + width := Nat.succ_mul n width
    have hnot : ¬ (n * width ≤ (x - d).toNat ∧ (x - d).toNat < (n + 1) * width) :=
      fun hin => hx hin.2
    rw [copyLoop_succ m d s x hbound, if_neg hnot]
    exact ih (by omega) (by omega)

/-- A byte from outside of the target is copied. -/
theorem copyLoop_apply (hbound : n * width ≤ 2 ^ 64) (hx : (x - d).toNat < n * width)
    (hsource : ¬ (s + (x - d) - d).toNat < n * width) :
    copyLoop m d s width n x = m (s + (x - d)) := by
  induction n with
  | zero => omega
  | succ n ih =>
    have hmul : (n + 1) * width = n * width + width := Nat.succ_mul n width
    rw [copyLoop_succ m d s x hbound]
    by_cases hlast : n * width ≤ (x - d).toNat
    · rw [if_pos ⟨hlast, hx⟩]
      exact copyLoop_frame (by omega) (by omega)
    · rw [if_neg (fun hin => hlast hin.1)]
      exact ih (by omega) (by omega) (by omega)

/-- A copy from further up moves the bytes down, also when target and source overlap. -/
theorem copyLoop_down {distance : Nat} (hwrap : n * width + distance ≤ 2 ^ 64) :
    copyLoop m d (d + UInt64.ofNat distance) width n x =
      if (x - d).toNat < n * width then m (x + UInt64.ofNat distance) else m x := by
  induction n with
  | zero => simp [copyLoop]
  | succ n ih =>
    have hmul : (n + 1) * width = n * width + width := Nat.succ_mul n width
    rw [copyLoop_succ m d _ x (by omega)]
    by_cases hlast : n * width ≤ (x - d).toNat ∧ (x - d).toNat < (n + 1) * width
    · -- what is read now has not been written yet
      have hsource : d + UInt64.ofNat distance + (x - d) = x + UInt64.ofNat distance := by grind
      rw [if_pos hlast, if_pos hlast.2, hsource]
      apply copyLoop_frame (by omega)
      have hfar : x + UInt64.ofNat distance - d = x - d + UInt64.ofNat distance := by grind
      rw [hfar]
      by_cases hzero : width = 0
      · rw [hzero, Nat.mul_zero]
        exact Nat.not_lt_zero _
      · rw [addr_add_toNat (by omega)]
        omega
    · have hiff : (x - d).toNat < (n + 1) * width ↔ (x - d).toNat < n * width := by omega
      rw [if_neg hlast, ih (by omega)]
      simp only [hiff]

/-- Whole words make up a length that is a multiple of four. -/
theorem words_toNat (h : length % 4 = 0) : (length / 4).toNat * 4 = length.toNat := by
  have hmod : length.toNat % 4 = 0 := by
    have h := congrArg UInt64.toNat h
    rwa [UInt64.toNat_mod] at h
  rw [UInt64.toNat_div]
  exact Nat.div_mul_cancel (Nat.dvd_of_mod_eq_zero hmod)

theorem memcpy_frame (hx : ¬ (x - d).toNat < length.toNat) : memcpy m d s length x = m x := by
  have hlt := length.toNat_lt
  unfold memcpy
  split
  · next halign =>
    have hwords := words_toNat halign.2.2
    exact copyLoop_frame (by omega) (by omega)
  · exact copyLoop_frame (by omega) (by omega)

theorem memcpy_apply (hx : (x - d).toNat < length.toNat)
    (hsource : ¬ (s + (x - d) - d).toNat < length.toNat) :
    memcpy m d s length x = m (s + (x - d)) := by
  have hlt := length.toNat_lt
  unfold memcpy
  split
  · next halign =>
    have hwords := words_toNat halign.2.2
    exact copyLoop_apply (by omega) (by omega) (by omega)
  · exact copyLoop_apply (by omega) (by omega) (by omega)

/-- The bytes from `base` on that `memcpy` goes through: its source, which it reads, and its
    destination, which it writes. -/
def MemcpyElements (destination source : Addr) (length : UInt64) (base x : Addr) : Prop :=
  if destination % 4 = 0 ∧ source % 4 = 0 ∧ length % 4 = 0 then
    Elements base 4 (length / 4).toNat x
  else Elements base 1 length.toNat x

theorem memcpyElements_iff {base : Addr} :
    MemcpyElements d s length base x ↔ (x - base).toNat < length.toNat := by
  have hlt := length.toNat_lt
  unfold MemcpyElements
  split
  · next halign =>
    have hwords := words_toNat halign.2.2
    rw [elements_iff (by omega), hwords]
  · rw [elements_iff (by omega), Nat.mul_one]

/-! ### The two ways of `memcpy` -/

/-- What a copy does whose source is apart from its target: the width of the elements does
    not matter, only how many bytes they have together. -/
theorem copyLoop_of_apart (hbound : n * width ≤ 2 ^ 64)
    (hapart : ∀ i < n * width, ¬ (s + UInt64.ofNat i - d).toNat < n * width) :
    copyLoop m d s width n =
      fun x => if (x - d).toNat < n * width then m (s + (x - d)) else m x := by
  funext x
  split
  · next hx =>
    apply copyLoop_apply hbound hx
    have hsource := hapart (x - d).toNat hx
    rwa [UInt64.ofNat_toNat] at hsource
  · next hx => exact copyLoop_frame hbound hx

/-- Source and destination neither wrap around nor overlap. -/
structure CopyRanges (d s : Addr) (length : UInt64) : Prop where
  destination : d.toNat + length.toNat ≤ 2 ^ 64
  source : s.toNat + length.toNat ≤ 2 ^ 64
  apart : d.toNat + length.toNat ≤ s.toNat ∨ s.toNat + length.toNat ≤ d.toNat

theorem CopyRanges.outside (h : CopyRanges d s length) {i : Nat} (hi : i < length.toNat) :
    ¬ (s + UInt64.ofNat i - d).toNat < length.toNat := by
  have hsource := h.source
  have hapart := h.apart
  rw [addr_sub_toNat_lt_iff h.destination, addr_add_toNat (by omega)]
  omega

/-- **`memcpy` copies the source** byte by byte and changes nothing else, wherever the
    ranges lie; and copying by words gives the memory that copying by bytes gives. -/
theorem memcpy_exact (m : Memory) (h : CopyRanges d s length) :
    (∀ i < length.toNat, memcpy m d s length (d + UInt64.ofNat i) = m (s + UInt64.ofNat i)) ∧
    (∀ x, ¬ (d.toNat ≤ x.toNat ∧ x.toNat < d.toNat + length.toNat) →
      memcpy m d s length x = m x) ∧
    (length % 4 = 0 → copyLoop m d s 4 (length / 4).toNat = copyLoop m d s 1 length.toNat) := by
  have hlt := length.toNat_lt
  refine ⟨?_, ?_, ?_⟩
  · intro i hi
    have hoffset : d + UInt64.ofNat i - d = UInt64.ofNat i := add_sub_cancel_left _ _
    have hin : (d + UInt64.ofNat i - d).toNat < length.toNat := by
      rwa [(addr_sub_toNat_eq_iff (by omega)).mpr rfl]
    rw [memcpy_apply hin, hoffset]
    rw [hoffset]
    exact h.outside hi
  · intro x hx
    apply memcpy_frame
    rwa [addr_sub_toNat_lt_iff h.destination]
  · intro hwhole
    have hwords := words_toNat hwhole
    have hword := copyLoop_of_apart (m := m) (d := d) (s := s)
      (show (length / 4).toNat * 4 ≤ 2 ^ 64 by omega) (by
        rw [hwords]
        exact fun i hi => h.outside hi)
    have hbyte := copyLoop_of_apart (m := m) (d := d) (s := s)
      (show length.toNat * 1 ≤ 2 ^ 64 by omega) (by
        rw [Nat.mul_one]
        exact fun i hi => h.outside hi)
    rw [hword, hbyte, hwords, Nat.mul_one]

/-- Eight bytes, copied by words. -/
theorem memcpy_exact_words :
    (∀ i < 8, memcpy (fun x => x.toUInt8) 4096 8192 8 (4096 + UInt64.ofNat i) =
      (8192 + UInt64.ofNat i).toUInt8) ∧
    copyLoop (fun x => x.toUInt8) 4096 8192 4 2 = copyLoop (fun x => x.toUInt8) 4096 8192 1 8 := by
  have hranges : CopyRanges 4096 8192 8 := ⟨by decide, by decide, by decide⟩
  obtain ⟨hcopied, -, hways⟩ := memcpy_exact (fun x => x.toUInt8) hranges
  exact ⟨hcopied, hways (by decide)⟩

/-! ### Strings in memory -/

/-- The string lies at `a`, with its NUL. -/
def HoldsString (m : Memory) (a : Addr) (s : CString) : Prop :=
  a ≠ NULL ∧ ∀ j ≤ s.length, m (a + UInt64.ofNat j) = s.bytes.getD j 0

instance (m : Memory) (a : Addr) (s : CString) : Decidable (HoldsString m a s) :=
  inferInstanceAs (Decidable (_ ∧ _))

namespace HoldsString

variable {m' : Memory} {a b : Addr} {s : CString}

theorem nul (h : HoldsString m a s) : m (a + UInt64.ofNat s.length) = 0 := by
  rw [h.2 s.length (Nat.le_refl _)]
  exact List.getD_eq_default _ _ (Nat.le_refl _)

theorem char_ne_zero (h : HoldsString m a s) (hj : j < s.length) : m (a + UInt64.ofNat j) ≠ 0 := by
  rw [h.2 j hj.le, List.getD_eq_getElem _ _ hj]
  exact s.noNul _ (List.getElem_mem hj)

/-- The same bytes elsewhere, or in another memory. -/
theorem copy (h : HoldsString m a s) (hb : b ≠ NULL)
    (hbytes : ∀ j ≤ s.length, m' (b + UInt64.ofNat j) = m (a + UInt64.ofNat j)) :
    HoldsString m' b s := by
  refine ⟨hb, ?_⟩
  intro j hj
  rw [hbytes j hj]
  exact h.2 j hj

end HoldsString

/-- `strlen` counts the characters before the NUL. -/
theorem strlenFrom_holds {a : Addr} {t : CString} (h : HoldsString m a t) {k fuel : Nat}
    (hk : k ≤ t.length) (hfuel : t.length - k < fuel) :
    strlenFrom m a (UInt64.ofNat k) fuel = some (UInt64.ofNat t.length) := by
  induction fuel generalizing k with
  | zero => omega
  | succ fuel ih =>
    by_cases hend : k = t.length
    · rw [hend, strlenFrom, h.nul]
      simp
    · have hchar := h.char_ne_zero (show k < t.length by omega)
      rw [strlenFrom, if_pos hchar]
      have hnext : UInt64.ofNat k + 1 = UInt64.ofNat (k + 1) := by
        rw [UInt64.ofNat_add]
        rfl
      rw [hnext]
      exact ih (by omega) (by omega)

theorem strlen_holds {a : Addr} {t : CString} (h : HoldsString m a t)
    (hlen : t.length < walkBound) : strlen m a = some (UInt64.ofNat t.length) := by
  rw [strlen, if_neg h.1]
  exact strlenFrom_holds h (Nat.zero_le _) (by omega)

end TP2Kernel
