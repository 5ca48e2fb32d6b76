import Mathlib.Data.List.Basic
import Mathlib.Data.Nat.ModEq
import Mathlib.Logic.Function.Basic

/-! # Circular buffers

    A circular buffer of `n` cells with a read index and a write index.  `Fills` says which
    list lies in the cells; `push` and `pop` are its two operations.

    The indices alone do not tell an empty buffer from a full one.  Either the size is kept
    beside them, or one cell is kept free, as `Holds` says: then the buffer is empty when
    the indices are equal, and full when the write index is one behind the read index.
-/

namespace CircularBuffer

universe u

variable {α : Type u}

/-- The index after `i`, wrapping around the end. -/
def next (n i : Nat) : Nat := if i + 1 ≥ n then 0 else i + 1

/-- The cells from `r` on, up to `w`, hold `l`. -/
structure Fills (cell : Nat → α) (n r w : Nat) (l : List α) : Prop where
  read_lt : r < n
  write_eq : w = (r + l.length) % n
  fits : l.length ≤ n
  cells : ∀ k (h : k < l.length), cell ((r + k) % n) = l[k]

/-- The cells from `r` on, up to `w`, hold `l`, and one is free. -/
structure Holds (cell : Nat → α) (n r w : Nat) (l : List α) : Prop where
  read_lt : r < n
  write_eq : w = (r + l.length) % n
  room : l.length < n
  cells : ∀ k (h : k < l.length), cell ((r + k) % n) = l[k]

variable {cell cell' : Nat → α} {n r w : Nat} {a : α} {l : List α}

theorem next_eq (h : r < n) : next n r = (r + 1) % n := by
  unfold next
  split
  · next hge =>
    have heq : r + 1 = n := by omega
    rw [heq, Nat.mod_self]
  · next hlt => rw [Nat.mod_eq_of_lt (by omega)]

theorem next_lt (h : 0 < n) (i : Nat) : next n i < n := by
  unfold next
  split <;> omega

/-- Two positions of the buffer differ when they are less than `n` apart. -/
theorem add_mod_inj {j k : Nat} (hj : j < n) (hk : k < n)
    (heq : (r + j) % n = (r + k) % n) : j = k := by
  have hmod : Nat.ModEq n j k := Nat.ModEq.add_left_cancel' r heq
  rwa [Nat.ModEq, Nat.mod_eq_of_lt hj, Nat.mod_eq_of_lt hk] at hmod

/-! ### With a size -/

namespace Fills

theorem write_lt (h : Fills cell n r w l) : w < n := by
  rw [h.write_eq]
  exact Nat.mod_lt _ (Nat.lt_of_le_of_lt (Nat.zero_le r) h.read_lt)

theorem nil (h : r < n) : Fills cell n r r [] :=
  ⟨h, (Nat.mod_eq_of_lt h).symm, Nat.zero_le n, fun _ hk => absurd hk (Nat.not_lt_zero _)⟩

theorem push (h : Fills cell n r w l) (hroom : l.length < n) :
    Fills (Function.update cell w a) n r (next n w) (l ++ [a]) := by
  have hother : ∀ k, k < l.length → (r + k) % n ≠ w := by
    intro k hk heq
    rw [h.write_eq] at heq
    have := add_mod_inj (r := r) (n := n) (by omega) (by omega) heq
    omega
  refine ⟨h.read_lt, ?_, ?_, ?_⟩
  · rw [next_eq h.write_lt, h.write_eq, Nat.mod_add_mod, List.length_append,
      List.length_singleton, Nat.add_assoc]
  · rw [List.length_append, List.length_singleton]
    exact hroom
  · intro k hk
    rw [List.length_append, List.length_singleton] at hk
    by_cases hkl : k < l.length
    · rw [Function.update_of_ne (hother k hkl), List.getElem_append_left hkl]
      exact h.cells k hkl
    · obtain rfl : k = l.length := by omega
      rw [← h.write_eq, Function.update_self, List.getElem_append_right (Nat.le_refl _)]
      simp

theorem pop (h : Fills cell n r w (a :: l)) :
    cell r = a ∧ Fills cell n (next n r) w l := by
  have hfits := h.fits
  rw [List.length_cons] at hfits
  constructor
  · have hfirst := h.cells 0 (by simp)
    rwa [Nat.add_zero, Nat.mod_eq_of_lt h.read_lt] at hfirst
  · refine ⟨next_lt (by omega) r, ?_, by omega, ?_⟩
    · rw [h.write_eq, next_eq h.read_lt, Nat.mod_add_mod, List.length_cons]
      congr 1
      omega
    · intro k hk
      have hcell := h.cells (k + 1) (by simpa using hk)
      rw [next_eq h.read_lt, Nat.mod_add_mod, Nat.add_assoc, Nat.add_comm 1 k, hcell]
      simp

end Fills

/-! ### With a free cell -/

namespace Holds

theorem fills (h : Holds cell n r w l) : Fills cell n r w l :=
  ⟨h.read_lt, h.write_eq, Nat.le_of_lt h.room, h.cells⟩

theorem of_fills (h : Fills cell n r w l) (hroom : l.length < n) : Holds cell n r w l :=
  ⟨h.read_lt, h.write_eq, hroom, h.cells⟩

theorem write_lt (h : Holds cell n r w l) : w < n := h.fills.write_lt

theorem nil (h : r < n) : Holds cell n r r [] :=
  ⟨h, (Nat.mod_eq_of_lt h).symm, Nat.lt_of_le_of_lt (Nat.zero_le r) h,
    fun _ hk => absurd hk (Nat.not_lt_zero _)⟩

/-- Only the cells of the buffer matter. -/
theorem congr (h : Holds cell n r w l) (hcell : ∀ i, i < n → cell' i = cell i) :
    Holds cell' n r w l := by
  refine ⟨h.read_lt, h.write_eq, h.room, ?_⟩
  intro k hk
  rw [hcell _ (Nat.mod_lt _ (Nat.lt_of_le_of_lt (Nat.zero_le r) h.read_lt))]
  exact h.cells k hk

theorem empty_iff (h : Holds cell n r w l) : w = r ↔ l = [] := by
  constructor
  · intro heq
    have hzero : l.length = 0 := by
      apply add_mod_inj (r := r) h.room (Nat.lt_of_le_of_lt (Nat.zero_le r) h.read_lt)
      rw [← h.write_eq, heq, Nat.add_zero, Nat.mod_eq_of_lt h.read_lt]
    exact List.eq_nil_of_length_eq_zero hzero
  · rintro rfl
    rw [h.write_eq, List.length_nil, Nat.add_zero, Nat.mod_eq_of_lt h.read_lt]

theorem full_iff (h : Holds cell n r w l) : next n w = r ↔ l.length + 1 = n := by
  have hnext : next n w = (r + (l.length + 1)) % n := by
    rw [next_eq h.write_lt, h.write_eq, Nat.mod_add_mod, Nat.add_assoc]
  have hroom := h.room
  constructor
  · intro heq
    by_contra hne
    have hzero : l.length + 1 = 0 := by
      apply add_mod_inj (r := r) (n := n) (by omega) (by omega)
      rw [← hnext, heq, Nat.add_zero, Nat.mod_eq_of_lt h.read_lt]
    omega
  · intro heq
    rw [hnext, heq, Nat.add_mod_right, Nat.mod_eq_of_lt h.read_lt]

theorem push (h : Holds cell n r w l) (hroom : l.length + 1 < n) :
    Holds (Function.update cell w a) n r (next n w) (l ++ [a]) := by
  apply of_fills (h.fills.push (by omega))
  rw [List.length_append, List.length_singleton]
  exact hroom

/-! Pushing in two steps: the value first, and then the index. -/

/-- What lies in the free cell does not count. -/
theorem store (h : Holds cell n r w l) (a : α) : Holds (Function.update cell w a) n r w l := by
  refine ⟨h.read_lt, h.write_eq, h.room, ?_⟩
  intro k hk
  have hroom := h.room
  have hother : (r + k) % n ≠ w := by
    intro heq
    rw [h.write_eq] at heq
    have := add_mod_inj (r := r) (n := n) (by omega) hroom heq
    omega
  rw [Function.update_of_ne hother]
  exact h.cells k hk

/-- Until the index takes it in. -/
theorem advance (h : Holds cell n r w l) (hcell : cell w = a) (hroom : l.length + 1 < n) :
    Holds cell n r (next n w) (l ++ [a]) := by
  have hpush := h.push (a := a) hroom
  rwa [← hcell, Function.update_eq_self, hcell] at hpush

theorem pop (h : Holds cell n r w (a :: l)) :
    cell r = a ∧ Holds cell n (next n r) w l := by
  obtain ⟨hfirst, hrest⟩ := h.fills.pop
  have hroom := h.room
  rw [List.length_cons] at hroom
  exact ⟨hfirst, of_fills hrest (by omega)⟩

end Holds

/-- The list between two indices of a buffer with a free cell. -/
def contents (cell : Nat → α) (n r w : Nat) : List α :=
  (List.range ((w + n - r) % n)).map fun k => cell ((r + k) % n)

/-- The distance between the two indices. -/
theorem Holds.length_eq (h : Holds cell n r w l) :
    l.length = if r ≤ w then w - r else w + n - r := by
  have hread := h.read_lt
  have hroom := h.room
  have hwrite := h.write_eq
  by_cases hwrap : r + l.length < n
  · -- the list does not pass the end
    rw [Nat.mod_eq_of_lt hwrap] at hwrite
    rw [if_pos (by omega)]
    omega
  · rw [Nat.mod_eq_sub_mod (by omega), Nat.mod_eq_of_lt (by omega)] at hwrite
    rw [if_neg (by omega)]
    omega

/-- No other list lies there. -/
theorem Holds.contents_eq (h : Holds cell n r w l) : contents cell n r w = l := by
  have hread := h.read_lt
  have hroom := h.room
  have hlen : (w + n - r) % n = l.length := by
    have hlength := h.length_eq
    split at hlength
    · next hle =>
      have hsub : w + n - r = l.length + n := by omega
      rw [hsub, Nat.add_mod_right, Nat.mod_eq_of_lt hroom]
    · rw [← hlength, Nat.mod_eq_of_lt hroom]
  unfold contents
  rw [hlen]
  apply List.ext_getElem
  · simp
  · intro k hk hk'
    rw [List.getElem_map, List.getElem_range]
    exact h.cells k hk'

end CircularBuffer
