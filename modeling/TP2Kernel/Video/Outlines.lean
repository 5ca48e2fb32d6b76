import TP2Kernel.Video.Picture

/-! # Outlines

    `drawRect` draws four sides, of which two begin behind the rectangle.  A rectangle that
    is one pixel wide is painted all the same, but so are the column beside it and the row
    below it.
-/

namespace TP2Kernel

open Painting

/-- The colour is painted everywhere in the first set, and nowhere outside of the second
    one. -/
def PaintsWithin (color : UInt32) (inner outer : Set Addr) (m m' : Memory) : Prop :=
  ∃ S, inner ⊆ S ∧ S ⊆ outer ∧ Paints (REKTangle.colorAt ⟨0, 0, 0, 0, color⟩) S m m'

/-- The bytes of the pixels of a rectangle, as far as they are on the screen. -/
def region (left top width height : Nat) : Set Addr :=
  {a | ∃ col row k, (left ≤ col ∧ col < left + width) ∧ (top ≤ row ∧ row < top + height) ∧
    (col < 1024 ∧ row < 768) ∧ k < 3 ∧ a = pixelByte col row k}

variable {m m' m'' : Memory} {color : UInt32} {left top width height col row k : Nat}
  {inner outer inner' outer' : Set Addr}

/-! ### Rectangles -/

theorem inFrame_of_region {a : Addr} (h : a ∈ region left top width height) : InFrame a := by
  obtain ⟨col, row, k, -, -, ⟨hcol, hrow⟩, hk, rfl⟩ := h
  rw [InFrame, pixelByte_distance hcol (by omega) (by omega)]
  omega

/-- A rectangle has the pixels between its edges. -/
theorem mem_region_iff (hcol : col < 1024) (hrow : row < 768) (hk : k < 3) :
    pixelByte col row k ∈ region left top width height ↔
      (left ≤ col ∧ col < left + width) ∧ top ≤ row ∧ row < top + height := by
  constructor
  · rintro ⟨col', row', k', hcol', hrow', ⟨hlt, hlt'⟩, hk', heq⟩
    obtain ⟨rfl, rfl, -⟩ := (pixelByte_inj hcol (by omega) (by omega) hlt (by omega)
      (by omega)).mp heq
    exact ⟨hcol', hrow'⟩
  · intro h
    exact ⟨col, row, k, h.1, h.2, ⟨hcol, hrow⟩, hk, rfl⟩

theorem shown_eq (rekt : REKTangle) : rekt.shown =
    region rekt.x.toNat rekt.y.toNat rekt.width.toNat rekt.height.toNat := by
  ext a
  constructor
  · intro ha
    obtain ⟨col, row, k, ⟨hcol, hrow, hlt⟩, hk, rfl⟩ := ha
    exact ⟨col, row, k, hcol, hrow, hlt, hk, rfl⟩
  · intro ha
    obtain ⟨col, row, k, hcol, hrow, hlt, hk, rfl⟩ := ha
    exact ⟨col, row, k, ⟨hcol, hrow, hlt⟩, hk, rfl⟩

/-- One rectangle is in another one. -/
theorem region_subset {left' top' width' height' : Nat} (hleft : left' ≤ left)
    (hright : left + width ≤ left' + width') (htop : top' ≤ top)
    (hbottom : top + height ≤ top' + height') :
    region left top width height ⊆ region left' top' width' height' := by
  intro a ha
  obtain ⟨col, row, k, hcol, hrow, hlt, hk, rfl⟩ := ha
  exact ⟨col, row, k, by omega, by omega, hlt, hk, rfl⟩

namespace PaintsWithin

theorem refl (color : UInt32) (m : Memory) : PaintsWithin color ∅ outer m m :=
  ⟨∅, Set.Subset.rfl, Set.empty_subset _, .empty _ m⟩

theorem trans (h : PaintsWithin color inner outer m m')
    (h' : PaintsWithin color inner' outer' m' m'') :
    PaintsWithin color (inner ∪ inner') (outer ∪ outer') m m'' := by
  obtain ⟨S, hinner, houter, hpaints⟩ := h
  obtain ⟨T, hinner', houter', hpaints'⟩ := h'
  exact ⟨S ∪ T, Set.union_subset_union hinner hinner', Set.union_subset_union houter houter',
    hpaints.trans hpaints'⟩

theorem mono (h : PaintsWithin color inner outer m m') (hinner : inner' ⊆ inner)
    (houter : outer ⊆ outer') : PaintsWithin color inner' outer' m m' := by
  obtain ⟨S, hS, hS', hpaints⟩ := h
  exact ⟨S, hinner.trans hS, hS'.trans houter, hpaints⟩

theorem kept (h : PaintsWithin color inner outer m m') {a : Addr} (ha : a ∉ outer) :
    m' a = m a := by
  obtain ⟨S, -, houter, hpaints⟩ := h
  exact hpaints.kept a fun hS => ha (houter hS)

theorem pixelShows (h : PaintsWithin color inner outer m m')
    (hin : ∀ k < 3, pixelByte col row k ∈ inner) :
    ∀ k < 3, m' (pixelByte col row k) = hexToBGR color k := by
  obtain ⟨S, hinner, -, hpaints⟩ := h
  intro k hk
  rw [hpaints.painted _ (hinner (hin k hk)), colorAt_pixelByte _ col row hk]

end PaintsWithin

theorem fillRect_paintsWithin (m : Memory) (x y width height : UInt64) (color : UInt32)
    (hx : x.toNat < 1024) (hy : y.toNat < 768) (hright : x.toNat + width.toNat ≤ 1024)
    (hbottom : y.toNat + height.toNat ≤ 768) :
    ∃ m', m.fillRect ⟨x, y, width, height, color⟩ = some m' ∧
      PaintsWithin color (region x.toNat y.toNat width.toNat height.toNat)
        (region x.toNat y.toNat width.toNat height.toNat) m m' := by
  obtain ⟨rekt, hrekt⟩ : ∃ rekt : REKTangle, rekt = ⟨x, y, width, height, color⟩ := ⟨_, rfl⟩
  have hshown := shown_eq rekt
  have hx' : rekt.x < WIDTH := by
    rw [hrekt]
    exact UInt64.lt_iff_toNat_lt.mpr hx
  have hy' : rekt.y < HEIGHT := by
    rw [hrekt]
    exact UInt64.lt_iff_toNat_lt.mpr hy
  have hfits : rekt.Fits := by
    rw [hrekt]
    exact ⟨hright, hbottom⟩
  obtain ⟨m', hm', hpaints⟩ := m.fillRect_paints hx' hy'
  have hfilled : rekt.filled = rekt.shown :=
    (filled_subset_shown hx' hy' hfits).antisymm (shown_subset_filled hx' hy')
  rw [hfilled, hshown] at hpaints
  subst hrekt
  exact ⟨m', hm', _, Set.Subset.rfl, Set.Subset.rfl, hpaints⟩

/-- The outline of a rectangle that is one pixel wide: its column, the next one and the row
    below. -/
theorem drawRect_paintsWithin (m : Memory) (x y height : UInt64) (color : UInt32)
    (hright : x.toNat + 1 < 1024) (hbottom : y.toNat + height.toNat < 768) :
    ∃ m', m.drawRect ⟨x, y, 1, height, color⟩ = some m' ∧
      PaintsWithin color (region x.toNat y.toNat 1 height.toNat)
        (region x.toNat y.toNat 2 (height.toNat + 1)) m m' := by
  have hone : (1 : UInt64).toNat = 1 := rfl
  have hx : (x + 1).toNat = x.toNat + 1 := by
    rw [UInt64.toNat_add, hone, Nat.mod_eq_of_lt (by omega)]
  have hy : (y + height).toNat = y.toNat + height.toNat := by
    rw [UInt64.toNat_add, Nat.mod_eq_of_lt (by omega)]
  obtain ⟨m₁, htop, hpaints₁⟩ := fillRect_paintsWithin m x y 1 1 color (by omega) (by omega)
    (by omega) (by omega)
  obtain ⟨m₂, hleft, hpaints₂⟩ := fillRect_paintsWithin m₁ x y 1 height color (by omega)
    (by omega) (by omega) (by omega)
  obtain ⟨m₃, hlower, hpaints₃⟩ := fillRect_paintsWithin m₂ x (y + height) 1 1 color (by omega)
    (by omega) (by omega) (by omega)
  obtain ⟨m₄, hnext, hpaints₄⟩ := fillRect_paintsWithin m₃ (x + 1) y 1 height color (by omega)
    (by omega) (by omega) (by omega)
  have hpaints := ((hpaints₁.trans hpaints₂).trans hpaints₃).trans hpaints₄
  refine ⟨m₄, ?_, hpaints.mono ?_ ?_⟩
  · unfold Memory.drawRect
    rw [htop, Option.bind_some, hleft, Option.bind_some, hlower, Option.bind_some, hnext]
  · intro a ha
    exact .inl (.inl (.inr ha))
  · refine Set.union_subset (Set.union_subset (Set.union_subset ?_ ?_) ?_) ?_ <;>
      apply region_subset <;> omega

end TP2Kernel
