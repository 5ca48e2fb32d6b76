import TP2Kernel.Framework.Painting
import TP2Kernel.Video.Graphics

/-! # Filled rectangles

    `fillRect` checks the corner of the rectangle only.  From there on it counts through
    memory, so that what is too wide goes on in the row below, and what is too high below
    the screen.
-/

namespace TP2Kernel

open IntLoop Painting

namespace REKTangle

/-- The pixels of the rectangle that are on the screen. -/
def Shows (rekt : REKTangle) (col row : Nat) : Prop :=
  (rekt.x.toNat ≤ col ∧ col < rekt.x.toNat + rekt.width.toNat) ∧
  (rekt.y.toNat ≤ row ∧ row < rekt.y.toNat + rekt.height.toNat) ∧ col < 1024 ∧ row < 768

/-- The bytes of their colours. -/
def shown (rekt : REKTangle) : Set Addr :=
  {a | ∃ col row k, rekt.Shows col row ∧ k < 3 ∧ a = pixelByte col row k}

/-- `fillRect` returns, the pixels that are on the screen have the colour, and the rest of
    memory is as before. -/
def FillsOnScreen (rekt : REKTangle) : Prop :=
  ∀ m : Memory, ∃ m', m.fillRect rekt = some m' ∧
    (∀ col row, rekt.Shows col row → ∀ k < 3, m' (pixelByte col row k) = hexToBGR rekt.color k) ∧
    ∀ a ∉ rekt.shown, m' a = m a

/-- The byte that is written in that round of the loops. -/
def fillByte (rekt : REKTangle) (row col k : Nat) : Addr :=
  findPixel rekt.x rekt.y + UInt64.ofNat row * BPL +
    extend (Int32.ofNat col * 4 + Int32.ofNat k)

/-- All bytes that are written. -/
def filled (rekt : REKTangle) : Set Addr :=
  {a | ∃ row < rounds rekt.height, ∃ col < rounds rekt.width, ∃ k < 3, a = rekt.fillByte row col k}

/-- What an address gets when it gets one of the colours. -/
def colorAt (rekt : REKTangle) (a : Addr) : UInt8 :=
  hexToBGR rekt.color ((a - VIDEO_ADDRESS_START).toNat % 4)

end REKTangle

open REKTangle

variable {rekt : REKTangle} {row col k : Nat}

/-! ### Addresses -/

theorem toNat_extend_mod (n : Nat) : (extend (Int32.ofNat n)).toNat % 4 = n % 4 := by
  have hwrap : Int32.ofNat n = Int32.ofNat (n % 2 ^ 32) := by
    rw [← Int32.toBitVec_inj]
    show BitVec.ofNat 32 n = BitVec.ofNat 32 (n % 2 ^ 32)
    rw [← BitVec.toNat_inj, BitVec.toNat_ofNat, BitVec.toNat_ofNat, Nat.mod_mod]
  rw [hwrap, toNat_extend_ofNat (Nat.mod_lt _ (by decide))]
  split <;> omega

theorem counters_eq (col k : Nat) :
    Int32.ofNat col * 4 + Int32.ofNat k = Int32.ofNat (col * 4 + k) := by
  rw [Int32.ofNat_add, Int32.ofNat_mul]
  rfl

/-- Each byte written is that colour of a pixel, wherever it lies. -/
theorem colorAt_fillByte (hx : rekt.x < WIDTH) (hy : rekt.y < HEIGHT) (hk : k < 3) :
    rekt.colorAt (rekt.fillByte row col k) = hexToBGR rekt.color k := by
  have hmod := toNat_extend_mod (col * 4 + k)
  have hdistance : rekt.fillByte row col k - VIDEO_ADDRESS_START =
      UInt64.ofNat ((rekt.y.toNat * 1024 + rekt.x.toNat) * 4 + 0) + UInt64.ofNat row * BPL +
        extend (Int32.ofNat (col * 4 + k)) := by
    rw [fillByte, findPixel_eq hx hy, pixelByte, counters_eq]
    grind
  have hbyte : (rekt.fillByte row col k - VIDEO_ADDRESS_START).toNat % 4 = k := by
    rw [hdistance, UInt64.toNat_add, UInt64.toNat_add, UInt64.toNat_mul, UInt64.toNat_ofNat',
      UInt64.toNat_ofNat', show BPL.toNat = 4096 from rfl]
    omega
  rw [colorAt, hbyte]

/-- In the first rounds the address is that of a pixel further right and below. -/
theorem fillByte_eq (hx : rekt.x < WIDTH) (hy : rekt.y < HEIGHT) (hsmall : col * 4 + k < 2 ^ 31) :
    rekt.fillByte row col k = pixelByte (rekt.x.toNat + col) (rekt.y.toNat + row) k := by
  have hbyte : ((rekt.y.toNat + row) * 1024 + (rekt.x.toNat + col)) * 4 + k =
      ((rekt.y.toNat * 1024 + rekt.x.toNat) * 4 + 0) + row * 4096 + (col * 4 + k) := by omega
  rw [fillByte, findPixel_eq hx hy, counters_eq, extend_ofNat hsmall, pixelByte, pixelByte, hbyte,
    UInt64.ofNat_add _ (col * 4 + k), UInt64.ofNat_add _ (row * 4096), UInt64.ofNat_mul,
    ← UInt64.add_assoc, ← UInt64.add_assoc]
  rfl

/-! ### What is painted -/

namespace Memory

theorem fillPixel_paints (m : Memory) (hx : rekt.x < WIDTH) (hy : rekt.y < HEIGHT) (row col : Nat) :
    Paints rekt.colorAt {a | ∃ k < 3, a = rekt.fillByte row col k} m
      (m.fillPixel (findPixel rekt.x rekt.y + UInt64.ofNat row * BPL) (hexToBGR rekt.color)
        (Int32.ofNat col)) := by
  refine Paints.foldl (S := fun k => {rekt.fillByte row col k}) (fun k hk m => ?_) m
  have hcolor : rekt.colorAt (rekt.fillByte row col k) = hexToBGR rekt.color k :=
    colorAt_fillByte hx hy hk
  rw [← hcolor]
  exact .update _ _ _

/-- The pointer of the outer loop, which goes down by one line in each round. -/
theorem fillRows_eq (m : Memory) (p : Addr) (bgr : Nat → UInt8) (width : UInt64) (n : Nat) :
    (List.range n).foldl (fun (s : Memory × Addr) _ => (s.1.fillRow s.2 bgr width, s.2 + BPL))
      (m, p) =
    ((List.range n).foldl (fun m row => m.fillRow (p + UInt64.ofNat row * BPL) bgr width) m,
      p + UInt64.ofNat n * BPL) := by
  induction n with
  | zero =>
    simp
  | succ n ih =>
    have hnext : p + UInt64.ofNat n * BPL + BPL = p + UInt64.ofNat (n + 1) * BPL := by
      rw [UInt64.ofNat_add]
      grind
    rw [List.range_succ, List.foldl_append, List.foldl_append, ih, ← hnext]
    simp only [List.foldl_cons, List.foldl_nil]

theorem fillRect_paints (m : Memory) (hx : rekt.x < WIDTH) (hy : rekt.y < HEIGHT) :
    ∃ m', m.fillRect rekt = some m' ∧ Paints rekt.colorAt rekt.filled m m' := by
  refine ⟨_, fillRect_eq m rekt (findPixel_ne_null_iff.mpr ⟨hx, hy⟩), ?_⟩
  rw [fillRows_eq]
  exact Paints.foldl (fun row _ m => Paints.foldl (fun col _ m =>
    fillPixel_paints m hx hy row col) m) m

end Memory

/-! ### What should be painted -/

theorem colorAt_pixelByte (rekt : REKTangle) (col row : Nat) (hk : k < 3) :
    rekt.colorAt (pixelByte col row k) = hexToBGR rekt.color k := by
  have hdistance : pixelByte col row k - VIDEO_ADDRESS_START =
      UInt64.ofNat ((row * 1024 + col) * 4 + k) := add_sub_cancel_left _ _
  have hbyte : (pixelByte col row k - VIDEO_ADDRESS_START).toNat % 4 = k := by
    rw [hdistance, UInt64.toNat_ofNat']
    omega
  rw [colorAt, hbyte]

/-- Nothing that should be painted is left out. -/
theorem shown_subset_filled (hx : rekt.x < WIDTH) (hy : rekt.y < HEIGHT) :
    rekt.shown ⊆ rekt.filled := by
  rintro a ⟨col, row, k, ⟨hcol, hrow, hcol', hrow'⟩, hk, rfl⟩
  refine ⟨row - rekt.y.toNat, lt_rounds (by omega) (by omega), col - rekt.x.toNat,
    lt_rounds (by omega) (by omega), k, hk, ?_⟩
  rw [fillByte_eq hx hy (by omega), Nat.add_sub_cancel' hcol.1, Nat.add_sub_cancel' hrow.1]

/-- So it is a matter of what is painted too much.  That shows on a memory that does not
    have the colour there yet. -/
theorem fillsOnScreen_iff_subset (hx : rekt.x < WIDTH) (hy : rekt.y < HEIGHT) :
    rekt.FillsOnScreen ↔ rekt.filled ⊆ rekt.shown := by
  constructor
  · intro hfills a ha
    by_contra hout
    obtain ⟨m', hm', -, hkept⟩ := hfills fun _ => rekt.colorAt a + 1
    obtain ⟨m'', hm'', hpaints⟩ := Memory.fillRect_paints (fun _ => rekt.colorAt a + 1) hx hy
    obtain rfl := Option.some.inj (hm'.symm.trans hm'')
    have hsame : rekt.colorAt a = rekt.colorAt a + 1 :=
      (hpaints.painted a ha).symm.trans (hkept a hout)
    exact absurd hsame (by grind)
  · intro hsubset m
    obtain ⟨m', hm', hpaints⟩ := Memory.fillRect_paints m hx hy
    refine ⟨m', hm', ?_, fun a ha => hpaints.kept a fun hfilled => ha (hsubset hfilled)⟩
    intro col row hshows k hk
    rw [hpaints.painted _ (shown_subset_filled hx hy ⟨col, row, k, hshows, hk, rfl⟩),
      colorAt_pixelByte rekt col row hk]

/-- The whole rectangle is on the screen. -/
def REKTangle.Fits (rekt : REKTangle) : Prop :=
  rekt.x.toNat + rekt.width.toNat ≤ 1024 ∧ rekt.y.toNat + rekt.height.toNat ≤ 768

theorem filled_subset_shown (hx : rekt.x < WIDTH) (hy : rekt.y < HEIGHT) (hfits : rekt.Fits) :
    rekt.filled ⊆ rekt.shown := by
  obtain ⟨hright, hbottom⟩ := hfits
  rintro a ⟨row, hrow, col, hcol, k, hk, rfl⟩
  rw [rounds_eq (by omega)] at hrow hcol
  refine ⟨rekt.x.toNat + col, rekt.y.toNat + row, k, ?_, hk, fillByte_eq hx hy (by omega)⟩
  exact ⟨by omega, by omega, by omega, by omega⟩

/-- A rectangle that is too high is continued below the screen; one that is too wide in the
    row under its last one. -/
theorem fits_of_filled_subset (hx : rekt.x < WIDTH) (hy : rekt.y < HEIGHT)
    (hwidth : 0 < rekt.width.toNat) (hheight : 0 < rekt.height.toNat)
    (hsubset : rekt.filled ⊆ rekt.shown) : rekt.Fits := by
  have hcorner : rekt.x.toNat < 1024 ∧ rekt.y.toNat < 768 :=
    ⟨UInt64.lt_iff_toNat_lt.mp hx, UInt64.lt_iff_toNat_lt.mp hy⟩
  have hbottom : rekt.y.toNat + rekt.height.toNat ≤ 768 := by
    by_contra hhigh
    have hbelow : pixelByte rekt.x.toNat 768 0 ∈ rekt.filled := by
      refine ⟨768 - rekt.y.toNat, lt_rounds (by omega) (by omega), 0,
        lt_rounds hwidth (by decide), 0, by decide, ?_⟩
      rw [fillByte_eq hx hy (by decide), Nat.add_sub_cancel' hcorner.2.le, Nat.add_zero]
    obtain ⟨col, row, k, ⟨-, -, hcol, hrow⟩, hk, heq⟩ := hsubset hbelow
    rw [pixelByte_inj hcorner.1 (by decide) (by decide) hcol (by omega) (by omega)] at heq
    omega
  refine ⟨?_, hbottom⟩
  by_contra hwide
  have hnext : pixelByte 0 (rekt.y.toNat + rekt.height.toNat) 0 ∈ rekt.filled := by
    refine ⟨rekt.height.toNat - 1, lt_rounds (by omega) (by omega), 1024 - rekt.x.toNat,
      lt_rounds (by omega) (by omega), 0, by decide, ?_⟩
    have hoffset : ((rekt.y.toNat + (rekt.height.toNat - 1)) * 1024 +
        (rekt.x.toNat + (1024 - rekt.x.toNat))) * 4 + 0 =
        ((rekt.y.toNat + rekt.height.toNat) * 1024 + 0) * 4 + 0 := by omega
    rw [fillByte_eq hx hy (by omega), pixelByte, pixelByte, hoffset]
  obtain ⟨col, row, k, ⟨-, hrow, hcol, hrow'⟩, hk, heq⟩ := hsubset hnext
  rw [pixelByte_inj (by decide) (by omega) (by decide) hcol (by omega) (by omega)] at heq
  omega

theorem filled_eq_empty (h : rekt.width = 0 ∨ rekt.height = 0) : rekt.filled = ∅ := by
  ext a
  constructor
  · rintro ⟨row, hrow, col, hcol, -⟩
    obtain hzero | hzero := h
    · rw [hzero] at hcol
      exact absurd hcol (Nat.not_lt_zero _)
    · rw [hzero] at hrow
      exact absurd hrow (Nat.not_lt_zero _)
  · exact fun h => absurd h (Set.notMem_empty a)

/-- **`fillRect` stays on the screen when the rectangle does.**  It always returns.  It
    paints the pixels of the rectangle that are on the screen and changes nothing else if
    and only if the corner is not on the screen, the rectangle is empty, or no part of it
    is off the screen. -/
theorem fillsOnScreen_iff (rekt : REKTangle) :
    (∀ m : Memory, ∃ m', m.fillRect rekt = some m') ∧
    (rekt.FillsOnScreen ↔
      WIDTH ≤ rekt.x ∨ HEIGHT ≤ rekt.y ∨ rekt.width = 0 ∨ rekt.height = 0 ∨
      rekt.x.toNat + rekt.width.toNat ≤ 1024 ∧ rekt.y.toNat + rekt.height.toNat ≤ 768) := by
  refine ⟨fun m => m.fillRect_isSome rekt, ?_⟩
  by_cases hon : rekt.x < WIDTH ∧ rekt.y < HEIGHT
  · obtain ⟨hx, hy⟩ := hon
    rw [fillsOnScreen_iff_subset hx hy]
    constructor
    · intro hsubset
      by_contra hnot
      simp only [not_or] at hnot
      obtain ⟨-, -, hwidth, hheight, hfits⟩ := hnot
      rw [← UInt64.toNat_inj] at hwidth hheight
      exact hfits (fits_of_filled_subset hx hy (Nat.pos_of_ne_zero hwidth)
        (Nat.pos_of_ne_zero hheight) hsubset)
    · rintro (hoff | hoff | hempty | hempty | hfits)
      · exact absurd hx (UInt64.not_lt.mpr hoff)
      · exact absurd hy (UInt64.not_lt.mpr hoff)
      · rw [filled_eq_empty (.inl hempty)]
        exact Set.empty_subset _
      · rw [filled_eq_empty (.inr hempty)]
        exact Set.empty_subset _
      · exact filled_subset_shown hx hy hfits
  · have hoff : WIDTH ≤ rekt.x ∨ HEIGHT ≤ rekt.y := by
      rwa [not_and_or, UInt64.not_lt, UInt64.not_lt] at hon
    refine iff_of_true (fun m => ⟨m, ?_, ?_, fun _ _ => rfl⟩) ?_
    · rw [Memory.fillRect, findPixel, if_pos hoff]
      rfl
    · rintro col row ⟨hcol, hrow, hcol', hrow'⟩
      rw [UInt64.le_iff_toNat_le, UInt64.le_iff_toNat_le] at hoff
      have hcorner : 1024 ≤ rekt.x.toNat ∨ 768 ≤ rekt.y.toNat := hoff
      omega
    · exact hoff.imp_right .inl

/-- The rectangle with which `ncPrintColorChar` blanks the last line is eight pixels too
    wide for the place it begins at, and ends behind the frame buffer. -/
theorem blank_line_not_onScreen :
    ¬ REKTangle.FillsOnScreen
      ⟨CHAR_PX_SIZE, HEIGHT - CHAR_PX_SIZE, WIDTH, CHAR_PX_SIZE, BLACK⟩ := by
  have hx : CHAR_PX_SIZE < WIDTH := by decide
  have hy : HEIGHT - CHAR_PX_SIZE < HEIGHT := by decide
  intro hfills
  have hfits := fits_of_filled_subset (by exact hx) (by exact hy) (by decide) (by decide)
    ((fillsOnScreen_iff_subset (by exact hx) (by exact hy)).mp hfills)
  exact absurd hfits.1 (by decide)

end TP2Kernel
