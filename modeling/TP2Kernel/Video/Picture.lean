import TP2Kernel.Memory.Bytes
import TP2Kernel.Video.Cursor
import TP2Kernel.Video.Rectangles
import TP2Kernel.Video.Scrolling

/-! # The picture in the frame buffer

    A picture gives each pixel its colour.  What the functions of `video-graphics.c` that
    print text do to memory is said as what they do to the picture.  Scrolling reads the
    rows behind the screen, so a picture goes on there.
-/

namespace TP2Kernel

open IntLoop Painting

/-- What a byte of the frame buffer should be, for the colours of the picture. -/
def pictureByte (picture : Nat → Nat → UInt32) (a : Addr) : UInt8 :=
  let n := (a - VIDEO_ADDRESS_START).toNat
  hexToBGR (picture (n / 4 % 1024) (n / 4 / 1024)) (n % 4)

/-- Memory shows the picture, on the screen and in the rows behind it. -/
def Shows (m : Memory) (picture : Nat → Nat → UInt32) : Prop :=
  ∀ col < 1024, ∀ row ≤ 776, ∀ k < 3, m (pixelByte col row k) = hexToBGR (picture col row) k

variable {m m' : Memory} {picture picture' : Nat → Nat → UInt32} {col row k : Nat}

theorem pixelByte_distance (hcol : col < 1024) (hrow : row ≤ 1024) (hk : k < 4) :
    (pixelByte col row k - VIDEO_ADDRESS_START).toNat = (row * 1024 + col) * 4 + k := by
  rw [pixelByte, add_sub_cancel_left, UInt64.toNat_ofNat_of_lt' (by show _ < 2 ^ 64; omega)]

theorem pictureByte_pixelByte (picture : Nat → Nat → UInt32) (hcol : col < 1024)
    (hrow : row ≤ 1024) (hk : k < 3) :
    pictureByte picture (pixelByte col row k) = hexToBGR (picture col row) k := by
  have hcol' : ((row * 1024 + col) * 4 + k) / 4 % 1024 = col := by omega
  have hrow' : ((row * 1024 + col) * 4 + k) / 4 / 1024 = row := by omega
  have hk' : ((row * 1024 + col) * 4 + k) % 4 = k := by omega
  unfold pictureByte
  rw [pixelByte_distance hcol hrow (by omega)]
  dsimp only
  rw [hcol', hrow', hk']

theorem Shows.congr (h : Shows m picture)
    (hsame : ∀ col < 1024, ∀ row ≤ 776, picture' col row = picture col row) :
    Shows m picture' := by
  intro col hcol row hrow k hk
  rw [hsame col hcol row hrow]
  exact h col hcol row hrow k hk

/-- Painting from one picture over another. -/
theorem Shows.paint {S : Set Addr} (h : Shows m picture)
    (hpaints : Paints (pictureByte picture') S m m') {result : Nat → Nat → UInt32}
    (hin : ∀ col < 1024, ∀ row ≤ 776, ∀ k < 3, pixelByte col row k ∈ S →
      result col row = picture' col row)
    (hout : ∀ col < 1024, ∀ row ≤ 776, ∀ k < 3, pixelByte col row k ∉ S →
      result col row = picture col row) : Shows m' result := by
  intro col hcol row hrow k hk
  by_cases hS : pixelByte col row k ∈ S
  · rw [hpaints.painted _ hS, pictureByte_pixelByte picture' hcol (by omega) hk,
      hin col hcol row hrow k hk hS]
  · rw [hpaints.kept _ hS, h col hcol row hrow k hk, hout col hcol row hrow k hk hS]

/-! ### Characters -/

/-- The colour of a pixel of a character, counted from above and from the right. -/
def glyphPixel (bitmaps : UInt8 → Nat → UInt8) (c : UInt8) (color : UInt32) (i j : Nat) :
    UInt32 :=
  if bitmaps c i &&& Memory.mask j ≠ 0 then color else BLACK

/-- In black, every character is a blank. -/
theorem glyphPixel_black (bitmaps : UInt8 → Nat → UInt8) (c : UInt8) (i j : Nat) :
    glyphPixel bitmaps c BLACK i j = BLACK := by
  unfold glyphPixel
  split <;> rfl

theorem paintColorPixel_paints (picture : Nat → Nat → UInt32) {x y : UInt64} (m : Memory)
    (hx : x.toNat = col) (hy : y.toNat = row) (hcol : col < 1024) (hrow : row < 768) :
    Paints (pictureByte picture) {a | ∃ k < 3, a = pixelByte col row k} m
      (m.paintColorPixel x y (picture col row)) := by
  have hx' : x < WIDTH := UInt64.lt_iff_toNat_lt.mpr (by show x.toNat < 1024; omega)
  have hy' : y < HEIGHT := UInt64.lt_iff_toNat_lt.mpr (by show y.toNat < 768; omega)
  have hfind : findPixel x y = pixelByte col row 0 := by
    rw [findPixel_eq hx' hy', hx, hy]
  have hbyte : ∀ {a : Addr} {k : Nat}, k < 3 →
      ((a - pixelByte col row 0).toNat = k ↔ a = pixelByte col row k) := by
    intro a k hk
    rw [addr_sub_toNat_eq_iff (by omega), pixelByte, pixelByte, UInt64.ofNat_add _ k,
      ← UInt64.add_assoc]
    rfl
  have hwrite : ∀ a, m.paintColorPixel x y (picture col row) a =
      if (a - pixelByte col row 0).toNat < 3
      then hexToBGR (picture col row) (a - pixelByte col row 0).toNat else m a := by
    intro a
    unfold Memory.paintColorPixel
    rw [if_neg (findPixel_ne_null_iff.mpr ⟨hx', hy'⟩), hfind,
      Memory.writeBytes_apply m _ a (by simp)]
    simp only [List.length_map, List.length_range]
    split
    · next hlt =>
      rw [List.getD_eq_getElem _ _ (by simpa using hlt)]
      simp
    · rfl
  constructor
  · rintro a ⟨k, hk, rfl⟩
    have hdistance := (hbyte hk).mpr rfl
    rw [hwrite, hdistance, if_pos hk, pictureByte_pixelByte picture hcol (by omega) hk]
  · intro a ha
    rw [hwrite, if_neg]
    exact fun hlt => ha ⟨_, hlt, (hbyte hlt).mp rfl⟩

/-- A character at a cell paints the pixels of the cell. -/
theorem Shows.paintColorChar {bitmaps : UInt8 → Nat → UInt8} {x y : UInt64}
    (h : Shows m picture) (hx : x.toNat = 8 * col) (hy : y.toNat = 8 * row) (hfirst : 1 ≤ col)
    (hlast : col ≤ 127) (hrow : row ≤ 95) (c : UInt8) (color : UInt32) :
    Shows (m.paintColorChar bitmaps x y c color) fun pcol prow =>
      if (8 * (col - 1) < pcol ∧ pcol ≤ 8 * col) ∧ 8 * row ≤ prow ∧ prow < 8 * row + 8
      then glyphPixel bitmaps c color (prow - 8 * row) (8 * col - pcol)
      else picture pcol prow := by
  let glyph : Nat → Nat → UInt32 := fun pcol prow =>
    glyphPixel bitmaps c color (prow - 8 * row) (8 * col - pcol)
  have hpaints : Paints (pictureByte glyph)
      {a | ∃ i < 8, a ∈ {a | ∃ j < 8, a ∈ {a | ∃ k < 3,
        a = pixelByte (8 * col - j) (8 * row + i) k}}} m
      (m.paintColorChar bitmaps x y c color) := by
    apply Paints.foldl
    intro i hi m
    apply Paints.foldl
    intro j hj m
    have hcolor : glyph (8 * col - j) (8 * row + i) = glyphPixel bitmaps c color i j := by
      show glyphPixel bitmaps c color _ _ = _
      congr 1 <;> omega
    have hpixel := paintColorPixel_paints glyph m
      (show (x - UInt64.ofNat j).toNat = 8 * col - j by rw [addr_sub_toNat (by omega), hx])
      (show (y + UInt64.ofNat i).toNat = 8 * row + i by rw [addr_add_toNat (by omega), hy])
      (by omega) (by omega)
    rwa [hcolor] at hpixel
  apply h.paint hpaints
  · rintro pcol hpcol prow hprow k hk ⟨i, hi, j, hj, k', hk', heq⟩
    obtain ⟨rfl, rfl, rfl⟩ := (pixelByte_inj hpcol (by omega) (by omega) (by omega) (by omega)
      (by omega)).mp heq
    exact if_pos (by omega)
  · intro pcol hpcol prow hprow k hk hout
    refine if_neg fun hin => hout ⟨prow - 8 * row, by omega, 8 * col - pcol, by omega, k, hk, ?_⟩
    congr 1 <;> omega

/-! ### Clearing and scrolling -/

theorem hexToBGR_black (k : Nat) : hexToBGR BLACK k = 0 := by
  unfold hexToBGR
  split <;> rfl

/-- The rows behind the screen are black. -/
def BlackBehind (m : Memory) : Prop :=
  ∀ col < 1024, ∀ row, 768 ≤ row → row ≤ 776 → ∀ k < 3, m (pixelByte col row k) = 0

/-- `clear` paints the frame buffer, word by word. -/
theorem Memory.clear_paints (m : Memory) : Paints (fun _ => 0) {a | InFrame a} m m.clear := by
  have hwords : {a | InFrame a} = {a | ∃ offset < 393216,
      a ∈ {a | (a - (VIDEO_ADDRESS_START + UInt64.ofNat (8 * offset))).toNat < 8}} := by
    ext a
    have hbase : VIDEO_ADDRESS_START.toNat = 0xFD000000 := rfl
    have hlt := a.toNat_lt
    have hword : ∀ offset < 393216,
        ((a - (VIDEO_ADDRESS_START + UInt64.ofNat (8 * offset))).toNat < 8 ↔
          0xFD000000 + 8 * offset ≤ a.toNat ∧ a.toNat < 0xFD000000 + 8 * offset + 8) := by
      intro offset hoffset
      have hsum : (VIDEO_ADDRESS_START + UInt64.ofNat (8 * offset)).toNat =
          0xFD000000 + 8 * offset :=
        addr_add_toNat (show 0xFD000000 + 8 * offset < 2 ^ 64 by omega)
      rw [UInt64.toNat_sub, hsum]
      omega
    have hframe : InFrame a ↔ 0xFD000000 ≤ a.toNat ∧ a.toNat < 0xFD000000 + 1024 * 768 * 4 := by
      rw [InFrame, UInt64.toNat_sub, hbase]
      omega
    rw [Set.mem_ofPred_eq, Set.mem_ofPred_eq, hframe]
    constructor
    · intro h
      refine ⟨(a.toNat - 0xFD000000) / 8, by omega, ?_⟩
      exact (hword _ (by omega)).mpr (by omega)
    · rintro ⟨offset, hoffset, h⟩
      have := (hword offset hoffset).mp h
      omega
  have hcount : (BPL * HEIGHT / 8).toNat = 393216 := by decide
  rw [hwords, Memory.clear, hcount]
  apply Paints.foldl
  intro offset _ m
  constructor
  · intro a ha
    rw [Memory.writeWord_apply]
    exact (if_pos ha).trans (by simp)
  · intro a ha
    rw [Memory.writeWord_apply]
    exact if_neg ha

theorem inFrame_pixelByte (hcol : col < 1024) (hrow : row ≤ 1024) (hk : k < 4) :
    InFrame (pixelByte col row k) ↔ row < 768 := by
  rw [InFrame, pixelByte_distance hcol hrow hk]
  omega

/-- `clear` makes the screen black, whatever was on it. -/
theorem BlackBehind.clear (h : BlackBehind m) : Shows m.clear fun _ _ => BLACK := by
  intro col hcol row hrow k hk
  have hframe := inFrame_pixelByte hcol (by omega : row ≤ 1024) (by omega : k < 4)
  rw [hexToBGR_black]
  by_cases hscreen : row < 768
  · exact m.clear_paints.painted _ (hframe.mpr hscreen)
  · rw [m.clear_paints.kept _ fun hin => hscreen (hframe.mp hin)]
    exact h col hcol row (by omega) hrow k hk

/-- `ncScroll` moves the picture up by sixteen rows, and two pixels more than it should. -/
theorem Shows.shiftUp (h : Shows m picture) :
    Shows (m.shiftUp (scrollPixels 1)) fun col row =>
      if 1024 * row + col < 1024 * 760 + 2 then picture col (row + 16) else picture col row := by
  have hpixels : (scrollPixels 1).toNat = 8 := toNat_scrollPixels 1
  have hlimit : (Memory.shiftUpLimit (scrollPixels 1)).toNat = 389120 := by
    rw [toNat_shiftUpLimit (by omega), hpixels]
  intro col hcol row hrow k hk
  have hdistance := pixelByte_distance hcol (by omega : row ≤ 1024) (by omega : k < 4)
  rw [Memory.shiftUp, shiftUp_source, hpixels, hlimit, copyLoop_down (by omega), hdistance]
  by_cases hmoved : 1024 * row + col < 1024 * 760 + 2
  · have hsource : pixelByte col row k + UInt64.ofNat (8192 * 8) = pixelByte col (row + 16) k := by
      have hsum : ((row + 16) * 1024 + col) * 4 + k =
          (row * 1024 + col) * 4 + k + 8192 * 8 := by omega
      rw [pixelByte, pixelByte, hsum, UInt64.ofNat_add ((row * 1024 + col) * 4 + k) (8192 * 8),
        UInt64.add_assoc]
    dsimp only
    rw [if_pos (by omega), if_pos hmoved, hsource]
    exact h col hcol (row + 16) (by omega) k hk
  · dsimp only
    rw [if_neg (by omega), if_neg hmoved]
    exact h col hcol row hrow k hk

/-- The last line is cleared by a rectangle of the width of the screen, but it begins at
    the first cell.  So each of its rows ends in the row below. -/
theorem Shows.clearLastLine (h : Shows m picture) :
    ∃ m', m.fillRect ⟨CHAR_PX_SIZE, HEIGHT - CHAR_PX_SIZE, WIDTH, CHAR_PX_SIZE, BLACK⟩ = some m' ∧
      Shows m' fun col row =>
        if 1024 * 760 + 8 ≤ 1024 * row + col ∧ 1024 * row + col < 1024 * 768 + 8 then BLACK
        else picture col row := by
  let rekt : REKTangle := ⟨CHAR_PX_SIZE, HEIGHT - CHAR_PX_SIZE, WIDTH, CHAR_PX_SIZE, BLACK⟩
  have hx : rekt.x < WIDTH := by decide
  have hy : rekt.y < HEIGHT := by decide
  have hx' : rekt.x.toNat = 8 := rfl
  have hy' : rekt.y.toNat = 760 := rfl
  have hwidth : rounds rekt.width = 1024 := rounds_eq (by decide)
  have hheight : rounds rekt.height = 8 := rounds_eq (by decide)
  obtain ⟨m', hm', hpaints⟩ := Memory.fillRect_paints m hx hy
  have hin : ∀ {col row k : Nat}, col < 1024 → row ≤ 776 → k < 3 →
      (pixelByte col row k ∈ rekt.filled ↔
        1024 * 760 + 8 ≤ 1024 * row + col ∧ 1024 * row + col < 1024 * 768 + 8) := by
    intro col row k hcol hrow hk
    have hbyte := toNat_pixelByte hcol.le (by omega : row ≤ 1024) (by omega : k < 4)
    constructor
    · rintro ⟨i, hi, j, hj, k', hk', heq⟩
      rw [hheight] at hi
      rw [hwidth] at hj
      rw [fillByte_eq hx hy (by omega), hx', hy', pixelByte, pixelByte] at heq
      have heq' := congrArg (fun a => (a - VIDEO_ADDRESS_START).toNat) heq
      simp only [add_sub_cancel_left] at heq'
      rw [UInt64.toNat_ofNat_of_lt' (by show _ < 2 ^ 64; omega),
        UInt64.toNat_ofNat_of_lt' (by show _ < 2 ^ 64; omega)] at heq'
      omega
    · intro hpixel
      -- the round that paints the pixel
      let n := 1024 * row + col - (1024 * 760 + 8)
      refine ⟨n / 1024, by rw [hheight]; omega, n % 1024, by rw [hwidth]; omega, k, hk, ?_⟩
      have hround : ((760 + n / 1024) * 1024 + (8 + n % 1024)) * 4 + k =
          (row * 1024 + col) * 4 + k := by omega
      rw [fillByte_eq hx hy (by omega), hx', hy', pixelByte, pixelByte, hround]
  have hblack : Paints (pictureByte fun _ _ => BLACK) rekt.filled m m' := hpaints
  refine ⟨m', hm', h.paint hblack ?_ ?_⟩
  · intro col hcol row hrow k hk ha
    exact if_pos ((hin hcol hrow hk).mp ha)
  · intro col hcol row hrow k hk ha
    exact if_neg fun hpixel => ha ((hin hcol hrow hk).mpr hpixel)

end TP2Kernel
