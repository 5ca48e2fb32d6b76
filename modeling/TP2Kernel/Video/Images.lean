import TP2Kernel.Framework.Painting
import TP2Kernel.Memory.Bytes
import TP2Kernel.Video.Graphics

/-! # Images (`Userland/img/imageWriter.c` and `paintImg`)

    An image is its width, its height and the colours of its pixels, row by row, red first.
    `paintImg` goes through the colours with a pointer of its own, which it moves on only
    for the pixels that are on the screen.  So when the image is cut off at the right, each
    row begins with what was left over from the one before.
-/

namespace TP2Kernel

open Painting

/-- `gimp_image` -/
structure Picture where
  width : UInt64
  height : UInt64
  pixel_data : Nat → UInt8

namespace Picture

/-- Red, green or blue of that pixel. -/
def colour (image : Picture) (col row c : Nat) : UInt8 :=
  image.pixel_data ((row * image.width.toNat + col) * 3 + c)

end Picture

/-- The file that `imageWriter` writes. -/
def imageWriter (image : Picture) : List UInt8 :=
  encodeLong image.width ++ (encodeLong image.height ++
    (List.range image.height.toNat).flatMap fun y =>
      (List.range image.width.toNat).flatMap fun x =>
        (List.range 3).map fun c => image.colour x y c)

namespace Memory

/-- `pixel[2] = *(la++); pixel[1] = *(la++); pixel[0] = *(la++);`, on the screen. -/
def paintImgPixel (s : Memory × Addr) (x y : UInt64) : Memory × Addr :=
  let pixel := findPixel x y
  if pixel ≠ NULL then
    let red := Function.update s.1 (pixel + 2) (s.1 s.2)
    let green := Function.update red (pixel + 1) (red (s.2 + 1))
    let blue := Function.update green pixel (green (s.2 + 2))
    (blue, s.2 + 3)
  else s

/-- `paintImg`.  The image is not in the frame buffer, so its size is that at the start. -/
def paintImg (m : Memory) (img : Addr) (x y : UInt64) : Memory :=
  if findPixel x y = NULL then m
  else
    ((List.range (m.readWord (img + 8)).toNat).foldl (fun s row =>
      (List.range (m.readWord img).toNat).foldl (fun s col =>
        paintImgPixel s (x + UInt64.ofNat col) (y + UInt64.ofNat row)) s) (m, img + 16)).1

end Memory

/-! ### The file -/

/-- The image is in memory, and not in the frame buffer. -/
structure Loaded (m : Memory) (img : Addr) (image : Picture) : Prop where
  bytes : LiesAt m img (imageWriter image)
  fits : img.toNat + (imageWriter image).length ≤ 2 ^ 64
  apart : ∀ a, InFrame a → ¬ (a - img).toNat < (imageWriter image).length

variable {m : Memory} {img : Addr} {image : Picture} {x y : UInt64} {col row : Nat}

theorem pixels_eq (image : Picture) (y n : Nat) :
    ((List.range n).flatMap fun x => (List.range 3).map fun c => image.colour x y c) =
      (List.range (n * 3)).map fun i => image.pixel_data (y * image.width.toNat * 3 + i) := by
  induction n with
  | zero => rfl
  | succ n ih =>
    have hlast : ∀ c, image.colour n y c =
        image.pixel_data (y * image.width.toNat * 3 + (n * 3 + c)) := by
      intro c
      rw [Picture.colour]
      congr 1
      ring
    rw [List.range_succ (n := n), List.flatMap_append, ih, Nat.succ_mul, List.range_add,
      List.map_append, List.flatMap_cons, List.flatMap_nil, List.append_nil, List.map_map]
    simp only [hlast]
    rfl

/-- The bytes of the pixels, in the order in which they are written. -/
theorem rows_eq (image : Picture) (n : Nat) :
    ((List.range n).flatMap fun y => (List.range image.width.toNat).flatMap fun x =>
      (List.range 3).map fun c => image.colour x y c) =
      (List.range (n * image.width.toNat * 3)).map image.pixel_data := by
  induction n with
  | zero => simp
  | succ n ih =>
    have hsize : (n + 1) * image.width.toNat * 3 =
        n * image.width.toNat * 3 + image.width.toNat * 3 := by ring
    rw [List.range_succ (n := n), List.flatMap_append, ih, hsize, List.range_add, List.map_append,
      List.flatMap_cons, List.flatMap_nil, List.append_nil, pixels_eq, List.map_map]
    rfl

theorem length_imageWriter (image : Picture) :
    (imageWriter image).length = 16 + image.height.toNat * image.width.toNat * 3 := by
  rw [imageWriter, rows_eq, List.length_append, List.length_append, length_encodeLong,
    length_encodeLong, List.length_map, List.length_range]
  omega

namespace Loaded

theorem width_eq (h : Loaded m img image) : m.readWord img = image.width :=
  readWord_encodeLong (liesAt_append.mp h.bytes).1

theorem height_eq (h : Loaded m img image) : m.readWord (img + 8) = image.height :=
  readWord_encodeLong (liesAt_append.mp (liesAt_append.mp h.bytes).2).1

/-- A colour is found by its number. -/
theorem pixel_data_eq (h : Loaded m img image) {i : Nat}
    (hi : i < image.height.toNat * image.width.toNat * 3) :
    m (img + 16 + UInt64.ofNat i) = image.pixel_data i := by
  have hbytes := (liesAt_append.mp (liesAt_append.mp h.bytes).2).2
  rw [rows_eq] at hbytes
  have hbyte := hbytes i (by rwa [List.length_map, List.length_range])
  rw [List.getElem_map, List.getElem_range] at hbyte
  have hheader : img + UInt64.ofNat 8 + UInt64.ofNat 8 = img + 16 := UInt64.add_assoc img _ _
  rwa [length_encodeLong, length_encodeLong, hheader] at hbyte

end Loaded

/-! ### What is seen of an image -/

namespace Picture

/-- The number of its columns that are on the screen. -/
def across (image : Picture) (x : UInt64) : Nat := min image.width.toNat (1024 - x.toNat)

/-- The number of its rows that are. -/
def down (image : Picture) (y : UInt64) : Nat := min image.height.toNat (768 - y.toNat)

theorem across_le (image : Picture) (x : UInt64) : image.across x ≤ image.width.toNat :=
  Nat.min_le_left _ _

theorem down_le (image : Picture) (y : UInt64) : image.down y ≤ image.height.toNat :=
  Nat.min_le_left _ _

/-- The bytes of the first `n` pixels that are on the screen. -/
def seen (image : Picture) (x y : UInt64) (n : Nat) : Set Addr :=
  {a | ∃ col < image.across x, ∃ row < image.down y, ∃ k < 3,
    row * image.across x + col < n ∧ a = pixelByte (x.toNat + col) (y.toNat + row) k}

/-- What they are painted with: the colours are taken one after the other. -/
def inTurn (image : Picture) (x y : UInt64) (a : Addr) : UInt8 :=
  let offset := (a - VIDEO_ADDRESS_START).toNat
  image.pixel_data (((offset / 4096 - y.toNat) * image.across x +
    (offset / 4 % 1024 - x.toNat)) * 3 + (2 - offset % 4))

theorem toNat_pixelByte_sub {k : Nat} (hcol : col < image.across x) (hrow : row < image.down y)
    (hk : k < 4) :
    (pixelByte (x.toNat + col) (y.toNat + row) k - VIDEO_ADDRESS_START).toNat =
      ((y.toNat + row) * 1024 + (x.toNat + col)) * 4 + k := by
  unfold across at hcol
  unfold down at hrow
  exact (addr_sub_toNat_eq_iff (by omega)).mpr rfl

theorem inTurn_pixelByte {k : Nat} (hcol : col < image.across x) (hrow : row < image.down y)
    (hk : k < 3) :
    image.inTurn x y (pixelByte (x.toNat + col) (y.toNat + row) k) =
      image.pixel_data ((row * image.across x + col) * 3 + (2 - k)) := by
  have hcol' : x.toNat + col < 1024 := by
    unfold across at hcol
    omega
  unfold inTurn
  rw [toNat_pixelByte_sub hcol hrow (by omega)]
  dsimp only
  rw [show (((y.toNat + row) * 1024 + (x.toNat + col)) * 4 + k) / 4096 = y.toNat + row by omega,
    show (((y.toNat + row) * 1024 + (x.toNat + col)) * 4 + k) / 4 % 1024 = x.toNat + col by omega,
    show (((y.toNat + row) * 1024 + (x.toNat + col)) * 4 + k) % 4 = k by omega,
    Nat.add_sub_cancel_left, Nat.add_sub_cancel_left]

theorem inFrame_of_seen {n : Nat} {a : Addr} (h : a ∈ image.seen x y n) : InFrame a := by
  obtain ⟨col, hcol, row, hrow, k, hk, -, rfl⟩ := h
  rw [InFrame, toNat_pixelByte_sub hcol hrow (by omega)]
  unfold across at hcol
  unfold down at hrow
  omega

/-- There is one more for each pixel. -/
theorem seen_succ (hcol : col < image.across x) (hrow : row < image.down y) :
    image.seen x y (row * image.across x + col + 1) =
      image.seen x y (row * image.across x + col) ∪
        {pixelByte (x.toNat + col) (y.toNat + row) 2} ∪
        {pixelByte (x.toNat + col) (y.toNat + row) 1} ∪
        {pixelByte (x.toNat + col) (y.toNat + row) 0} := by
  ext a
  constructor
  · rintro ⟨col', hcol', row', hrow', k, hk, hn, rfl⟩
    by_cases hlt : row' * image.across x + col' < row * image.across x + col
    · exact .inl (.inl (.inl ⟨col', hcol', row', hrow', k, hk, hlt, rfl⟩))
    · have hsame : row' * image.across x + col' = row * image.across x + col := by omega
      have hdiv : ∀ i j, j < image.across x → (i * image.across x + j) / image.across x = i := by
        intro i j hj
        rw [Nat.mul_comm, Nat.mul_add_div (by omega), Nat.div_eq_of_lt hj, Nat.add_zero]
      have hrows : row' = row := by
        rw [← hdiv row' col' hcol', hsame, hdiv row col hcol]
      subst hrows
      obtain rfl : col' = col := by omega
      obtain rfl | rfl | rfl : k = 0 ∨ k = 1 ∨ k = 2 := by omega
      · exact .inr rfl
      · exact .inl (.inr rfl)
      · exact .inl (.inl (.inr rfl))
  · rintro (((⟨col', hcol', row', hrow', k, hk, hn, rfl⟩ | rfl) | rfl) | rfl)
    · exact ⟨col', hcol', row', hrow', k, hk, by omega, rfl⟩
    · exact ⟨col, hcol, row, hrow, 2, by decide, Nat.lt_succ_self _, rfl⟩
    · exact ⟨col, hcol, row, hrow, 1, by decide, Nat.lt_succ_self _, rfl⟩
    · exact ⟨col, hcol, row, hrow, 0, by decide, Nat.lt_succ_self _, rfl⟩

/-- The numbers of the pixels that are seen are numbers of pixels. -/
theorem index_lt (hcol : col < image.across x) (hrow : row < image.down y) :
    row * image.across x + col < image.height.toNat * image.width.toNat := by
  have hmul : (row + 1) * image.across x ≤ image.height.toNat * image.width.toNat := by
    apply Nat.mul_le_mul
    · exact Nat.lt_of_lt_of_le hrow (image.down_le y)
    · exact image.across_le x
  rw [Nat.succ_mul] at hmul
  omega

end Picture

/-! ### The loops -/

/-- The first `n` pixels that are on the screen have been painted. -/
structure PaintedUpTo (m : Memory) (img : Addr) (image : Picture) (x y : UInt64) (n : Nat)
    (s : Memory × Addr) : Prop where
  pointer : s.2 = img + 16 + UInt64.ofNat (n * 3)
  paints : Paints (image.inTurn x y) (image.seen x y n) m s.1

variable {s : Memory × Addr} {n : Nat}

/-- The image does not change while it is painted. -/
theorem Loaded.pixel_data_kept (h : Loaded m img image) {m' : Memory} {S : Set Addr}
    (hpaints : Paints (image.inTurn x y) S m m') (hframe : ∀ a ∈ S, InFrame a) {i : Nat}
    (hi : i < image.height.toNat * image.width.toNat * 3) :
    m' (img + 16 + UInt64.ofNat i) = image.pixel_data i := by
  rw [← h.pixel_data_eq hi]
  refine hpaints.kept _ fun hS => h.apart _ (hframe _ hS) ?_
  have hfits := h.fits
  have hlength := length_imageWriter image
  have hoffset : img + 16 + UInt64.ofNat i - img = UInt64.ofNat (16 + i) := by
    rw [UInt64.ofNat_add]
    grind
  rw [hoffset, UInt64.toNat_ofNat_of_lt' (by show _ < 2 ^ 64; omega)]
  omega

theorem paintImgPixel_off (h : ¬ (x < WIDTH ∧ y < HEIGHT)) : Memory.paintImgPixel s x y = s := by
  have hnull : findPixel x y = NULL := not_not.mp fun hon => h (findPixel_ne_null_iff.mp hon)
  unfold Memory.paintImgPixel
  rw [hnull]
  exact if_neg (not_not.mpr rfl)

/-- One colour.  What is read is in the image, whatever has been painted. -/
theorem Loaded.paint_colour (h : Loaded m img image) {m' : Memory} {S : Set Addr}
    (hpaints : Paints (image.inTurn x y) S m m') (hframe : ∀ a ∈ S, InFrame a)
    (hcol : col < image.across x) (hrow : row < image.down y) {k c : Nat} (hk : k + c = 2) :
    Paints (image.inTurn x y) (S ∪ {pixelByte (x.toNat + col) (y.toNat + row) k}) m
      (Function.update m' (pixelByte (x.toNat + col) (y.toNat + row) k)
        (m' (img + 16 + UInt64.ofNat ((row * image.across x + col) * 3 + c)))) := by
  have hindex := Picture.index_lt hcol hrow
  rw [h.pixel_data_kept hpaints hframe (by omega), show c = 2 - k by omega,
    ← Picture.inTurn_pixelByte hcol hrow (by omega)]
  exact hpaints.trans (.update _ _ _)

theorem pixelByte_add (col row k : Nat) :
    pixelByte col row 0 + UInt64.ofNat k = pixelByte col row k := by
  rw [pixelByte, pixelByte, Nat.add_zero, UInt64.ofNat_add _ k, UInt64.add_assoc]

theorem findPixel_seen (hcol : col < image.across x) (hrow : row < image.down y) :
    findPixel (x + UInt64.ofNat col) (y + UInt64.ofNat row) =
      pixelByte (x.toNat + col) (y.toNat + row) 0 ∧
    findPixel (x + UInt64.ofNat col) (y + UInt64.ofNat row) ≠ NULL := by
  have hcol' : x.toNat + col < 1024 := by
    unfold Picture.across at hcol
    omega
  have hrow' : y.toNat + row < 768 := by
    unfold Picture.down at hrow
    omega
  have hx : (x + UInt64.ofNat col).toNat = x.toNat + col := addr_add_toNat (by omega)
  have hy : (y + UInt64.ofNat row).toNat = y.toNat + row := addr_add_toNat (by omega)
  have hon : x + UInt64.ofNat col < WIDTH ∧ y + UInt64.ofNat row < HEIGHT := by
    rw [UInt64.lt_iff_toNat_lt, UInt64.lt_iff_toNat_lt, hx, hy]
    exact ⟨hcol', hrow'⟩
  refine ⟨?_, findPixel_ne_null_iff.mpr hon⟩
  rw [findPixel_eq hon.1 hon.2, hx, hy]

/-- A pixel on the screen gets the next colours. -/
theorem PaintedUpTo.pixel (h : Loaded m img image) (hcol : col < image.across x)
    (hrow : row < image.down y)
    (hs : PaintedUpTo m img image x y (row * image.across x + col) s) :
    PaintedUpTo m img image x y (row * image.across x + col + 1)
      (Memory.paintImgPixel s (x + UInt64.ofNat col) (y + UInt64.ofNat row)) := by
  obtain ⟨hplace, hon⟩ := findPixel_seen hcol hrow
  have hpointer : ∀ c, s.2 + UInt64.ofNat c =
      img + 16 + UInt64.ofNat ((row * image.across x + col) * 3 + c) := by
    intro c
    rw [hs.pointer, UInt64.ofNat_add _ c, ← UInt64.add_assoc]
  have hframe : ∀ a ∈ image.seen x y (row * image.across x + col + 1), InFrame a :=
    fun a => Picture.inFrame_of_seen
  rw [Picture.seen_succ hcol hrow] at hframe
  have hred := h.paint_colour hs.paints (fun a ha => hframe a (.inl (.inl (.inl ha)))) hcol hrow
    (show 2 + 0 = 2 from rfl)
  have hgreen := h.paint_colour hred (fun a ha => hframe a (.inl (.inl ha))) hcol hrow
    (show 1 + 1 = 2 from rfl)
  have hblue := h.paint_colour hgreen (fun a ha => hframe a (.inl ha)) hcol hrow
    (show 0 + 2 = 2 from rfl)
  rw [← hpointer 0, ← hpointer 1, ← hpointer 2, show UInt64.ofNat 0 = 0 from rfl,
    UInt64.add_zero, ← pixelByte_add _ _ 2, ← pixelByte_add _ _ 1] at hblue
  unfold Memory.paintImgPixel
  rw [if_pos hon, hplace]
  constructor
  · show s.2 + UInt64.ofNat 3 = _
    rw [hpointer, Nat.succ_mul]
  · rw [Picture.seen_succ hcol hrow, ← pixelByte_add _ _ 2, ← pixelByte_add _ _ 1]
    exact hblue

/-- Past the right or the lower end of the screen the pointer stays. -/
theorem paintImgPixel_unseen (h : Loaded m img image) (hx : x < WIDTH) (hy : y < HEIGHT)
    (hcol : col < image.width.toNat) (hrow : row < image.height.toNat)
    (hout : image.across x ≤ col ∨ image.down y ≤ row) :
    Memory.paintImgPixel s (x + UInt64.ofNat col) (y + UInt64.ofNat row) = s := by
  have hx' : x.toNat < 1024 := UInt64.lt_iff_toNat_lt.mp hx
  have hy' : y.toNat < 768 := UInt64.lt_iff_toNat_lt.mp hy
  have hwidth : image.width.toNat ≤ image.height.toNat * image.width.toNat :=
    Nat.le_mul_of_pos_left _ (by omega)
  have hheight : image.height.toNat ≤ image.height.toNat * image.width.toNat :=
    Nat.le_mul_of_pos_right _ (by omega)
  have hfits := h.fits
  rw [length_imageWriter] at hfits
  apply paintImgPixel_off
  rw [UInt64.lt_iff_toNat_lt, UInt64.lt_iff_toNat_lt, addr_add_toNat (by omega),
    addr_add_toNat (by omega)]
  show ¬ (x.toNat + col < 1024 ∧ y.toNat + row < 768)
  unfold Picture.across Picture.down at hout
  omega

/-- The inner loop. -/
def Memory.paintImgRow (x y : UInt64) (row : Nat) (s : Memory × Addr) (n : Nat) : Memory × Addr :=
  (List.range n).foldl (fun s col =>
    Memory.paintImgPixel s (x + UInt64.ofNat col) (y + UInt64.ofNat row)) s

theorem Memory.paintImgRow_succ (x y : UInt64) (row : Nat) (s : Memory × Addr) (n : Nat) :
    Memory.paintImgRow x y row s (n + 1) = Memory.paintImgPixel (Memory.paintImgRow x y row s n)
      (x + UInt64.ofNat n) (y + UInt64.ofNat row) := by
  simp only [Memory.paintImgRow, List.range_succ, List.foldl_append, List.foldl_cons,
    List.foldl_nil]

theorem PaintedUpTo.columns (h : Loaded m img image) (hx : x < WIDTH) (hy : y < HEIGHT)
    (hrow : row < image.down y)
    (hs : PaintedUpTo m img image x y (row * image.across x) s) (hn : n ≤ image.width.toNat) :
    PaintedUpTo m img image x y (row * image.across x + min n (image.across x))
      (Memory.paintImgRow x y row s n) := by
  induction n with
  | zero => rwa [Nat.zero_min]
  | succ n ih =>
    rw [Memory.paintImgRow_succ]
    by_cases hcol : n < image.across x
    · have hprev := ih (by omega)
      rw [Nat.min_eq_left hcol.le] at hprev
      rw [Nat.min_eq_left hcol]
      exact hprev.pixel h hcol hrow
    · have hheight : row < image.height.toNat := Nat.lt_of_lt_of_le hrow (image.down_le y)
      rw [paintImgPixel_unseen h hx hy hn hheight (.inl (by omega)),
        show min (n + 1) (image.across x) = min n (image.across x) by omega]
      exact ih (by omega)

theorem paintImgRow_unseen (h : Loaded m img image) (hx : x < WIDTH) (hy : y < HEIGHT)
    (hrow : row < image.height.toNat) (hout : image.down y ≤ row) (hn : n ≤ image.width.toNat) :
    Memory.paintImgRow x y row s n = s := by
  induction n with
  | zero => rfl
  | succ n ih =>
    rw [Memory.paintImgRow_succ, ih (by omega), paintImgPixel_unseen h hx hy hn hrow (.inr hout)]

theorem PaintedUpTo.rows (h : Loaded m img image) (hx : x < WIDTH) (hy : y < HEIGHT)
    (hn : n ≤ image.height.toNat) :
    PaintedUpTo m img image x y (min n (image.down y) * image.across x)
      ((List.range n).foldl (fun s row => Memory.paintImgRow x y row s image.width.toNat)
        (m, img + 16)) := by
  induction n with
  | zero =>
    have hnone : image.seen x y 0 = ∅ := by
      ext a
      simp [Picture.seen]
    rw [Nat.zero_min, Nat.zero_mul]
    refine ⟨(UInt64.add_zero _).symm, ?_⟩
    rw [hnone]
    exact .empty _ m
  | succ n ih =>
    rw [List.range_succ, List.foldl_append, List.foldl_cons, List.foldl_nil]
    by_cases hrow : n < image.down y
    · have hprev := ih (by omega)
      rw [Nat.min_eq_left hrow.le] at hprev
      have hcolumns := hprev.columns h hx hy hrow (Nat.le_refl _)
      rw [Nat.min_eq_right (image.across_le x)] at hcolumns
      rw [Nat.min_eq_left hrow, Nat.succ_mul]
      exact hcolumns
    · rw [paintImgRow_unseen h hx hy hn (by omega) (Nat.le_refl _),
        show min (n + 1) (image.down y) = min n (image.down y) by omega]
      exact ih (by omega)

/-- `paintImg` gives the pixels that are on the screen the colours in turn. -/
theorem paintImg_paints (h : Loaded m img image) (hx : x < WIDTH) (hy : y < HEIGHT) :
    Paints (image.inTurn x y) (image.seen x y (image.down y * image.across x)) m
      (m.paintImg img x y) := by
  have hrows := (PaintedUpTo.rows h hx hy (Nat.le_refl _)).paints
  rw [Nat.min_eq_right (image.down_le y)] at hrows
  unfold Memory.paintImg
  rw [if_neg (findPixel_ne_null_iff.mpr ⟨hx, hy⟩), h.width_eq, h.height_eq]
  exact hrows

/-! ### What should be drawn -/

/-- The pixel of the image is on the screen. -/
structure Picture.Visible (image : Picture) (x y : UInt64) (col row : Nat) : Prop where
  inImage : col < image.width.toNat ∧ row < image.height.toNat
  onScreen : x.toNat + col < 1024 ∧ y.toNat + row < 768

/-- Each pixel of the image that is on the screen has its colour there, and the rest of
    memory is as before. -/
structure DrawnUnskewed (m : Memory) (img : Addr) (image : Picture) (x y : UInt64) : Prop where
  colours : ∀ col row, image.Visible x y col row → ∀ c < 3,
    m.paintImg img x y (pixelByte (x.toNat + col) (y.toNat + row) (2 - c)) = image.colour col row c
  others : ∀ a, (¬ ∃ col row c, image.Visible x y col row ∧ c < 3 ∧
    a = pixelByte (x.toNat + col) (y.toNat + row) (2 - c)) → m.paintImg img x y a = m a

/-- The colours in turn are those of the pixels, as far as they are on the screen. -/
def Picture.InTurnAlike (image : Picture) (x y : UInt64) : Prop :=
  ∀ col row, image.Visible x y col row → ∀ c < 3,
    image.pixel_data ((row * min image.width.toNat (1024 - x.toNat) + col) * 3 + c) =
      image.colour col row c

theorem Picture.visible_iff :
    image.Visible x y col row ↔ col < image.across x ∧ row < image.down y := by
  unfold Picture.across Picture.down
  constructor
  · rintro ⟨hin, hon⟩
    omega
  · intro h
    exact ⟨by omega, by omega⟩

theorem Picture.mem_seen (hvisible : image.Visible x y col row) {c : Nat} (hc : c < 3) :
    pixelByte (x.toNat + col) (y.toNat + row) (2 - c) ∈
      image.seen x y (image.down y * image.across x) := by
  obtain ⟨hcol, hrow⟩ := Picture.visible_iff.mp hvisible
  have hmul : (row + 1) * image.across x ≤ image.down y * image.across x :=
    Nat.mul_le_mul_right _ hrow
  rw [Nat.succ_mul] at hmul
  exact ⟨col, hcol, row, hrow, 2 - c, by omega, by omega, rfl⟩

/-- What a pixel on the screen gets. -/
theorem paintImg_visible (h : Loaded m img image) (hx : x < WIDTH) (hy : y < HEIGHT)
    (hvisible : image.Visible x y col row) {c : Nat} (hc : c < 3) :
    m.paintImg img x y (pixelByte (x.toNat + col) (y.toNat + row) (2 - c)) =
      image.pixel_data ((row * min image.width.toNat (1024 - x.toNat) + col) * 3 + c) := by
  obtain ⟨hcol, hrow⟩ := Picture.visible_iff.mp hvisible
  rw [(paintImg_paints h hx hy).painted _ (Picture.mem_seen hvisible hc),
    Picture.inTurn_pixelByte hcol hrow (by omega), Nat.sub_sub_self (by omega)]
  rfl

/-- **Images are drawn unskewed unless they are cut off at the right.**  For every image and
    every place on the screen: all is drawn as it should be if and only if the colours in
    turn are the right ones; so it is when the image does not reach over the right end of
    the screen, and when no more than one row of it is on the screen. -/
theorem drawnUnskewed_iff (h : Loaded m img image) (hx : x < WIDTH) (hy : y < HEIGHT) :
    (DrawnUnskewed m img image x y ↔ image.InTurnAlike x y) ∧
    (x.toNat + image.width.toNat ≤ 1024 ∨ image.height.toNat ≤ 1 ∨ y.toNat = 767 →
      DrawnUnskewed m img image x y) := by
  have hiff : DrawnUnskewed m img image x y ↔ image.InTurnAlike x y := by
    constructor
    · intro hdrawn col row hvisible c hc
      rw [← paintImg_visible h hx hy hvisible hc]
      exact hdrawn.colours col row hvisible c hc
    · intro halike
      refine ⟨fun col row hvisible c hc => ?_, fun a hout => ?_⟩
      · rw [paintImg_visible h hx hy hvisible hc]
        exact halike col row hvisible c hc
      · refine (paintImg_paints h hx hy).kept a fun hin => hout ?_
        obtain ⟨col, hcol, row, hrow, k, hk, -, rfl⟩ := hin
        exact ⟨col, row, 2 - k, Picture.visible_iff.mpr ⟨hcol, hrow⟩, by omega,
          by rw [Nat.sub_sub_self (by omega)]⟩
  refine ⟨hiff, fun hwhole => hiff.mpr fun col row hvisible c hc => ?_⟩
  obtain ⟨hin, hon⟩ := hvisible
  have hx' : x.toNat < 1024 := UInt64.lt_iff_toNat_lt.mp hx
  obtain hright | hrow : x.toNat + image.width.toNat ≤ 1024 ∨ row = 0 := by omega
  · rw [Nat.min_eq_left (by omega), Picture.colour]
  · rw [hrow, Picture.colour, Nat.zero_mul, Nat.zero_mul]

/-- Images are loaded below the frame buffer. -/
theorem loaded_imageAt (hbelow : img.toNat + (imageWriter image).length ≤ 0xFD000000) :
    Loaded (imageAt img (imageWriter image)) img image := by
  refine ⟨liesAt_imageAt img (by omega), by omega, fun a hframe hin => ?_⟩
  have ha := a.toNat_lt
  rw [InFrame, UInt64.toNat_sub, show VIDEO_ADDRESS_START.toNat = 0xFD000000 from rfl] at hframe
  rw [UInt64.toNat_sub] at hin
  omega

/-- Four pixels. -/
def fourPixels : Picture := ⟨2, 2, UInt8.ofNat⟩

theorem drawnUnskewed_iff_corner : ∃ m img, Loaded m img fourPixels ∧
    DrawnUnskewed m img fourPixels 0 0 := by
  have h : Loaded (imageAt 0x100000 (imageWriter fourPixels)) 0x100000 fourPixels :=
    loaded_imageAt (by rw [length_imageWriter]; decide)
  exact ⟨_, _, h, (drawnUnskewed_iff h (by decide) (by decide)).2 (.inl (by decide))⟩

/-- In the last column the second pixel of the first row is where the first one of the
    second row should be. -/
theorem skewed_in_last_column : ∃ m img, Loaded m img fourPixels ∧
    ¬ DrawnUnskewed m img fourPixels 1023 0 := by
  have h : Loaded (imageAt 0x100000 (imageWriter fourPixels)) 0x100000 fourPixels :=
    loaded_imageAt (by rw [length_imageWriter]; decide)
  refine ⟨_, _, h, fun hdrawn => ?_⟩
  have hvisible : fourPixels.Visible 1023 0 0 1 := ⟨by decide, by decide⟩
  have hred := hdrawn.colours 0 1 hvisible 0 (by decide)
  rw [paintImg_visible h (by decide) (by decide) hvisible (by decide)] at hred
  exact absurd hred (by decide)

end TP2Kernel
