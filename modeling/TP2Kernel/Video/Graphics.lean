import TP2Kernel.Framework.IntLoop
import TP2Kernel.Memory.Copies

/-! # The frame buffer (`Kernel/c/video-graphics.c`)

    The screen is memory: `WIDTH` times `HEIGHT` pixels of four bytes, blue, green and red
    first and a byte that is not used.  A pixel is found by its address, which is `NULL`
    for one that is not on the screen.
-/

namespace TP2Kernel

open IntLoop

def VIDEO_ADDRESS_START : Addr := 0xFD000000

def WIDTH : UInt64 := 1024

def HEIGHT : UInt64 := 768

/-- Bytes per pixel. -/
def BPP : UInt64 := 4

/-- Bytes per line. -/
def BPL : UInt64 := WIDTH * BPP

def CHAR_PX_SIZE : UInt64 := 8

def WHITE : UInt32 := 0xFFFFFF

def BLACK : UInt32 := 0x000000

/-- `BGRout`: blue, green and red. -/
def hexToBGR (hex : UInt32) : Nat → UInt8
  | 0 => hex.toUInt8
  | 1 => (hex >>> 8).toUInt8
  | _ => (hex >>> 16).toUInt8

structure REKTangle where
  x : UInt64
  y : UInt64
  width : UInt64
  height : UInt64
  color : UInt32
  deriving DecidableEq

def findPixel (x y : UInt64) : Addr :=
  if x ≥ WIDTH ∨ y ≥ HEIGHT then NULL else VIDEO_ADDRESS_START + (y * WIDTH + x) * BPP

namespace Memory

def paintColorPixel (m : Memory) (x y : UInt64) (color : UInt32) : Memory :=
  let pixelPtr := findPixel x y
  if pixelPtr = NULL then m
  else m.writeBytes pixelPtr ((List.range 3).map (hexToBGR color))

/-- `mask[col]` -/
def mask (col : Nat) : UInt8 := 1 <<< UInt8.ofNat col

/-- The bitmap of a character is drawn from right to left.  `bitmaps` is the table of
    `bitmaps.h`: the rows of each character. -/
def paintColorChar (bitmaps : UInt8 → Nat → UInt8) (m : Memory) (x y : UInt64) (c : UInt8)
    (color : UInt32) : Memory :=
  (List.range 8).foldl (fun m row =>
    (List.range 8).foldl (fun m col =>
      let visible := bitmaps c row &&& mask col
      m.paintColorPixel (x - UInt64.ofNat col) (y + UInt64.ofNat row)
        (if visible ≠ 0 then color else BLACK)) m) m

/-- `pixel[col*BPP + k] = bgr[k]`, for the three colours. -/
def fillPixel (m : Memory) (pixel : Addr) (bgr : Nat → UInt8) (col : Int32) : Memory :=
  (List.range 3).foldl (fun m k =>
    Function.update m (pixel + extend (col * 4 + Int32.ofNat k)) (bgr k)) m

/-- `fillRect`; `none` is a call that does not return. -/
def fillRect (m : Memory) (rekt : REKTangle) : Option Memory :=
  let pixel := findPixel rekt.x rekt.y
  if pixel = NULL then some m
  else
    let bgr := hexToBGR rekt.color
    let fillRow (_ : Int32) (s : Memory × Addr) : Option (Memory × Addr) :=
      (forInt rekt.width (fun col m => some (m.fillPixel s.2 bgr col)) s.1).map fun m =>
        (m, s.2 + BPL)
    (forInt rekt.height fillRow (m, pixel)).map Prod.fst

/-- Top, left, bottom and right. -/
def drawRect (m : Memory) (rekt : REKTangle) : Option Memory :=
  (m.fillRect ⟨rekt.x, rekt.y, rekt.width, 1, rekt.color⟩).bind fun m =>
  (m.fillRect ⟨rekt.x, rekt.y, 1, rekt.height, rekt.color⟩).bind fun m =>
  (m.fillRect ⟨rekt.x, rekt.y + rekt.height, rekt.width, 1, rekt.color⟩).bind fun m =>
  m.fillRect ⟨rekt.x + rekt.width, rekt.y, 1, rekt.height, rekt.color⟩

/-- `clear`, word by word. -/
def clear (m : Memory) : Memory :=
  (List.range (BPL * HEIGHT / 8).toNat).foldl (fun m offset =>
    m.writeWord (VIDEO_ADDRESS_START + UInt64.ofNat (8 * offset)) 0) m

/-- The last value of `offset` in `shiftUp`. -/
def shiftUpLimit (pixels : UInt64) : UInt64 := BPL * (HEIGHT - pixels) / 8

/-- `shiftUp`: the loop `mem[offset] = mem[offset + WIDTH * pixels]` over words of eight
    bytes, while `offset <= limit`. -/
def shiftUp (m : Memory) (pixels : UInt64) : Memory :=
  copyLoop m VIDEO_ADDRESS_START (VIDEO_ADDRESS_START + 8 * (WIDTH * pixels)) 8
    ((shiftUpLimit pixels).toNat + 1)

end Memory

/-! ### Pixels -/

/-- Byte `k` of the pixel in that column and row. -/
def pixelByte (col row k : Nat) : Addr :=
  VIDEO_ADDRESS_START + UInt64.ofNat ((row * 1024 + col) * 4 + k)

theorem toNat_pixelByte {col row k : Nat} (hcol : col ≤ 1024) (hrow : row ≤ 1024) (hk : k < 4) :
    (pixelByte col row k).toNat = 0xFD000000 + ((row * 1024 + col) * 4 + k) :=
  addr_add_toNat (show 0xFD000000 + ((row * 1024 + col) * 4 + k) < 2 ^ 64 by omega)

/-- On the screen, a byte belongs to one pixel. -/
theorem pixelByte_inj {col row k col' row' k' : Nat} (hcol : col < 1024) (hrow : row ≤ 1024)
    (hk : k < 4) (hcol' : col' < 1024) (hrow' : row' ≤ 1024) (hk' : k' < 4) :
    pixelByte col row k = pixelByte col' row' k' ↔ col = col' ∧ row = row' ∧ k = k' := by
  rw [← UInt64.toNat_inj, toNat_pixelByte hcol.le hrow hk, toNat_pixelByte hcol'.le hrow' hk']
  omega

theorem findPixel_eq {x y : UInt64} (hx : x < WIDTH) (hy : y < HEIGHT) :
    findPixel x y = pixelByte x.toNat y.toNat 0 := by
  have hon : ¬ (x ≥ WIDTH ∨ y ≥ HEIGHT) := by
    rw [not_or]
    exact ⟨UInt64.not_le.mpr hx, UInt64.not_le.mpr hy⟩
  rw [findPixel, if_neg hon, pixelByte]
  congr 1
  simp [WIDTH, BPP]

theorem findPixel_ne_null_iff {x y : UInt64} :
    findPixel x y ≠ NULL ↔ x < WIDTH ∧ y < HEIGHT := by
  constructor
  · intro hon
    by_contra hoff
    apply hon
    rw [not_and_or, UInt64.not_lt, UInt64.not_lt] at hoff
    rw [findPixel, if_pos hoff]
  · rintro ⟨hx, hy⟩ hnull
    have hx' : x.toNat < 1024 := UInt64.lt_iff_toNat_lt.mp hx
    have hy' : y.toNat < 768 := UInt64.lt_iff_toNat_lt.mp hy
    rw [findPixel_eq hx hy, ← UInt64.toNat_inj, toNat_pixelByte hx'.le (by omega) (by decide)]
      at hnull
    exact absurd hnull (by rw [show (NULL : Addr).toNat = 0 from rfl]; omega)

/-! ### Rectangles -/

namespace Memory

/-- The inner loop of `fillRect`. -/
def fillRow (m : Memory) (pixel : Addr) (bgr : Nat → UInt8) (width : UInt64) : Memory :=
  (List.range (rounds width)).foldl (fun m col => m.fillPixel pixel bgr (Int32.ofNat col)) m

/-- Both loops end. -/
theorem fillRect_eq (m : Memory) (rekt : REKTangle) (hon : findPixel rekt.x rekt.y ≠ NULL) :
    m.fillRect rekt = some ((List.range (rounds rekt.height)).foldl
      (fun (s : Memory × Addr) _ =>
        (s.1.fillRow s.2 (hexToBGR rekt.color) rekt.width, s.2 + BPL))
      (m, findPixel rekt.x rekt.y)).1 := by
  unfold fillRect
  rw [if_neg hon]
  dsimp only
  rw [forInt_eq (g := fun _ (s : Memory × Addr) =>
    (s.1.fillRow s.2 (hexToBGR rekt.color) rekt.width, s.2 + BPL))]
  · rfl
  · intro i s
    rw [forInt_eq fun _ _ => rfl]
    rfl

theorem fillRect_isSome (m : Memory) (rekt : REKTangle) : ∃ m', m.fillRect rekt = some m' := by
  by_cases hon : findPixel rekt.x rekt.y = NULL
  · exact ⟨m, by rw [fillRect, if_pos hon]⟩
  · exact ⟨_, fillRect_eq m rekt hon⟩

end Memory

/-- The bytes of the frame buffer. -/
def InFrame (a : Addr) : Prop := (a - VIDEO_ADDRESS_START).toNat < 1024 * 768 * 4

end TP2Kernel
