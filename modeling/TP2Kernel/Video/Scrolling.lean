import TP2Kernel.Video.Text

/-! # Scrolling

    `shiftUp` counts the distance in words of eight bytes as if they were pixels of four.
    So it moves the picture up by twice as many rows as it is asked to, and the rows that
    come in at the bottom are read from behind the frame buffer.
-/

namespace TP2Kernel

/-- Byte `k` of a row of pixels. -/
def rowByte (row k : Nat) : Addr := VIDEO_ADDRESS_START + UInt64.ofNat (4096 * row + k)

/-- What `ncScrollLines` passes to `shiftUp`. -/
def scrollPixels (lines : UInt8) : UInt64 := lines.toUInt64 * CHAR_PX_SIZE

/-- The bytes that `shiftUp` reads. -/
def ShiftUpReads (pixels : UInt64) (a : Addr) : Prop :=
  Elements (VIDEO_ADDRESS_START + 8 * (WIDTH * pixels)) 8
    ((Memory.shiftUpLimit pixels).toNat + 1) a

/-- The bytes that `shiftUp` writes. -/
def ShiftUpWrites (pixels : UInt64) (a : Addr) : Prop :=
  Elements VIDEO_ADDRESS_START 8 ((Memory.shiftUpLimit pixels).toNat + 1) a

/-- What is asked of `shiftUp`: to stay inside of the frame buffer, and to move each row. -/
structure ShiftsAsAsked (pixels : UInt64) : Prop where
  inside : ∀ a, ShiftUpReads pixels a ∨ ShiftUpWrites pixels a → InFrame a
  rows : ∀ (m : Memory) (row k : Nat), row + pixels.toNat < 768 → k < 4096 →
    m.shiftUp pixels (rowByte row k) = m (rowByte (row + pixels.toNat) k)

variable {lines : UInt8} {pixels : UInt64} {row k : Nat}

theorem toNat_scrollPixels (lines : UInt8) : (scrollPixels lines).toNat = 8 * lines.toNat := by
  have hlt := lines.toNat_lt
  have hmul : (scrollPixels lines).toNat = lines.toNat * 8 % 2 ^ 64 :=
    UInt64.toNat_mul lines.toUInt64 8
  rw [hmul]
  omega

theorem ncScrollLines_mem (s : Console) (lines : UInt8) :
    (s.ncScrollLines lines).mem = s.mem.shiftUp (scrollPixels lines) := by
  have hlt := lines.toNat_lt
  have hmany : ¬ lines.toUInt64 > HEIGHT := by
    rw [gt_iff_lt, UInt64.lt_iff_toNat_lt]
    show ¬ 768 < lines.toNat
    omega
  simp only [Console.ncScrollLines, if_neg hmany]
  rfl

theorem toNat_rowByte (hbyte : 4096 * row + k < 2 ^ 32) :
    (rowByte row k - VIDEO_ADDRESS_START).toNat = 4096 * row + k :=
  (addr_sub_toNat_eq_iff (by omega)).mpr rfl

theorem toNat_shiftUpLimit (h : pixels.toNat ≤ 768) :
    (Memory.shiftUpLimit pixels).toNat = 512 * (768 - pixels.toNat) := by
  have hsub : (HEIGHT - pixels).toNat = 768 - pixels.toNat :=
    UInt64.toNat_sub_of_le HEIGHT pixels (UInt64.le_iff_toNat_le.mpr h)
  rw [Memory.shiftUpLimit, UInt64.toNat_div, UInt64.toNat_mul, hsub]
  show 4096 * (768 - pixels.toNat) % 2 ^ 64 / 8 = _
  omega

/-- Past the height, the difference wraps around. -/
theorem le_toNat_shiftUpLimit (h : 768 < pixels.toNat) (hlt : pixels.toNat < 2 ^ 20) :
    2 ^ 19 ≤ (Memory.shiftUpLimit pixels).toNat := by
  have hsub : (HEIGHT - pixels).toNat = 2 ^ 64 + 768 - pixels.toNat := by
    rw [UInt64.toNat_sub]
    show (2 ^ 64 - pixels.toNat + 768) % 2 ^ 64 = _
    omega
  rw [Memory.shiftUpLimit, UInt64.toNat_div, UInt64.toNat_mul, hsub]
  show 2 ^ 19 ≤ 4096 * (2 ^ 64 + 768 - pixels.toNat) % 2 ^ 64 / 8
  omega

/-- The source begins twice as many rows further down. -/
theorem shiftUp_source (pixels : UInt64) :
    VIDEO_ADDRESS_START + 8 * (WIDTH * pixels) =
      VIDEO_ADDRESS_START + UInt64.ofNat (8192 * pixels.toNat) := by
  congr 1
  rw [UInt64.ofNat_mul, UInt64.ofNat_toNat, ← UInt64.mul_assoc]
  rfl

/-! ### What it does -/

/-- Each row becomes the one twice as far below. -/
theorem shiftUp_row (m : Memory) (h : row + pixels.toNat < 768) (hk : k < 4096) :
    m.shiftUp pixels (rowByte row k) = m (rowByte (row + 2 * pixels.toNat) k) := by
  have hlimit : (Memory.shiftUpLimit pixels).toNat = 512 * (768 - pixels.toNat) :=
    toNat_shiftUpLimit (by omega)
  have hin : (rowByte row k - VIDEO_ADDRESS_START).toNat = 4096 * row + k :=
    toNat_rowByte (by omega)
  rw [Memory.shiftUp, shiftUp_source pixels, copyLoop_down (by omega),
    if_pos (by omega)]
  congr 1
  have hrow : 4096 * (row + 2 * pixels.toNat) + k = 4096 * row + k + 8192 * pixels.toNat := by
    omega
  rw [rowByte, rowByte, hrow, UInt64.ofNat_add (4096 * row + k), UInt64.add_assoc]

/-- It always leaves the frame buffer: at the end of the loop, or at the latest when a
    wrapped limit takes it there. -/
theorem shiftUp_leaves (h : pixels.toNat < 2 ^ 20) :
    ∃ a, (ShiftUpReads pixels a ∨ ShiftUpWrites pixels a) ∧ ¬ InFrame a := by
  by_cases hsmall : pixels.toNat ≤ 768
  · have hlimit := toNat_shiftUpLimit hsmall
    refine ⟨VIDEO_ADDRESS_START + UInt64.ofNat (8192 * pixels.toNat) +
      UInt64.ofNat (8 * (512 * (768 - pixels.toNat))), .inl ?_, ?_⟩
    · rw [ShiftUpReads, elements_iff (by omega), hlimit, shiftUp_source pixels,
        add_sub_cancel_left, UInt64.toNat_ofNat_of_lt' (by show _ < 2 ^ 64; omega)]
      omega
    · rw [InFrame, UInt64.add_assoc, add_sub_cancel_left, ← UInt64.ofNat_add,
        UInt64.toNat_ofNat_of_lt' (by show _ < 2 ^ 64; omega)]
      omega
  · have hlimit := le_toNat_shiftUpLimit (by omega) h
    have hlt : (Memory.shiftUpLimit pixels).toNat < 2 ^ 61 := by
      have hdiv : (Memory.shiftUpLimit pixels).toNat =
          (BPL * (HEIGHT - pixels)).toNat / 8 := UInt64.toNat_div _ _
      have := (BPL * (HEIGHT - pixels)).toNat_lt
      omega
    refine ⟨VIDEO_ADDRESS_START + UInt64.ofNat (1024 * 768 * 4), .inr ?_, ?_⟩
    · rw [ShiftUpWrites, elements_iff (by omega), add_sub_cancel_left]
      show 1024 * 768 * 4 < _
      omega
    · rw [InFrame, add_sub_cancel_left]
      decide

/-- The rows are where they should be only when none of them moves, or none is left. -/
theorem rows_moved_iff (h : pixels.toNat < 2 ^ 20) :
    (∀ (m : Memory) (row k : Nat), row + pixels.toNat < 768 → k < 4096 →
      m.shiftUp pixels (rowByte row k) = m (rowByte (row + pixels.toNat) k)) ↔
    pixels.toNat = 0 ∨ 768 ≤ pixels.toNat := by
  constructor
  · intro hrows
    by_contra hsome
    rw [not_or] at hsome
    -- a picture whose only mark is where the first row should come from
    have hmark := hrows (fun a => if a = rowByte pixels.toNat 0 then 1 else 0) 0 0 (by omega)
      (by decide)
    rw [shiftUp_row _ (by omega) (by decide)] at hmark
    simp only [Nat.zero_add, if_true] at hmark
    have hne : ¬ rowByte (2 * pixels.toNat) 0 = rowByte pixels.toNat 0 := by
      intro heq
      have hdistance : (rowByte (2 * pixels.toNat) 0 - VIDEO_ADDRESS_START).toNat =
          4096 * (2 * pixels.toNat) + 0 := toNat_rowByte (by omega)
      rw [heq, toNat_rowByte (by omega)] at hdistance
      omega
    rw [if_neg hne] at hmark
    exact absurd hmark (by decide)
  · rintro hnone m row k hrow hk
    rw [shiftUp_row m hrow hk]
    congr 2
    omega

/-- **Scrolling never does what it is asked to do.**  For every number of lines it reads or
    writes outside of the frame buffer.  The rows are moved as asked only when they are not
    moved at all; else each becomes the one twice as far below, so that one line of text
    is scrolled by two. -/
theorem scrolling_never (lines : UInt8) :
    ¬ ShiftsAsAsked (scrollPixels lines) ∧
    (∃ a, (ShiftUpReads (scrollPixels lines) a ∨ ShiftUpWrites (scrollPixels lines) a) ∧
      ¬ InFrame a) ∧
    ((∀ (m : Memory) (row k : Nat), row + 8 * lines.toNat < 768 → k < 4096 →
      m.shiftUp (scrollPixels lines) (rowByte row k) = m (rowByte (row + 8 * lines.toNat) k)) ↔
      lines.toNat = 0 ∨ 96 ≤ lines.toNat) ∧
    ∀ (s : Console) (row k : Nat), row + 8 * lines.toNat < 768 → k < 4096 →
      (s.ncScrollLines lines).mem (rowByte row k) =
        s.mem (rowByte (row + 2 * (8 * lines.toNat)) k) := by
  have hpixels := toNat_scrollPixels lines
  have hlt := lines.toNat_lt
  have hsmall : (scrollPixels lines).toNat < 2 ^ 20 := by omega
  have hleaves := shiftUp_leaves hsmall
  refine ⟨?_, hleaves, ?_, ?_⟩
  · intro hasked
    obtain ⟨a, haccess, hout⟩ := hleaves
    exact hout (hasked.inside a haccess)
  · have hrows := rows_moved_iff hsmall
    rw [hpixels] at hrows
    rw [hrows]
    omega
  · intro s row k hrow hk
    rw [ncScrollLines_mem, shiftUp_row s.mem (by omega) hk, hpixels]

/-- `ncScroll` moves the text by two lines: the first row of the screen becomes what the
    seventeenth was, and the ninth is gone. -/
theorem scroll_not_one_line : ∃ s : Console,
    s.ncScroll.mem (rowByte 0 0) = 0 ∧ s.mem (rowByte 8 0) = 1 ∧
    ¬ ShiftsAsAsked (scrollPixels 1) := by
  let m : Memory := fun a => if a = rowByte 8 0 then 1 else 0
  have hpixels := toNat_scrollPixels 1
  refine ⟨⟨m, 8, 0⟩, ?_, show m (rowByte 8 0) = 1 by decide, ?_⟩
  · have hscroll : (Console.ncScroll ⟨m, 8, 0⟩).mem = m.shiftUp (scrollPixels 1) :=
      ncScrollLines_mem ⟨m, 8, 0⟩ 1
    rw [hscroll, shiftUp_row m (by rw [hpixels]; decide) (by decide), hpixels]
    decide
  · intro hasked
    have hrow := hasked.rows m 0 0 (by rw [hpixels]; decide) (by decide)
    rw [shiftUp_row m (by rw [hpixels]; decide) (by decide), hpixels] at hrow
    exact absurd hrow (by decide)

end TP2Kernel
