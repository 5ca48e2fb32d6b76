import TP2Kernel.Video.Picture

/-! # The screen as a text

    The console keeps no text: it paints pixels and copies them when it scrolls.  Seen from
    outside it is a screen of 96 lines of 127 cells all the same, and each cell shows the
    character that was last printed there, moved up with its line.

    Scrolling is by two lines.  It leaves a trace in the first cell of the last line, whose
    upper edge is not cleared.
-/

namespace TP2Kernel

open Recorded Transition

/-- What a cell of the screen shows. -/
inductive Cell where
  | blank
  | glyph (c : UInt8) (color : UInt32)
  | remains (c : UInt8) (color : UInt32)
  deriving DecidableEq

namespace Cell

/-- What clearing the last line leaves of its first cell. -/
def leftover : Cell → Cell
  | .blank => .blank
  | .glyph c color => .remains c color
  | .remains c color => .remains c color

/-- The colour of a pixel of the cell, counted from above and from the right. -/
def pixel (bitmaps : UInt8 → Nat → UInt8) : Cell → Nat → Nat → UInt32
  | .blank, _, _ => BLACK
  | .glyph c color, i, j => glyphPixel bitmaps c color i j
  | .remains c color, i, j =>
    if i = 0 ∧ 1 ≤ j ∧ j ≤ 6 then glyphPixel bitmaps c color i j else BLACK

theorem pixel_leftover (bitmaps : UInt8 → Nat → UInt8) (cell : Cell) (i j : Nat) :
    cell.leftover.pixel bitmaps i j =
      if i = 0 ∧ 1 ≤ j ∧ j ≤ 6 then cell.pixel bitmaps i j else BLACK := by
  cases cell with
  | blank => simp [leftover, pixel]
  | glyph c color => rfl
  | remains c color =>
    simp only [leftover, pixel]
    split <;> rfl

end Cell

/-- The cells of the screen, by column and row, and the cell of the cursor. -/
structure TextScreen where
  cell : Nat → Nat → Cell
  col : Nat
  row : Nat

namespace TextScreen

def empty : TextScreen := ⟨fun _ _ => .blank, 1, 0⟩

/-- Something else in the cell of the cursor. -/
def put (t : TextScreen) (cell : Cell) : TextScreen :=
  { t with cell := fun col row => if col = t.col ∧ row = t.row then cell else t.cell col row }

/-- All lines go up by two. -/
def scroll (t : TextScreen) : TextScreen :=
  { t with cell := fun col row =>
      if row < 94 then t.cell col (row + 2)
      else if row = 95 ∧ col = 1 then (t.cell 1 95).leftover else .blank }

/-- The cursor goes to the next cell.  From the last one the screen scrolls. -/
def next (t : TextScreen) : TextScreen :=
  { cell := if t.col = 127 ∧ t.row = 95 then t.scroll.cell else t.cell
    col := (Console.advance t.col t.row).1
    row := (Console.advance t.col t.row).2 }

/-- The cursor goes back. -/
def prev (t : TextScreen) : TextScreen :=
  { t with col := (Console.back t.col t.row).1, row := (Console.back t.col t.row).2 }

/-- The rest of the line is blank, and the cursor goes to the next one. -/
def newline (t : TextScreen) : TextScreen :=
  next { cell := fun col row =>
           if row = t.row ∧ t.col ≤ col ∧ col ≤ 127 then .blank else t.cell col row
         col := 127
         row := t.row }

/-- A printed character.  A backspace leaves the character 0 where it goes to. -/
def print (t : TextScreen) (c : UInt8) (color : UInt32) : TextScreen :=
  if c = 10 then t.newline
  else if c = 8 then t.prev.put (.glyph 0 WHITE)
  else (t.put (.glyph c color)).next

variable (bitmaps : UInt8 → Nat → UInt8)

/-- The pixels of the text.  The edges of the screen, which no cell reaches, are black. -/
def picture (t : TextScreen) (col row : Nat) : UInt32 :=
  if (1 ≤ col ∧ col ≤ 1016) ∧ row < 768 then
    (t.cell ((col + 7) / 8) (row / 8)).pixel bitmaps (row % 8) (8 * ((col + 7) / 8) - col)
  else BLACK

variable {bitmaps} {t : TextScreen} {cell : Cell} {col row : Nat}

/-- The pixels of the cell of the cursor change, and no others. -/
theorem picture_put (hcol : 1 ≤ t.col ∧ t.col ≤ 127) (hrow : t.row ≤ 95) :
    (t.put cell).picture bitmaps col row =
      if (8 * (t.col - 1) < col ∧ col ≤ 8 * t.col) ∧ 8 * t.row ≤ row ∧ row < 8 * t.row + 8
      then cell.pixel bitmaps (row - 8 * t.row) (8 * t.col - col)
      else t.picture bitmaps col row := by
  unfold picture put
  dsimp only
  by_cases hin : (8 * (t.col - 1) < col ∧ col ≤ 8 * t.col) ∧ 8 * t.row ≤ row ∧
      row < 8 * t.row + 8
  · have hcell : (col + 7) / 8 = t.col ∧ row / 8 = t.row := by omega
    have hpixel : row % 8 = row - 8 * t.row := by omega
    rw [if_pos (by omega), if_pos hin, if_pos hcell, hcell.1, hpixel]
  · rw [if_neg hin]
    split
    · rw [if_neg (by omega)]
    · rfl

/-- What scrolling does to the picture, and then clearing the last line. -/
theorem picture_scroll (hcol : col < 1024) (hrow : row ≤ 776) :
    t.scroll.picture bitmaps col row =
      if 1024 * 760 + 8 ≤ 1024 * row + col ∧ 1024 * row + col < 1024 * 768 + 8 then BLACK
      else if 1024 * row + col < 1024 * 760 + 2 then t.picture bitmaps col (row + 16)
      else t.picture bitmaps col row := by
  unfold picture scroll
  dsimp only
  rcases lt_or_ge row 752 with hrow' | hrow'
  -- the lines that move up
  · have hnotLast : ¬ (1024 * 760 + 8 ≤ 1024 * row + col ∧
        1024 * row + col < 1024 * 768 + 8) := by omega
    have hmoves : 1024 * row + col < 1024 * 760 + 2 := by omega
    have hline : (row + 16) / 8 = row / 8 + 2 := by omega
    have hpixel : (row + 16) % 8 = row % 8 := by omega
    have hscreen : (1 ≤ col ∧ col ≤ 1016) ∧ row + 16 < 768 ↔
        (1 ≤ col ∧ col ≤ 1016) ∧ row < 768 := by omega
    rw [if_neg hnotLast, if_pos hmoves, if_pos (show row / 8 < 94 by omega)]
    simp only [hline, hpixel, hscreen]
  rcases lt_or_ge row 760 with hrow'' | hrow''
  -- the line that comes in from below the screen
  · have hnotLast : ¬ (1024 * 760 + 8 ≤ 1024 * row + col ∧
        1024 * row + col < 1024 * 768 + 8) := by omega
    have hmoves : 1024 * row + col < 1024 * 760 + 2 := by omega
    have hbehind : ¬ ((1 ≤ col ∧ col ≤ 1016) ∧ row + 16 < 768) := by omega
    have hlast : ¬ (row / 8 = 95 ∧ (col + 7) / 8 = 1) := by omega
    rw [if_neg hnotLast, if_pos hmoves, if_neg hbehind, if_neg (show ¬ row / 8 < 94 by omega),
      if_neg hlast]
    split <;> rfl
  -- the last line, and what is below the screen
  by_cases hscreen : (1 ≤ col ∧ col ≤ 1016) ∧ row < 768
  · have hline : row / 8 = 95 := by omega
    have hbehind : ¬ ((1 ≤ col ∧ col ≤ 1016) ∧ row + 16 < 768) := by omega
    rw [if_pos hscreen, if_pos hscreen, if_neg hbehind, if_neg (show ¬ row / 8 < 94 by omega)]
    by_cases hfirst : (col + 7) / 8 = 1
    · rw [if_pos ⟨hline, hfirst⟩, Cell.pixel_leftover, hfirst, hline]
      by_cases hedge : row = 760 ∧ 2 ≤ col ∧ col ≤ 7
      · rw [if_pos (by omega), if_neg (by omega), if_neg (by omega)]
      · rw [if_neg (by omega)]
        split
        · rfl
        · rw [if_pos (by omega)]
    · rw [if_neg fun h => hfirst h.2, if_pos (by omega)]
      rfl
  · have hbehind : ¬ ((1 ≤ col ∧ col ≤ 1016) ∧ row + 16 < 768) := by omega
    rw [if_neg hscreen, if_neg hscreen, if_neg hbehind]
    split
    · rfl
    · split <;> rfl

/-- The cursor goes to the next cell of the line. -/
theorem next_of_lt (hcol : t.col < 127) : t.next = ⟨t.cell, t.col + 1, t.row⟩ := by
  have hadvance : Console.advance t.col t.row = (t.col + 1, t.row) := if_neg (by omega)
  rw [next, hadvance, if_neg fun h => absurd h.1 hcol.ne]

/-- A step on and back again. -/
theorem next_prev (hcell : ¬ (t.col = 127 ∧ t.row = 95))
    (hback : Console.back (Console.advance t.col t.row).1 (Console.advance t.col t.row).2 =
      (t.col, t.row)) : t.next.prev = t := by
  rw [next, if_neg hcell, prev]
  dsimp only
  rw [hback]

/-- From no cell a step back leads to the last one. -/
theorem prev_not_last (hline : 1 ≤ t.col ∧ t.col ≤ 127) (hrow : t.row ≤ 95) :
    ¬ (t.prev.col = 127 ∧ t.prev.row = 95) := by
  unfold prev Console.back
  split
  · show ¬ (t.col - 1 = 127 ∧ _)
    omega
  · split
    · show ¬ (_ ∧ t.row - 1 = 95)
      omega
    · show ¬ (1 = 127 ∧ _)
      omega

/-- Blanks up to the end of the line, one by one. -/
theorem newline_put_next (hcol : t.col < 127) : (t.put .blank).next.newline = t.newline := by
  have hnext : (t.put .blank).next = ⟨(t.put .blank).cell, t.col + 1, t.row⟩ := next_of_lt hcol
  have hcell : ∀ col row,
      (if row = t.row ∧ t.col + 1 ≤ col ∧ col ≤ 127 then .blank else (t.put .blank).cell col row) =
      (if row = t.row ∧ t.col ≤ col ∧ col ≤ 127 then .blank else t.cell col row) := by
    intro col row
    show (if _ then _ else if col = t.col ∧ row = t.row then Cell.blank else t.cell col row) = _
    by_cases hrest : row = t.row ∧ t.col ≤ col ∧ col ≤ 127
    · rw [if_pos hrest]
      split
      · rfl
      · exact if_pos (by omega)
    · rw [if_neg hrest, if_neg (by omega), if_neg (by omega)]
  rw [hnext]
  simp only [newline, hcell]

theorem newline_last (hcol : t.col = 127) : t.newline = (t.put .blank).next := by
  have hcell : ∀ col row, (if row = t.row ∧ t.col ≤ col ∧ col ≤ 127 then .blank
      else t.cell col row) = (t.put .blank).cell col row := by
    intro col row
    show _ = if col = t.col ∧ row = t.row then Cell.blank else t.cell col row
    exact if_congr (by omega) rfl rfl
  rw [newline]
  simp only [hcell]
  rw [← hcol]
  rfl

end TextScreen

/-! ### What the console does to it -/

namespace Console

variable {bitmaps : UInt8 → Nat → UInt8}

/-- The frame buffer shows the text, and the cursor is in its cell. -/
structure Displays (bitmaps : UInt8 → Nat → UInt8) (s : Console) (t : TextScreen) : Prop where
  cursor : s.InCell t.col t.row
  picture : Shows s.mem (t.picture bitmaps)

variable {s s' : Console} {t : TextScreen} {cell : Cell} {c : UInt8} {color : UInt32}
  {fuel : Nat}

theorem Displays.goBack (h : s.Displays bitmaps t) : s.goBack.Displays bitmaps t.prev := by
  refine ⟨h.cursor.goBack, ?_⟩
  have hmem : s.goBack.mem = s.mem := by
    unfold Console.goBack
    split
    · rfl
    · split <;> rfl
  rw [hmem]
  exact h.picture

/-- The end of a call, behind a cell that has been painted. -/
theorem wrap_displays (hcol : 1 ≤ t.col ∧ t.col ≤ 127) (hrow : t.row ≤ 95)
    (hx : s.x.toNat = 8 * (t.col + 1)) (hy : s.y.toNat = 8 * t.row)
    (hshows : Shows s.mem (t.picture bitmaps)) :
    ∃ s', s.wrap = some s' ∧ s'.Displays bitmaps t.next := by
  obtain ⟨s', hwrap, hcell⟩ := wrap_eq hx hy hcol.2 hrow hcol.1
  refine ⟨s', hwrap, hcell, ?_⟩
  have hend : s.x ≥ WIDTH ↔ t.col = 127 := by
    rw [ge_iff_le, UInt64.le_iff_toNat_le, hx]
    show 1024 ≤ 8 * (t.col + 1) ↔ _
    omega
  have hbottom : s.y ≥ HEIGHT - CHAR_PX_SIZE ↔ t.row = 95 := by
    rw [ge_iff_le, UInt64.le_iff_toNat_le, hy]
    show 760 ≤ 8 * t.row ↔ _
    omega
  unfold wrap at hwrap
  by_cases hlast : t.col = 127 ∧ t.row = 95
  · -- the screen scrolls, and the last line is cleared
    have hnext : t.next.picture bitmaps = t.scroll.picture bitmaps := by
      funext col row
      unfold TextScreen.picture TextScreen.next
      rw [if_pos hlast]
    have hscrolled : Shows s.ncScroll.mem fun col row =>
        if 1024 * row + col < 1024 * 760 + 2 then t.picture bitmaps col (row + 16)
        else t.picture bitmaps col row := by
      rw [ncScroll, ncScrollLines_mem]
      exact hshows.shiftUp
    obtain ⟨m', hfill, hcleared⟩ := hscrolled.clearLastLine
    rw [if_pos (hend.mpr hlast.1), if_pos (hbottom.mpr hlast.2)] at hwrap
    dsimp only at hwrap
    rw [hfill] at hwrap
    obtain rfl := Option.some.inj hwrap
    rw [hnext]
    exact hcleared.congr fun col hcol row hrow => TextScreen.picture_scroll hcol hrow
  · have hnext : t.next.picture bitmaps = t.picture bitmaps := by
      funext col row
      unfold TextScreen.picture TextScreen.next
      rw [if_neg hlast]
    have hmem : s'.mem = s.mem := by
      by_cases hcol' : t.col = 127
      · rw [if_pos (hend.mpr hcol'), if_neg fun h => hlast ⟨hcol', hbottom.mp h⟩] at hwrap
        exact (Option.some.inj hwrap) ▸ rfl
      · rw [if_neg fun h => hcol' (hend.mp h)] at hwrap
        exact (Option.some.inj hwrap) ▸ rfl
    rw [hnext, hmem]
    exact hshows

/-- A glyph that looks like the cell. -/
theorem Displays.print_glyph (h : s.Displays bitmaps t) (cell : Cell) (hnewline : c ≠ 10)
    (hback : c ≠ 8)
    (hlooks : ∀ i j, glyphPixel bitmaps c color i j = cell.pixel bitmaps i j) (fuel : Nat) :
    (ncPrintColorChar bitmaps (fuel + 1) s c color).Meets (fun _ => True)
      (·.Displays bitmaps (t.put cell).next) := by
  obtain ⟨⟨hx, hy, hcol, hrow⟩, hshows⟩ := h
  rw [ncPrintColorChar, if_neg hnewline, if_neg hback]
  have hpaint : (paintGlyph bitmaps s c color).Meets (fun _ => True) fun s' =>
      s'.x.toNat = 8 * (t.col + 1) ∧ s'.y.toNat = 8 * t.row ∧
        Shows s'.mem ((t.put cell).picture bitmaps) := by
    refine .bind (.emit trivial) fun _ _ => .pure ⟨?_, hy, ?_⟩
    · show (s.x + UInt64.ofNat 8).toNat = 8 * (t.col + 1)
      rw [addr_add_toNat (by omega), hx]
      omega
    · apply (hshows.paintColorChar hx hy hcol.1 hcol.2 hrow c color).congr
      intro col _ row _
      rw [TextScreen.picture_put hcol hrow, hlooks]
  refine hpaint.bind fun s' hs' => ?_
  obtain ⟨hx', hy', hshows'⟩ := hs'
  obtain ⟨s'', hwrap, hdisplays⟩ := wrap_displays (t := t.put cell) hcol hrow hx' hy' hshows'
  exact .ofOption hwrap hdisplays

/-- A call that has not moved the cursor behind the line. -/
theorem Displays.wrap (h : s.Displays bitmaps t) : s.wrap = some s := h.cursor.wrap

/-- The loop of a new line, by induction on what is left of the line. -/
theorem Displays.newlineLoop {left : Nat} (h : s.Displays bitmaps t) (hleft : t.col + left = 127)
    (hfuel : left + 2 ≤ fuel) :
    (newlineLoop bitmaps fuel s.y s).Meets (fun _ => True) (·.Displays bitmaps t.newline) := by
  induction left generalizing s t fuel with
  | zero =>
    obtain ⟨fuel, rfl⟩ := Nat.exists_eq_add_of_le' hfuel
    rw [Console.newlineLoop]
    refine (h.print_glyph .blank (by decide) (by decide)
      (glyphPixel_black bitmaps 32) fuel).bind fun s' hs' => ?_
    rw [← TextScreen.newline_last (by omega)] at hs'
    have hother : s'.y ≠ s.y := by
      intro heq
      have hrow : s'.y.toNat = 8 * nextRow t.row := hs'.cursor.y
      rw [heq, h.cursor.y] at hrow
      exact nextRow_ne t.row (by omega)
    rw [if_neg hother]
    exact .pure hs'
  | succ left ih =>
    obtain ⟨fuel, rfl⟩ := Nat.exists_eq_add_of_le' (show 2 ≤ fuel by omega)
    rw [Console.newlineLoop]
    refine (h.print_glyph .blank (by decide) (by decide)
      (glyphPixel_black bitmaps 32) fuel).bind fun s' hs' => ?_
    have hnext : (t.put .blank).next = ⟨(t.put .blank).cell, t.col + 1, t.row⟩ :=
      TextScreen.next_of_lt (by show t.col < 127; omega)
    have hsame : s'.y = s.y := by
      have hrow := hs'.cursor.y
      rw [hnext] at hrow
      rw [← UInt64.toNat_inj, hrow, h.cursor.y]
    rw [if_pos hsame, ← hsame, ← TextScreen.newline_put_next (by omega)]
    apply ih hs'
    · rw [hnext]
      show t.col + 1 + left = 127
      omega
    · omega

/-- A backspace goes back, paints the character 0 and goes back over it. -/
theorem Displays.ncBackspace (h : s.Displays bitmaps t) (fuel : Nat) :
    (ncBackspace bitmaps (fuel + 2) s).Meets (fun _ => True)
      (·.Displays bitmaps (t.prev.put (.glyph 0 WHITE))) := by
  rw [Console.ncBackspace]
  refine (h.goBack.print_glyph (.glyph 0 WHITE) (by decide) (by decide)
    (fun _ _ => rfl) fuel).bind fun s' hs' => .pure ?_
  have hprev : (t.prev.put (.glyph 0 WHITE)).next.prev = t.prev.put (.glyph 0 WHITE) :=
    TextScreen.next_prev (TextScreen.prev_not_last h.cursor.onLine h.cursor.onScreen)
      (back_advance_back h.cursor.onLine h.cursor.onScreen)
  rw [← hprev]
  exact hs'.goBack

/-- What one printed character does to the text. -/
theorem Displays.ncPrintColorChar (h : s.Displays bitmaps t) (c : UInt8) (color : UInt32)
    (hfuel : 130 ≤ fuel) :
    (ncPrintColorChar bitmaps fuel s c color).Meets (fun _ => True)
      (·.Displays bitmaps (t.print c color)) := by
  have hline := h.cursor.onLine
  obtain ⟨fuel, rfl⟩ := Nat.exists_eq_add_of_le' (show 3 ≤ fuel by omega)
  unfold TextScreen.print
  by_cases hnewline : c = 10
  · rw [if_pos hnewline, Console.ncPrintColorChar, if_pos hnewline, ncNewline]
    have hleft : t.col + (127 - t.col) = 127 := by omega
    exact (h.newlineLoop hleft (by omega)).bind fun s' hs' => .ofOption hs'.wrap hs'
  · rw [if_neg hnewline]
    by_cases hback : c = 8
    · rw [if_pos hback, Console.ncPrintColorChar, if_neg hnewline, if_pos hback]
      exact (h.ncBackspace fuel).bind fun s' hs' => .ofOption hs'.wrap hs'
    · rw [if_neg hback]
      exact h.print_glyph _ hnewline hback (fun _ _ => rfl) _

/-! ### Runs -/

end Console

inductive ConsoleAction where
  | print (c : UInt8) (color : UInt32)
  | clear

/-- The text after a call. -/
def TextScreen.after (t : TextScreen) : ConsoleAction → TextScreen
  | .print c color => t.print c color
  | .clear => .empty

namespace Console

/-- The console from `ncClear` on.  The memory behind the screen, which scrolling shows, is
    black. -/
def console (bitmaps : UInt8 → Nat → UInt8) : System Console ConsoleAction where
  init := fun s => ∃ s₀ : Console, BlackBehind s₀.mem ∧ s = s₀.ncClear
  step := fun s action s' =>
    match action with
    | .print c color => ∃ fuel, (Console.ncPrintColorChar bitmaps fuel s c color).result = some s'
    | .clear => s' = s.ncClear

variable {bitmaps : UInt8 → Nat → UInt8} {s s' : Console} {t : TextScreen}

theorem mem_ncClear (s : Console) : s.ncClear.mem = s.mem.clear := by
  simp only [ncClear]

/-- A clear screen. -/
theorem displays_ncClear (h : BlackBehind s.mem) : s.ncClear.Displays bitmaps .empty := by
  have hcursor : s.ncClear.InCell 1 0 := ⟨rfl, rfl, by decide, by decide⟩
  refine ⟨hcursor, ?_⟩
  rw [mem_ncClear]
  apply h.clear.congr
  intro col _ row _
  unfold TextScreen.picture
  split <;> rfl

/-- Behind the screen there is no text. -/
theorem Displays.blackBehind (h : s.Displays bitmaps t) : BlackBehind s.mem := by
  intro col hcol row hbehind hrow k hk
  rw [h.picture col hcol row hrow k hk, TextScreen.picture, if_neg (by omega)]
  exact hexToBGR_black k

/-- A call returns, and always to the same state. -/
theorem Displays.step (h : s.Displays bitmaps t) (action : ConsoleAction) :
    ∃ s', (console bitmaps).step s action s' ∧ s'.Displays bitmaps (t.after action) ∧
      ∀ s'', (console bitmaps).step s action s'' → s'' = s' := by
  cases action with
  | print c color =>
    have hmeets : (Console.ncPrintColorChar bitmaps 130 s c color).Meets (fun _ => True) _ :=
      h.ncPrintColorChar c color (Nat.le_refl 130)
    obtain ⟨s', hresult, hdisplays, -⟩ := hmeets
    refine ⟨s', ⟨130, hresult⟩, hdisplays, ?_⟩
    rintro s'' ⟨fuel, hfuel⟩
    have hmore : Console.ncPrintColorChar bitmaps (fuel + 130) s c color =
        Console.ncPrintColorChar bitmaps fuel s c color :=
      ncPrintColorChar_of_le bitmaps (Nat.le_add_right fuel 130)
        (by rw [hfuel]; exact Option.some_ne_none s'')
    have hmore' : Console.ncPrintColorChar bitmaps (fuel + 130) s c color =
        Console.ncPrintColorChar bitmaps 130 s c color :=
      ncPrintColorChar_of_le bitmaps (Nat.le_add_left 130 fuel)
        (by rw [hresult]; exact Option.some_ne_none s')
    rw [← hmore, hmore', hresult] at hfuel
    exact (Option.some.inj hfuel).symm
  | clear => exact ⟨_, rfl, displays_ncClear h.blackBehind, fun _ hstep => hstep⟩

theorem Displays.run (h : s.Displays bitmaps t) (actions : List ConsoleAction) :
    ∃ s', (console bitmaps).StepsFrom s actions s' ∧
      s'.Displays bitmaps (actions.foldl .after t) ∧
      ∀ s'', (console bitmaps).StepsFrom s actions s'' → s'' = s' := by
  induction actions generalizing s t with
  | nil =>
    refine ⟨s, .nil s, h, ?_⟩
    rintro s'' ⟨⟩
    rfl
  | cons action actions ih =>
    obtain ⟨s₁, hstep, hdisplays, honly⟩ := h.step action
    obtain ⟨s', hrun, hdisplays', honly'⟩ := ih hdisplays
    refine ⟨s', .cons action actions hstep hrun, hdisplays', ?_⟩
    intro s'' hrun''
    cases hrun'' with
    | cons _ _ hstep' hrest =>
      obtain rfl := honly _ hstep'
      exact honly' _ hrest

/-- **The frame buffer shows the text.**  When the rows behind the screen are black at first:
    whatever is printed, with `\n` and `\b` and with any number of scrolls, and however often
    the screen is cleared, the calls return, and the pixels are those of the screen of text
    that the characters were printed on. -/
theorem frameBuffer_shows_text (hinit : (console bitmaps).init s) (actions : List ConsoleAction) :
    ∃ s', (console bitmaps).StepsFrom s actions s' ∧
      s'.Displays bitmaps (actions.foldl .after .empty) ∧
      ∀ s'', (console bitmaps).StepsFrom s actions s'' → s'' = s' := by
  obtain ⟨s₀, hbehind, rfl⟩ := hinit
  exact (displays_ncClear hbehind).run actions

/-- The rows of `A` in `bitmaps.h`. -/
def bitmapA (row : Nat) : UInt8 := [0x00, 0x3C, 0x66, 0x66, 0x7E, 0x66, 0x66, 0x66].getD row 0

/-- An A on the empty screen: its second row is white from the third to the sixth pixel, and
    the cursor is in the second cell. -/
theorem frameBuffer_shows_text_first : ∃ s s', (console fun _ => bitmapA).init s ∧
    (console fun _ => bitmapA).StepsFrom s [.print 65 WHITE] s' ∧ s'.x = 16 ∧
    ∀ k < 3, s'.mem (pixelByte 6 1 k) = 255 ∧ s'.mem (pixelByte 8 1 k) = 0 := by
  have hinit : (console fun _ => bitmapA).init (ncClear ⟨fun _ => 0, 0, 0⟩) :=
    ⟨⟨fun _ => 0, 0, 0⟩, fun _ _ _ _ _ _ _ => rfl, rfl⟩
  obtain ⟨s', hrun, hdisplays, -⟩ := frameBuffer_shows_text hinit [.print 65 WHITE]
  refine ⟨_, s', hinit, hrun, UInt64.toNat_inj.mp hdisplays.cursor.x, ?_⟩
  intro k hk
  have hwhite := hdisplays.picture 6 (by decide) 1 (by decide) k hk
  have hblack := hdisplays.picture 8 (by decide) 1 (by decide) k hk
  rw [hwhite, hblack]
  match k, hk with
  | 0, _ => exact ⟨rfl, rfl⟩
  | 1, _ => exact ⟨rfl, rfl⟩
  | 2, _ => exact ⟨rfl, rfl⟩

end Console

end TP2Kernel
