import TP2Kernel.Video.Text

/-! # The cursor stays on the screen

    The cursor is always in a cell of 127 columns and 96 rows: column 1 begins eight pixels
    from the left, because glyphs are painted to the left of their place.  What one printed
    character does to the cell is a function of the cell.
-/

namespace TP2Kernel

open Recorded Transition

namespace Console

/-- The cursor is in that cell of the screen. -/
structure InCell (s : Console) (col row : Nat) : Prop where
  x : s.x.toNat = 8 * col
  y : s.y.toNat = 8 * row
  onLine : 1 ≤ col ∧ col ≤ 127
  onScreen : row ≤ 95

/-- The row of the next line.  From the last one the screen scrolls, by two lines. -/
def nextRow (row : Nat) : Nat := if row = 95 then 94 else row + 1

/-- The cell behind a printed character. -/
def advance (col row : Nat) : Nat × Nat :=
  if col = 127 then (1, nextRow row) else (col + 1, row)

/-- The cell before, which for the first one is the first one. -/
def back (col row : Nat) : Nat × Nat :=
  if col ≠ 1 then (col - 1, row) else if row ≠ 0 then (127, row - 1) else (1, 0)

/-- Where the cursor is after a character. -/
def cellAfter (c : UInt8) (col row : Nat) : Nat × Nat :=
  if c = 10 then (1, nextRow row) else if c = 8 then back col row else advance col row

variable {bitmaps : UInt8 → Nat → UInt8} {s s' : Console} {col row : Nat} {c : UInt8}
  {color : UInt32} {fuel : Nat}

theorem nextRow_ne (row : Nat) : nextRow row ≠ row := by
  unfold nextRow
  split <;> omega

/-! ### The parts of a call -/

/-- A glyph at a cell is painted inside of the screen. -/
theorem InCell.glyph (h : s.InCell col row) (c : UInt8) : Glyph.OnScreen ⟨s.x, s.y, c⟩ := by
  intro i hi j hj
  obtain ⟨hx, hy, ⟨hfirst, hlast⟩, hrow⟩ := h
  show findPixel (s.x - UInt64.ofNat j) (s.y + UInt64.ofNat i) ≠ NULL
  rw [findPixel_ne_null_iff, UInt64.lt_iff_toNat_lt, UInt64.lt_iff_toNat_lt,
    addr_sub_toNat (by omega), addr_add_toNat (by omega)]
  show s.x.toNat - j < 1024 ∧ s.y.toNat + i < 768
  omega

/-- The cursor behind the last column is that of another line. -/
theorem wrap_eq (hx : s.x.toNat = 8 * (col + 1)) (hy : s.y.toNat = 8 * row) (hcol : col ≤ 127)
    (hrow : row ≤ 95) (hfirst : 1 ≤ col) :
    ∃ s', s.wrap = some s' ∧ s'.InCell (advance col row).1 (advance col row).2 := by
  have hend : s.x ≥ WIDTH ↔ col = 127 := by
    rw [ge_iff_le, UInt64.le_iff_toNat_le, hx]
    show 1024 ≤ 8 * (col + 1) ↔ _
    omega
  unfold wrap advance
  by_cases hcol' : col = 127
  · rw [if_pos (hend.mpr hcol'), if_pos hcol']
    have hbottom : s.y ≥ HEIGHT - CHAR_PX_SIZE ↔ row = 95 := by
      rw [ge_iff_le, UInt64.le_iff_toNat_le, hy]
      show 760 ≤ 8 * row ↔ _
      omega
    by_cases hrow' : row = 95
    · obtain ⟨m', hm'⟩ := Memory.fillRect_isSome s.ncScroll.mem
        ⟨CHAR_PX_SIZE, HEIGHT - CHAR_PX_SIZE, WIDTH, CHAR_PX_SIZE, BLACK⟩
      rw [if_pos (hbottom.mpr hrow')]
      dsimp only
      rw [hm', nextRow, if_pos hrow']
      exact ⟨_, rfl, rfl, rfl, by decide, by decide⟩
    · rw [if_neg fun h => hrow' (hbottom.mp h), nextRow, if_neg hrow']
      refine ⟨_, rfl, rfl, ?_, ⟨Nat.le_refl 1, show 1 ≤ 127 by decide⟩, show row + 1 ≤ 95 by omega⟩
      show (s.y + UInt64.ofNat 8).toNat = 8 * (row + 1)
      rw [addr_add_toNat (by omega), hy]
      omega
  · rw [if_neg fun h => hcol' (hend.mp h), if_neg hcol']
    exact ⟨s, rfl, hx, hy, ⟨by omega, by omega⟩, hrow⟩

/-- The cursor is where it was, and a call that only moves it ends there. -/
theorem InCell.wrap (h : s.InCell col row) : s.wrap = some s := by
  have hx : ¬ s.x ≥ WIDTH := by
    rw [ge_iff_le, UInt64.le_iff_toNat_le, h.x]
    show ¬ 1024 ≤ 8 * col
    have := h.onLine
    omega
  rw [Console.wrap, if_neg hx]

theorem InCell.goBack (h : s.InCell col row) :
    s.goBack.InCell (back col row).1 (back col row).2 := by
  obtain ⟨hx, hy, ⟨hfirst, hlast⟩, hrow⟩ := h
  have hcol : s.x > CHAR_PX_SIZE ↔ col ≠ 1 := by
    rw [gt_iff_lt, UInt64.lt_iff_toNat_lt, hx]
    show 8 < 8 * col ↔ _
    omega
  have htop : s.y > 0 ↔ row ≠ 0 := by
    rw [gt_iff_lt, UInt64.lt_iff_toNat_lt, hy]
    show 0 < 8 * row ↔ _
    omega
  unfold Console.goBack back
  by_cases hcol' : col ≠ 1
  · rw [if_pos (hcol.mpr hcol'), if_pos hcol']
    refine ⟨?_, hy, ⟨by omega, by omega⟩, hrow⟩
    show (s.x - UInt64.ofNat 8).toNat = 8 * (col - 1)
    rw [addr_sub_toNat (by omega), hx]
    omega
  · rw [if_neg fun h => hcol' (hcol.mp h), if_neg hcol']
    by_cases hrow' : row ≠ 0
    · rw [if_pos (htop.mpr hrow'), if_pos hrow']
      have hend : (WIDTH - CHAR_PX_SIZE).toNat = 8 * 127 := by decide
      refine ⟨hend, ?_, ⟨show 1 ≤ 127 by decide, Nat.le_refl 127⟩, show row - 1 ≤ 95 by omega⟩
      show (s.y - UInt64.ofNat 8).toNat = 8 * (row - 1)
      rw [addr_sub_toNat (by omega), hy]
      omega
    · rw [if_neg fun h => hrow' (htop.mp h), if_neg hrow']
      exact ⟨by omega, by omega, by decide, by decide⟩

/-! ### The calls -/

/-- A character that is neither a new line nor a backspace. -/
theorem InCell.print_glyph (h : s.InCell col row) (hnewline : c ≠ 10) (hback : c ≠ 8)
    (color : UInt32) (fuel : Nat) :
    (ncPrintColorChar bitmaps (fuel + 1) s c color).Meets Glyph.OnScreen
      (·.InCell (advance col row).1 (advance col row).2) := by
  rw [ncPrintColorChar, if_neg hnewline, if_neg hback]
  have hpaint : (paintGlyph bitmaps s c color).Meets Glyph.OnScreen fun s' =>
      s'.x.toNat = 8 * (col + 1) ∧ s'.y.toNat = 8 * row := by
    refine .bind (.emit (h.glyph c)) fun _ _ => .pure ⟨?_, h.y⟩
    show (s.x + UInt64.ofNat 8).toNat = 8 * (col + 1)
    have := h.onLine
    rw [addr_add_toNat (by rw [h.x]; omega), h.x]
    omega
  refine hpaint.bind fun s' hs' => ?_
  obtain ⟨s'', hwrap, hcell⟩ := wrap_eq hs'.1 hs'.2 h.onLine.2 h.onScreen h.onLine.1
  exact .ofOption hwrap hcell

/-- Blanks are printed until the line is at its end, by induction on what is left of it. -/
theorem newlineLoop_meets {left : Nat} (h : s.InCell col row) (hleft : col + left = 127)
    (hfuel : left + 2 ≤ fuel) :
    (newlineLoop bitmaps fuel s.y s).Meets Glyph.OnScreen (·.InCell 1 (nextRow row)) := by
  induction left generalizing s col fuel with
  | zero =>
    obtain ⟨fuel, rfl⟩ := Nat.exists_eq_add_of_le' hfuel
    rw [newlineLoop]
    refine (h.print_glyph (by decide) (by decide) BLACK fuel).bind fun s' hs' => ?_
    rw [advance, if_pos (by omega)] at hs'
    have hother : s'.y ≠ s.y := by
      intro heq
      have hrow := hs'.y
      rw [heq, h.y] at hrow
      exact nextRow_ne row (by omega)
    rw [if_neg hother]
    exact .pure hs'
  | succ left ih =>
    obtain ⟨fuel, rfl⟩ := Nat.exists_eq_add_of_le' (show 2 ≤ fuel by omega)
    rw [newlineLoop]
    refine (h.print_glyph (by decide) (by decide) BLACK fuel).bind fun s' hs' => ?_
    rw [advance, if_neg (by omega)] at hs'
    have hsame : s'.y = s.y := by
      rw [← UInt64.toNat_inj, hs'.y, h.y]
    rw [if_pos hsame, ← hsame]
    exact ih hs' (by omega) (by omega)

/-- A step back over the character that is printed leads to where the first step led. -/
theorem back_advance_back (hline : 1 ≤ col ∧ col ≤ 127) (hrow : row ≤ 95) :
    back (advance (back col row).1 (back col row).2).1
      (advance (back col row).1 (back col row).2).2 = back col row := by
  by_cases hcol : col = 1
  · subst hcol
    by_cases htop : row = 0
    · subst htop
      rfl
    · have hback : back 1 row = (127, row - 1) := by simp [back, htop]
      have hnext : nextRow (row - 1) = row := by
        rw [nextRow, if_neg (by omega)]
        omega
      rw [hback, advance, if_pos rfl, hnext, hback]
  · have hback : back col row = (col - 1, row) := by simp [back, hcol]
    rw [hback, advance]
    split
    · omega
    · rw [show col - 1 + 1 = col by omega, hback]

theorem InCell.ncBackspace (h : s.InCell col row) (fuel : Nat) :
    (ncBackspace bitmaps (fuel + 2) s).Meets Glyph.OnScreen
      (·.InCell (back col row).1 (back col row).2) := by
  rw [Console.ncBackspace]
  refine (h.goBack.print_glyph (by decide) (by decide) WHITE fuel).bind fun s' hs' => .pure ?_
  have hcell := hs'.goBack
  rwa [back_advance_back h.onLine h.onScreen] at hcell

/-- What one printed character does. -/
theorem InCell.ncPrintColorChar (h : s.InCell col row) (c : UInt8) (color : UInt32)
    (hfuel : 130 ≤ fuel) :
    (ncPrintColorChar bitmaps fuel s c color).Meets Glyph.OnScreen
      (·.InCell (cellAfter c col row).1 (cellAfter c col row).2) := by
  have hline := h.onLine
  obtain ⟨fuel, rfl⟩ := Nat.exists_eq_add_of_le' (show 3 ≤ fuel by omega)
  unfold cellAfter
  by_cases hnewline : c = 10
  · rw [if_pos hnewline, Console.ncPrintColorChar, if_pos hnewline, ncNewline]
    have hleft : col + (127 - col) = 127 := by omega
    exact (newlineLoop_meets h hleft (by omega)).bind fun s' hs' => .ofOption hs'.wrap hs'
  · rw [if_neg hnewline]
    by_cases hback : c = 8
    · rw [if_pos hback, Console.ncPrintColorChar, if_neg hnewline, if_pos hback]
      exact (h.ncBackspace fuel).bind fun s' hs' => .ofOption hs'.wrap hs'
    · rw [if_neg hback]
      exact h.print_glyph hnewline hback color _

/-! ### Runs -/

/-- From a clear screen on, characters are printed one after the other. -/
def printing (bitmaps : UInt8 → Nat → UInt8) : System Console (UInt8 × UInt32) where
  init := fun s => ∃ s₀ : Console, s = s₀.ncClear
  step := fun s print s' =>
    ∃ fuel, (Console.ncPrintColorChar bitmaps fuel s print.1 print.2).result = some s'

theorem inCell_reachable (h : (printing bitmaps).Reachable s) : ∃ col row, s.InCell col row := by
  refine h.invariant (fun s => ∃ col row, s.InCell col row) ?_ ?_
  · rintro s ⟨s₀, rfl⟩
    exact ⟨1, 0, rfl, rfl, by decide, by decide⟩
  · rintro s ⟨c, color⟩ s' ⟨col, row, hcell⟩ ⟨fuel, hfuel⟩
    have hmeets : (Console.ncPrintColorChar bitmaps (fuel + 130) s c color).Meets
        Glyph.OnScreen _ := hcell.ncPrintColorChar c color (Nat.le_add_left 130 fuel)
    obtain ⟨s'', hresult, hcell', -⟩ := hmeets
    have hmore : Console.ncPrintColorChar bitmaps (fuel + 130) s c color =
        Console.ncPrintColorChar bitmaps fuel s c color :=
      ncPrintColorChar_of_le bitmaps (Nat.le_add_right fuel 130)
        (by rw [hfuel]; exact Option.some_ne_none s')
    rw [hmore, hfuel] at hresult
    obtain rfl := Option.some.inj hresult
    exact ⟨_, _, hcell'⟩

/-- The bounds of the cursor. -/
structure CursorOnScreen (s : Console) : Prop where
  x : s.x.toNat % 8 = 0 ∧ 8 ≤ s.x.toNat ∧ s.x.toNat ≤ 1016
  y : s.y.toNat % 8 = 0 ∧ s.y.toNat ≤ 760

theorem InCell.cursorOnScreen (h : s.InCell col row) : s.CursorOnScreen := by
  obtain ⟨hx, hy, ⟨hfirst, hlast⟩, hrow⟩ := h
  exact ⟨by omega, by omega⟩

/-- One cell to the left; from the first column to the end of the line before; and not at
    all from the first cell of the screen. -/
structure MovedBack (s s' : Console) : Prop where
  left : s.x ≠ 8 → s'.x.toNat + 8 = s.x.toNat ∧ s'.y = s.y
  up : s.x = 8 → s.y ≠ 0 → s'.x = 1016 ∧ s'.y.toNat + 8 = s.y.toNat
  home : s.x = 8 → s.y = 0 → s'.x = 8 ∧ s'.y = 0

theorem movedBack_of_inCell (h : s.InCell col row)
    (h' : s'.InCell (back col row).1 (back col row).2) : MovedBack s s' := by
  have hx := h.x
  have hy := h.y
  have hline := h.onLine
  have hx' := h'.x
  have hy' := h'.y
  have hcol : s.x = 8 ↔ col = 1 := by
    rw [← UInt64.toNat_inj, hx]
    show 8 * col = 8 ↔ _
    omega
  have htop : s.y = 0 ↔ row = 0 := by
    rw [← UInt64.toNat_inj, hy]
    show 8 * row = 0 ↔ _
    omega
  unfold back at hx' hy'
  refine ⟨?_, ?_, ?_⟩
  · intro hne
    have hne' : col ≠ 1 := fun heq => hne (hcol.mpr heq)
    rw [if_pos hne'] at hx' hy'
    refine ⟨?_, UInt64.toNat_inj.mp (by rw [hy, hy'])⟩
    rw [hx, hx']
    omega
  · intro heq hne
    have hne' : row ≠ 0 := fun hrow => hne (htop.mpr hrow)
    rw [if_neg (not_not.mpr (hcol.mp heq)), if_pos hne'] at hx' hy'
    refine ⟨UInt64.toNat_inj.mp hx', ?_⟩
    rw [hy, hy']
    omega
  · intro heq htop'
    rw [if_neg (not_not.mpr (hcol.mp heq)), if_neg (not_not.mpr (htop.mp htop'))] at hx' hy'
    exact ⟨UInt64.toNat_inj.mp hx', UInt64.toNat_inj.mp hy'⟩

/-- **The cursor stays on the screen.**  In every run the cursor is at a cell, and the next
    character returns: it leaves the cursor at a cell, a new line leaves it at the beginning
    of another line, a backspace takes it back by one cell, and all glyphs are painted
    inside of the screen. -/
theorem cursor_onScreen (h : (printing bitmaps).Reachable s) (c : UInt8) (color : UInt32) :
    s.CursorOnScreen ∧
    ∃ trace s', (∀ fuel, 130 ≤ fuel →
        Console.ncPrintColorChar bitmaps fuel s c color = ⟨trace, some s'⟩) ∧
      s'.CursorOnScreen ∧ (c = 10 → s'.x = 8 ∧ s'.y ≠ s.y) ∧ (c = 8 → MovedBack s s') ∧
      ∀ g ∈ trace, g.OnScreen := by
  obtain ⟨col, row, hcell⟩ := inCell_reachable h
  have hmeets : (Console.ncPrintColorChar bitmaps 130 s c color).Meets Glyph.OnScreen _ :=
    hcell.ncPrintColorChar c color (Nat.le_refl 130)
  obtain ⟨s', hresult, hcell', htrace⟩ := hmeets
  refine ⟨hcell.cursorOnScreen, _, s', ?_, hcell'.cursorOnScreen, ?_, ?_, htrace⟩
  · intro fuel hfuel
    rw [ncPrintColorChar_of_le bitmaps hfuel (by rw [hresult]; exact Option.some_ne_none s'),
      ← hresult]
  · rintro rfl
    refine ⟨UInt64.toNat_inj.mp hcell'.x, ?_⟩
    intro heq
    have hy := hcell'.y
    rw [heq, hcell.y] at hy
    exact nextRow_ne row (Nat.eq_of_mul_eq_mul_left (by decide) hy.symm)
  · rintro rfl
    exact movedBack_of_inCell hcell hcell'

/-- A new line on a clear screen. -/
theorem cursor_onScreen_newline : ∃ s s' : Console, (printing fun _ _ => 0).Reachable s ∧
    s.x = 8 ∧ s.y = 0 ∧ (∃ fuel trace,
      Console.ncPrintColorChar (fun _ _ => 0) fuel s 10 WHITE = ⟨trace, some s'⟩) ∧
    s'.x = 8 ∧ s'.y ≠ s.y := by
  have h : (printing fun _ _ => 0).Reachable (ncClear ⟨fun _ => 0, 0, 0⟩) := .init ⟨_, rfl⟩
  obtain ⟨-, trace, s', hcall, -, hnewline, -⟩ := cursor_onScreen h 10 WHITE
  exact ⟨_, s', h, rfl, rfl, ⟨130, trace, hcall 130 (Nat.le_refl 130)⟩, hnewline rfl⟩

end Console

end TP2Kernel
