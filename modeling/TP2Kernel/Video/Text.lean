import TP2Kernel.Framework.Recorded
import TP2Kernel.Framework.Transition
import TP2Kernel.Video.Graphics

/-! # The text cursor (`Kernel/c/video-text.c`)

    Characters are printed in cells of eight by eight pixels.  A new line is made of blanks,
    printed until the cursor is on another line; a character is taken back by printing
    another one over it between two steps back.  Both go through `ncPrintColorChar`, which
    goes to the next line at the end of one, and scrolls at the end of the screen.

    The functions call one another, so they take fuel: a call that runs out of it has not
    returned yet.
-/

namespace TP2Kernel

open Recorded Transition

/-- A character that is painted, with the place it is painted at. -/
structure Glyph where
  x : UInt64
  y : UInt64
  c : UInt8
  deriving DecidableEq

/-- No pixel of the glyph is left out. -/
def Glyph.OnScreen (g : Glyph) : Prop :=
  ∀ row < 8, ∀ col < 8, findPixel (g.x - UInt64.ofNat col) (g.y + UInt64.ofNat row) ≠ NULL

/-- Memory, and the cursor. -/
structure Console where
  mem : Memory
  x : UInt64
  y : UInt64

namespace Console

def ncClear (s : Console) : Console := ⟨s.mem.clear, CHAR_PX_SIZE, 0⟩

def ncScrollLines (s : Console) (lines : UInt8) : Console :=
  let lines := if lines.toUInt64 > HEIGHT then HEIGHT.toUInt8 else lines
  { s with mem := s.mem.shiftUp (lines.toUInt64 * CHAR_PX_SIZE) }

def ncScroll (s : Console) : Console := s.ncScrollLines 1

/-- The end of `ncPrintColorChar`: behind the last column the cursor goes to another line. -/
def wrap (s : Console) : Option Console :=
  if s.x ≥ WIDTH then
    if s.y ≥ HEIGHT - CHAR_PX_SIZE then
      let r : REKTangle := ⟨CHAR_PX_SIZE, HEIGHT - CHAR_PX_SIZE, WIDTH, CHAR_PX_SIZE, BLACK⟩
      (s.ncScroll.mem.fillRect r).map fun m => ⟨m, CHAR_PX_SIZE, HEIGHT - CHAR_PX_SIZE * 2⟩
    else some ⟨s.mem, CHAR_PX_SIZE, s.y + CHAR_PX_SIZE⟩
  else some s

/-- Scrolls back one character. -/
def goBack (s : Console) : Console :=
  if s.x > CHAR_PX_SIZE then { s with x := s.x - CHAR_PX_SIZE }
  else if s.y > 0 then { s with x := WIDTH - CHAR_PX_SIZE, y := s.y - CHAR_PX_SIZE }
  else s

section

variable (bitmaps : UInt8 → Nat → UInt8)

/-- `paintColorChar(x, y, character, color); x += CHAR_PX_SIZE;` -/
def paintGlyph (s : Console) (character : UInt8) (color : UInt32) : Recorded Glyph Console := do
  emit ⟨s.x, s.y, character⟩
  pure ⟨s.mem.paintColorChar bitmaps s.x s.y character color, s.x + CHAR_PX_SIZE, s.y⟩

mutual

def ncPrintColorChar : Nat → Console → UInt8 → UInt32 → Recorded Glyph Console
  | 0, _, _, _ => never
  | fuel + 1, s, character, color =>
    (if character = 10 then ncNewline fuel s
      else if character = 8 then ncBackspace fuel s
      else paintGlyph bitmaps s character color) >>= fun s => ofOption s.wrap

def ncNewline : Nat → Console → Recorded Glyph Console
  | 0, _ => never
  | fuel + 1, s => newlineLoop fuel s.y s

/-- `do ncPrintColorChar(' ', BLACK); while(y == startY);` -/
def newlineLoop : Nat → UInt64 → Console → Recorded Glyph Console
  | 0, _, _ => never
  | fuel + 1, startY, s =>
    ncPrintColorChar fuel s 32 BLACK >>= fun s =>
      if s.y = startY then newlineLoop fuel startY s else pure s

/-- `ncPrintChar(0)` between two steps back. -/
def ncBackspace : Nat → Console → Recorded Glyph Console
  | 0, _ => never
  | fuel + 1, s => ncPrintColorChar fuel s.goBack 0 WHITE >>= fun s => pure s.goBack

end

/-! ### More fuel -/

/-- A call that returns does the same with more fuel. -/
theorem extends_succ (fuel : Nat) :
    (∀ s c color, Extends (ncPrintColorChar bitmaps fuel s c color)
      (ncPrintColorChar bitmaps (fuel + 1) s c color)) ∧
    (∀ s, Extends (ncNewline bitmaps fuel s) (ncNewline bitmaps (fuel + 1) s)) ∧
    (∀ startY s, Extends (newlineLoop bitmaps fuel startY s)
      (newlineLoop bitmaps (fuel + 1) startY s)) ∧
    ∀ s, Extends (ncBackspace bitmaps fuel s) (ncBackspace bitmaps (fuel + 1) s) := by
  induction fuel with
  | zero =>
    exact ⟨fun _ _ _ => .never _, fun _ => .never _, fun _ _ => .never _, fun _ => .never _⟩
  | succ fuel ih =>
    obtain ⟨hprint, hnewline, hloop, hbackspace⟩ := ih
    refine ⟨fun s c color => ?_, fun s => hloop s.y s, fun startY s => ?_, fun s => ?_⟩
    · rw [ncPrintColorChar, ncPrintColorChar]
      refine .bind ?_ fun _ => .refl _
      split
      · exact hnewline s
      · split
        · exact hbackspace s
        · exact .refl _
    · rw [newlineLoop, newlineLoop]
      refine .bind (hprint s 32 BLACK) fun s' => ?_
      split
      · exact hloop startY s'
      · exact .refl _
    · rw [ncBackspace, ncBackspace]
      exact .bind (hprint s.goBack 0 WHITE) fun _ => .refl _

theorem ncPrintColorChar_of_le {fuel fuel' : Nat} (hle : fuel ≤ fuel') {s : Console} {c : UInt8}
    {color : UInt32} (hends : (ncPrintColorChar bitmaps fuel s c color).result ≠ none) :
    ncPrintColorChar bitmaps fuel' s c color = ncPrintColorChar bitmaps fuel s c color := by
  induction hle with
  | refl => rfl
  | step _ ih => exact ((extends_succ bitmaps _).1 s c color (by rw [ih]; exact hends)).trans ih

end

end Console

end TP2Kernel
