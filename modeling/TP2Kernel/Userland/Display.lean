import TP2Kernel.Framework.Effects
import TP2Kernel.Userland.Jumping
import TP2Kernel.Video.Images
import TP2Kernel.Video.Outlines

/-! # The picture of the game

    The game keeps no picture of its own: it paints a cell when it has changed, and the
    column of the character each time.  What is on the screen is the state of the game all
    the same.

    `paintFullRect` draws the outlines of rectangles that are one pixel wide, so that it
    paints one column and one row too many.  These are the left and the upper edges of the
    cells next to it; of the image it is the first row.
-/

namespace TP2Kernel

open Painting Recorded Transition

/-! ### What is shown -/

/-- The upper edge of the cells of that height. -/
def cellTop (j : Nat) : Nat := (VERTICAL_SIZE - j - 1) * 50

/-- The pixels of the cell have that colour, those of its left and its upper edge
    excepted. -/
def CellShows (m : Memory) (left width j : Nat) (color : UInt32) : Prop :=
  ∀ col row, left < col → col < left + width → cellTop j < row → row < cellTop j + 50 →
    ∀ k < 3, m (pixelByte col row k) = hexToBGR color k

def Space.color : Space → UInt32
  | .EMPTY => 0x000000
  | .OBSTACLE => 0xFF0000

/-- All obstacles, but for the column of the character. -/
def BoardShown (m : Memory) (g : GameData) : Prop :=
  ∀ i, 1 ≤ i → i < HORIZONTAL_SIZE → ∀ j < VERTICAL_SIZE,
    CellShows m (i * 50 + 100) 50 j (g.obstacle i j).color

/-- A cell of the column of the character. -/
def ColumnShown (m : Memory) (g : GameData) (j : Nat) : Prop :=
  CellShows m 0 150 j (g.obstacle 0 j).color

/-- The upper edge of the highest cell of the character. -/
def imageTop (g : GameData) : Nat := cellTop (g.posY.toNat + 1)

/-- The image of the character, its first row excepted. -/
def CharacterShown (m : Memory) (image : Picture) (g : GameData) : Prop :=
  ∀ col < image.width.toNat, ∀ row < image.height.toNat, 0 < row → ∀ c < 3,
    m (pixelByte col (imageTop g + row) (2 - c)) = image.colour col row c

namespace GameData

/-- One of the three cells of the character. -/
def Occupies (g : GameData) (j : Nat) : Prop :=
  (j : Int) = g.posY ∨ (j : Int) = g.posY + 1 ∨ (j : Int) = g.posY - 1

def withCell (g : GameData) (i j : Nat) (space : Space) : GameData :=
  { g with obstacle := Function.update g.obstacle i (Function.update (g.obstacle i) j space) }

end GameData

/-- The picture of the game: the obstacles and the character. -/
structure GameShown (m : Memory) (image : Picture) (g : GameData) : Prop where
  board : BoardShown m g
  column : ∀ j < VERTICAL_SIZE, ¬ g.Occupies j → ColumnShown m g j
  character : CharacterShown m image g

/-- The image is no larger than the cells of the character. -/
structure Picture.FitsCells (image : Picture) : Prop where
  width : image.width.toNat ≤ 150
  height : image.height.toNat ≤ 150

/-- The game goes on, the obstacles are shown, and the image can be painted. -/
structure Drawn (img : Addr) (image : Picture) (m : Memory) (g : GameData) : Prop where
  board : BoardShown m g
  loaded : Loaded m img image
  playing : g.gameState = .PLAYING
  goes : g.isGameOver = false

/-- Those cells of the column of the character are shown, too. -/
structure ColumnDrawn (img : Addr) (image : Picture) (m : Memory) (g : GameData)
    (done : Nat → Prop) : Prop extends Drawn img image m g where
  column : ∀ j < VERTICAL_SIZE, done j → ¬ g.Occupies j → ColumnShown m g j
  character : ∀ j : Nat, done j → (j : Int) = g.posY - 1 → CharacterShown m image g

/-- What an event does to memory.  The image is at `img`, and `console` is what printing a
    text does. -/
def GameEvent.effect (img : Addr) (console : Memory → String → Memory) (m : Memory) :
    GameEvent → Option Memory
  | .paintRect rekt => m.drawRect rekt
  | .paintImg x y => some (m.paintImg img (UInt64.ofInt x) (UInt64.ofInt y))
  | .clearScreen => some m.clear
  | .print text => some (console m text)
  | .MQsend _ _ => some m
  | .sleep_sys _ => some m

variable {m m' : Memory} {color : UInt32} {left top width height : Nat}
  {inner outer : Set Addr} {img : Addr} {image : Picture} {g g' : GameData}
  {console : Memory → String → Memory}

/-! ### What the events do -/

theorem paintFullRect_does (m : Memory) (left top : Nat) {i j : Int} {width height : UInt64}
    (color : UInt32) (hleft : i = left) (htop : j = top) (hright : left + width.toNat < 1024)
    (hbottom : top + height.toNat < 768) :
    (paintFullRect i j width height color).Does (GameEvent.effect img console) m fun _ m' =>
      PaintsWithin color (region left top width.toNat height.toNat)
        (region left top (width.toNat + 1) (height.toNat + 1)) m m' := by
  subst hleft htop
  apply Does.forRange (I := fun k _ m' => PaintsWithin color (region left top k height.toNat)
    (region left top (k + 1) (height.toNat + 1)) m m')
  · intro k hk u m₁ h
    have hx : (UInt64.ofInt ((k : Int) + left)).toNat = k + left := by
      rw [toNat_ofInt (by omega) (by omega)]
      omega
    have hy : (UInt64.ofInt (top : Int)).toNat = top := by
      rw [toNat_ofInt (by omega) (by omega)]
      omega
    obtain ⟨m₂, hdraw, hpaints⟩ := drawRect_paintsWithin m₁ (UInt64.ofInt ((k : Int) + left))
      (UInt64.ofInt (top : Int)) height color (by omega) (by omega)
    refine .emit hdraw ((h.trans hpaints).mono ?_ ?_)
    · intro a ha
      obtain ⟨col, row, c, hcol, hrow, hlt, hc, rfl⟩ := ha
      by_cases hlast : col < left + k
      · exact .inl ⟨col, row, c, ⟨hcol.1, hlast⟩, hrow, hlt, hc, rfl⟩
      · exact .inr ⟨col, row, c, by omega, by omega, hlt, hc, rfl⟩
    · apply Set.union_subset <;> apply region_subset <;> omega
  · refine (PaintsWithin.refl color m).mono ?_ Set.Subset.rfl
    intro a ha
    obtain ⟨col, row, c, hcol, -⟩ := ha
    omega

theorem gameOver_does (m : Memory) (g : GameData) :
    (gameOver g).Does (GameEvent.effect img console) m fun g' _ =>
      g' = { g with isGameOver := true } := by
  unfold gameOver
  apply Does.bind (Q := fun _ _ => True) (.emit rfl trivial)
  intro _ _ _
  apply Does.bind (Q := fun _ _ => True) (.emit rfl trivial)
  intro _ _ _
  apply Does.bind (Q := fun _ _ => True) (.emit rfl trivial)
  intro _ _ _
  apply Does.bind (Q := fun _ _ => True) (.emit rfl trivial)
  intro _ _ _
  apply Does.bind (Q := fun _ _ => True) (.emit rfl trivial)
  intro _ _ _
  apply Does.bind (Q := fun _ _ => True) (.emit rfl trivial)
  intro _ _ _
  exact .pure rfl

/-! ### Cells -/

/-- What was painted elsewhere leaves the cell alone, also if it was on the edges. -/
theorem CellShows.kept {j left' top' width' height' : Nat} (h : CellShows m left width j color)
    (hright : left + width ≤ 1024) (hbottom : cellTop j + 50 ≤ 768)
    (hkept : ∀ a, a ∉ region left' top' (width' + 1) (height' + 1) → m' a = m a)
    (haway : left + width ≤ left' ∨ left' + width' ≤ left ∨ cellTop j + 50 ≤ top' ∨
      top' + height' ≤ cellTop j) : CellShows m' left width j color := by
  intro col row hcol hcol' hrow hrow' k hk
  rw [hkept, h col row hcol hcol' hrow hrow' k hk]
  rw [mem_region_iff (by omega) (by omega) hk]
  omega

/-- What was painted there shows. -/
theorem CellShows.painted {j : Nat} (hright : left + width ≤ 1024)
    (hbottom : cellTop j + 50 ≤ 768)
    (hpaints : PaintsWithin color (region left (cellTop j) width 50) outer m m') :
    CellShows m' left width j color := by
  intro col row hcol hcol' hrow hrow'
  apply hpaints.pixelShows
  intro k hk
  rw [mem_region_iff (by omega) (by omega) hk]
  omega

theorem cellTop_add {j : Nat} (hj : j < VERTICAL_SIZE) : cellTop j + j * 50 = 550 := by
  unfold cellTop
  simp only [VERTICAL_SIZE] at hj ⊢
  omega

theorem Loaded.congr (h : Loaded m img image) (hstays : ∀ a, ¬ InFrame a → m' a = m a) :
    Loaded m' img image := by
  refine ⟨?_, h.fits, h.apart⟩
  intro i hi
  have hoffset : (img + UInt64.ofNat i - img).toNat = i :=
    (addr_sub_toNat_eq_iff (by have := h.fits; omega)).mpr rfl
  rw [hstays]
  · exact h.bytes i hi
  · intro hframe
    apply h.apart _ hframe
    rw [hoffset]
    exact hi

theorem PaintsWithin.loaded (h : Loaded m img image)
    (hpaints : PaintsWithin color inner (region left top width height) m m') :
    Loaded m' img image :=
  h.congr fun _ hout => hpaints.kept fun hin => hout (inFrame_of_region hin)

/-! ### The obstacles -/

theorem Space.eq_obstacle {space : Space} (h : space ≠ .EMPTY) : space = .OBSTACLE := by
  cases space with
  | EMPTY => exact absurd rfl h
  | OBSTACLE => rfl

theorem Space.eq_empty {space : Space} (h : space ≠ .OBSTACLE) : space = .EMPTY := by
  cases space with
  | EMPTY => rfl
  | OBSTACLE => exact absurd rfl h

namespace GameData

theorem withCell_self (g : GameData) (i j : Nat) : g.withCell i j (g.obstacle i j) = g := by
  unfold withCell
  rw [Function.update_eq_self, Function.update_eq_self]

theorem withCell_obstacle (g : GameData) (i j : Nat) (space : Space) (i' j' : Nat) :
    (g.withCell i j space).obstacle i' j' =
      if i' = i ∧ j' = j then space else g.obstacle i' j' := by
  unfold withCell
  by_cases hi : i' = i
  · subst hi
    by_cases hj : j' = j
    · simp [hj]
    · simp [hj]
  · simp [hi]

end GameData

/-- A cell is painted: the others stay, and it has its new colour. -/
theorem Drawn.paintCell (h : Drawn img image m g) {i j : Nat} (hi : 1 ≤ i)
    (hi' : i < HORIZONTAL_SIZE) (hj : j < VERTICAL_SIZE) (space : Space) :
    (paintFullRect (i * 50 + 100) (((VERTICAL_SIZE : Int) - j - 1) * 50) 50 50 space.color).Does
      (GameEvent.effect img console) m fun _ m' => Drawn img image m' (g.withCell i j space) := by
  have hfifty : (50 : UInt64).toNat = 50 := rfl
  have htop := cellTop_add hj
  simp only [HORIZONTAL_SIZE] at hi'
  have hrow : ((VERTICAL_SIZE : Int) - j - 1) * 50 = cellTop j := by
    simp only [VERTICAL_SIZE]
    omega
  apply (paintFullRect_does m (i * 50 + 100) (cellTop j) space.color (by omega) hrow (by omega)
    (by omega)).mono
  intro u m' hpaints
  rw [hfifty] at hpaints
  refine ⟨?_, hpaints.loaded h.loaded, h.playing, h.goes⟩
  intro i' hfirst hlast j' hj'
  have htop' := cellTop_add hj'
  simp only [HORIZONTAL_SIZE] at hlast
  rw [GameData.withCell_obstacle]
  split
  · next hsame =>
    obtain ⟨rfl, rfl⟩ := hsame
    exact .painted (by omega) (by omega) hpaints
  · next hother =>
    exact (h.board i' hfirst hlast j' hj').kept (by omega) (by omega) (fun _ => hpaints.kept)
      (by omega)

theorem Drawn.moveCell (h : Drawn img image m g) {i j : Nat} (hi : i < HORIZONTAL_SIZE)
    (hj : j < VERTICAL_SIZE) (obstacleTicks : Nat) (newObstaclePosY : Int) :
    (g.moveCell obstacleTicks newObstaclePosY i j).Does (GameEvent.effect img console) m
      fun g' m' => Drawn img image m' g' := by
  unfold GameData.moveCell
  dsimp only
  generalize (if i + obstacleTicks ≥ HORIZONTAL_SIZE then
    if (j : Int) = newObstaclePosY then Space.OBSTACLE else .EMPTY
    else g.obstacle (i + obstacleTicks) j) = newState
  -- at most one of the two rectangles is painted
  apply Does.bind (Q := fun _ m' => Drawn img image m'
    (if i ≠ 0 ∧ newState = .OBSTACLE then g.withCell i j .OBSTACLE else g))
  · apply Does.onlyIf
    · intro hc
      rw [if_pos ⟨hc.1, hc.2.1⟩]
      exact h.paintCell (Nat.pos_of_ne_zero hc.1) hi hj .OBSTACLE
    · intro hc
      split
      · next hnew =>
        have hold : g.obstacle i j = .OBSTACLE :=
          Space.eq_obstacle fun hspace => hc ⟨hnew.1, hnew.2, hspace⟩
        rw [← hold, GameData.withCell_self]
        exact h
      · exact h
  intro _ m₁ h₁
  apply Does.bind (Q := fun _ m' => Drawn img image m'
    (if i ≠ 0 then g.withCell i j newState else g))
  · apply Does.onlyIf
    · intro hc
      rw [if_neg fun hobstacle => Space.noConfusion (hc.2.1.symm.trans hobstacle.2)] at h₁
      rw [if_pos hc.1, hc.2.1]
      exact h₁.paintCell (Nat.pos_of_ne_zero hc.1) hi hj .EMPTY
    · intro hc
      cases newState with
      | OBSTACLE => simpa using h₁
      | EMPTY =>
        rw [if_neg fun hobstacle => Space.noConfusion hobstacle.2] at h₁
        split
        · next hne =>
          have hold : g.obstacle i j = .EMPTY :=
            Space.eq_empty fun hspace => hc ⟨hne, rfl, hspace⟩
          rw [← hold, GameData.withCell_self]
          exact h₁
        · exact h₁
  intro _ m₂ h₂
  refine .pure ?_
  by_cases hzero : i = 0
  · rw [if_neg (not_not.mpr hzero)] at h₂
    refine ⟨?_, h₂.loaded, h₂.playing, h₂.goes⟩
    intro i' hfirst hlast j' hj'
    have hother := h₂.board i' hfirst hlast j' hj'
    have hsame := g.withCell_obstacle i j newState i' j'
    rw [if_neg (by omega)] at hsame
    rw [← hsame] at hother
    exact hother
  · rw [if_pos hzero] at h₂
    exact h₂

theorem Drawn.updateObstacles (h : Drawn img image m g) (updateTime : UInt64) :
    (g.updateObstacles updateTime).Does (GameEvent.effect img console) m
      fun g' m' => Drawn img image m' g' := by
  unfold GameData.updateObstacles
  dsimp only
  split
  · apply Does.bind (Q := fun g' m' => Drawn img image m' g')
    · apply Does.forRange (I := fun _ g' m' => Drawn img image m' g') _ h
      intro i hi g₁ m₁ h₁
      apply Does.forRange (I := fun _ g' m' => Drawn img image m' g') _ h₁
      intro j hj g₂ m₂ h₂
      exact h₂.moveCell hi hj _ _
    · intro g' m' h'
      exact .pure ⟨h'.board, h'.loaded, h'.playing, h'.goes⟩
  · exact .pure h

/-! ### The column of the character -/

variable {done : Nat → Prop} {j : Nat}

theorem imageTop_add (h : g.InCells) : imageTop g + g.posY.toNat * 50 = 500 := by
  obtain ⟨⟨hlow, hhigh⟩, -⟩ := h
  simp only [VERTICAL_SIZE] at hhigh
  have htop := cellTop_add (j := g.posY.toNat + 1) (by simp only [VERTICAL_SIZE]; omega)
  unfold imageTop
  omega

theorem ColumnDrawn.paintColumn (h : ColumnDrawn img image m g done) (hcells : g.InCells)
    (hfits : image.FitsCells) (hj : j < VERTICAL_SIZE) (haway : ¬ g.Occupies j) :
    (paintFullRect 0 (((VERTICAL_SIZE : Int) - j - 1) * 50) 150 50
      (if g.obstacle 0 j = .OBSTACLE then 0xFF0000 else 0x000000)).Does
      (GameEvent.effect img console) m
      fun _ m' => ColumnDrawn img image m' g fun n => n = j ∨ done n := by
  have hwidth : (150 : UInt64).toNat = 150 := rfl
  have hheight : (50 : UInt64).toNat = 50 := rfl
  have htop := cellTop_add hj
  have hcolor : (if g.obstacle 0 j = .OBSTACLE then 0xFF0000 else 0x000000) =
      (g.obstacle 0 j).color := by
    cases g.obstacle 0 j with
    | EMPTY => rfl
    | OBSTACLE => rfl
  rw [hcolor]
  have hrow : ((VERTICAL_SIZE : Int) - j - 1) * 50 = cellTop j := by
    simp only [VERTICAL_SIZE]
    omega
  apply (paintFullRect_does m 0 (cellTop j) (g.obstacle 0 j).color rfl hrow (by omega)
    (by omega)).mono
  intro u m' hpaints
  rw [hwidth, hheight] at hpaints
  refine ⟨⟨?_, hpaints.loaded h.loaded, h.playing, h.goes⟩, ?_, ?_⟩
  · intro i' hfirst hlast j' hj'
    have htop' := cellTop_add hj'
    simp only [HORIZONTAL_SIZE] at hlast
    exact (h.board i' hfirst hlast j' hj').kept (by omega) (by omega) (fun _ => hpaints.kept)
      (by omega)
  · intro j' hj' hdone haway'
    have htop' := cellTop_add hj'
    by_cases hsame : j' = j
    · subst hsame
      exact .painted (by omega) (by omega) hpaints
    · exact (h.column j' hj' (hdone.resolve_left hsame) haway').kept (by omega) (by omega)
        (fun _ => hpaints.kept) (by omega)
  -- the row below the cells above the character is the first row of the image
  · intro j' hdone hlowest col hcol row hrow hpos c hc
    have hother : done j' := hdone.resolve_left fun hsame => haway (.inr (.inr (hsame ▸ hlowest)))
    have htopImage := imageTop_add hcells
    have hwide := hfits.width
    have hhigh := hfits.height
    unfold GameData.Occupies at haway
    obtain ⟨⟨hlow, hmost⟩, -⟩ := hcells
    simp only [VERTICAL_SIZE] at hmost hj
    rw [hpaints.kept]
    · exact h.character j' hother hlowest col hcol row hrow hpos c hc
    · rw [mem_region_iff (by omega) (by omega) (by omega)]
      omega

/-- What is seen of the image is in the cells of the character. -/
theorem seen_subset (hfits : image.FitsCells) {y : UInt64} (n : Nat) :
    image.seen 0 y n ⊆ region 0 y.toNat 150 150 := by
  intro a ha
  obtain ⟨col, hcol, row, hrow, k, hk, -, rfl⟩ := ha
  have hwide := hfits.width
  have hhigh := hfits.height
  have hzero : (0 : UInt64).toNat = 0 := rfl
  unfold Picture.across at hcol
  unfold Picture.down at hrow
  rw [hzero] at hcol
  rw [hzero]
  exact ⟨0 + col, y.toNat + row, k, by omega, by omega, by omega, hk, rfl⟩

theorem ColumnDrawn.paintImg (h : ColumnDrawn img image m g done) (hcells : g.InCells)
    (hfits : image.FitsCells) (hlowest : (j : Int) = g.posY - 1) :
    (Recorded.emit (.paintImg 0 (((VERTICAL_SIZE : Int) - (g.posY - 1) - 3) * 50))).Does
      (GameEvent.effect img console) m
      fun _ m' => ColumnDrawn img image m' g fun n => n = j ∨ done n := by
  have htopImage := imageTop_add hcells
  obtain ⟨⟨hlow, hmost⟩, -⟩ := hcells
  simp only [VERTICAL_SIZE] at hmost
  have hwide := hfits.width
  have hhigh := hfits.height
  have hzero : (0 : UInt64).toNat = 0 := rfl
  obtain ⟨y, hplace⟩ : ∃ y, y = UInt64.ofInt (((VERTICAL_SIZE : Int) - (g.posY - 1) - 3) * 50) :=
    ⟨_, rfl⟩
  have hy : y.toNat = imageTop g := by
    rw [hplace]
    simp only [VERTICAL_SIZE]
    rw [toNat_ofInt (by omega) (by omega)]
    omega
  have hy' : y < HEIGHT := by
    rw [UInt64.lt_iff_toNat_lt, hy]
    show imageTop g < 768
    omega
  have heffect : GameEvent.effect img console m
      (.paintImg 0 (((VERTICAL_SIZE : Int) - (g.posY - 1) - 3) * 50)) =
      some (m.paintImg img 0 y) := by
    rw [hplace]
    rfl
  refine .emit heffect ?_
  have hpaints := paintImg_paints (x := 0) h.loaded (by decide) hy'
  have hkept : ∀ a, a ∉ region 0 (imageTop g) (149 + 1) (149 + 1) →
      m.paintImg img 0 y a = m a := by
    intro a ha
    apply hpaints.kept
    intro hseen
    have hregion := seen_subset hfits _ hseen
    rw [hy] at hregion
    exact ha hregion
  refine ⟨⟨?_, ?_, h.playing, h.goes⟩, ?_, ?_⟩
  · intro i' hfirst hlast j' hj'
    have htop' := cellTop_add hj'
    simp only [HORIZONTAL_SIZE] at hlast
    exact (h.board i' hfirst hlast j' hj').kept (by omega) (by omega) hkept (by omega)
  · exact h.loaded.congr fun a hout => hkept a fun hin => hout (inFrame_of_region hin)
  · intro j' hj' hdone haway
    have htop' := cellTop_add hj'
    have hother : done j' := hdone.resolve_left fun hsame => haway (.inr (.inr (hsame ▸ hlowest)))
    have hshown := h.column j' hj' hother haway
    unfold GameData.Occupies at haway
    exact hshown.kept (by omega) (by omega) hkept (by omega)
  · intro j' hdone hlowest' col hcol row hrow hpos c hc
    have hvisible : image.Visible 0 y col row := ⟨⟨hcol, hrow⟩, by rw [hzero, hy]; omega⟩
    have hpixel := paintImg_visible h.loaded (by decide) hy' hvisible hc
    rw [hzero, hy, Nat.zero_add, Nat.min_eq_left (by omega)] at hpixel
    exact hpixel

/-- The column, up to the end or to an obstacle that the character has run into. -/
theorem ColumnDrawn.drawColumn (h : ColumnDrawn img image m g done) (hcells : g.InCells)
    (hfits : image.FitsCells) {js : List Nat} (hjs : ∀ j ∈ js, j < VERTICAL_SIZE) :
    (g.drawColumn js).Does (GameEvent.effect img console) m fun drawn m' =>
      (drawn.1 = true ∧ drawn.2 = { g with isGameOver := true } ∧
        ∃ j ∈ js, g.Occupies j ∧ g.obstacle 0 j = .OBSTACLE) ∨
      (drawn.1 = false ∧ drawn.2 = g ∧ (∀ j ∈ js, g.Occupies j → g.obstacle 0 j = .EMPTY) ∧
        ColumnDrawn img image m' g fun j => j ∈ js ∨ done j) := by
  induction js generalizing m done with
  | nil =>
    refine .pure (.inr ⟨rfl, rfl, fun _ hj => absurd hj List.not_mem_nil, h.toDrawn, ?_, ?_⟩)
    · intro j hj hdone
      exact h.column j hj (hdone.resolve_left List.not_mem_nil)
    · intro j hdone
      exact h.character j (hdone.resolve_left List.not_mem_nil)
  | cons j js ih =>
    have hrest : ∀ j ∈ js, j < VERTICAL_SIZE := fun j hj => hjs j (List.mem_cons_of_mem _ hj)
    have hj := hjs j List.mem_cons_self
    have hpassed : ∀ n, n ∈ j :: js ∨ done n → n ∈ js ∨ n = j ∨ done n := by
      intro n hdone
      rcases hdone with hn | hn
      · rcases List.mem_cons.mp hn with heq | hn
        · exact .inr (.inl heq)
        · exact .inl hn
      · exact .inr (.inr hn)
    -- what is drawn after this cell
    have hnext : ∀ m', ColumnDrawn img image m' g (fun n => n = j ∨ done n) →
        (g.Occupies j → g.obstacle 0 j = .EMPTY) →
        (g.drawColumn js).Does (GameEvent.effect img console) m' fun drawn m' =>
          (drawn.1 = true ∧ drawn.2 = { g with isGameOver := true } ∧
            ∃ n ∈ j :: js, g.Occupies n ∧ g.obstacle 0 n = .OBSTACLE) ∨
          (drawn.1 = false ∧ drawn.2 = g ∧
            (∀ n ∈ j :: js, g.Occupies n → g.obstacle 0 n = .EMPTY) ∧
            ColumnDrawn img image m' g fun n => n ∈ j :: js ∨ done n) := by
      intro m' h' hempty
      apply (ih h' hrest).mono
      intro drawn m'' hdrawn
      rcases hdrawn with ⟨hover, hdata, n, hn, hhit⟩ | ⟨hgoes, hdata, hfree, hdrawn⟩
      · exact .inl ⟨hover, hdata, n, List.mem_cons_of_mem _ hn, hhit⟩
      · refine .inr ⟨hgoes, hdata, ?_, hdrawn.toDrawn, ?_, ?_⟩
        · intro n hn
          rcases List.mem_cons.mp hn with rfl | hn
          · exact hempty
          · exact hfree n hn
        · intro n hn hdone
          exact hdrawn.column n hn (hpassed n hdone)
        · intro n hdone
          exact hdrawn.character n (hpassed n hdone)
    unfold GameData.drawColumn
    split
    · next hoccupies =>
      split
      · next hobstacle =>
        apply (gameOver_does m g).bind
        intro g' m' hg'
        exact .pure (.inl ⟨rfl, hg', j, List.mem_cons_self, hoccupies, hobstacle⟩)
      · next hfree =>
        have hempty : g.obstacle 0 j = .EMPTY := Space.eq_empty hfree
        apply Does.bind (Q := fun _ m' => ColumnDrawn img image m' g fun n => n = j ∨ done n)
        · apply Does.onlyIf
          · intro hlowest
            exact h.paintImg hcells hfits hlowest
          · intro hnot
            refine ⟨h.toDrawn, ?_, ?_⟩
            · intro n hn hdone haway
              refine h.column n hn (hdone.resolve_left ?_) haway
              rintro rfl
              exact haway hoccupies
            · intro n hdone hlowest
              refine h.character n (hdone.resolve_left ?_) hlowest
              rintro rfl
              exact hnot hlowest
        · intro _ m' h'
          exact hnext m' h' fun _ => hempty
    · next haway =>
      apply (h.paintColumn hcells hfits hj haway).bind
      intro _ m' h'
      exact hnext m' h' fun hoccupies => absurd hoccupies haway

/-! ### `update` -/

variable {clock : Nat → UInt64} {s s' : Game} {inbox : List Int64}

/-- Only the obstacles count. -/
theorem Drawn.congr (h : Drawn img image m g) (hobstacle : g'.obstacle = g.obstacle)
    (hstate : g'.gameState = g.gameState) (hover : g'.isGameOver = g.isGameOver) :
    Drawn img image m g' := by
  refine ⟨?_, h.loaded, hstate.trans h.playing, hover.trans h.goes⟩
  unfold BoardShown
  rw [hobstacle]
  exact h.board

/-- Without a message for the menu, the messages change nothing. -/
theorem isPlayerJumping_data (hinbox : ∀ msg ∈ inbox, msg ≠ 2) :
    (g.isPlayerJumping inbox).2 = g := by
  unfold GameData.isPlayerJumping
  apply List.foldlRecOn (motive := fun p : Bool × GameData => p.2 = g) inbox _ rfl
  intro p h msg hmsg
  dsimp only
  rw [if_neg (hinbox msg hmsg)]
  exact h

theorem Drawn.beforeFlight (h : Drawn img image m s.data) (clock : Nat → UInt64)
    (hinbox : ∀ msg ∈ inbox, msg ≠ 2) :
    Drawn img image m (s.beforeFlight clock inbox).data := by
  have htakeOff : Drawn img image m (s.data.takeOff (clock s.reads)) := by
    unfold GameData.takeOff
    split
    · exact h.congr rfl rfl rfl
    · exact h
  unfold Game.beforeFlight
  dsimp only
  rw [isPlayerJumping_data hinbox]
  split
  · unfold Game.jump
    dsimp only
    split_ifs
    · exact htakeOff
    · exact htakeOff
    · exact htakeOff.congr rfl rfl rfl
    · exact htakeOff.congr rfl rfl rfl
  · exact htakeOff

theorem Drawn.fly (h : Drawn img image m g) (updateTime : UInt64) :
    Drawn img image m (g.fly updateTime) := by
  unfold GameData.fly
  dsimp only
  split_ifs <;> exact h.congr rfl rfl rfl

/-- The character has run into an obstacle. -/
def GameData.Hit (g : GameData) : Prop :=
  ∃ j < VERTICAL_SIZE, g.Occupies j ∧ g.obstacle 0 j = .OBSTACLE

/-- What a call of `update` leaves: the end, or the whole picture. -/
inductive Updated (img : Addr) (image : Picture) (m : Memory) (g : GameData) : Prop where
  | ended (hover : g.isGameOver = true) (hhit : g.Hit)
  | shown (hfree : ¬ g.Hit) (hdrawn : Drawn img image m g) (hshown : GameShown m image g)

/-- The whole column. -/
theorem Drawn.drawColumn (h : Drawn img image m g) (hcells : g.InCells)
    (hfits : image.FitsCells) :
    (g.drawColumn (List.range VERTICAL_SIZE)).Does (GameEvent.effect img console) m
      fun drawn m' => Updated img image m' drawn.2 ∧ drawn.1 = drawn.2.isGameOver := by
  have hnone : ColumnDrawn img image m g fun _ => False :=
    ⟨h, fun _ _ hdone => hdone.elim, fun _ hdone => hdone.elim⟩
  apply (hnone.drawColumn hcells hfits fun j hj => List.mem_range.mp hj).mono
  intro drawn m' hdrawn
  rcases hdrawn with ⟨hover, hdata, j, hj, hhit⟩ | ⟨hgoes, hdata, hfree, hdrawn⟩
  · rw [hover, hdata]
    exact ⟨.ended rfl ⟨j, List.mem_range.mp hj, hhit⟩, rfl⟩
  · rw [hgoes, hdata]
    refine ⟨.shown ?_ hdrawn.toDrawn ⟨hdrawn.board, ?_, ?_⟩, h.goes.symm⟩
    · intro hhit
      obtain ⟨j, hj, hoccupies, hobstacle⟩ := hhit
      rw [hfree j (List.mem_range.mpr hj) hoccupies] at hobstacle
      cases hobstacle
    · intro j hj
      exact hdrawn.column j hj (.inl (List.mem_range.mpr hj))
    · obtain ⟨⟨hlow, hmost⟩, -⟩ := hcells
      simp only [VERTICAL_SIZE] at hmost
      apply hdrawn.character (g.posY.toNat - 1) (.inl ?_) (by omega)
      rw [List.mem_range]
      simp only [VERTICAL_SIZE]
      omega

/-- One call of `update`, without the menu. -/
theorem Drawn.update (h : Drawn img image m s.data) (hclock : NonDecreasing clock)
    (hbounds : s.InBounds clock) (hfits : image.FitsCells) (hinbox : ∀ msg ∈ inbox, msg ≠ 2)
    (menu : List Int64) :
    (s.update clock inbox menu).Does (GameEvent.effect img console) m
      fun s' m' => Updated img image m' s'.data := by
  obtain ⟨⟨hcells, -⟩, -⟩ := Game.beforeFlight_spec hclock hbounds inbox
  have hbefore := h.beforeFlight clock hinbox
  unfold Game.update
  dsimp only
  generalize s.beforeFlight clock inbox = s₁ at hcells hbefore ⊢
  have hflown := GameData.fly_inCells hcells (clock s.reads)
  apply (((hbefore.fly (clock s.reads)).updateObstacles (clock s.reads)).keeps
    (GameData.updateObstacles_keeps _ _)).bind
  intro g₁ m₁ h₁
  obtain ⟨hmoved, hsame⟩ := h₁
  apply (hmoved.drawColumn (hsame.inCells hflown) hfits).bind
  intro drawn m₂ h₂
  obtain ⟨hupdated, hover⟩ := h₂
  obtain ⟨isOver, g₂⟩ := drawn
  dsimp only at hupdated hover ⊢
  cases hupdated with
  | ended htrue hhit =>
    rw [if_pos (hover.trans htrue)]
    exact .pure (.ended htrue hhit)
  | shown hfree hdrawn hshown =>
    have hplaying : g₂.gameState ≠ .MENU := by
      rw [hdrawn.playing]
      simp
    rw [if_neg (by rw [hover, hdrawn.goes]; simp), if_neg hplaying]
    exact .pure (.shown hfree (hdrawn.congr rfl rfl rfl)
      ⟨hshown.board, hshown.column, hshown.character⟩)

/-! ### Runs -/

/-- The game and what it has drawn. -/
structure GameOnScreen where
  game : Game
  mem : Memory

/-- `initGame`, which clears the screen, and then `playGame`, as long as the menu is not
    asked for. -/
def display (clock : Nat → UInt64) (img : Addr) (image : Picture)
    (console : Memory → String → Memory) : System GameOnScreen (List Int64) where
  init := fun s => (Game.playing clock).init s.game ∧
    ∃ m, Loaded m img image ∧ s.mem = m.clear
  step := fun s inbox s' => s.game.data.isGameOver = false ∧ (∀ msg ∈ inbox, msg ≠ 2) ∧
    (s.game.update clock inbox []).result = some s'.game ∧
    (s.game.update clock inbox []).trace.foldlM (GameEvent.effect img console) s.mem = some s'.mem

/-- What holds between two calls of `update`. -/
structure DisplayInv (clock : Nat → UInt64) (img : Addr) (image : Picture) (s : GameOnScreen) :
    Prop where
  bounds : s.game.InBounds clock
  drawn : s.game.data.isGameOver = false → Drawn img image s.mem s.game.data

/-- The board of a game that begins is empty, and so is the screen. -/
theorem drawn_init {s : GameOnScreen} (h : (display clock img image console).init s) :
    Drawn img image s.mem s.game.data := by
  obtain ⟨⟨s₀, mqFDMusicSend, mqFDInputReceiverSend, hgame⟩, m, hloaded, hmem⟩ := h
  rw [hgame, hmem]
  refine ⟨?_, ?_, rfl, rfl⟩
  · intro i hfirst hlast j hj col row hcol hcol' hrow hrow' k hk
    have htop := cellTop_add hj
    simp only [HORIZONTAL_SIZE] at hlast
    have hframe : InFrame (pixelByte col row k) :=
      (inFrame_pixelByte (by omega) (by omega) (by omega)).mpr (by omega)
    exact (m.clear_paints.painted _ hframe).trans (hexToBGR_black k).symm
  · exact hloaded.congr fun a hout => m.clear_paints.kept a hout

theorem DisplayInv.does {s : GameOnScreen} (h : DisplayInv clock img image s)
    (console : Memory → String → Memory) (hclock : NonDecreasing clock) (hfits : image.FitsCells)
    (hgoes : s.game.data.isGameOver = false) (hinbox : ∀ msg ∈ inbox, msg ≠ 2) :
    (s.game.update clock inbox []).Does (GameEvent.effect img console) s.mem
      fun s' m' => Updated img image m' s'.data ∧ s'.InBounds clock :=
  ((h.drawn hgoes).update hclock h.bounds hfits hinbox []).keeps
    (Game.update_keeps hclock h.bounds inbox [])

/-- A step is what `update` does. -/
theorem DisplayInv.step {s s' : GameOnScreen} (h : DisplayInv clock img image s)
    (hclock : NonDecreasing clock) (hfits : image.FitsCells)
    (hstep : (display clock img image console).step s inbox s') :
    Updated img image s'.mem s'.game.data ∧ s'.game.InBounds clock := by
  obtain ⟨hgoes, hinbox, hresult, htrace⟩ := hstep
  obtain ⟨game, mem, hresult', htrace', hupdated⟩ :=
    h.does console hclock hfits hgoes hinbox
  obtain rfl := Option.some.inj (hresult.symm.trans hresult')
  obtain rfl := Option.some.inj (htrace.symm.trans htrace')
  exact hupdated

theorem displayInv_reachable (hclock : NonDecreasing clock) (hfits : image.FitsCells)
    {s : GameOnScreen} (h : (display clock img image console).Reachable s) :
    DisplayInv clock img image s := by
  apply h.invariant (DisplayInv clock img image)
  · intro s hinit
    refine ⟨?_, fun _ => drawn_init hinit⟩
    obtain ⟨⟨s₀, mqFDMusicSend, mqFDInputReceiverSend, hgame⟩, -⟩ := hinit
    rw [hgame]
    exact Game.initGame_inBounds hclock s₀ _ _
  · intro s inbox s' hinv hstep
    obtain ⟨hupdated, hbounds⟩ := hinv.step hclock hfits hstep
    refine ⟨hbounds, ?_⟩
    intro hgoes
    cases hupdated with
    | ended hover _ =>
      rw [hgoes] at hover
      cases hover
    | shown _ hdrawn _ => exact hdrawn

/-- **What is on the screen is the state of the game.**  In every run, as long as nobody asks
    for the menu, whatever messages arrive and however the clock goes on: each call of
    `update` returns, and the game is over if and only if the character has run into an
    obstacle; otherwise every cell shows whether there is an obstacle, and the image is in
    the cells of the character, although only what has changed is painted. -/
theorem game_shown (hclock : NonDecreasing clock) (hfits : image.FitsCells) {s : GameOnScreen}
    (h : (display clock img image console).Reachable s)
    (hgoes : s.game.data.isGameOver = false) (hinbox : ∀ msg ∈ inbox, msg ≠ 2) :
    (∃ s', (display clock img image console).step s inbox s') ∧
    ∀ s', (display clock img image console).step s inbox s' →
      (s'.game.data.isGameOver = true ↔ s'.game.data.Hit) ∧
      (s'.game.data.isGameOver = false → GameShown s'.mem image s'.game.data) := by
  have hinv := displayInv_reachable hclock hfits h
  constructor
  · obtain ⟨game, mem, hresult, htrace, -⟩ :=
      hinv.does console hclock hfits hgoes hinbox
    exact ⟨⟨game, mem⟩, hgoes, hinbox, hresult, htrace⟩
  · intro s' hstep
    obtain ⟨hupdated, -⟩ := hinv.step hclock hfits hstep
    cases hupdated with
    | ended hover hhit => simp [hover, hhit]
    | shown hfree hdrawn hshown => simp [hdrawn.goes, hfree, hshown]

/-- The space bar, at the beginning. -/
theorem game_shown_jump : ∃ (clock : Nat → UInt64) (image : Picture) (s s' : GameOnScreen),
    (display clock 0x600000 image fun m _ => m).Reachable s ∧
    (display clock 0x600000 image fun m _ => m).step s [1] s' ∧
    (s'.game.data.isGameOver = true ↔ s'.game.data.Hit) ∧
    (s'.game.data.isGameOver = false → GameShown s'.mem image s'.game.data) := by
  have hclock : NonDecreasing fun _ => 0 := fun _ => UInt64.le_refl 0
  obtain ⟨image, hwidth, hheight⟩ : ∃ image : Picture, image.width = 141 ∧ image.height = 150 :=
    ⟨⟨141, 150, fun _ => 0⟩, rfl, rfl⟩
  have hfits : image.FitsCells := by
    constructor
    · rw [hwidth]
      exact Nat.le_of_lt_succ (by decide)
    · rw [hheight]
      exact Nat.le_refl 150
  have hlength : (imageWriter image).length = 16 + 150 * 141 * 3 := by
    rw [length_imageWriter, hwidth, hheight]
    rfl
  obtain ⟨m, hloaded⟩ : ∃ m, Loaded m 0x600000 image := by
    refine ⟨_, loaded_imageAt ?_⟩
    rw [hlength]
    decide
  let g : GameData :=
    ⟨.PLAYING, .GROUND, false, 0, 0, 0, 0, 0, fun _ _ => .EMPTY, false, 0, 0⟩
  obtain ⟨m', hclear⟩ : ∃ m', m' = m.clear := ⟨_, rfl⟩
  obtain ⟨s, hgame, hmem⟩ : ∃ s : GameOnScreen,
      s.game = Game.initGame (fun _ => 0) ⟨g, 0⟩ 1 2 ∧ s.mem = m' := ⟨⟨_, _⟩, rfl, rfl⟩
  have hreach : (display (fun _ => 0) 0x600000 image fun m _ => m).Reachable s :=
    .init ⟨⟨_, _, _, hgame⟩, m, hloaded, hmem.trans hclear⟩
  have hgoes : s.game.data.isGameOver = false := by
    rw [hgame]
    rfl
  have hinbox : ∀ msg ∈ [(1 : Int64)], msg ≠ 2 := by
    intro msg hmsg
    rw [List.mem_singleton.mp hmsg]
    decide
  obtain ⟨⟨s', hstep⟩, hshown⟩ := game_shown hclock hfits hreach hgoes hinbox
  exact ⟨fun _ => 0, image, s, s', hreach, hstep, hshown s' hstep⟩

end TP2Kernel
