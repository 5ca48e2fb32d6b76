import TP2Kernel.Userland.Game

/-! # Jumps stay in the picture

    The force of a jump is at most nine, also when it grows in the air, and the height at
    most one more.  A jump never begins after the next reading of the clock, so the time
    since its beginning does not wrap; in the menu its beginning is moved on by no more than
    the clock itself.
-/

namespace TP2Kernel

open Recorded Transition

/-- The character, which is three cells tall, is in the picture. -/
structure GameData.InCells (g : GameData) : Prop where
  posY : 1 ≤ g.posY ∧ g.posY ≤ (VERTICAL_SIZE : Int) - 2
  jumpForce : 0 ≤ g.jumpForce ∧ g.jumpForce ≤ (VERTICAL_SIZE : Int) - 3

/-- Nothing about the jump is changed. -/
structure GameData.SameJump (g g' : GameData) : Prop where
  posY : g'.posY = g.posY
  jumpForce : g'.jumpForce = g.jumpForce
  jumpStartTime : g'.jumpStartTime = g.jumpStartTime

/-- Rectangles are drawn inside of the screen, and images at a place that is on it. -/
def GameEvent.OnScreen : GameEvent → Prop
  | .paintRect rekt =>
    rekt.x.toNat + rekt.width.toNat < 1024 ∧ rekt.y.toNat + rekt.height.toNat < 768
  | .paintImg x y => (0 ≤ x ∧ x < 1024) ∧ 0 ≤ y ∧ y < 768
  | _ => True

/-- What holds after each call of `update`. -/
structure Game.InBounds (clock : Nat → UInt64) (s : Game) : Prop where
  inCells : s.data.InCells
  jumpStartTime : s.data.jumpStartTime ≤ clock s.reads

/-- The clock never goes back. -/
def NonDecreasing (clock : Nat → UInt64) : Prop := ∀ {i j}, i ≤ j → clock i ≤ clock j

variable {clock : Nat → UInt64} {s s' : Game} {g g' : GameData} {updateTime : UInt64}
  {inbox menu : List Int64}

namespace GameData

theorem SameJump.refl (g : GameData) : g.SameJump g := ⟨rfl, rfl, rfl⟩

theorem SameJump.trans {g'' : GameData} (h : g.SameJump g') (h' : g'.SameJump g'') :
    g.SameJump g'' :=
  ⟨h'.posY.trans h.posY, h'.jumpForce.trans h.jumpForce, h'.jumpStartTime.trans h.jumpStartTime⟩

theorem SameJump.inCells (h : g.SameJump g') (hg : g.InCells) : g'.InCells := by
  obtain ⟨hpos, hforce⟩ := hg
  rw [← h.posY] at hpos
  rw [← h.jumpForce] at hforce
  exact ⟨hpos, hforce⟩

/-! ### The jump -/

theorem takeOff_sameJump (g : GameData) (updateTime : UInt64) :
    g.SameJump (g.takeOff updateTime) := by
  unfold takeOff
  split
  · exact ⟨rfl, rfl, rfl⟩
  · exact .refl g

/-- The messages change the state of the game alone. -/
theorem isPlayerJumping_sameJump (g : GameData) (inbox : List Int64) :
    g.SameJump (g.isPlayerJumping inbox).2 := by
  unfold isPlayerJumping
  refine List.foldlRecOn (motive := fun p : Bool × GameData => g.SameJump p.2) inbox _ (.refl g) ?_
  rintro ⟨isJumping, g'⟩ h msg -
  dsimp only at h ⊢
  split
  · exact ⟨h.posY, h.jumpForce, h.jumpStartTime⟩
  · exact h

/-- In the air the height is at most the force and one, on the way up and on the way down. -/
theorem fly_inCells (h : g.InCells) (updateTime : UInt64) : (g.fly updateTime).InCells := by
  obtain ⟨⟨hlow, hhigh⟩, hweak, hstrong⟩ := h
  simp only [VERTICAL_SIZE] at hhigh hstrong
  unfold fly
  split
  · dsimp only
    split
    · split_ifs <;> constructor <;> simp only [VERTICAL_SIZE] at * <;> omega
    · exact ⟨⟨hlow, hhigh⟩, hweak, hstrong⟩
  · exact ⟨⟨hlow, hhigh⟩, hweak, hstrong⟩

theorem fly_jumpStartTime (g : GameData) (updateTime : UInt64) :
    (g.fly updateTime).jumpStartTime = g.jumpStartTime := by
  unfold fly
  dsimp only
  split_ifs <;> rfl

end GameData

namespace Game

theorem jump_inCells (h : s.data.InCells) : (s.jump clock).data.InCells := by
  obtain ⟨hpos, hweak, hstrong⟩ := h
  simp only [VERTICAL_SIZE] at hpos hstrong
  unfold jump
  dsimp only
  split_ifs with hfalling hforce
  · exact ⟨hpos, hweak, hstrong⟩
  · exact ⟨hpos, hweak, hstrong⟩
  · have hforce : 0 ≤ JUMP_MIN_FORCE ∧ JUMP_MIN_FORCE ≤ (VERTICAL_SIZE : Int) - 3 := by decide
    exact ⟨hpos, hforce⟩
  · simp only [VERTICAL_SIZE] at hforce
    constructor <;> simp only [VERTICAL_SIZE] <;> omega

/-- Either the jump that there is goes on, or one begins now, on the ground. -/
theorem jump_cases (clock : Nat → UInt64) (s : Game) :
    ((s.jump clock).data.jumpStartTime = s.data.jumpStartTime ∧ (s.jump clock).reads = s.reads) ∨
    ((s.jump clock).data.state = .JUMPING ∧
      (s.jump clock).data.jumpStartTime = clock s.reads ∧ (s.jump clock).reads = s.reads + 1) := by
  unfold jump
  dsimp only
  split_ifs
  · exact .inl ⟨rfl, rfl⟩
  · exact .inl ⟨rfl, rfl⟩
  · exact .inr ⟨rfl, rfl, rfl⟩
  · exact .inl ⟨rfl, rfl⟩

/-- The first part of `update`: at most one jump begins, with a later reading of the clock. -/
theorem beforeFlight_spec (hclock : NonDecreasing clock) (h : s.InBounds clock)
    (inbox : List Int64) :
    (s.beforeFlight clock inbox).InBounds clock ∧
    ((s.beforeFlight clock inbox).data.state = .AIR →
      (s.beforeFlight clock inbox).data.jumpStartTime ≤ clock s.reads) := by
  have hsame : s.data.SameJump ((s.data.takeOff (clock s.reads)).isPlayerJumping inbox).2 :=
    (s.data.takeOff_sameJump _).trans (GameData.isPlayerJumping_sameJump _ inbox)
  have hcells := hsame.inCells h.inCells
  have hstart := h.jumpStartTime
  rw [← hsame.jumpStartTime] at hstart
  have hnext : clock s.reads ≤ clock (s.reads + 1) := hclock (Nat.le_succ _)
  unfold beforeFlight
  dsimp only
  generalize ((s.data.takeOff (clock s.reads)).isPlayerJumping inbox).2 = g at hcells hstart ⊢
  split
  · obtain ⟨hsameStart, hreads⟩ | ⟨hjumping, hnow, hreads⟩ := jump_cases clock ⟨g, s.reads + 1⟩
    · refine ⟨⟨jump_inCells hcells, ?_⟩, fun _ => ?_⟩
      · rw [hsameStart, hreads]
        exact UInt64.le_trans hstart hnext
      · rw [hsameStart]
        exact hstart
    · refine ⟨⟨jump_inCells hcells, ?_⟩, fun hair => ?_⟩
      · rw [hnow, hreads]
        exact hclock (Nat.le_succ _)
      · rw [hjumping] at hair
        cases hair
  · exact ⟨⟨hcells, UInt64.le_trans hstart hnext⟩, fun _ => hstart⟩

end Game

/-! ### What is drawn -/

theorem toNat_ofInt {z : Int} (hlow : 0 ≤ z) (hhigh : z < 2 ^ 64) :
    (UInt64.ofInt z).toNat = z.toNat := by
  rw [UInt64.ofInt, Int.emod_eq_of_lt hlow hhigh, UInt64.toNat_ofNat_of_lt']
  show z.toNat < 2 ^ 64
  omega

theorem paintFullRect_keeps {i j : Int} {width height : UInt64} (color : UInt32)
    (hi : 0 ≤ i ∧ i + width.toNat < 1024) (hj : 0 ≤ j ∧ j + height.toNat < 768) :
    (paintFullRect i j width height color).Keeps GameEvent.OnScreen fun _ => True := by
  refine .forRange (fun k hk _ _ => .emit ?_) trivial
  obtain ⟨hleft, hright⟩ := hi
  obtain ⟨htop, hbottom⟩ := hj
  have hone : (1 : UInt64).toNat = 1 := rfl
  show (UInt64.ofInt (k + i)).toNat + (1 : UInt64).toNat < 1024 ∧
    (UInt64.ofInt j).toNat + height.toNat < 768
  rw [toNat_ofInt (by omega) (by omega), toNat_ofInt (by omega) (by omega), hone]
  omega

theorem gameOver_keeps (g : GameData) : (gameOver g).Keeps GameEvent.OnScreen g.SameJump := by
  unfold gameOver
  refine .bind (.emit trivial) fun _ _ => .bind (.emit trivial) fun _ _ => ?_
  refine .bind (.emit trivial) fun _ _ => .bind (.emit trivial) fun _ _ => ?_
  refine .bind (.emit trivial) fun _ _ => .bind (.emit trivial) fun _ _ => .pure ?_
  exact ⟨rfl, rfl, rfl⟩

namespace GameData

theorem moveCell_keeps {i j : Nat} (hi : i < HORIZONTAL_SIZE) (hj : j < VERTICAL_SIZE)
    (obstacleTicks : Nat) (newObstaclePosY : Int) (g : GameData) :
    (moveCell obstacleTicks newObstaclePosY i j g).Keeps GameEvent.OnScreen g.SameJump := by
  simp only [HORIZONTAL_SIZE] at hi
  simp only [VERTICAL_SIZE] at hj
  have hfifty : (50 : UInt64).toNat = 50 := rfl
  have hpaint : ∀ color, (paintFullRect (i * 50 + 100) (((VERTICAL_SIZE : Int) - j - 1) * 50)
      50 50 color).Keeps GameEvent.OnScreen fun _ => True := by
    intro color
    apply paintFullRect_keeps color <;> simp only [VERTICAL_SIZE, hfifty] <;> omega
  unfold moveCell
  refine .bind (.onlyIf fun _ => hpaint _) fun _ _ => ?_
  refine .bind (.onlyIf fun _ => hpaint _) fun _ _ => .pure ?_
  exact ⟨rfl, rfl, rfl⟩

theorem updateObstacles_keeps (g : GameData) (updateTime : UInt64) :
    (g.updateObstacles updateTime).Keeps GameEvent.OnScreen g.SameJump := by
  unfold updateObstacles
  dsimp only
  split
  · refine .bind (Q := g.SameJump) (.forRange (fun i hi g' hg' => ?_) (.refl g)) fun g' hg' =>
      .pure ⟨hg'.posY, hg'.jumpForce, hg'.jumpStartTime⟩
    exact .forRange (fun j hj g' hg' => (moveCell_keeps hi hj _ _ g').mono fun _ => hg'.trans) hg'
  · exact .pure (.refl g)

theorem drawColumn_keeps (h : g.InCells) {js : List Nat} (hjs : ∀ j ∈ js, j < VERTICAL_SIZE) :
    (g.drawColumn js).Keeps GameEvent.OnScreen fun drawn => g.SameJump drawn.2 := by
  obtain ⟨⟨hlow, hhigh⟩, -⟩ := h
  simp only [VERTICAL_SIZE] at hhigh hjs
  induction js with
  | nil => exact .pure (.refl g)
  | cons j js ih =>
    have hrest := ih fun j hj => hjs j (List.mem_cons_of_mem _ hj)
    have hj := hjs j List.mem_cons_self
    unfold drawColumn
    split
    · split
      · exact (gameOver_keeps g).bind fun g' hg' => .pure hg'
      · refine .bind (.onlyIf fun _ => .emit ?_) fun _ _ => hrest
        show (0 ≤ (0 : Int) ∧ (0 : Int) < 1024) ∧
          0 ≤ ((VERTICAL_SIZE : Int) - (g.posY - 1) - 3) * 50 ∧
          ((VERTICAL_SIZE : Int) - (g.posY - 1) - 3) * 50 < 768
        simp only [VERTICAL_SIZE]
        omega
    · have hwidth : (150 : UInt64).toNat = 150 := rfl
      have hheight : (50 : UInt64).toNat = 50 := rfl
      refine .bind (paintFullRect_keeps _ ?_ ?_) fun _ _ => hrest
      · rw [hwidth]
        omega
      · simp only [VERTICAL_SIZE, hheight]
        omega

theorem menuMessage_keeps (g : GameData) (msg : Int64) :
    (g.menuMessage msg).Keeps GameEvent.OnScreen g.SameJump := by
  unfold menuMessage
  dsimp only
  refine .bind (.onlyIf fun _ => .emit trivial) fun _ _ => ?_
  have hplaying : g.SameJump (if msg = 2 then { g with gameState := .PLAYING } else g) := by
    split
    · exact ⟨rfl, rfl, rfl⟩
    · exact .refl g
  generalize (if msg > 3 then msg - 4 else msg) = msg'
  by_cases hover : msg' = 3
  · rw [if_pos hover]
    exact (gameOver_keeps _).mono fun _ => hplaying.trans
  · rw [if_neg hover]
    exact .pure hplaying

theorem menuLoop_keeps (menu : List Int64) (g : GameData) :
    (g.menuLoop menu).Keeps GameEvent.OnScreen g.SameJump := by
  induction menu generalizing g with
  | nil =>
    unfold menuLoop
    split
    · exact .never
    · exact .pure (.refl g)
  | cons msg menu ih =>
    unfold menuLoop
    split
    · exact (g.menuMessage_keeps msg).bind fun g' hg' => (ih g').mono fun _ => hg'.trans
    · exact .pure (.refl g)

end GameData

/-! ### Runs -/

namespace Game

theorem initGame_inBounds (hclock : NonDecreasing clock) (s : Game)
    (mqFDMusicSend mqFDInputReceiverSend : Int64) :
    (initGame clock s mqFDMusicSend mqFDInputReceiverSend).InBounds clock := by
  refine ⟨⟨?_, ?_⟩, hclock (Nat.le_add_right _ 3)⟩
  · show 1 ≤ (1 : Int) ∧ (1 : Int) ≤ (VERTICAL_SIZE : Int) - 2
    decide
  · show 0 ≤ (4 : Int) ∧ (4 : Int) ≤ (VERTICAL_SIZE : Int) - 3
    decide

/-- The beginning of the jump is moved on by the time in the menu. -/
theorem menu_time_le {start now later : UInt64} (hstart : start ≤ now) (hnow : now ≤ later) :
    later - (now - start) ≤ later := by
  rw [UInt64.le_iff_toNat_le] at *
  rw [UInt64.toNat_sub_of_le later (now - start), UInt64.toNat_sub_of_le now start]
  · omega
  · exact UInt64.le_iff_toNat_le.mpr hstart
  · rw [UInt64.le_iff_toNat_le, UInt64.toNat_sub_of_le now start]
    · omega
    · exact UInt64.le_iff_toNat_le.mpr hstart

theorem menuMode_keeps (hclock : NonDecreasing clock) (h : s.InBounds clock)
    (menu : List Int64) : (s.menuMode clock menu).Keeps GameEvent.OnScreen (InBounds clock) := by
  unfold menuMode
  refine .bind (.emit trivial) fun _ _ => .bind (.emit trivial) fun _ _ => ?_
  refine (s.data.menuLoop_keeps menu).bind fun g hg => ?_
  refine .bind (.emit trivial) fun _ _ => .pure ⟨?_, ?_⟩
  · exact ⟨(hg.inCells h.inCells).posY, (hg.inCells h.inCells).jumpForce⟩
  · exact UInt64.le_trans (menu_time_le h.jumpStartTime (hclock (by omega)))
      (hclock (Nat.le_add_right _ 3))

/-- One call of `update`. -/
theorem update_keeps (hclock : NonDecreasing clock) (h : s.InBounds clock)
    (inbox menu : List Int64) :
    (s.update clock inbox menu).Keeps GameEvent.OnScreen (InBounds clock) := by
  obtain ⟨⟨hcells, hstart⟩, -⟩ := beforeFlight_spec hclock h inbox
  unfold update
  dsimp only
  generalize s.beforeFlight clock inbox = s' at hcells hstart ⊢
  have hflown := GameData.fly_inCells hcells (clock s.reads)
  have hflight : (s'.data.fly (clock s.reads)).jumpStartTime = s'.data.jumpStartTime :=
    GameData.fly_jumpStartTime _ _
  refine (GameData.updateObstacles_keeps _ (clock s.reads)).bind fun g hg => ?_
  have hmoved := hg.inCells hflown
  refine (GameData.drawColumn_keeps hmoved fun j hj => List.mem_range.mp hj).bind ?_
  rintro ⟨isOver, g'⟩ hdrawn
  have hall := hdrawn.inCells hmoved
  have hbounds : InBounds clock ⟨g', s'.reads⟩ := by
    refine ⟨hall, ?_⟩
    rw [hdrawn.jumpStartTime, hg.jumpStartTime, hflight]
    exact hstart
  dsimp only
  split
  · exact .pure hbounds
  · have hshown : InBounds clock ⟨{ g' with lastUpdateTime := clock s.reads }, s'.reads⟩ :=
      ⟨⟨hall.posY, hall.jumpForce⟩, hbounds.jumpStartTime⟩
    split
    · exact menuMode_keeps hclock hshown menu
    · exact .pure hshown

theorem reachable_inBounds (hclock : NonDecreasing clock) (h : (playing clock).Reachable s) :
    s.InBounds clock := by
  refine h.invariant (InBounds clock) ?_ ?_
  · rintro s ⟨s₀, mqFDMusicSend, mqFDInputReceiverSend, rfl⟩
    exact initGame_inBounds hclock s₀ _ _
  · rintro s ⟨inbox, menu⟩ s' hs hstep
    exact (update_keeps hclock hs inbox menu).2 s' hstep

/-- **The player stays in the picture.**  In every run, whatever messages arrive and however
    the clock goes on: the three cells of the character exist, the force of its jump is
    bounded, and so it is when `update` looks for obstacles; the subtraction of times in the
    air does not wrap, and everything is drawn at a place that is on the screen. -/
theorem player_inCells (hclock : NonDecreasing clock) (h : (playing clock).Reachable s)
    (inbox menu : List Int64) :
    s.data.InCells ∧
    (∀ j, s.data.posY - 1 ≤ j → j ≤ s.data.posY + 1 → 0 ≤ j ∧ j < VERTICAL_SIZE) ∧
    ((s.beforeFlight clock inbox).data.state = .AIR →
      (s.beforeFlight clock inbox).data.jumpStartTime ≤ clock s.reads) ∧
    ((s.beforeFlight clock inbox).data.fly (clock s.reads)).InCells ∧
    ∀ e ∈ (s.update clock inbox menu).trace, e.OnScreen := by
  have hbounds := reachable_inBounds hclock h
  obtain ⟨⟨hcells, -⟩, hair⟩ := beforeFlight_spec hclock hbounds inbox
  refine ⟨hbounds.inCells, ?_, hair, GameData.fly_inCells hcells _,
    (update_keeps hclock hbounds inbox menu).1⟩
  intro j hlow hhigh
  obtain ⟨hfirst, hlast⟩ := hbounds.inCells.posY
  omega

/-- A clock that goes on by 120 ms between two calls of `time`, for a minute. -/
def steadyClock (n : Nat) : UInt64 := UInt64.ofNat (120 * min n 500)

theorem steadyClock_nonDecreasing : NonDecreasing steadyClock := by
  intro i j hij
  have hbound : ∀ n, (steadyClock n).toNat = 120 * min n 500 := by
    intro n
    apply UInt64.toNat_ofNat_of_lt'
    show 120 * min n 500 < 2 ^ 64
    omega
  rw [UInt64.le_iff_toNat_le, hbound, hbound]
  omega

theorem paintFullRect_result (i j : Int) (width height : UInt64) (color : UInt32) :
    (paintFullRect i j width height color).result = some () := by
  unfold paintFullRect
  induction width.toNat with
  | zero => rfl
  | succ n ih =>
    rw [forRange, result_bind, ih]
    rfl

/-- Without an obstacle in the first column the game goes on as it is. -/
theorem drawColumn_result (h : ∀ j, g.obstacle 0 j = .EMPTY) (js : List Nat) :
    (g.drawColumn js).result = some (false, g) := by
  induction js with
  | nil => rfl
  | cons j js ih =>
    have hfree : g.obstacle 0 j ≠ .OBSTACLE := by
      rw [h j]
      decide
    unfold GameData.drawColumn
    rw [if_neg hfree]
    split
    · unfold onlyIf
      split
      · exact ih
      · exact ih
    · rw [result_bind, paintFullRect_result]
      exact ih

/-- A call of `update` that meets no obstacle and is not told to open the menu. -/
theorem update_result {s : Game} {inbox menu : List Int64}
    (hmoved : (((s.beforeFlight clock inbox).data.fly (clock s.reads)).updateObstacles
      (clock s.reads)).result = some g)
    (hclear : ∀ j, g.obstacle 0 j = .EMPTY) (hplaying : g.gameState = .PLAYING) :
    (s.update clock inbox menu).result =
      some ⟨{ g with lastUpdateTime := clock s.reads }, (s.beforeFlight clock inbox).reads⟩ := by
  have hmenu : ¬ g.gameState = .MENU := by
    rw [hplaying]
    decide
  unfold update
  dsimp only
  rw [result_bind, hmoved, Option.bind_some, result_bind, drawColumn_result hclear,
    Option.bind_some]
  dsimp only
  rw [if_neg Bool.false_ne_true, if_neg hmenu]
  rfl

/-- A game at the start: the clock has been read three times. -/
def firstGame : Game :=
  initGame steadyClock
    ⟨⟨.PLAYING, .GROUND, false, 0, 0, 0, 0, 0, fun _ _ => .EMPTY, false, 0, 0⟩, 0⟩ 1 2

/-- The character jumps in the first call of `update`, and is one cell higher in the second. -/
theorem player_inCells_jump : ∃ s, (playing steadyClock).Reachable s ∧
    s.data.state = .JUMPING ∧ s.data.jumpForce = JUMP_MIN_FORCE ∧ s.data.InCells ∧
    (s.beforeFlight steadyClock []).data.state = .AIR ∧
    (s.beforeFlight steadyClock []).data.jumpStartTime ≤ steadyClock s.reads ∧
    ((s.beforeFlight steadyClock []).data.fly (steadyClock s.reads)).posY = 2 ∧
    ((s.beforeFlight steadyClock []).data.fly (steadyClock s.reads)).InCells := by
  let g : GameData :=
    { firstGame.data with
      state := .JUMPING
      jumpForce := JUMP_MIN_FORCE
      jumpStartTime := steadyClock 4 }
  let s : Game := ⟨{ g with lastUpdateTime := steadyClock 3 }, 5⟩
  have hstep : (firstGame.update steadyClock [1] []).result = some s :=
    update_result (g := g) rfl (fun _ => rfl) rfl
  have h : (playing steadyClock).Reachable s :=
    .step ([1], []) (.init ⟨_, _, _, rfl⟩) hstep
  obtain ⟨hcells, -, hair, hflown, -⟩ := player_inCells steadyClock_nonDecreasing h [] []
  have hstate : (s.beforeFlight steadyClock []).data.state = .AIR := by decide
  exact ⟨s, h, rfl, rfl, hcells, hstate, hair hstate, by decide, hflown⟩

end Game

end TP2Kernel
