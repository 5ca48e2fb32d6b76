import TP2Kernel.Framework.Recorded
import TP2Kernel.Framework.Transition
import TP2Kernel.Video.Graphics

/-! # The game (`Userland/c/game.c`)

    The clock, and the messages of the input receiver, come from outside.  A state knows how
    often the clock has been read; the messages that arrive are given with each call of
    `update`.  A call in the menu that has used up its messages waits for the next one.

    Heights are integers: the only large number among them is the time since a jump began,
    which is at most `2 ^ 64 / GAME_TICK`.
-/

namespace TP2Kernel

open Recorded Transition

def HORIZONTAL_SIZE : Nat := 17

def VERTICAL_SIZE : Nat := 12

def GAME_TICK : UInt64 := 100

def JUMP_LAG : UInt64 := 0

def OBSTACLE_LAG_MULTIPLIER : UInt64 := 2

def NO_OBSTACLE_MULTIPLIER : UInt64 := 5

def GAME_OVER_LAG : Nat := 4000

def JUMP_MIN_FORCE : Int := 3

inductive CharacterState where
  | GROUND
  | JUMPING
  | AIR
  deriving DecidableEq

inductive GameState where
  | PLAYING
  | MENU
  deriving DecidableEq

inductive Space where
  | EMPTY
  | OBSTACLE
  deriving DecidableEq

/-- `gameData_t`.  `posY` is the position of the center of the character. -/
structure GameData where
  gameState : GameState
  state : CharacterState
  falling : Bool
  jumpForce : Int
  jumpStartTime : UInt64
  lastObstacleUpdate : UInt64
  lastUpdateTime : UInt64
  posY : Int
  obstacle : Nat → Nat → Space
  isGameOver : Bool
  mqFDMusicSend : Int64
  mqFDInputReceiverSend : Int64

/-- What the game asks the system for. -/
inductive GameEvent where
  | paintRect (rekt : REKTangle)
  | paintImg (x y : Int)
  | clearScreen
  | print (text : String)
  | MQsend (mqFD msg : Int64)
  | sleep_sys (milliseconds : Nat)

/-- `time()` has been called `reads` times. -/
structure Game where
  data : GameData
  reads : Nat

/-- `paintFullRect`, one column of pixels at a time. -/
def paintFullRect (i j : Int) (width height : UInt64) (color : UInt32) :
    Recorded GameEvent Unit :=
  forRange (fun k _ => emit (.paintRect ⟨UInt64.ofInt (k + i), UInt64.ofInt j, 1, height, color⟩))
    width.toNat ()

def gameOver (g : GameData) : Recorded GameEvent GameData := do
  emit (.MQsend g.mqFDMusicSend 3)
  emit .clearScreen
  emit (.print "\n\n\n Game Over \n")
  emit (.sleep_sys GAME_OVER_LAG)
  emit (.MQsend g.mqFDMusicSend (-1))
  emit (.MQsend g.mqFDInputReceiverSend 0)
  pure { g with isGameOver := true }

namespace GameData

/-- The messages that have arrived: a jump, and the menu. -/
def isPlayerJumping (g : GameData) (inbox : List Int64) : Bool × GameData :=
  inbox.foldl (fun (isJumping, g) (msg : Int64) =>
    (if msg = 1 then true else isJumping,
      if msg = 2 then { g with gameState := .MENU } else g)) (false, g)

/-- The first part of the character update. -/
def takeOff (g : GameData) (updateTime : UInt64) : GameData :=
  if g.state = .JUMPING ∧ g.jumpStartTime + JUMP_LAG < updateTime then { g with state := .AIR }
  else g

/-- The last part: a character in the air goes up for as long as its force, and falls. -/
def fly (g : GameData) (updateTime : UInt64) : GameData :=
  if g.state = .AIR then
    let timeFromJump := updateTime - (g.jumpStartTime + JUMP_LAG)
    let gameTicksFromJump : Int := (timeFromJump / GAME_TICK).toNat
    if gameTicksFromJump > 0 then
      let g :=
        if gameTicksFromJump ≤ g.jumpForce then { g with posY := 1 + gameTicksFromJump }
        else if 1 + 2 * g.jumpForce < gameTicksFromJump then { g with posY := 1 }
        else { g with falling := true, posY := 1 + 2 * g.jumpForce - gameTicksFromJump }
      let g :=
        if g.posY > (VERTICAL_SIZE : Int) - 3 then { g with posY := (VERTICAL_SIZE : Int) - 2 }
        else g
      if g.posY ≤ 1 then { g with falling := false, posY := 1, state := .GROUND, jumpForce := 0 }
      else g
    else g
  else g

/-- One cell of the obstacles, which move to the left. -/
def moveCell (obstacleTicks : Nat) (newObstaclePosY : Int) (i j : Nat) (g : GameData) :
    Recorded GameEvent GameData := do
  let oldI := i + obstacleTicks
  let newState :=
    if oldI ≥ HORIZONTAL_SIZE then
      if (j : Int) = newObstaclePosY then .OBSTACLE else .EMPTY
    else g.obstacle oldI j
  onlyIf (i ≠ 0 ∧ newState = .OBSTACLE ∧ g.obstacle i j = .EMPTY)
    (paintFullRect (i * 50 + 100) (((VERTICAL_SIZE : Int) - j - 1) * 50) 50 50 0xFF0000)
  onlyIf (i ≠ 0 ∧ newState = .EMPTY ∧ g.obstacle i j = .OBSTACLE)
    (paintFullRect (i * 50 + 100) (((VERTICAL_SIZE : Int) - j - 1) * 50) 50 50 0x000000)
  let column := Function.update (g.obstacle i) j newState
  pure { g with obstacle := Function.update g.obstacle i column }

/-- The obstacle update. -/
def updateObstacles (g : GameData) (updateTime : UInt64) : Recorded GameEvent GameData :=
  let obstacleTicks :=
    ((updateTime - g.lastObstacleUpdate) / (GAME_TICK * OBSTACLE_LAG_MULTIPLIER)).toNat %
      HORIZONTAL_SIZE
  if obstacleTicks > 0 ∧ obstacleTicks < HORIZONTAL_SIZE then
    let place : Int := ((updateTime / 13 * 7919) %
      (UInt64.ofNat (VERTICAL_SIZE - 2) * NO_OBSTACLE_MULTIPLIER)).toNat
    let newObstaclePosY := if place ≥ (VERTICAL_SIZE : Int) - 2 then -1 else place
    forRange (fun i => forRange (fun j => moveCell obstacleTicks newObstaclePosY i j) VERTICAL_SIZE)
      HORIZONTAL_SIZE g >>= fun g =>
    pure { g with lastObstacleUpdate := updateTime }
  else pure g

/-- The character and the column of cells it is in.  The result says whether it has run
    into an obstacle. -/
def drawColumn (g : GameData) : List Nat → Recorded GameEvent (Bool × GameData)
  | [] => pure (false, g)
  | j :: js =>
    if (j : Int) = g.posY ∨ (j : Int) = g.posY + 1 ∨ (j : Int) = g.posY - 1 then
      if g.obstacle 0 j = .OBSTACLE then gameOver g >>= fun g => pure (true, g)
      else
        onlyIf ((j : Int) = g.posY - 1)
          (emit (.paintImg 0 (((VERTICAL_SIZE : Int) - (g.posY - 1) - 3) * 50))) >>= fun _ =>
        drawColumn g js
    else
      paintFullRect 0 (((VERTICAL_SIZE : Int) - j - 1) * 50) 150 50
        (if g.obstacle 0 j = .OBSTACLE then 0xFF0000 else 0x000000) >>= fun _ =>
      drawColumn g js

/-- A message in the menu: back to the game, another song, or the end. -/
def menuMessage (g : GameData) (msg : Int64) : Recorded GameEvent GameData := do
  let g := if msg = 2 then { g with gameState := .PLAYING } else g
  onlyIf (msg > 3) (emit (.MQsend g.mqFDMusicSend (msg - 4)))
  let msg := if msg > 3 then msg - 4 else msg
  if msg = 3 then gameOver g else pure g

def menuLoop : List Int64 → GameData → Recorded GameEvent GameData
  | [], g => if g.gameState = .MENU ∧ g.isGameOver = false then never else pure g
  | msg :: menu, g =>
    if g.gameState = .MENU ∧ g.isGameOver = false then g.menuMessage msg >>= menuLoop menu
    else pure g

end GameData

namespace Game

section

variable (clock : Nat → UInt64)

/-- `initGame`, with the queues it has opened. -/
def initGame (s : Game) (mqFDMusicSend mqFDInputReceiverSend : Int64) : Game :=
  { data :=
      { falling := false
        gameState := .PLAYING
        state := .GROUND
        jumpForce := 4
        jumpStartTime := clock s.reads
        lastUpdateTime := clock (s.reads + 1)
        lastObstacleUpdate := clock (s.reads + 2)
        posY := 1
        obstacle := fun _ _ => .EMPTY
        isGameOver := false
        mqFDMusicSend := mqFDMusicSend
        mqFDInputReceiverSend := mqFDInputReceiverSend }
    reads := s.reads + 3 }

def jump (s : Game) : Game :=
  if s.data.falling then s
  else if s.data.jumpForce ≥ (VERTICAL_SIZE : Int) - 3 then s
  else
    let g := { s.data with jumpForce := s.data.jumpForce + 1 }
    if g.state = .GROUND then
      { data :=
          { g with
            falling := false
            jumpForce := JUMP_MIN_FORCE
            state := .JUMPING
            jumpStartTime := clock s.reads }
        reads := s.reads + 1 }
    else { s with data := g }

/-- `update`, up to the question whether the character is in the air. -/
def beforeFlight (s : Game) (inbox : List Int64) : Game :=
  let updateTime := clock s.reads
  let received := (s.data.takeOff updateTime).isPlayerJumping inbox
  let s : Game := ⟨received.2, s.reads + 1⟩
  if received.1 then s.jump clock else s

/-- The menu: afterwards the clocks go on as if there had been no time in between. -/
def menuMode (s : Game) (menu : List Int64) : Recorded GameEvent Game := do
  let jumpStartTimeDiff := clock s.reads - s.data.jumpStartTime
  let lastObstacleUpdateDiff := clock (s.reads + 1) - s.data.lastObstacleUpdate
  emit .clearScreen
  emit (.print ("\n\n\n\n\n                   Menu\n\n" ++
    "      Press a number to change songs\n            Press 'e' to exit\n"))
  let g ← s.data.menuLoop menu
  emit .clearScreen
  pure
    { data :=
        { g with
          jumpStartTime := clock (s.reads + 2) - jumpStartTimeDiff
          lastUpdateTime := clock (s.reads + 3)
          lastObstacleUpdate := clock (s.reads + 4) - lastObstacleUpdateDiff }
      reads := s.reads + 5 }

/-- `update`, with the messages that have arrived and those that arrive in the menu. -/
def update (s : Game) (inbox menu : List Int64) : Recorded GameEvent Game := do
  let updateTime := clock s.reads
  let s := s.beforeFlight clock inbox
  let g ← (s.data.fly updateTime).updateObstacles updateTime
  let (isOver, g) ← g.drawColumn (List.range VERTICAL_SIZE)
  if isOver then pure { s with data := g }
  else
    let s := { s with data := { g with lastUpdateTime := updateTime } }
    if s.data.gameState = .MENU then s.menuMode clock menu else pure s

/-- From `initGame` on, `update` is called over and over. -/
def playing : System Game (List Int64 × List Int64) where
  init := fun s => ∃ s₀ mqFDMusicSend mqFDInputReceiverSend,
    s = initGame clock s₀ mqFDMusicSend mqFDInputReceiverSend
  step := fun s messages s' => (s.update clock messages.1 messages.2).result = some s'

end

end Game

end TP2Kernel
