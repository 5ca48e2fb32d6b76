import TP2Kernel.Memory.Bytes

/-! # The song player (`Userland/c/songplayer.c`)

    `playSong` walks through a module of songs in memory and plays one of them, over and
    over, until a message arrives.
-/

namespace TP2Kernel

/-- What a song player asks the kernel for. -/
inductive PlayEvent where
  | SPEAKER (freq : UInt64)
  | sleep_sys (timeR : UInt32)
  deriving DecidableEq

/-- `(int32_t) *songData`, where `songData` points to characters. -/
def charAt (m : Memory) (songData : Addr) : Int32 := (m songData).toInt8.toInt32

/-- A call of `playSong`, so far: the result, when it has returned, whether it set `isEnd`,
    and the calls it made. -/
structure Play where
  isEnd : Bool
  result : Option Int
  events : List PlayEvent
  deriving DecidableEq

/-- The loop that skips the songs before the one to play. -/
def skipSongs (m : Memory) (songData : Addr) : Nat → Addr
  | 0 => songData
  | i + 1 =>
    let n := charAt m songData
    let songData := songData + 4
    skipSongs m (songData + (8 * n).toInt64.toUInt64) i

/-- The inner loop, for `n` notes.  The queue is found empty `polls` times; after that a
    message is there and `playSong` returns.  The second component is what is left of
    `polls`, or `none` when it returned. -/
def playNotes (m : Memory) (songData : Addr) : Nat → Nat → List PlayEvent × Option Nat
  | 0, polls => ([], some polls)
  | _ + 1, 0 => ([], none)
  | n + 1, polls + 1 =>
    let freq := (m.readUInt32 songData).toUInt16
    let songData := songData + 4
    let timeR := m.readUInt32 songData
    let songData := songData + 4
    let (events, left) := playNotes m songData n polls
    (.SPEAKER freq.toUInt64 :: .sleep_sys timeR :: events, left)

/-- The loop `while(1)`, for that many rounds. -/
def playRounds (m : Memory) (songData : Addr) (n : Int32) : Nat → Nat → Option Int × List PlayEvent
  | 0, _ => (none, [])
  | rounds + 1, polls =>
    match playNotes m songData n.toInt.toNat polls with
    | (events, none) => (some 0, events)
    | (events, some polls) =>
      let (result, rest) := playRounds m songData n rounds polls
      (result, events ++ .SPEAKER 0 :: rest)

/-- `songData` is the module that `OPENDATAMODULE` yields. -/
def playSong (m : Memory) (songData : Addr) (songNum : Int32) (rounds polls : Nat) : Play :=
  let songMaxNum := charAt m songData
  let songData := songData + 4
  if songNum = -1 then ⟨true, some 0, []⟩
  else if songNum > songMaxNum ∨ songNum < 0 then ⟨false, some (-1), []⟩
  else if songNum = 0 then ⟨false, some 0, [.SPEAKER 0]⟩
  else
    let songNum := songNum - 1
    let songData := skipSongs m songData songNum.toInt.toNat
    let n := charAt m songData
    let songData := songData + 4
    let (result, events) := playRounds m songData n rounds polls
    ⟨false, result, events⟩

end TP2Kernel
