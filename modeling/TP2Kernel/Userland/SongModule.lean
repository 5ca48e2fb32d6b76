import Mathlib.Data.List.Basic
import TP2Kernel.Userland.SongPlayer

/-! # Modules of songs (`Userland/Songmaker/songmaker.c`)

    A module is the number of its songs and the songs one after another; a song is the number
    of its notes and the notes.  All numbers are words of 32 bits, the lowest byte first.  The
    player reads the two counts as characters: it takes the lowest byte, and its sign.
-/

namespace TP2Kernel

/-! ### The writer -/

structure Note where
  freq : UInt32
  duration : UInt32
  deriving DecidableEq

def encodeNote (note : Note) : List UInt8 := encodeWord note.freq ++ encodeWord note.duration

def encodeSong (song : List Note) : List UInt8 :=
  encodeWord (UInt32.ofNat song.length) ++ song.flatMap encodeNote

def encodeModule (songs : List (List Note)) : List UInt8 :=
  encodeWord (UInt32.ofNat songs.length) ++ songs.flatMap encodeSong

/-! ### What is meant by playing -/

/-- A note is its frequency for its duration. -/
def Note.sound (note : Note) : List PlayEvent :=
  [.SPEAKER note.freq.toUInt64, .sleep_sys note.duration]

/-- The song, over and over, until a message arrives at the note after `polls` notes. -/
def perform (song : List Note) : Nat → Nat → Option Int × List PlayEvent
  | 0, _ => (none, [])
  | rounds + 1, polls =>
    if song.length ≤ polls then
      let (result, rest) := perform song rounds (polls - song.length)
      (result, song.flatMap Note.sound ++ .SPEAKER 0 :: rest)
    else (some 0, (song.take polls).flatMap Note.sound)

/-- `playSong(k)` plays that song. -/
def Plays (m : Memory) (songData : Addr) (k : Nat) (song : List Note) : Prop :=
  ∀ rounds polls, playSong m songData (Int32.ofNat k) rounds polls =
    ⟨false, (perform song rounds polls).1, (perform song rounds polls).2⟩

/-! ### Bytes in memory -/

variable {m : Memory} {a : Addr} {song : List Note}
  {songs : List (List Note)}

@[simp] theorem length_encodeNote (note : Note) : (encodeNote note).length = 8 := rfl

theorem length_encodeNotes (song : List Note) :
    (song.flatMap encodeNote).length = 8 * song.length := by
  induction song with
  | nil => rfl
  | cons note song ih =>
    rw [List.flatMap_cons, List.length_append, ih, length_encodeNote, List.length_cons]
    omega

/-- A count is read from its lowest byte. -/
theorem charAt_encodeWord {w : UInt32} (h : LiesAt m a (encodeWord w)) :
    (charAt m a).toInt = w.toUInt8.toInt8.toInt := by
  have h₀ : m (a + 0) = w.toUInt8 := h 0 (by simp)
  rw [UInt64.add_zero] at h₀
  unfold charAt
  rw [h₀]
  show (w.toUInt8.toInt8.toInt32).toInt = _
  exact Int8.toInt_toInt32 _

/-- A small count is read right. -/
theorem toInt8_ofNat {n : Nat} (h : n < 128) :
    (UInt32.ofNat n).toUInt8.toInt8.toInt = n := by
  show (UInt8.toBitVec _).toInt = _
  rw [BitVec.toInt_eq_toNat_of_lt]
  · show ((UInt32.ofNat n).toUInt8.toNat : Int) = n
    simp
    omega
  · show 2 * (UInt32.ofNat n).toUInt8.toNat < 2 ^ 8
    simp
    omega

/-- No count is read as 128 or more. -/
theorem charAt_lt (m : Memory) (a : Addr) : (charAt m a).toInt < 128 := by
  unfold charAt
  rw [Int8.toInt_toInt32]
  exact Int8.toInt_lt _

/-! ### Skipping -/

theorem offset_eq {n : Int32} {k : Nat} (hk : k < 128) (hn : n.toInt = k) :
    (8 * n).toInt64.toUInt64 = UInt64.ofNat (8 * k) := by
  have hsmall : ∀ k, k < 128 → (8 * Int32.ofNat k).toInt64.toUInt64 = UInt64.ofNat (8 * k) := by
    decide
  have heq : n = Int32.ofNat k := by
    apply Int32.toInt_inj.mp
    rw [hn, Int32.toInt_ofNat_of_lt (by omega)]
  rw [heq]
  exact hsmall k hk

/-- Short songs are skipped right. -/
theorem skipSongs_eq (hshort : ∀ song ∈ songs, song.length < 128)
    (h : LiesAt m a (songs.flatMap encodeSong)) :
    skipSongs m a songs.length = a + UInt64.ofNat (songs.flatMap encodeSong).length := by
  induction songs generalizing a with
  | nil => exact (UInt64.add_zero a).symm
  | cons song songs ih =>
    rw [List.flatMap_cons, liesAt_append] at h
    have hlen := hshort song List.mem_cons_self
    have hcount : (charAt m a).toInt = song.length := by
      rw [charAt_encodeWord (liesAt_append.mp h.1).1, toInt8_ofNat hlen]
    -- the count and the notes of one song
    have hnext : a + 4 + (8 * charAt m a).toInt64.toUInt64 =
        a + UInt64.ofNat (encodeSong song).length := by
      rw [offset_eq hlen hcount]
      unfold encodeSong
      rw [List.length_append, length_encodeNotes, length_encodeWord, UInt64.ofNat_add,
        UInt64.add_assoc]
      rfl
    rw [List.length_cons]
    unfold skipSongs
    simp only [hnext]
    rw [ih (fun song' hmem => hshort song' (List.mem_cons_of_mem song hmem)) h.2,
      List.flatMap_cons, List.length_append, UInt64.ofNat_add, UInt64.add_assoc]

/-! ### Playing -/

theorem playNotes_eq (hfreq : ∀ note ∈ song, note.freq.toNat < 65536)
    (h : LiesAt m a (song.flatMap encodeNote)) (polls : Nat) :
    playNotes m a song.length polls =
      if song.length ≤ polls then (song.flatMap Note.sound, some (polls - song.length))
      else ((song.take polls).flatMap Note.sound, none) := by
  induction song generalizing a polls with
  | nil => simp [playNotes]
  | cons note song ih =>
    cases polls with
    | zero => simp [playNotes]
    | succ polls =>
      rw [List.flatMap_cons, liesAt_append] at h
      obtain ⟨hnote, hrest⟩ := h
      obtain ⟨hf, hd⟩ := liesAt_append.mp hnote
      have hsmall : (note.freq.toUInt16).toUInt64 = note.freq.toUInt64 := by
        have hlt := hfreq note List.mem_cons_self
        apply UInt64.toNat_inj.mp
        simp
        omega
      have haddr : a + 4 + 4 = a + UInt64.ofNat (encodeNote note).length := by
        rw [UInt64.add_assoc]
        rfl
      have hfirst : m.readUInt32 a = note.freq := readUInt32_encodeWord hf
      have hsecond : m.readUInt32 (a + 4) = note.duration := readUInt32_encodeWord hd
      have hloop := ih (fun n hn => hfreq n (List.mem_cons_of_mem note hn)) hrest polls
      rw [← haddr] at hloop
      rw [List.length_cons]
      simp only [playNotes, hfirst, hsecond, hsmall, hloop, Nat.add_le_add_iff_right,
        Nat.add_sub_add_right, List.take_succ_cons]
      by_cases hle : song.length ≤ polls <;> simp [hle, Note.sound]

theorem playRounds_eq {n : Int32} (hn : n.toInt = song.length)
    (hfreq : ∀ note ∈ song, note.freq.toNat < 65536)
    (h : LiesAt m a (song.flatMap encodeNote)) (rounds polls : Nat) :
    playRounds m a n rounds polls = perform song rounds polls := by
  induction rounds generalizing polls with
  | zero => rfl
  | succ rounds ih =>
    have hnotes : n.toInt.toNat = song.length := by rw [hn, Int.toNat_natCast]
    unfold playRounds perform
    rw [hnotes, playNotes_eq hfreq h]
    by_cases hle : song.length ≤ polls
    · simp only [if_pos hle, ih]
    · simp only [if_neg hle]

/-- The call beyond its checks. -/
theorem playSong_eq {k : Nat} (hk : (k + 1 : Int) ≤ (charAt m a).toInt) (rounds polls : Nat) :
    playSong m a (Int32.ofNat (k + 1)) rounds polls =
      ⟨false, (playRounds m (skipSongs m (a + 4) k + 4) (charAt m (skipSongs m (a + 4) k))
          rounds polls).1,
        (playRounds m (skipSongs m (a + 4) k + 4) (charAt m (skipSongs m (a + 4) k))
          rounds polls).2⟩ := by
  have hlt := charAt_lt m a
  have hnum : (Int32.ofNat (k + 1)).toInt = k + 1 := Int32.toInt_ofNat_of_lt (by omega)
  have hprev : ∀ k, k < 127 → (Int32.ofNat (k + 1) - 1).toInt.toNat = k := by decide
  have hne : ∀ i : Int32, i.toInt ≤ 0 → Int32.ofNat (k + 1) ≠ i := by
    intro i hi heq
    rw [← heq, hnum] at hi
    omega
  have hrange : ¬ (Int32.ofNat (k + 1) > charAt m a ∨ Int32.ofNat (k + 1) < 0) := by
    rw [gt_iff_lt, Int32.lt_iff_toInt_lt, Int32.lt_iff_toInt_lt, hnum]
    show ¬ ((charAt m a).toInt < (k : Int) + 1 ∨ (k : Int) + 1 < 0)
    omega
  unfold playSong
  rw [if_neg (hne (-1) (by decide)), if_neg hrange, if_neg (hne 0 (by decide))]
  simp only [hprev k (by omega)]

/-! ### Which modules are played right -/

section Module
variable {before after : List (List Note)}

/-- Where the song after `before` begins. -/
theorem liesAt_module (h : LiesAt m a (encodeModule (before ++ song :: after))) :
    LiesAt m (a + 4) (before.flatMap encodeSong) ∧
    LiesAt m (a + 4 + UInt64.ofNat (before.flatMap encodeSong).length) (encodeSong song) := by
  unfold encodeModule at h
  rw [liesAt_append, List.flatMap_append, liesAt_append, List.flatMap_cons, liesAt_append] at h
  exact ⟨h.2.1, h.2.2.1⟩

/-- Few songs, the ones before it short: its count is read from the right place. -/
theorem playSong_reaches (h : LiesAt m a (encodeModule (before ++ song :: after)))
    (hcount : (before ++ song :: after).length < 128)
    (hshort : ∀ song' ∈ before, song'.length < 128) :
    ∃ p, LiesAt m p (encodeSong song) ∧ ∀ rounds polls,
      playSong m a (Int32.ofNat (before.length + 1)) rounds polls =
        ⟨false, (playRounds m (p + 4) (charAt m p) rounds polls).1,
          (playRounds m (p + 4) (charAt m p) rounds polls).2⟩ := by
  obtain ⟨hbefore, hsong⟩ := liesAt_module h
  have hmax : (charAt m a).toInt = (before ++ song :: after).length := by
    rw [charAt_encodeWord (liesAt_append.mp h).1, toInt8_ofNat hcount]
  refine ⟨_, hsong, ?_⟩
  intro rounds polls
  rw [← skipSongs_eq hshort hbefore]
  apply playSong_eq
  rw [hmax, List.length_append, List.length_cons]
  omega

theorem plays_of_short (h : LiesAt m a (encodeModule (before ++ song :: after)))
    (hcount : (before ++ song :: after).length < 128)
    (hshort : ∀ song' ∈ before ++ song :: after, song'.length < 128)
    (hfreq : ∀ note ∈ song, note.freq.toNat < 65536) :
    Plays m a (before.length + 1) song := by
  obtain ⟨p, hp, hplay⟩ := playSong_reaches h hcount
    (fun song' hmem => hshort song' (List.mem_append_left _ hmem))
  obtain ⟨hnum, hnotes⟩ := liesAt_append.mp hp
  have hnotes' : LiesAt m (p + 4) (song.flatMap encodeNote) := hnotes
  have hn : (charAt m p).toInt = song.length := by
    rw [charAt_encodeWord hnum]
    exact toInt8_ofNat (hshort song (List.mem_append_right _ List.mem_cons_self))
  intro rounds polls
  rw [hplay, playRounds_eq hn hfreq hnotes']

/-- A pass of `n` notes makes `2 * n` calls, whatever lies in memory. -/
theorem playNotes_length (m : Memory) (a : Addr) {n polls : Nat} (h : n ≤ polls) :
    ∃ events, playNotes m a n polls = (events, some (polls - n)) ∧ events.length = 2 * n := by
  induction n generalizing a polls with
  | zero => exact ⟨[], rfl, rfl⟩
  | succ n ih =>
    obtain ⟨polls, rfl⟩ : ∃ p, polls = p + 1 := ⟨polls - 1, by omega⟩
    obtain ⟨events, heq, hlen⟩ := ih (a + 4 + 4) (Nat.le_of_succ_le_succ h)
    refine ⟨_, by simp only [playNotes, heq, Nat.add_sub_add_right]; rfl, ?_⟩
    rw [List.length_cons, List.length_cons, hlen]
    omega

theorem length_sounds (song : List Note) : (song.flatMap Note.sound).length = 2 * song.length := by
  induction song with
  | nil => rfl
  | cons note song ih =>
    rw [List.flatMap_cons, List.length_append, ih, List.length_cons]
    show 2 + 2 * song.length = _
    omega

/-- A long song is cut short. -/
theorem not_plays_of_long (h : LiesAt m a (encodeModule (before ++ song :: after)))
    (hcount : (before ++ song :: after).length < 128)
    (hshort : ∀ song' ∈ before, song'.length < 128) (hlong : 128 ≤ song.length) :
    ¬ Plays m a (before.length + 1) song := by
  intro hplays
  obtain ⟨p, hp, hplay⟩ := playSong_reaches h hcount hshort
  have hlt := charAt_lt m p
  have hevents := congrArg Play.events (hplays 1 song.length)
  -- one pass, with as many notes as the sign of a byte allows
  obtain ⟨events, hpass, hlen⟩ := playNotes_length m (p + 4)
    (show (charAt m p).toInt.toNat ≤ song.length by omega)
  rw [hplay] at hevents
  simp only [playRounds, hpass, perform, if_pos (Nat.le_refl song.length)] at hevents
  have hlength := congrArg List.length hevents
  rw [List.length_append, List.length_append, hlen, length_sounds, List.length_singleton] at hlength
  omega

/-- The song of a number that the byte can not hold is refused. -/
theorem not_plays_of_many (k : Nat) (hk : k = 128) : ¬ Plays m a k song := by
  subst hk
  intro hplays
  have hresult := congrArg Play.result (hplays 0 0)
  have hlt := charAt_lt m a
  have hnum : (Int32.ofNat 128).toInt = 128 := by decide
  have hrange : Int32.ofNat 128 > charAt m a ∨ Int32.ofNat 128 < 0 := by
    left
    rw [gt_iff_lt, Int32.lt_iff_toInt_lt, hnum]
    exact hlt
  unfold playSong at hresult
  rw [if_neg (by decide), if_pos hrange] at hresult
  cases hresult

end Module

theorem split_at {i : Nat} (hi : i < songs.length) :
    songs = songs.take i ++ songs[i] :: songs.drop (i + 1) ∧ (songs.take i).length = i := by
  rw [← List.drop_eq_getElem_cons hi, List.take_append_drop, List.length_take]
  exact ⟨rfl, Nat.min_eq_left (Nat.le_of_lt hi)⟩

/-- Every song of a module is played right if and only if there are fewer than 128 songs and
    none of them has 128 notes. -/
theorem plays_iff_short (h : LiesAt m a (encodeModule songs))
    (hfreq : ∀ song ∈ songs, ∀ note ∈ song, note.freq.toNat < 65536) :
    (∀ k song, 1 ≤ k → songs[k - 1]? = some song → Plays m a k song) ↔
      songs.length < 128 ∧ ∀ song ∈ songs, song.length < 128 := by
  constructor
  · intro hplays
    have hcount : songs.length < 128 := by
      by_contra hge
      have hsong : songs[127]? = some songs[127] := List.getElem?_eq_getElem (by omega)
      exact not_plays_of_many 128 rfl (hplays 128 _ (by decide) hsong)
    refine ⟨hcount, ?_⟩
    -- song after song: with those before it short, a song is reached, so it is short too
    have hshort : ∀ i (hi : i < songs.length), songs[i].length < 128 := by
      intro i
      induction i using Nat.strong_induction_on with
      | _ i ih =>
        intro hi
        by_contra hlong
        obtain ⟨hsplit, hlen⟩ := split_at hi
        have hbefore : ∀ song ∈ songs.take i, song.length < 128 := by
          intro song hmem
          obtain ⟨j, hj, rfl⟩ := List.mem_iff_getElem.mp hmem
          rw [hlen] at hj
          rw [List.getElem_take]
          exact ih j hj (by omega)
        have hsong := hplays (i + 1) songs[i] (by omega) (List.getElem?_eq_getElem hi)
        rw [hsplit] at h hcount
        have hnot := not_plays_of_long h hcount hbefore (Nat.le_of_not_lt hlong)
        rw [hlen] at hnot
        exact hnot hsong
    intro song hmem
    obtain ⟨i, hi, rfl⟩ := List.mem_iff_getElem.mp hmem
    exact hshort i hi
  · intro h k song hk hsong
    obtain ⟨hcount, hshort⟩ := h
    obtain ⟨i, rfl⟩ : ∃ i, k = i + 1 := ⟨k - 1, by omega⟩
    rw [Nat.add_sub_cancel] at hsong
    obtain ⟨hi, rfl⟩ := List.getElem?_eq_some_iff.mp hsong
    obtain ⟨hsplit, hlen⟩ := split_at hi
    have hfreq' := hfreq songs[i] (List.getElem_mem hi)
    rw [hsplit] at h hcount hshort
    have hplays := plays_of_short h hcount hshort hfreq'
    rwa [hlen] at hplays

/-! ### A short song and a long one -/

/-- The notes of the examples. -/
def noteA : Note := ⟨440, 100⟩

def noteC : Note := ⟨523, 200⟩

/-- The second of two songs. -/
theorem plays_iff_short_second : ∃ m a,
    LiesAt m a (encodeModule [[noteA, noteC, noteA], [noteC, noteA]]) ∧
    Plays m a 2 [noteC, noteA] := by
  let songs : List (List Note) := [[noteA, noteC, noteA], [noteC, noteA]]
  have h : LiesAt (imageAt 0x800000 (encodeModule songs)) 0x800000 (encodeModule songs) :=
    liesAt_imageAt _ (by decide)
  have hfreq : ∀ song ∈ songs, ∀ note ∈ song, note.freq.toNat < 65536 := by decide
  exact ⟨_, _, h, (plays_iff_short h hfreq).mpr ⟨by decide, by decide⟩ 2 _ (by decide) rfl⟩

/-- The only song of a module has 200 notes. -/
theorem long_song_not_played : ¬ ∀ (songs : List (List Note)) (m : Memory) (a : Addr),
    LiesAt m a (encodeModule songs) →
    (∀ song ∈ songs, ∀ note ∈ song, note.freq.toNat < 65536) →
    ∀ k song, 1 ≤ k → songs[k - 1]? = some song → Plays m a k song := by
  intro hclaim
  have hlen : (encodeModule [List.replicate 200 noteA]).length = 1608 := by
    unfold encodeModule
    rw [List.flatMap_cons, List.flatMap_nil, List.append_nil, List.length_append,
      length_encodeWord]
    unfold encodeSong
    rw [List.length_append, length_encodeWord, length_encodeNotes, List.length_replicate]
  have h : LiesAt (imageAt 0x800000 (encodeModule [List.replicate 200 noteA])) 0x800000
      (encodeModule ([] ++ List.replicate 200 noteA :: [])) :=
    liesAt_imageAt _ (by rw [hlen]; decide)
  have hfreq : ∀ song ∈ [List.replicate 200 noteA], ∀ note ∈ song, note.freq.toNat < 65536 := by
    intro song hsong note hnote
    rw [List.mem_singleton.mp hsong] at hnote
    rw [List.eq_of_mem_replicate hnote]
    decide
  refine not_plays_of_long h (by decide) (fun song hmem => absurd hmem List.not_mem_nil) ?_
    (hclaim _ _ _ h hfreq 1 _ (Nat.le_refl 1) rfl)
  rw [List.length_replicate]
  decide

end TP2Kernel
