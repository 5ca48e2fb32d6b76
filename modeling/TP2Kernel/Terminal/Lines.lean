import TP2Kernel.Framework.Transition
import TP2Kernel.Terminal.Contents
import TP2Kernel.Terminal.Keyboard

/-! # The lines in `stdin` (`Kernel/c/tty.c`)

    `stdinHasData` counts the ends of lines that are queued.  A reader waits for it alone, so
    that the character that fills the buffer is replaced by an end of line: otherwise nobody
    could empty a full buffer without one.
-/

namespace TP2Kernel

open Transition

namespace Tty

variable {t : Tty} {l : List UInt8} {c : UInt8}

/-! ### The calls on `stdin` -/

/-- The character that is stored for `c` behind the characters of `l`. -/
def lineChar (l : List UInt8) (c : UInt8) : UInt8 :=
  if l.length + 1 = STDIN_BUFFER_SIZE.toNat then 10 else c

/-- A character that does not fill the buffer is enqueued, and one that does is enqueued as an
    end of line. -/
theorem stdinEnqueueChar_eq (h : t.stdin.Contents STDIN_BUFFER_SIZE l) (c : UInt8) :
    t.stdinEnqueueChar c =
      if l.length = STDIN_BUFFER_SIZE.toNat then (-1, t)
      else (0, { t with
        stdin := (t.stdin.enqueue STDIN_BUFFER_SIZE (lineChar l c)).2
        stdinHasData := if lineChar l c = 10 then t.stdinHasData + 1 else t.stdinHasData }) := by
  by_cases hfull : l.length = STDIN_BUFFER_SIZE.toNat
  · have htest : t.stdinIsFull = true := h.isFull_iff.mpr hfull
    unfold stdinEnqueueChar
    rw [if_pos htest, if_pos hfull]
  have hfits := h.fills.fits
  have hopen : ¬ t.stdinIsFull = true := fun htest => hfull (h.isFull_iff.mp htest)
  obtain ⟨-, hafter⟩ := h.enqueue (by omega) c
  unfold stdinEnqueueChar
  rw [if_neg hopen, if_neg hfull]
  by_cases hend : c = 10
  · subst hend
    have hten : lineChar l 10 = 10 := by
      unfold lineChar
      split <;> rfl
    simp [hten]
  · have hfills := hafter.isFull_iff
    rw [List.length_append, List.length_singleton] at hfills
    by_cases hlast : l.length + 1 = STDIN_BUFFER_SIZE.toNat
    · have hfilled : ({ t with stdin := (t.stdin.enqueue STDIN_BUFFER_SIZE c).2 } : Tty).stdinIsFull
          = true := hfills.mpr hlast
      have hten : lineChar l c = 10 := if_pos hlast
      have hbuffer : ¬ t.stdin.isFull STDIN_BUFFER_SIZE = true := hopen
      simp only [if_neg hend, hfilled, if_true, hten]
      -- the slot is written a second time
      simp [CharBuffer.enqueue, hbuffer]
    · have hnot : ¬ ({ t with stdin := (t.stdin.enqueue STDIN_BUFFER_SIZE c).2 } : Tty).stdinIsFull
          = true := fun htest => hlast (hfills.mp htest)
      have hsame : lineChar l c = c := if_neg hlast
      simp only [if_neg hend, if_neg hnot, hsame]

/-- As long as the buffer does not fill, the character itself is enqueued. -/
theorem stdinEnqueueChar_contents (h : t.stdin.Contents STDIN_BUFFER_SIZE l)
    (hopen : (t.stdinEnqueueChar c).2.stdinIsFull = false) :
    ∃ b, b.Contents STDIN_BUFFER_SIZE (l ++ [c]) ∧ (t.stdinEnqueueChar c).2 = { t with
      stdin := b
      stdinHasData := if c = 10 then t.stdinHasData + 1 else t.stdinHasData } := by
  have hfits := h.fills.fits
  rw [stdinEnqueueChar_eq h] at hopen ⊢
  by_cases hfull : l.length = STDIN_BUFFER_SIZE.toNat
  · rw [if_pos hfull] at hopen
    exact absurd ((h.isFull_iff.mpr hfull).symm.trans hopen) (by decide)
  · rw [if_neg hfull] at hopen ⊢
    obtain ⟨-, hb⟩ := h.enqueue (by omega) (lineChar l c)
    have hsame : lineChar l c = c := by
      apply if_neg
      intro hlast
      have hfilled := hb.isFull_iff.mpr (by rw [List.length_append, List.length_singleton, hlast])
      exact absurd (hfilled.symm.trans hopen) (by decide)
    rw [hsame] at hb ⊢
    exact ⟨_, hb, rfl⟩

/-- Dequeuing takes the oldest character away, when there is one. -/
theorem stdinDequeueChar_contents (h : t.stdin.Contents STDIN_BUFFER_SIZE l)
    (hdata : t.stdinHasData.toNat = l.count 10) :
    ∃ b data, b.Contents STDIN_BUFFER_SIZE l.tail ∧ data.toNat = l.tail.count 10 ∧
      t.stdinDequeueChar.2 = { t with stdin := b, stdinHasData := data } ∧
      (l = [] → t.stdinDequeueChar.1 = -1) ∧
      ∀ c l', l = c :: l' → t.stdinDequeueChar.1 = c.toInt8.toInt := by
  cases l with
  | nil =>
    have hempty : t.stdin.isEmpty = true := h.isEmpty_iff.mpr rfl
    have heq : t.stdinDequeueChar = (-1, t) := by
      unfold stdinDequeueChar
      rw [if_pos hempty]
    refine ⟨t.stdin, t.stdinHasData, h, hdata, ?_, ?_, ?_⟩
    · rw [heq]
    · exact fun _ => by rw [heq]
    · intro c l' hnil
      cases hnil
  | cons c l =>
    obtain ⟨hfirst, hrest⟩ := h.dequeue
    have hempty : ¬ t.stdin.isEmpty = true := by
      rw [h.isEmpty_iff]
      exact List.cons_ne_nil c l
    have heq : t.stdinDequeueChar = (c.toInt8.toInt, { t with
        stdin := (t.stdin.dequeue STDIN_BUFFER_SIZE).2
        stdinHasData := if c = 10 then t.stdinHasData - 1 else t.stdinHasData }) := by
      unfold stdinDequeueChar
      rw [if_neg hempty]
      have hten : c.toInt8.toInt = 10 ↔ c = 10 := toInt8_toInt_eq_iff c 10
      simp only [hfirst, hten]
    refine ⟨_, _, hrest, ?_, by rw [heq], ?_, ?_⟩
    -- taking a newline away is taken note of
    · rw [List.count_cons] at hdata
      by_cases hend : c = 10
      · subst hend
        simp only [beq_self_eq_true, if_true] at hdata ⊢
        rw [Word.uint64_toNat_pred (by omega), hdata, Nat.add_sub_cancel]
        rfl
      · simp only [beq_iff_eq, hend, if_false, Nat.add_zero] at hdata ⊢
        exact hdata
    · intro hnil
      cases hnil
    · intro c' l' hcons
      obtain ⟨rfl, rfl⟩ := List.cons.inj hcons
      rw [heq]

/-! ### What holds of the lines -/

/-- The characters queued are `l`: every end of a line is counted, and a full buffer has one. -/
structure Lines (t : Tty) (l : List UInt8) : Prop where
  contents : t.stdin.Contents STDIN_BUFFER_SIZE l
  hasData : t.stdinHasData.toNat = l.count 10
  full : l.length = STDIN_BUFFER_SIZE.toNat → 10 ∈ l
  plain : 255 ∉ l

theorem Lines.isEmpty_iff (h : t.Lines l) : t.stdinIsEmpty = true ↔ 10 ∉ l := by
  unfold stdinIsEmpty
  rw [decide_eq_true_iff, UInt64.le_iff_toNat_le, h.hasData]
  show l.count 10 ≤ 0 ↔ _
  rw [Nat.le_zero, List.count_eq_zero]

/-- A character of a key is stored, or an end of line in its place. -/
theorem Lines.enqueue (h : t.Lines l) (hc : c ≠ 255)
    (hroom : l.length < STDIN_BUFFER_SIZE.toNat) :
    (t.stdinEnqueueChar c).2.Lines (l ++ [lineChar l c]) := by
  have hstored : lineChar l c ≠ 255 := by
    unfold lineChar
    split
    · decide
    · exact hc
  rw [stdinEnqueueChar_eq h.contents, if_neg (Nat.ne_of_lt hroom)]
  refine ⟨(h.contents.enqueue hroom _).2, ?_, ?_, ?_⟩
  · show (if lineChar l c = 10 then _ else _ : UInt64).toNat = _
    rw [List.count_append]
    by_cases hend : lineChar l c = 10
    · have hcount := List.count_le_length (a := (10 : UInt8)) (l := l)
      have hdata := h.hasData
      have hsize : STDIN_BUFFER_SIZE.toNat = 1024 := rfl
      rw [if_pos hend, hend, Word.uint64_toNat_succ (by omega), hdata]
      rfl
    · rw [if_neg hend, h.hasData, List.count_singleton]
      simp [hend]
  · intro hfull
    rw [List.length_append, List.length_singleton] at hfull
    rw [lineChar, if_pos hfull]
    exact List.mem_append_right _ List.mem_cons_self
  · rw [List.mem_append, List.mem_singleton, not_or]
    exact ⟨h.plain, fun heq => hstored heq.symm⟩

theorem Lines.enqueue_full (h : t.Lines l) (hfull : l.length = STDIN_BUFFER_SIZE.toNat) :
    t.stdinEnqueueChar c = (-1, t) := by
  rw [stdinEnqueueChar_eq h.contents, if_pos hfull]

theorem Lines.dequeue (h : t.Lines l) : t.stdinDequeueChar.2.Lines l.tail := by
  obtain ⟨b, data, hb, hdata, hrest, -, -⟩ := stdinDequeueChar_contents h.contents h.hasData
  have hfits := h.contents.fills.fits
  rw [hrest]
  refine ⟨hb, hdata, ?_, fun hmem => h.plain (List.mem_of_mem_tail hmem)⟩
  intro hfull
  rw [List.length_tail] at hfull
  have hsize : STDIN_BUFFER_SIZE.toNat = 1024 := rfl
  omega

/-! ### Runs -/

inductive LineCall where
  | stdinEnqueueChar (character : UInt8)
  | stdinDequeueChar

/-- The two calls, with characters of the keys, in any order. -/
def lineCalls : System Tty LineCall where
  init := fun t => t.stdin = .empty ∧ t.stdinHasData = 0
  step := fun t call t' =>
    match call with
    | .stdinEnqueueChar character =>
      (character ∈ charTable ∨ character ∈ shiftedCharTable) ∧
        t' = (t.stdinEnqueueChar character).2
    | .stdinDequeueChar => t' = t.stdinDequeueChar.2

theorem key_ne_255 (h : c ∈ charTable ∨ c ∈ shiftedCharTable) : c ≠ 255 := by
  have hall : ∀ table : List UInt8, table.all (· ≠ 255) = true → c ∈ table → c ≠ 255 :=
    fun table hno hmem => of_decide_eq_true (List.all_eq_true.mp hno c hmem)
  rcases h with h | h
  · exact hall charTable (by decide) h
  · exact hall shiftedCharTable (by decide) h

theorem lines_step {t' : Tty} {call : LineCall} (h : ∃ l, t.Lines l)
    (hstep : lineCalls.step t call t') : ∃ l, t'.Lines l := by
  obtain ⟨l, h⟩ := h
  cases call with
  | stdinEnqueueChar character =>
    obtain ⟨hkey, rfl⟩ := hstep
    rcases Nat.lt_or_ge l.length STDIN_BUFFER_SIZE.toNat with hroom | hge
    · exact ⟨_, h.enqueue (key_ne_255 hkey) hroom⟩
    · rw [h.enqueue_full (Nat.le_antisymm h.contents.fills.fits hge)]
      exact ⟨l, h⟩
  | stdinDequeueChar =>
    obtain rfl := hstep
    exact ⟨l.tail, h.dequeue⟩

theorem lines_reachable (h : lineCalls.Reachable t) :
    t.Lines (t.stdin.queued STDIN_BUFFER_SIZE) := by
  have hlines : ∃ l, t.Lines l := by
    apply h.invariant fun t => ∃ l, t.Lines l
    · intro t hinit
      obtain ⟨hempty, hzero⟩ := hinit
      refine ⟨[], ?_, ?_, ?_, List.not_mem_nil⟩
      · rw [hempty]
        exact CharBuffer.contents_empty (by decide)
      · rw [hzero]
        rfl
      · intro hfull
        exact absurd hfull (by decide)
    · exact fun t call t' hinv hstep => lines_step hinv hstep
  obtain ⟨l, hl⟩ := hlines
  rw [hl.contents.queued_eq]
  exact hl

end Tty

end TP2Kernel
