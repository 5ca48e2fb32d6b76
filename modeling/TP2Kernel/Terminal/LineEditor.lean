import TP2Kernel.Terminal.Lines

/-! # Typing and the backspace

    What a user means when typing is a line editor: a backspace takes back the last character
    of the line.  `ttySTDINAddElement` dequeues instead, which takes away the oldest character
    of the buffer; the two agree only where that makes no difference.
-/

namespace TP2Kernel

open Transition

/-! ### The line editor -/

/-- The lines that are ended, and the one that is not. -/
structure LineEditor where
  ended : List UInt8
  line : List UInt8

namespace LineEditor

def text (e : LineEditor) : List UInt8 := e.ended ++ e.line

/-- A backspace never goes beyond the start of the line. -/
def press (e : LineEditor) (c : UInt8) : LineEditor :=
  if c = 10 then ⟨e.ended ++ e.line ++ [10], []⟩
  else if c = 8 then { e with line := e.line.dropLast }
  else { e with line := e.line ++ [c] }

/-- Ended lines end, and the open one does not. -/
structure Lines (e : LineEditor) : Prop where
  ended : e.ended ≠ [] → 10 ∈ e.ended
  line : 10 ∉ e.line

theorem lines_press {e : LineEditor} (h : Lines e) (c : UInt8) : Lines (e.press c) := by
  unfold press
  by_cases hend : c = 10
  · rw [if_pos hend]
    exact ⟨fun _ => List.mem_append_right _ List.mem_cons_self, List.not_mem_nil⟩
  · rw [if_neg hend]
    by_cases hback : c = 8
    · rw [if_pos hback]
      exact ⟨h.ended, fun hmem => h.line (List.mem_of_mem_dropLast hmem)⟩
    · rw [if_neg hback]
      refine ⟨h.ended, ?_⟩
      show 10 ∉ e.line ++ [c]
      rw [List.mem_append, List.mem_singleton, not_or]
      exact ⟨h.line, fun heq => hend heq.symm⟩

end LineEditor

/-- A list that loses the same at either end repeats one element. -/
theorem replicate_of_tail_eq_dropLast {α : Type} {l : List α} (h : l.tail = l.dropLast)
    (hne : l ≠ []) : ∃ a, l = List.replicate l.length a := by
  induction l with
  | nil => exact absurd rfl hne
  | cons a l ih =>
    cases l with
    | nil => exact ⟨a, rfl⟩
    | cons b l =>
      rw [List.tail_cons, List.dropLast_cons_cons] at h
      obtain ⟨rfl, hl⟩ := List.cons.inj h
      obtain ⟨c, hc⟩ := ih hl (List.cons_ne_nil b l)
      have hbc : b = c := by
        have hmem : b ∈ List.replicate (b :: l).length c := hc ▸ List.mem_cons_self
        exact List.eq_of_mem_replicate hmem
      subst hbc
      refine ⟨b, ?_⟩
      rw [List.length_cons, List.replicate_succ, ← hc]

/-! ### Runs -/

/-- The terminal, beside the editor it should be. -/
structure Typing where
  tty : Tty
  editor : LineEditor

structure KeyPress where
  keyboard : Keyboard
  scanCode : UInt8

namespace Typing

/-- A key is pressed.  The answer is the character that was accepted. -/
def press (s : Typing) (key : KeyPress) : Typing :=
  let (result, tty) := s.tty.ttySTDINAddElement key.keyboard key.scanCode
  { tty := tty
    editor := if result = -1 then s.editor else s.editor.press (toChar result) }

end Typing

/-- A user types, and the buffer never fills. -/
def typing : System Typing KeyPress where
  init := fun s => s = ⟨.bss, [], []⟩
  step := fun s key s' => s' = s.press key ∧ s'.tty.stdinIsFull = false

/-- What successive calls of `stdinReadChar` obtain, in at most `n` calls. -/
def Tty.readAll (t : Tty) : Nat → List UInt8
  | 0 => []
  | n + 1 =>
    match t.stdinReadChar with
    | (_, none, _) => []
    | (_, some c, t) => c :: readAll t n

namespace Typing

/-- What can be read is the text that was edited, and the echo erases by the same rule. -/
structure Edited (s : Typing) : Prop where
  read : s.tty.readAll STDIN_BUFFER_SIZE.toNat = s.editor.text
  echo : s.tty.backSpaceLimit = s.editor.line.length

/-- A backspace comes only when there is no text, or one line that repeats one character. -/
def SameEitherEnd (s : Typing) (key : KeyPress) : Prop :=
  decode key.keyboard key.scanCode = some 8 →
    s.editor.ended = [] ∧ ∃ n c, s.editor.line = List.replicate n c

structure Inv (s : Typing) : Prop where
  contents : s.tty.stdin.Contents STDIN_BUFFER_SIZE s.editor.text
  hasData : s.tty.stdinHasData.toNat = s.editor.text.count 10
  plain : ∀ c ∈ s.editor.text, c.toInt8.toInt ≠ -1
  lines : s.editor.Lines
  echo : s.tty.backSpaceLimit = s.editor.line.length

end Typing

/-! ### The calls on `stdin` -/

namespace Tty

variable {t : Tty} {l : List UInt8} {c : UInt8}

/-- Reading obtains what the buffer holds. -/
theorem readAll_contents (h : t.stdin.Contents STDIN_BUFFER_SIZE l)
    (hdata : t.stdinHasData.toNat = l.count 10) (hplain : ∀ c ∈ l, c.toInt8.toInt ≠ -1)
    {n : Nat} (hn : l.length ≤ n) : t.readAll n = l := by
  induction l generalizing t n with
  | nil =>
    obtain ⟨b, data, -, -, -, hempty, -⟩ := stdinDequeueChar_contents h hdata
    cases n with
    | zero => rfl
    | succ n => simp [readAll, stdinReadChar, hempty rfl]
  | cons c l ih =>
    obtain ⟨b, data, hb, hdata', hrest, -, hfirst⟩ := stdinDequeueChar_contents h hdata
    cases n with
    | zero => exact absurd hn (by simp)
    | succ n =>
      have hne := hplain c List.mem_cons_self
      have hread : t.stdinReadChar = (1, some c, { t with stdin := b, stdinHasData := data }) := by
        unfold stdinReadChar
        rw [← hrest]
        simp only [hfirst c l rfl, if_neg hne, toChar_toInt]
      unfold readAll
      rw [hread]
      have htail := ih (t := { t with stdin := b, stdinHasData := data }) hb hdata'
        (fun c' hc' => hplain c' (List.mem_cons_of_mem c hc')) (Nat.le_of_succ_le_succ hn)
      simp only [htail]

/-! ### The echo -/

@[simp] theorem ttyKBDPrintChar_stdin : (t.ttyKBDPrintChar c).stdin = t.stdin := by
  unfold ttyKBDPrintChar
  split
  · rfl
  · split
    · split <;> rfl
    · rfl

@[simp] theorem ttyKBDPrintChar_stdinHasData :
    (t.ttyKBDPrintChar c).stdinHasData = t.stdinHasData := by
  unfold ttyKBDPrintChar
  split
  · rfl
  · split
    · split <;> rfl
    · rfl

theorem ttyKBDPrintChar_backSpaceLimit {e : LineEditor}
    (h : t.backSpaceLimit = e.line.length) :
    (t.ttyKBDPrintChar c).backSpaceLimit = (e.press c).line.length := by
  unfold ttyKBDPrintChar LineEditor.press
  by_cases hend : c = 10
  · simp [hend]
  · by_cases hback : c = 8
    · by_cases hpos : t.backSpaceLimit > 0
      · simp only [hback, hpos, if_true, if_neg (show ¬ (8 : UInt8) = 10 by decide)]
        show t.backSpaceLimit - 1 = (e.line.dropLast.length : Int)
        rw [List.length_dropLast]
        omega
      · simp only [hback, hpos, if_true, if_false, if_neg (show ¬ (8 : UInt8) = 10 by decide)]
        rw [List.length_dropLast]
        omega
    · simp only [if_neg hend, if_neg hback]
      show t.backSpaceLimit + 1 = ((e.line ++ [c]).length : Int)
      rw [List.length_append, List.length_singleton]
      omega

end Tty

/-! ### One key -/

namespace Typing

variable {s s' : Typing} {key : KeyPress} {c : UInt8}

theorem press_none (h : decode key.keyboard key.scanCode = none) : s.press key = s := by
  simp [press, Tty.ttySTDINAddElement, h]

theorem press_some (h : decode key.keyboard key.scanCode = some c) : s.press key =
    { tty := (if c = 8 then s.tty.stdinDequeueChar.2
        else (s.tty.stdinEnqueueChar c).2).ttyKBDPrintChar c
      editor := s.editor.press c } := by
  simp only [press, Tty.ttySTDINAddElement, h, if_neg (decode_ne_error h), toChar_toInt]

theorem mem_text_press {e : LineEditor} {x : UInt8} (h : x ∈ (e.press c).text) :
    x ∈ e.text ∨ x = c := by
  unfold LineEditor.press at h
  unfold LineEditor.text at h ⊢
  by_cases hend : c = 10
  · simpa [hend, or_assoc] using h
  · by_cases hback : c = 8
    · subst hback
      rw [if_neg hend, if_pos rfl] at h
      rcases List.mem_append.mp h with hmem | hmem
      · exact .inl (List.mem_append_left _ hmem)
      · exact .inl (List.mem_append_right _ (List.mem_of_mem_dropLast hmem))
    · simpa [hend, hback, or_assoc] using h

/-- A character that is no backspace goes to the end of the text. -/
theorem text_press {e : LineEditor} (hback : c ≠ 8) : (e.press c).text = e.text ++ [c] := by
  unfold LineEditor.press LineEditor.text
  by_cases hend : c = 10
  · rw [if_pos hend, hend]
    exact List.append_nil _
  · rw [if_neg hend, if_neg hback]
    exact (List.append_assoc _ _ _).symm

/-- A backspace takes the first character instead of the last one. -/
theorem tail_eq_iff {e : LineEditor} (h : e.Lines) :
    e.text.tail = (e.press 8).text ↔ e.ended = [] ∧ ∃ n c, e.line = List.replicate n c := by
  have hpress : (e.press 8).text = e.ended ++ e.line.dropLast := rfl
  rw [hpress]
  unfold LineEditor.text
  constructor
  · intro heq
    by_cases hline : e.line = []
    · -- nothing is erased, so nothing may be taken away
      rw [hline, List.append_nil, List.dropLast_nil, List.append_nil] at heq
      have hended : e.ended = [] := by
        have hlen := congrArg List.length heq
        rw [List.length_tail] at hlen
        apply List.eq_nil_of_length_eq_zero
        omega
      exact ⟨hended, 0, 0, hline⟩
    · rw [← List.dropLast_append_of_ne_nil hline] at heq
      have hne : e.ended ++ e.line ≠ [] := fun hnil => hline (List.append_eq_nil_iff.mp hnil).2
      obtain ⟨c, hc⟩ := replicate_of_tail_eq_dropLast heq hne
      have hall : ∀ x ∈ e.ended ++ e.line, x = c := by
        intro x hx
        rw [hc] at hx
        exact List.eq_of_mem_replicate hx
      have hended : e.ended = [] := by
        -- an ended line would make them all ends of lines
        by_contra hended
        have hten := hall 10 (List.mem_append_left _ (h.ended hended))
        obtain ⟨x, hx⟩ := List.exists_mem_of_ne_nil e.line hline
        have hxc := hall x (List.mem_append_right _ hx)
        rw [hxc, ← hten] at hx
        exact h.line hx
      refine ⟨hended, e.line.length, c, ?_⟩
      rw [hended, List.nil_append] at hc
      exact hc
  · intro h
    obtain ⟨hended, n, c, hline⟩ := h
    rw [hended, hline, List.nil_append, List.nil_append]
    simp

/-- What holds after a key, whichever it is; the text is in the buffer unless a backspace
    took the wrong character away. -/
theorem inv_press (h : Inv s) (hfull : (s.press key).tty.stdinIsFull = false)
    (hok : s.SameEitherEnd key) : Inv (s.press key) := by
  cases hkey : decode key.keyboard key.scanCode with
  | none =>
    rw [press_none hkey]
    exact h
  | some c =>
    rw [press_some hkey] at hfull ⊢
    have hplain : ∀ x ∈ (s.editor.press c).text, x.toInt8.toInt ≠ -1 := by
      intro x hx
      rcases mem_text_press hx with hold | rfl
      · exact h.plain x hold
      · exact decode_ne_error hkey
    have hlines := LineEditor.lines_press h.lines c
    by_cases hback : c = 8
    -- a backspace takes the oldest character, which is the last of the text as well
    · subst hback
      rw [if_pos rfl] at hfull ⊢
      obtain ⟨b, data, hb, hdata, hrest, -, -⟩ := Tty.stdinDequeueChar_contents h.contents h.hasData
      have htext := (tail_eq_iff h.lines).mpr (hok hkey)
      rw [hrest]
      refine ⟨?_, ?_, hplain, hlines, ?_⟩
      · rw [Tty.ttyKBDPrintChar_stdin, ← htext]
        exact hb
      · rw [Tty.ttyKBDPrintChar_stdinHasData, ← htext]
        exact hdata
      · exact Tty.ttyKBDPrintChar_backSpaceLimit h.echo
    -- any other character is appended
    · rw [if_neg hback] at hfull ⊢
      have hopen : (s.tty.stdinEnqueueChar c).2.stdinIsFull = false := by
        unfold Tty.stdinIsFull at hfull ⊢
        rwa [Tty.ttyKBDPrintChar_stdin] at hfull
      obtain ⟨b, hb, hrest⟩ := Tty.stdinEnqueueChar_contents h.contents hopen
      rw [hrest]
      refine ⟨?_, ?_, hplain, hlines, ?_⟩
      · rw [Tty.ttyKBDPrintChar_stdin, text_press hback]
        exact hb
      · rw [Tty.ttyKBDPrintChar_stdinHasData, text_press hback, List.count_append, ← h.hasData]
        by_cases hend : c = 10
        · subst hend
          show (s.tty.stdinHasData + 1).toNat = s.tty.stdinHasData.toNat + 1
          apply Word.uint64_toNat_succ
          have hcount := List.count_le_length (a := (10 : UInt8)) (l := s.editor.text)
          have hfits := h.contents.fills.fits
          rw [h.hasData]
          have hsize : STDIN_BUFFER_SIZE.toNat = 1024 := rfl
          omega
        · simp [hend]
      · exact Tty.ttyKBDPrintChar_backSpaceLimit h.echo

/-- The buffer after a backspace. -/
theorem sameEitherEnd_of_edited (h : Inv s) (hedited : (s.press key).Edited) :
    s.SameEitherEnd key := by
  intro hkey
  apply (tail_eq_iff h.lines).mp
  obtain ⟨b, data, hb, hdata, hrest, -, -⟩ := Tty.stdinDequeueChar_contents h.contents h.hasData
  have hread := hedited.read
  rw [press_some hkey, if_pos rfl, hrest] at hread
  rw [← hread]
  symm
  apply Tty.readAll_contents
  · rw [Tty.ttyKBDPrintChar_stdin]
    exact hb
  · rw [Tty.ttyKBDPrintChar_stdinHasData]
    exact hdata
  · exact fun c hc => h.plain c (List.mem_of_mem_tail hc)
  · exact hb.fills.fits

/-! ### The result -/

theorem Inv.edited (h : Inv s) : s.Edited :=
  ⟨Tty.readAll_contents h.contents h.hasData h.plain h.contents.fills.fits, h.echo⟩

theorem inv_init (h : typing.init s) : Inv s := by
  obtain rfl := h
  have hcap : 0 < STDIN_BUFFER_SIZE := by decide
  refine ⟨CharBuffer.contents_empty hcap, rfl, ?_, ⟨fun hne => absurd rfl hne, ?_⟩, rfl⟩
  · exact fun c hc => absurd hc List.not_mem_nil
  · exact List.not_mem_nil

theorem inv_reachable (h : (typing.restrict SameEitherEnd).Reachable s) : Inv s := by
  apply h.invariant Inv
  · exact fun s hinit => inv_init hinit
  · intro s key s' hinv h
    obtain ⟨hok, rfl, hfull⟩ := h
    exact inv_press hinv hfull hok

/-- `stdin` is a line editor as long as the first character of the text and the last one of
    the line are the same to lose; the first other backspace makes the difference. -/
theorem edited_iff_sameEitherEnd (h : (typing.restrict SameEitherEnd).Reachable s) :
    s.Edited ∧ ∀ key s', typing.step s key s' → (s'.Edited ↔ s.SameEitherEnd key) := by
  have hinv := inv_reachable h
  refine ⟨hinv.edited, ?_⟩
  intro key s' h
  obtain ⟨rfl, hfull⟩ := h
  exact ⟨sameEitherEnd_of_edited hinv, fun hok => (inv_press hinv hfull hok).edited⟩

/-! ### Two characters and a backspace -/

def keyA : KeyPress := ⟨.initial, 30⟩
def keyB : KeyPress := ⟨.initial, 48⟩
def backspace : KeyPress := ⟨.initial, 14⟩

/-- A character is typed and erased again. -/
theorem edited_iff_sameEitherEnd_erase :
    ∃ s, (typing.restrict SameEitherEnd).Reachable s ∧ s.editor.line = [97] ∧
      (s.press backspace).Edited := by
  have h₀ : (typing.restrict SameEitherEnd).Reachable ⟨.bss, [], []⟩ := .init rfl
  have h₁ : (typing.restrict SameEitherEnd).Reachable (press ⟨.bss, [], []⟩ keyA) :=
    .step keyA h₀ ⟨fun _ => ⟨rfl, 0, 0, rfl⟩, rfl, by decide⟩
  have hstep : typing.step (press ⟨.bss, [], []⟩ keyA) backspace _ := ⟨rfl, by decide⟩
  exact ⟨_, h₁, rfl, ((edited_iff_sameEitherEnd h₁).2 _ _ hstep).mpr (fun _ => ⟨rfl, 1, 97, rfl⟩)⟩

/-- Of two characters, the first one is erased. -/
theorem backspace_erases_first : ¬ ∀ s, typing.Reachable s → s.Edited := by
  intro hclaim
  have hno : ∀ s, SameEitherEnd s keyA ∧ SameEitherEnd s keyB := fun s =>
    ⟨fun hkey => absurd hkey (by decide), fun hkey => absurd hkey (by decide)⟩
  have h₀ : (typing.restrict SameEitherEnd).Reachable ⟨.bss, [], []⟩ := .init rfl
  have h₁ : (typing.restrict SameEitherEnd).Reachable (press ⟨.bss, [], []⟩ keyA) :=
    .step keyA h₀ ⟨(hno _).1, rfl, by decide⟩
  have h₂ : (typing.restrict SameEitherEnd).Reachable
      ((press ⟨.bss, [], []⟩ keyA).press keyB) := .step keyB h₁ ⟨(hno _).2, rfl, by decide⟩
  have hstep : typing.step ((press ⟨.bss, [], []⟩ keyA).press keyB) backspace _ :=
    ⟨rfl, by decide⟩
  have hedited := hclaim _ (.step backspace h₂.of_restrict hstep)
  obtain ⟨-, n, c, hline⟩ := sameEitherEnd_of_edited (inv_reachable h₂) hedited rfl
  have hall : ∀ x ∈ ((press ⟨.bss, [], []⟩ keyA).press keyB).editor.line, x = c := by
    rw [hline]
    exact fun x hx => List.eq_of_mem_replicate hx
  have ha := hall 97 (by decide)
  have hb := hall 98 (by decide)
  exact absurd (ha.trans hb.symm) (by decide)

end Typing

end TP2Kernel
