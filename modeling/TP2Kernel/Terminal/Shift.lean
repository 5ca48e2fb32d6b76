import TP2Kernel.Framework.Transition
import TP2Kernel.Terminal.Keyboard

/-! # The shift keys (`Kernel/c/keyboard.c`)

    A key sends its make code when it is pressed and again while it is held, and its break
    code once when it is released.  `shift` is the sum of the make codes of the two shift keys
    less what the break codes take back: a repeated make code is never taken back.
-/

namespace TP2Kernel

open Transition

/-- The modifiers, which keys are held, and how often each key has repeated its make code. -/
structure Keys where
  keyboard : Keyboard
  held : UInt8 → Bool
  repeats : UInt8 → Nat

inductive KeyEvent where
  | makeCode (key : UInt8)
  | breakCode (key : UInt8)

/-- The codes that physical keys produce: a make code again only while the key is held, and
    then one break code. -/
def keyEvents : System Keys KeyEvent where
  init := fun s => s = ⟨.initial, fun _ => false, fun _ => 0⟩
  step := fun s event s' =>
    match event with
    | .makeCode key => key < 128 ∧ s' = {
        keyboard := (s.keyboard.processModifierKey key).2
        held := Function.update s.held key true
        repeats := if s.held key then Function.update s.repeats key (s.repeats key + 1)
          else s.repeats }
    | .breakCode key => key < 128 ∧ s.held key = true ∧ s' = {
        keyboard := (s.keyboard.processModifierKey (key + 128)).2
        held := Function.update s.held key false
        repeats := s.repeats }

/-- No shift key sends its make code again while it is held. -/
def NoShiftRepeat (s : Keys) (event : KeyEvent) : Prop :=
  match event with
  | .makeCode key => key = 42 ∨ key = 54 → s.held key = false
  | .breakCode _ => True

namespace Keys

/-- The make codes of a key that no break code has answered. -/
def unanswered (s : Keys) (key : UInt8) : Nat := (if s.held key then 1 else 0) + s.repeats key

/-- The two shift keys, with their codes. -/
def shiftSum (s : Keys) : Nat := 42 * s.unanswered 42 + 54 * s.unanswered 54

def ShiftHeld (s : Keys) : Prop := s.held 42 = true ∨ s.held 54 = true

/-- `isShifted` tells whether a shift key is held. -/
def ShiftFollows (s : Keys) : Prop := s.keyboard.isShifted ≠ 0 ↔ s.ShiftHeld

end Keys

/-! ### One code -/

/-- What a key adds to `shift`. -/
def shiftWeight (key : UInt8) : Nat := if key = 42 ∨ key = 54 then key.toNat else 0

theorem processModifierKey_make (k : Keyboard) {key : UInt8} (hkey : key < 128) :
    (k.processModifierKey key).2.shift.toNat = (k.shift.toNat + shiftWeight key) % 256 := by
  have hlt := k.shift.toNat_lt
  unfold Keyboard.processModifierKey shiftWeight
  by_cases hshift : key = 42 ∨ key = 54
  · rw [if_pos hshift, if_pos hshift]
    exact UInt8.toNat_add _ _
  · have hbreak : ¬ (key = 0xAA ∨ key = 0xB6) := by
      rintro (rfl | rfl) <;> exact absurd hkey (by decide)
    rw [if_neg hshift, if_neg hbreak, if_neg hshift]
    have hsame : k.shift.toNat = (k.shift.toNat + 0) % 256 := by omega
    split
    · exact hsame
    · split <;> exact hsame

/-- The break code takes the make code back. -/
theorem processModifierKey_break (k : Keyboard) {key : UInt8} (hkey : key < 128) :
    ((k.processModifierKey (key + 128)).2.shift.toNat + shiftWeight key) % 256 =
      k.shift.toNat := by
  have hlt := k.shift.toNat_lt
  have hcode : (key + 128).toNat = key.toNat + 128 := by
    have hkey' : key.toNat < 128 := UInt8.lt_iff_toNat_lt.mp hkey
    rw [UInt8.toNat_add]
    show (key.toNat + 128) % 256 = _
    omega
  have hne : ∀ c : UInt8, c.toNat < 128 → key + 128 ≠ c := by
    rintro c hc rfl
    rw [hcode] at hc
    omega
  have heq : ∀ c : UInt8, key + 128 = c + 128 ↔ key = c := fun c => add_left_inj 128
  have hbreak : (key + 128 = 0xAA ∨ key + 128 = 0xB6) ↔ (key = 42 ∨ key = 54) :=
    or_congr (heq 42) (heq 54)
  unfold Keyboard.processModifierKey shiftWeight
  rw [if_neg (not_or.mpr ⟨hne 0x2A (by decide), hne 0x36 (by decide)⟩), if_congr hbreak rfl rfl]
  by_cases hshift : key = 42 ∨ key = 54
  · rw [if_pos hshift, if_pos hshift, add_sub_cancel_right]
    show ((k.shift - key).toNat + key.toNat) % 256 = k.shift.toNat
    rw [UInt8.toNat_sub]
    have hkey' := key.toNat_lt
    omega
  · rw [if_neg hshift, if_neg hshift, if_neg (hne 0x3A (by decide)), if_neg (hne 0x45 (by decide))]
    show (k.shift.toNat + 0) % 256 = k.shift.toNat
    omega

/-! ### Runs -/

namespace Keys

variable {s s' : Keys} {key : UInt8}

theorem shiftSum_make (h : keyEvents.step s (.makeCode key) s') :
    s'.shiftSum = s.shiftSum + shiftWeight key := by
  obtain ⟨-, rfl⟩ := h
  have hsent : ∀ k : UInt8, unanswered { s with
      keyboard := (s.keyboard.processModifierKey key).2
      held := Function.update s.held key true
      repeats := if s.held key then Function.update s.repeats key (s.repeats key + 1)
        else s.repeats } k = s.unanswered k + if k = key then 1 else 0 := by
    intro k
    unfold unanswered
    by_cases hk : k = key
    · subst hk
      by_cases hheld : s.held k = true
      · simp [hheld]
        omega
      · simp [hheld]
        omega
    · by_cases hheld : s.held key = true <;> simp [hk, hheld]
  unfold shiftSum shiftWeight
  rw [hsent, hsent]
  by_cases hleft : key = 42
  · subst hleft
    simp only [if_true, true_or, if_neg (show ¬ (54 : UInt8) = 42 by decide)]
    show _ = _ + 42
    omega
  · by_cases hright : key = 54
    · subst hright
      simp only [if_true, or_true, if_neg (show ¬ (42 : UInt8) = 54 by decide)]
      show _ = _ + 54
      omega
    · simp [hleft, hright, Ne.symm hleft, Ne.symm hright]

theorem shiftSum_break (h : keyEvents.step s (.breakCode key) s') :
    s'.shiftSum + shiftWeight key = s.shiftSum := by
  obtain ⟨-, hheld, rfl⟩ := h
  have hsent : ∀ k : UInt8, s.unanswered k = unanswered { s with
      keyboard := (s.keyboard.processModifierKey (key + 128)).2
      held := Function.update s.held key false } k + if k = key then 1 else 0 := by
    intro k
    unfold unanswered
    by_cases hk : k = key
    · subst hk
      simp [hheld]
      omega
    · simp [hk]
  unfold shiftSum shiftWeight
  rw [hsent 42, hsent 54]
  by_cases hleft : key = 42
  · subst hleft
    simp only [if_true, true_or, if_neg (show ¬ (54 : UInt8) = 42 by decide)]
    show _ + 42 = _
    omega
  · by_cases hright : key = 54
    · subst hright
      simp only [if_true, or_true, if_neg (show ¬ (42 : UInt8) = 54 by decide)]
      show _ + 54 = _
      omega
    · simp [hleft, hright, Ne.symm hleft, Ne.symm hright]

/-- `shift` counts, in one byte, the make codes that were not answered. -/
theorem shift_eq (h : keyEvents.Reachable s) :
    s.keyboard.shift.toNat = s.shiftSum % 256 := by
  apply h.invariant fun s => s.keyboard.shift.toNat = s.shiftSum % 256
  · rintro s rfl
    rfl
  · intro s event s' hinv hstep
    cases event with
    | makeCode key =>
      have hshift : s'.keyboard.shift.toNat =
          (s.keyboard.shift.toNat + shiftWeight key) % 256 := by
        obtain ⟨hkey, rfl⟩ := hstep
        exact processModifierKey_make s.keyboard hkey
      rw [hshift, shiftSum_make hstep, hinv]
      omega
    | breakCode key =>
      have hshift : (s'.keyboard.shift.toNat + shiftWeight key) % 256 =
          s.keyboard.shift.toNat := by
        obtain ⟨hkey, -, rfl⟩ := hstep
        exact processModifierKey_break s.keyboard hkey
      have hsum := shiftSum_break hstep
      have hlt := s'.keyboard.shift.toNat_lt
      omega

/-- Without repeats, a key has one unanswered make code while it is held. -/
theorem repeats_eq_zero (h : (keyEvents.restrict NoShiftRepeat).Reachable s) :
    s.repeats 42 = 0 ∧ s.repeats 54 = 0 := by
  apply h.invariant fun s => s.repeats 42 = 0 ∧ s.repeats 54 = 0
  · rintro s rfl
    exact ⟨rfl, rfl⟩
  · intro s event s' hinv hstep
    obtain ⟨hok, hstep⟩ := hstep
    cases event with
    | makeCode key =>
      obtain ⟨-, rfl⟩ := hstep
      show (if s.held key then _ else _ : UInt8 → Nat) 42 = 0 ∧
        (if s.held key then _ else _ : UInt8 → Nat) 54 = 0
      by_cases hheld : s.held key = true
      · -- a key that repeats is no shift key
        have hother : ¬ (key = 42 ∨ key = 54) := by
          intro hshift
          rw [hok hshift] at hheld
          cases hheld
        rw [not_or] at hother
        rw [if_pos hheld, Function.update_of_ne (Ne.symm hother.1),
          Function.update_of_ne (Ne.symm hother.2)]
        exact hinv
      · rw [if_neg hheld]
        exact hinv
    | breakCode key =>
      obtain ⟨-, -, rfl⟩ := hstep
      exact hinv

/-! ### The result -/

theorem isShifted_eq_zero_iff (h : keyEvents.Reachable s) :
    s.keyboard.isShifted = 0 ↔ 256 ∣ s.shiftSum := by
  have hshift := shift_eq h
  unfold Keyboard.isShifted
  rw [← UInt8.toNat_inj, hshift, Nat.dvd_iff_mod_eq_zero]
  rfl

/-- **`isShifted` follows the shift keys if and only if the unanswered make codes add up to a
    multiple of 256 just when none is held**; so it does in every run without repeats. -/
theorem shiftFollows_iff (h : keyEvents.Reachable s) :
    (s.ShiftFollows ↔ (256 ∣ s.shiftSum ↔ ¬ s.ShiftHeld)) ∧
    ((keyEvents.restrict NoShiftRepeat).Reachable s → s.ShiftFollows) := by
  have hiff : s.ShiftFollows ↔ (256 ∣ s.shiftSum ↔ ¬ s.ShiftHeld) := by
    unfold ShiftFollows
    rw [Ne, isShifted_eq_zero_iff h]
    exact not_iff_comm.trans Iff.comm
  refine ⟨hiff, ?_⟩
  intro hrun
  rw [hiff]
  obtain ⟨hleft, hright⟩ := repeats_eq_zero hrun
  unfold shiftSum unanswered ShiftHeld
  rw [hleft, hright]
  by_cases hl : s.held 42 = true <;> by_cases hr : s.held 54 = true <;>
    simp only [hl, hr, if_true] <;> decide

/-- The left shift key is pressed. -/
theorem shiftFollows_iff_press : ∃ s, keyEvents.Reachable s ∧ s.held 42 = true ∧
    s.ShiftFollows := by
  have h₁ : (keyEvents.restrict NoShiftRepeat).Reachable
      ⟨⟨0, 1, 42⟩, Function.update (fun _ => false) 42 true, fun _ => 0⟩ :=
    .step (.makeCode 42) (.init rfl) ⟨fun _ => rfl, by decide, rfl⟩
  exact ⟨_, h₁.of_restrict, rfl, (shiftFollows_iff h₁.of_restrict).2 h₁⟩

/-- Pressed, repeated once and released, it stays on. -/
theorem shift_stays : ¬ ∀ s, keyEvents.Reachable s → s.ShiftFollows := by
  intro hclaim
  have hcode : (42 : UInt8) < 128 := by decide
  have h₁ : keyEvents.Reachable _ := .step (.makeCode 42) (.init rfl) ⟨hcode, rfl⟩
  have h₂ : keyEvents.Reachable _ := .step (.makeCode 42) h₁ ⟨hcode, rfl⟩
  have h₃ : keyEvents.Reachable _ := .step (.breakCode 42) h₂ ⟨hcode, rfl, rfl⟩
  rcases (hclaim _ h₃).mp (by decide) with hheld | hheld <;> exact absurd hheld (by decide)

end Keys

end TP2Kernel
