import Mathlib.Logic.ExistsUnique
import Mathlib.Tactic.ByContra

/-! # Locks by test-and-set

    A lock is one value, `free` or `taken`.  To take it, a process sets it to `taken` in
    one step that also tells what it was; whoever finds it other than `taken` has the
    lock.  To release it, the holder sets it to `free`.

    * `LockInv` ties the value to who holds the lock.
    * `Change`: the three things that a step of one process does to a lock.  Each keeps
      `LockInv`.
    * `Phase`: where the code of a process is in its use of a lock.  A code whose steps are
      `PhaseStep`s changes the lock in these ways only, and its phase tells what it holds.
-/

namespace TestAndSet

universe u v

variable {B : Type u} {P : Type v} {free taken value value' : B} {held held' : P → Prop} {p : P}

/-- Sets the lock.  The first component is what it was before. -/
def testAndSet (taken value : B) : B × B := (value, taken)

/-- At most one process holds the lock, and the value tells whether one does. -/
structure LockInv (free taken value : B) (held : P → Prop) : Prop where
  unique : ∀ p q, held p → held q → p = q
  taken : ∀ p, held p → value = taken
  free : (∀ p, ¬ held p) → value = free

/-- What one step of a process does to the lock: from the value and whether the process
    holds it to the same after the step. -/
inductive Change (free taken : B) (value : B) (before : Prop) (value' : B) (after : Prop) :
    Prop where
  | keep (hvalue : value' = value) (hheld : after ↔ before)
  | acquire (hfound : value ≠ taken) (hvalue : value' = taken) (hheld : after)
  | release (hmine : before) (hvalue : value' = free) (hheld : ¬ after)

/-! ### The invariant -/

theorem LockInv.init (hnone : ∀ p, ¬ held p) : LockInv free taken free held :=
  ⟨fun p _ hp => absurd hp (hnone p), fun p hp => absurd hp (hnone p), fun _ => rfl⟩

/-- A step of process `p` keeps the invariant. -/
theorem LockInv.change (h : LockInv free taken value held)
    (hother : ∀ q, q ≠ p → (held' q ↔ held q))
    (hchange : Change free taken value (held p) value' (held' p)) :
    LockInv free taken value' held' := by
  cases hchange with
  | keep hvalue hheld =>
    have hsame : ∀ q, held' q ↔ held q := by
      intro q
      by_cases hq : q = p
      · rw [hq]
        exact hheld
      · exact hother q hq
    rw [hvalue]
    exact ⟨fun q r hq hr => h.unique q r ((hsame q).mp hq) ((hsame r).mp hr),
      fun q hq => h.taken q ((hsame q).mp hq),
      fun hnone => h.free fun q hq => hnone q ((hsame q).mpr hq)⟩
  | acquire hfound hvalue hheld =>
    -- nobody held it, so nobody but `p` holds it now
    have hnone : ∀ q, ¬ held q := fun q hq => hfound (h.taken q hq)
    have honly : ∀ q, held' q → q = p := by
      intro q hq
      by_contra hne
      exact hnone q ((hother q hne).mp hq)
    exact ⟨fun q r hq hr => (honly q hq).trans (honly r hr).symm, fun _ _ => hvalue,
      fun hno => absurd hheld (hno p)⟩
  | release hmine hvalue hheld =>
    -- `p` was the only holder, so nobody holds it now
    have hnone : ∀ q, ¬ held' q := by
      intro q hq
      by_cases hqp : q = p
      · exact hheld (hqp ▸ hq)
      · exact hqp (h.unique q p ((hother q hqp).mp hq) hmine)
    rw [hvalue]
    exact LockInv.init hnone

theorem LockInv.free_or_taken (h : LockInv free taken value held) :
    value = free ∨ value = taken := by
  by_cases hex : ∃ p, held p
  · obtain ⟨p, hp⟩ := hex
    exact Or.inr (h.taken p hp)
  · exact Or.inl (h.free fun p hp => hex ⟨p, hp⟩)

/-- The lock is taken iff exactly one process holds it. -/
theorem LockInv.taken_iff (h : LockInv free taken value held) (hne : free ≠ taken) :
    value = taken ↔ ∃! p, held p := by
  constructor
  · intro htaken
    by_contra hno
    have hnone : ∀ p, ¬ held p := fun p hp => hno ⟨p, hp, fun q hq => h.unique q p hq hp⟩
    exact hne ((h.free hnone).symm.trans htaken)
  · intro hex
    obtain ⟨p, hp, -⟩ := hex
    exact h.taken p hp

/-! ### Code that uses a lock -/

/-- Where a process is in its use of a lock. -/
inductive Phase where
  /-- It does not use the lock. -/
  | away
  /-- It tries to take the lock. -/
  | locking
  /-- It has taken the lock. -/
  | holding
  /-- Its next step releases the lock. -/
  | unlocking
  deriving DecidableEq

namespace Phase

/-- The process has taken the lock and not released it. -/
def inside : Phase → Bool
  | away | locking => false
  | holding | unlocking => true

/-- Whether a process holds the lock after a step, from whether it did before: it does once
    it is past its attempts, and no more after the release. -/
def holds (before after : Phase) (held : Bool) : Bool :=
  match before with
  | locking => if after = locking then held else true
  | unlocking => false
  | away | holding => held

end Phase

/-- A step of a code that takes the lock before it holds it and releases it before it
    leaves. -/
inductive PhaseStep (free taken : B) (value : B) : Phase → B → Phase → Prop where
  | spin (hfound : value = taken) : PhaseStep free taken value .locking value .locking
  | acquire {after} (hfound : value ≠ taken) (hafter : after.inside = true) :
      PhaseStep free taken value .locking taken after
  | stay {after} (hafter : after.inside = true) :
      PhaseStep free taken value .holding value after
  | release {after} (hafter : after.inside = false) :
      PhaseStep free taken value .unlocking free after
  | other {after} (hafter : after.inside = false) :
      PhaseStep free taken value .away value after

namespace PhaseStep

variable {before after : Phase}

theorem change (h : PhaseStep free taken value before value' after) :
    Change free taken value (before.inside = true) value' (after.inside = true) := by
  cases h with
  | spin hfound => exact .keep rfl Iff.rfl
  | acquire hfound hafter => exact .acquire hfound rfl hafter
  | stay hafter => exact .keep rfl ⟨fun _ => rfl, fun _ => hafter⟩
  | release hafter => exact .release rfl rfl (by simp [hafter])
  | other hafter =>
    apply Change.keep rfl
    rw [hafter]
    exact Iff.rfl

/-- The phase tells what the process holds. -/
theorem holds (h : PhaseStep free taken value before value' after) :
    before.holds after before.inside = after.inside := by
  cases h with
  | spin => rfl
  | acquire hfound hafter =>
    have hpast : after ≠ .locking := by
      rintro rfl
      exact absurd hafter (by decide)
    simp [Phase.holds, hpast, hafter]
  | stay hafter => exact hafter.symm
  | release hafter => exact hafter.symm
  | other hafter => exact hafter.symm

end PhaseStep

end TestAndSet
