import TP2Kernel.Framework.BoundedQueue
import TP2Kernel.Terminal.Contents

/-! # The raw keys as a queue (`Kernel/c/rawKeys.c`)

    The keyboard's interrupt adds scan codes and a program reads them.  The buffer is a queue
    that drops what arrives when it is full, but `rawReadChar` takes its scan code from a signed
    `char`, so that the code 255 comes out as the error -1, and is gone.
-/

namespace TP2Kernel

open Transition

namespace RawKeys

/-- The scan codes in the buffer, the oldest first. -/
def scanCodes (r : RawKeys) : List UInt8 := CharBuffer.queued r RAW_BUFFER_SIZE

inductive RawCall where
  | rawAddElement (scanCode : UInt8)
  | rawReadChar

/-- What the call is for a queue. -/
def RawCall.toQueue : RawCall → BoundedQueue.Call UInt8
  | .rawAddElement scanCode => .enqueue scanCode
  | .rawReadChar => .dequeue

def rawCalls : System RawKeys RawCall where
  init := fun r => r = CharBuffer.empty
  step := fun r call r' =>
    match call with
    | .rawAddElement scanCode => r' = (rawAddElement r scanCode).2
    | .rawReadChar => r' = (rawReadChar r).2.2

/-- `rawReadChar` fails when there is nothing to read, and otherwise hands out the oldest scan
    code and removes only it. -/
structure Intact (r : RawKeys) : Prop where
  fails : (rawReadChar r).1 = -1 ↔ scanCodes r = []
  oldest : ∀ a l, scanCodes r = a :: l →
    ∃ r', rawReadChar r = (1, some a, r') ∧ scanCodes r' = l

/-- No key has the scan code 255. -/
def No255 (_ : RawKeys) (call : RawCall) : Prop :=
  match call with
  | .rawAddElement scanCode => scanCode ≠ 255
  | .rawReadChar => True

variable {r r' : RawKeys} {l : List UInt8}

/-! ### The calls -/

/-- The buffer holds `l`. -/
def Holds (r : RawKeys) (l : List UInt8) : Prop := CharBuffer.Contents r RAW_BUFFER_SIZE l

theorem Holds.scanCodes_eq (h : Holds r l) : scanCodes r = l := CharBuffer.Contents.queued_eq h

theorem Holds.rawAddElement (h : Holds r l) (c : UInt8) : Holds (rawAddElement r c).2
    (BoundedQueue.afterCall RAW_BUFFER_SIZE.toNat l (.enqueue c)) := by
  show Holds (CharBuffer.enqueue r RAW_BUFFER_SIZE c).2
    ((BoundedQueue.enqueue RAW_BUFFER_SIZE.toNat l c).getD l)
  by_cases hroom : l.length < RAW_BUFFER_SIZE.toNat
  · rw [BoundedQueue.enqueue_of_lt hroom]
    exact (CharBuffer.Contents.enqueue h hroom c).2
  · have hfull := Nat.le_antisymm h.fills.fits (Nat.le_of_not_lt hroom)
    rw [BoundedQueue.enqueue_eq_none_iff.mpr (Nat.le_of_not_lt hroom),
      CharBuffer.Contents.enqueue_full h hfull]
    exact h

/-- The oldest scan code is removed, whatever the result says. -/
theorem Holds.rawReadChar (h : Holds r l) : Holds (rawReadChar r).2.2
    (BoundedQueue.afterCall RAW_BUFFER_SIZE.toNat l .dequeue) := by
  have hafter : (RawKeys.rawReadChar r).2.2 = (CharBuffer.dequeue r RAW_BUFFER_SIZE).2 := by
    unfold RawKeys.rawReadChar rawDequeueKey
    generalize CharBuffer.dequeue r RAW_BUFFER_SIZE = called
    by_cases hfail : called.1 = -1 <;> simp only [hfail, if_true, if_false]
  rw [hafter]
  show Holds (CharBuffer.dequeue r RAW_BUFFER_SIZE).2 l.tail
  cases l with
  | nil =>
    rw [CharBuffer.Contents.dequeue_empty h]
    exact h
  | cons a l => exact (CharBuffer.Contents.dequeue h).2

theorem Holds.rawReadChar_nil (h : Holds r []) : RawKeys.rawReadChar r = (-1, none, r) := by
  unfold RawKeys.rawReadChar rawDequeueKey
  rw [CharBuffer.Contents.dequeue_empty h]
  rfl

/-- A scan code other than 255 is handed out as it is. -/
theorem Holds.rawReadChar_cons {a : UInt8} (h : Holds r (a :: l)) :
    (RawKeys.rawReadChar r).1 = (if a = 255 then -1 else 1) ∧
    (RawKeys.rawReadChar r).2.1 = if a = 255 then none else some a := by
  obtain ⟨hfirst, -⟩ := CharBuffer.Contents.dequeue h
  have h255 : a.toInt8.toInt = -1 ↔ a = 255 := toInt8_toInt_eq_iff a 255
  unfold RawKeys.rawReadChar rawDequeueKey
  by_cases hlost : a = 255
  · simp [hfirst, hlost]
  · simp [hfirst, h255, hlost, toChar_toInt]

/-! ### Runs -/

theorem holds_step {call : RawCall} (h : Holds r l) (hstep : rawCalls.step r call r') :
    Holds r' (BoundedQueue.afterCall RAW_BUFFER_SIZE.toNat l call.toQueue) := by
  cases call with
  | rawAddElement scanCode =>
    obtain rfl := hstep
    exact h.rawAddElement scanCode
  | rawReadChar =>
    obtain rfl := hstep
    exact h.rawReadChar

theorem holds_reachable (h : rawCalls.Reachable r) : Holds r (scanCodes r) := by
  obtain ⟨l, hl⟩ : ∃ l, Holds r l := by
    apply h.invariant fun r => ∃ l, Holds r l
    · rintro r rfl
      exact ⟨[], CharBuffer.contents_empty (by decide)⟩
    · rintro r call r' ⟨l, hl⟩ hstep
      exact ⟨_, holds_step hl hstep⟩
  rw [hl.scanCodes_eq]
  exact hl

/-- The runs of the buffer are runs of a bounded queue, call by call. -/
theorem rawCalls_refines (h : rawCalls.Reachable r) :
    (BoundedQueue.queue UInt8 RAW_BUFFER_SIZE.toNat).Reachable (scanCodes r) := by
  apply h.map fun r hreach => holds_reachable hreach
  · rintro r rfl
    rfl
  · intro r call r' hl hstep
    exact .inl ⟨call.toQueue, (holds_step hl hstep).scanCodes_eq⟩

theorem no255_reachable (h : (rawCalls.restrict No255).Reachable r) : 255 ∉ scanCodes r := by
  have hboth : ∃ l, Holds r l ∧ 255 ∉ l := by
    apply h.invariant fun r => ∃ l, Holds r l ∧ 255 ∉ l
    · rintro r rfl
      exact ⟨[], CharBuffer.contents_empty (by decide), List.not_mem_nil⟩
    · rintro r call r' ⟨l, hl, hno⟩ ⟨hok, hstep⟩
      refine ⟨_, holds_step hl hstep, ?_⟩
      cases call with
      | rawAddElement scanCode =>
        show 255 ∉ (BoundedQueue.enqueue RAW_BUFFER_SIZE.toNat l scanCode).getD l
        unfold BoundedQueue.enqueue
        split
        · rw [Option.getD_some, List.mem_append, List.mem_singleton, not_or]
          exact ⟨hno, fun heq => hok heq.symm⟩
        · exact hno
      | rawReadChar => exact fun hmem => hno (List.mem_of_mem_tail hmem)
  obtain ⟨l, hl, hno⟩ := hboth
  rw [hl.scanCodes_eq]
  exact hno

/-! ### The result -/

theorem Holds.intact_iff (h : Holds r l) : Intact r ↔ l.head? ≠ some 255 := by
  cases l with
  | nil =>
    have hread := h.rawReadChar_nil
    refine ⟨fun _ => by simp, fun _ => ⟨?_, ?_⟩⟩
    · rw [hread, h.scanCodes_eq]
      simp
    · intro a l heq
      rw [h.scanCodes_eq] at heq
      cases heq
  | cons a l =>
    obtain ⟨hresult, hdest⟩ := h.rawReadChar_cons
    have hafter := h.rawReadChar.scanCodes_eq
    rw [List.head?_cons, Ne, Option.some_inj]
    constructor
    · rintro hintact rfl
      have hnil := hintact.fails.mp hresult
      rw [h.scanCodes_eq] at hnil
      cases hnil
    · intro hplain
      rw [if_neg hplain] at hresult hdest
      refine ⟨?_, ?_⟩
      · rw [hresult, h.scanCodes_eq]
        simp
      · intro b rest heq
        rw [h.scanCodes_eq] at heq
        obtain ⟨rfl, rfl⟩ := List.cons.inj heq
        exact ⟨_, Prod.ext hresult (Prod.ext hdest rfl), hafter⟩

/-- **The raw buffer is a queue that drops only what arrives when it is full; its oldest scan
    code is read intact if and only if it is not 255**, so that all of them are in every run in
    which no 255 arrives. -/
theorem rawKeys_intact_iff (h : rawCalls.Reachable r) :
    (BoundedQueue.queue UInt8 RAW_BUFFER_SIZE.toNat).Reachable (scanCodes r) ∧
    (∀ call r', rawCalls.step r call r' → scanCodes r' =
      BoundedQueue.afterCall RAW_BUFFER_SIZE.toNat (scanCodes r) call.toQueue) ∧
    (Intact r ↔ (scanCodes r).head? ≠ some 255) ∧
    ((rawCalls.restrict No255).Reachable r → Intact r) := by
  have hl := holds_reachable h
  refine ⟨rawCalls_refines h, ?_, hl.intact_iff, ?_⟩
  · intro call r' hstep
    exact (holds_step hl hstep).scanCodes_eq
  · intro hrun
    rw [hl.intact_iff]
    intro hhead
    exact no255_reachable hrun (List.mem_of_head? hhead)

/-- A buffer with the scan code 30. -/
theorem rawKeys_intact_iff_key : ∃ r, rawCalls.Reachable r ∧ scanCodes r = [30] ∧ Intact r := by
  have h₁ : (rawCalls.restrict No255).Reachable (rawAddElement CharBuffer.empty 30).2 :=
    .step (.rawAddElement 30) (.init rfl) ⟨show (30 : UInt8) ≠ 255 by decide, rfl⟩
  exact ⟨_, h₁.of_restrict, by decide, (rawKeys_intact_iff h₁.of_restrict).2.2.2 h₁⟩

/-- The scan code 255 is reported like an empty buffer, and is gone. -/
theorem scanCode_255_lost : ¬ ∀ r, rawCalls.Reachable r → Intact r := by
  intro hclaim
  have h₁ : rawCalls.Reachable (rawAddElement CharBuffer.empty 255).2 :=
    .step (.rawAddElement 255) (.init rfl) rfl
  have hnil := (hclaim _ h₁).fails.mp (by decide)
  exact absurd hnil (by decide)

end RawKeys

end TP2Kernel
