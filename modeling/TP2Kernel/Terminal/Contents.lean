import TP2Kernel.Framework.CircularBuffer
import TP2Kernel.Framework.Word
import TP2Kernel.Terminal.Buffers

/-! # What a buffer of the terminal holds

    Size and indices describe one list of characters, the oldest first, as long as only
    `enqueue` and `dequeue` work on them.
-/

namespace TP2Kernel

open CircularBuffer

namespace CharBuffer

/-- The buffer holds `l`. -/
structure Contents (b : CharBuffer) (capacity : UInt64) (l : List UInt8) : Prop where
  size : b.size.toNat = l.length
  fills : Fills b.buffer capacity.toNat b.deqIdx.toNat b.enqIdx.toNat l

variable {b : CharBuffer} {capacity : UInt64} {l : List UInt8} {c : UInt8}

/-- The characters as size and dequeue index give them. -/
def queued (b : CharBuffer) (capacity : UInt64) : List UInt8 :=
  (List.range b.size.toNat).map fun k => b.buffer ((b.deqIdx.toNat + k) % capacity.toNat)

theorem Contents.queued_eq (h : b.Contents capacity l) : b.queued capacity = l := by
  unfold queued
  apply List.ext_getElem
  · rw [List.length_map, List.length_range, h.size]
  · intro k hk hl
    rw [List.getElem_map, List.getElem_range]
    exact h.fills.cells k hl

theorem contents_empty (h : 0 < capacity) : CharBuffer.empty.Contents capacity [] :=
  ⟨rfl, Fills.nil (UInt64.lt_iff_toNat_lt.mp h)⟩

/-- An index goes one further, and around the end. -/
theorem toNat_next {index : UInt64} (h : index.toNat < capacity.toNat) :
    (if index + 1 = capacity then 0 else index + 1).toNat = next capacity.toNat index.toNat := by
  have hcap := capacity.toNat_lt
  have hsucc : (index + 1).toNat = index.toNat + 1 := Word.uint64_toNat_succ (by omega)
  unfold next
  by_cases hend : index + 1 = capacity
  · have hge : index.toNat + 1 ≥ capacity.toNat := by
      rw [← hsucc, hend]
    rw [if_pos hend, if_pos hge]
    rfl
  · have hlt : ¬ index.toNat + 1 ≥ capacity.toNat := by
      intro hge
      apply hend
      rw [← UInt64.toNat_inj, hsucc]
      omega
    rw [if_neg hend, if_neg hlt, hsucc]

theorem Contents.isFull_iff (h : b.Contents capacity l) :
    b.isFull capacity = true ↔ l.length = capacity.toNat := by
  unfold isFull
  rw [decide_eq_true_iff, ← h.size, UInt64.toNat_inj]

theorem Contents.isEmpty_iff (h : b.Contents capacity l) : b.isEmpty = true ↔ l = [] := by
  unfold isEmpty
  rw [decide_eq_true_iff, ← UInt64.toNat_inj, h.size]
  exact List.length_eq_zero_iff

theorem Contents.enqueue (h : b.Contents capacity l) (hroom : l.length < capacity.toNat)
    (c : UInt8) :
    (b.enqueue capacity c).1 = 0 ∧ (b.enqueue capacity c).2.Contents capacity (l ++ [c]) := by
  have hfull : ¬ b.isFull capacity = true := by
    rw [h.isFull_iff]
    omega
  have hcap := capacity.toNat_lt
  have hsize := h.size
  unfold CharBuffer.enqueue
  rw [if_neg hfull]
  refine ⟨rfl, ?_, ?_⟩
  · show (b.size + 1).toNat = _
    rw [Word.uint64_toNat_succ (by omega), hsize, List.length_append, List.length_singleton]
  · show Fills _ _ _ (if b.enqIdx + 1 = capacity then 0 else b.enqIdx + 1).toNat _
    rw [toNat_next h.fills.write_lt]
    exact h.fills.push hroom

theorem Contents.enqueue_full (h : b.Contents capacity l) (hfull : l.length = capacity.toNat) :
    b.enqueue capacity c = (-1, b) := by
  unfold CharBuffer.enqueue
  rw [if_pos (h.isFull_iff.mpr hfull)]

theorem Contents.dequeue (h : b.Contents capacity (c :: l)) :
    (b.dequeue capacity).1 = c.toInt8.toInt ∧ (b.dequeue capacity).2.Contents capacity l := by
  have hempty : ¬ b.isEmpty = true := by
    rw [h.isEmpty_iff]
    exact List.cons_ne_nil c l
  have hsize := h.size
  rw [List.length_cons] at hsize
  obtain ⟨hfirst, hrest⟩ := h.fills.pop
  unfold CharBuffer.dequeue
  rw [if_neg hempty]
  refine ⟨?_, ?_, ?_⟩
  · show (b.buffer b.deqIdx.toNat).toInt8.toInt = _
    rw [hfirst]
  · show (b.size - 1).toNat = _
    rw [Word.uint64_toNat_pred (by omega), hsize, Nat.add_sub_cancel]
  · show Fills _ _ (if b.deqIdx + 1 = capacity then 0 else b.deqIdx + 1).toNat _ _
    rw [toNat_next h.fills.read_lt]
    exact hrest

theorem Contents.dequeue_empty (h : b.Contents capacity []) :
    b.dequeue capacity = (-1, b) := by
  unfold CharBuffer.dequeue
  rw [if_pos (h.isEmpty_iff.mpr rfl)]

theorem Contents.pop_empty (h : b.Contents capacity []) : b.pop capacity = (-1, b) := by
  unfold CharBuffer.pop
  rw [if_pos (h.isEmpty_iff.mpr rfl)]

/-- The two indices and the size agree. -/
def InStep (b : CharBuffer) (capacity : UInt64) : Prop :=
  (b.deqIdx.toNat + b.size.toNat) % capacity.toNat = b.enqIdx.toNat

theorem Contents.inStep (h : b.Contents capacity l) : b.InStep capacity := by
  unfold InStep
  rw [h.size, ← h.fills.write_eq]

/-- Popping a character moves one index and leaves the size. -/
theorem Contents.pop_not_inStep (h : b.Contents capacity l) (hne : l ≠ [])
    (hcap : 1 < capacity.toNat) : ¬ (b.pop capacity).2.InStep capacity := by
  have hempty : ¬ b.isEmpty = true := fun hempty => hne (h.isEmpty_iff.mp hempty)
  have hlt := h.fills.write_lt
  have hsame := h.inStep
  unfold InStep at hsame ⊢
  unfold CharBuffer.pop
  rw [if_neg hempty]
  show ¬ (b.deqIdx.toNat + b.size.toNat) % capacity.toNat =
    ((if b.enqIdx = 0 then capacity else b.enqIdx) - 1).toNat
  rw [hsame]
  -- the new index is one less, or the last one
  by_cases hzero : b.enqIdx = 0
  · rw [if_pos hzero, Word.uint64_toNat_pred (by omega), hzero]
    show ¬ 0 = capacity.toNat - 1
    omega
  · have hpos : 0 < b.enqIdx.toNat := by
      apply Nat.pos_of_ne_zero
      exact fun h0 => hzero (UInt64.toNat_inj.mp h0)
    rw [if_neg hzero, Word.uint64_toNat_pred hpos]
    omega

end CharBuffer

end TP2Kernel
