import TP2Kernel.BasicFile.Invariant
import TP2Kernel.Framework.CircularBuffer

/-! # A basic file is a queue of bytes

    The page of a file is a circular buffer, and the two indices of its entry are those of
    the buffer: what is written comes out again, in the same order.
-/

namespace TP2Kernel

namespace FilesTable

/-- The bytes of the page of file `i`. -/
def cells (t : FilesTable) (mem : Memory) (i : Nat) : Nat → UInt8 :=
  fun k => mem ((t.filesTable i).stream + UInt64.ofNat k)

/-- File `i`, of `n` bytes, holds `l`. -/
structure Contents (t : FilesTable) (mem : Memory) (i n : Nat) (l : List UInt8) : Prop where
  lt : i < maxFiles
  size : (t.filesTable i).size.toNat = n
  holds : CircularBuffer.Holds (t.cells mem i) n (t.filesTable i).readIndex.toNat
    (t.filesTable i).writeIndex.toNat l

variable {t : FilesTable} {mem : Memory} {i n : Nat} {l : List UInt8}

/-- A new file is empty. -/
theorem contents_newEntry {name : CString} {stream : Addr} (hi : i < maxFiles)
    (hentry : t.filesTable i = newEntry name stream) :
    t.Contents mem i PAGE_SIZE.toNat [] := by
  refine ⟨hi, ?_, ?_⟩
  · rw [hentry]
    rfl
  · rw [hentry]
    exact CircularBuffer.Holds.nil (show 0 < PAGE_SIZE.toNat by decide)

/-! ### Indices -/

/-- How the two functions advance an index. -/
theorem toNat_nextIndex {size index : UInt64} (h : index.toNat < size.toNat) :
    (if index ≥ size - 1 then 0 else index + 1).toNat =
      CircularBuffer.next size.toNat index.toNat := by
  have hpred : (size - 1).toNat = size.toNat - 1 := Word.uint64_toNat_pred (by omega)
  have hlt := size.toNat_lt
  unfold CircularBuffer.next
  by_cases hlast : index ≥ size - 1
  · have hge : size.toNat - 1 ≤ index.toNat := by
      rw [← hpred]
      exact UInt64.le_iff_toNat_le.mp hlast
    rw [if_pos hlast, if_pos (by omega)]
    rfl
  · have hnot : ¬ size.toNat - 1 ≤ index.toNat := by
      rw [← hpred]
      exact fun hle => hlast (UInt64.le_iff_toNat_le.mpr hle)
    rw [if_neg hlast, if_neg (by omega), Word.uint64_toNat_succ (by omega)]

/-- Within a page, different offsets are different addresses. -/
theorem add_ofNat_inj {stream index : UInt64} {k : Nat} (hk : k < 2 ^ 64)
    (h : stream + UInt64.ofNat k = stream + index) : k = index.toNat := by
  have hword : UInt64.ofNat k = index := (UInt64.add_right_inj stream).mp h
  rw [← hword, UInt64.toNat_ofNat_of_lt' hk]

/-! ### Tests -/

theorem Contents.isEmpty_iff (h : t.Contents mem i n l) :
    t.basicFileIsEmpty (some i) = true ↔ l = [] := by
  rw [← h.holds.empty_iff]
  show decide ((t.filesTable i).writeIndex = (t.filesTable i).readIndex) = true ↔ _
  rw [decide_eq_true_iff]
  exact UInt64.toNat_inj.symm

theorem Contents.isFull_iff (h : t.Contents mem i n l) :
    t.basicFileIsFull (some i) = true ↔ l.length + 1 = n := by
  have hwrite := h.holds.write_lt
  have hsize := h.size
  rw [← h.holds.full_iff]
  obtain ⟨f, hf⟩ : ∃ f, t.filesTable i = f := ⟨_, rfl⟩
  rw [hf] at hsize hwrite ⊢
  have hlt := f.size.toNat_lt
  have hpred : (f.size - 1).toNat = f.size.toNat - 1 := Word.uint64_toNat_pred (by omega)
  -- the writer stands on the last byte of the file
  have hlast : f.writeIndex ≥ f.size - 1 ↔ n ≤ f.writeIndex.toNat + 1 := by
    rw [ge_iff_le, UInt64.le_iff_toNat_le, hpred]
    omega
  simp only [basicFileIsFull, entry, hf, Bool.or_eq_true, Bool.and_eq_true, decide_eq_true_eq,
    hlast]
  unfold CircularBuffer.next
  by_cases hzero : f.readIndex = 0
  · -- `readIndex - 1` is no index then
    have hno : f.writeIndex ≠ f.readIndex - 1 := by
      intro heq
      have hmax := congrArg UInt64.toNat heq
      rw [hzero] at hmax
      have : ((0 : UInt64) - 1).toNat = 2 ^ 64 - 1 := rfl
      omega
    have h0 : f.readIndex.toNat = 0 := by
      rw [hzero]
      rfl
    rw [h0]
    constructor
    · intro h
      rcases h with heq | ⟨hge, -⟩
      · exact absurd heq hno
      · rw [if_pos hge]
    · intro heq
      split at heq
      · next hge => exact .inr ⟨hge, hzero⟩
      · omega
  · have hpos : 0 < f.readIndex.toNat :=
      Nat.pos_of_ne_zero fun h0 => hzero (UInt64.toNat_inj.mp h0)
    have hread := h.holds.read_lt
    rw [hf] at hread
    -- the writer stands right behind the reader
    have hbehind : f.writeIndex = f.readIndex - 1 ↔
        f.writeIndex.toNat + 1 = f.readIndex.toNat := by
      rw [← UInt64.toNat_inj, Word.uint64_toNat_pred hpos]
      omega
    rw [hbehind]
    constructor
    · intro h
      rcases h with heq | ⟨-, hz⟩
      · rw [if_neg (by omega), heq]
      · exact absurd hz hzero
    · intro heq
      split at heq
      · omega
      · exact .inl heq

/-! ### Writing and reading -/

theorem Contents.write (h : t.Contents mem i n l) (hroom : l.length + 1 < n) (c : UInt8) :
    ∃ t' mem', t.basicFileWriteChar mem c (some i) = (1, t', mem') ∧
      t'.Contents mem' i n (l ++ [c]) := by
  have hvalid : isValidFile (some i) = true := by simpa [isValidFile] using h.lt
  have hfull : t.basicFileIsFull (some i) = false := by
    rw [← Bool.not_eq_true, h.isFull_iff]
    omega
  have hindex : (t.filesTable i).writeIndex.toNat < (t.filesTable i).size.toNat := by
    rw [h.size]
    exact h.holds.write_lt
  refine ⟨_, _, by simp only [basicFileWriteChar, hvalid, hfull]; rfl, h.lt, ?_, ?_⟩
  · rw [setEntry_self]
    exact h.size
  · rw [setEntry_self]
    simp only [toNat_nextIndex hindex, h.size]
    refine (h.holds.push (a := c) hroom).congr ?_
    intro k hk
    have hlt := (t.filesTable i).size.toNat_lt
    rw [h.size] at hlt
    unfold cells
    rw [setEntry_self]
    by_cases hkw : k = (t.filesTable i).writeIndex.toNat
    · rw [hkw, UInt64.ofNat_toNat, Function.update_self, Function.update_self]
    · rw [Function.update_of_ne hkw, Function.update_of_ne]
      exact fun heq => hkw (add_ofNat_inj (by omega) heq)

theorem Contents.read {a : UInt8} (h : t.Contents mem i n (a :: l)) :
    ∃ t', t.basicFileReadChar mem (some i) = (a.toInt8.toInt, t') ∧ t'.Contents mem i n l := by
  have hvalid : isValidFile (some i) = true := by simpa [isValidFile] using h.lt
  have hempty : t.basicFileIsEmpty (some i) = false := by
    rw [← Bool.not_eq_true, h.isEmpty_iff]
    exact List.cons_ne_nil a l
  have hindex : (t.filesTable i).readIndex.toNat < (t.filesTable i).size.toNat := by
    rw [h.size]
    exact h.holds.read_lt
  obtain ⟨hcell, hrest⟩ := h.holds.pop
  unfold cells at hcell
  rw [UInt64.ofNat_toNat] at hcell
  refine ⟨_, by simp only [basicFileReadChar, hvalid, hempty, hcell]; rfl, h.lt, ?_, ?_⟩
  · rw [setEntry_self]
    exact h.size
  · rw [setEntry_self]
    simp only [toNat_nextIndex hindex, h.size]
    apply hrest.congr
    intro k _
    unfold cells
    rw [setEntry_self]

end FilesTable

end TP2Kernel
