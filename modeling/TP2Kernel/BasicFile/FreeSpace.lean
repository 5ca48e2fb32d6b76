import TP2Kernel.BasicFile.Queue

/-! # The free space of a basic file

    `getBasicFileFreeSpace` is the distance from the write index to the end of the buffer, or
    to a read index that lies ahead.  What can be written is another number: one byte of the
    buffer always stays free, and the bytes before the read index are free as well.
-/

namespace TP2Kernel

open Transition

namespace FilesTable

def getBasicFileFreeSpace (t : FilesTable) (f : BasicFile) : UInt64 :=
  let f := t.entry f
  if f.writeIndex ≥ f.readIndex then f.size - f.writeIndex else f.readIndex - f.writeIndex

/-- How many calls of `basicFileWriteChar` succeed, with these characters one after the other,
    before one returns `EOF`. -/
def acceptedWrites (t : FilesTable) (mem : Memory) (file : BasicFile) : List UInt8 → Nat
  | [] => 0
  | c :: cs =>
    let (result, t, mem) := t.basicFileWriteChar mem c file
    if result = EOF then 0 else t.acceptedWrites mem file cs + 1

variable {t : FilesTable} {mem : Memory} {i n : Nat} {l : List UInt8}

/-- One byte stays free. -/
theorem Contents.acceptedWrites (h : t.Contents mem i n l) (cs : List UInt8) :
    t.acceptedWrites mem (some i) cs = min cs.length (n - 1 - l.length) := by
  have hroom := h.holds.room
  induction cs generalizing t mem l with
  | nil => exact (Nat.zero_min _).symm
  | cons c cs ih =>
    by_cases hfull : l.length + 1 = n
    · simp only [FilesTable.acceptedWrites, h.write_refused hfull c, if_true]
      omega
    · obtain ⟨t', mem', hwrite, hafter⟩ := h.write (by omega) c
      have hrest := ih hafter hafter.holds.room
      rw [List.length_append, List.length_singleton] at hrest
      simp only [FilesTable.acceptedWrites, hwrite, if_neg (show ¬ (1 : Int) = EOF by decide),
        hrest, List.length_cons]
      omega

theorem Contents.toNat_freeSpace (h : t.Contents mem i n l) :
    (t.getBasicFileFreeSpace (some i)).toNat =
      if (t.filesTable i).readIndex.toNat ≤ (t.filesTable i).writeIndex.toNat then
        n - (t.filesTable i).writeIndex.toNat
      else (t.filesTable i).readIndex.toNat - (t.filesTable i).writeIndex.toNat := by
  have hwrite := h.holds.write_lt
  have hsize := h.size
  have hentry : t.entry (some i) = t.filesTable i := rfl
  simp only [getBasicFileFreeSpace, hentry, ge_iff_le, UInt64.le_iff_toNat_le]
  split
  · rw [UInt64.toNat_sub_of_le _ _ (UInt64.le_iff_toNat_le.mpr (by omega)), hsize]
  · exact UInt64.toNat_sub_of_le _ _ (UInt64.le_iff_toNat_le.mpr (by omega))

end FilesTable

namespace FileMemory

/-- The free space is the number of characters that can be written. -/
def FreeSpaceExact (s : FileMemory) (i : Nat) : Prop :=
  ∀ cs, s.files.acceptedWrites s.mem (some i) cs =
    min cs.length (s.files.getBasicFileFreeSpace (some i)).toNat

variable {s : FileMemory} {i n : Nat} {size : UInt64} {l : List UInt8}

/-- The byte that stays free is made up for by one, and only one, before the read index. -/
theorem freeSpaceExact_of_contents (h : s.files.Contents s.mem i n l) :
    s.FreeSpaceExact i ↔ (s.files.filesTable i).readIndex = 1 ∧
      1 ≤ (s.files.filesTable i).writeIndex := by
  have hread := h.holds.read_lt
  have hwrite := h.holds.write_lt
  have hlength := h.holds.length_eq
  have hfree := h.toNat_freeSpace
  have hone : (s.files.filesTable i).readIndex = 1 ↔
      (s.files.filesTable i).readIndex.toNat = 1 := UInt64.toNat_inj.symm
  have hle : 1 ≤ (s.files.filesTable i).writeIndex ↔
      1 ≤ (s.files.filesTable i).writeIndex.toNat := UInt64.le_iff_toNat_le
  rw [hone, hle]
  constructor
  · intro hexact
    have hmin := hexact (List.replicate n 0)
    rw [h.acceptedWrites, List.length_replicate] at hmin
    split at hlength
    · next hahead =>
      rw [if_pos hahead] at hfree
      omega
    · next hbehind =>
      rw [if_neg hbehind] at hfree
      omega
  · intro hcond cs
    obtain ⟨hr, hw⟩ := hcond
    have hahead : (s.files.filesTable i).readIndex.toNat ≤
        (s.files.filesTable i).writeIndex.toNat := by omega
    rw [if_pos hahead] at hlength hfree
    have hroom : n - 1 - l.length = n - (s.files.filesTable i).writeIndex.toNat := by omega
    rw [h.acceptedWrites, hfree, hroom]

/-- **The free space is what can still be written if and only if the read index is 1 and the
    write index is not back at 0.** -/
theorem freeSpaceExact_iff (h : (fileCalls i size).Reachable s) :
    s.FreeSpaceExact i ↔ (s.files.filesTable i).readIndex = 1 ∧
      1 ≤ (s.files.filesTable i).writeIndex :=
  freeSpaceExact_of_contents (contents_reachable h)

/-- One byte is written and read. -/
theorem freeSpaceExact_iff_oneByte :
    ∃ s, (fileCalls 0 4000).Reachable s ∧ s.files.getBasicFileFreeSpace (some 0) = 3999 ∧
      s.FreeSpaceExact 0 := by
  have hinit := oneFile_init fun _ => 0
  have hwrite : (fileCalls 0 4000).Reachable _ := .step (.basicFileWriteChar 7) (.init hinit) rfl
  have hread : (fileCalls 0 4000).Reachable _ := .step .basicFileReadChar hwrite rfl
  exact ⟨_, hread, by decide +kernel, (freeSpaceExact_iff hread).mpr ⟨by decide +kernel,
    by decide +kernel⟩⟩

/-- A new file of 4000 bytes has room for 3999. -/
theorem freeSpace_not_exact :
    ¬ ∀ i size s, (fileCalls i size).Reachable s → s.FreeSpaceExact i := by
  intro hclaim
  have hinit := oneFile_init fun _ => 0
  have hexact := hclaim 0 4000 _ (.init hinit)
  have hread := ((freeSpaceExact_of_contents (contents_init hinit)).mp hexact).1
  exact absurd hread (by decide +kernel)

end FileMemory

end TP2Kernel
