import TP2Kernel.Framework.Counting
import TP2Kernel.Process.Outcome

/-! # Descriptor tables

    `size` counts the occupied entries of a table, so there is a free entry whenever
    `addFile` looks for one.  `links i` counts the descriptors of message queue `i`.
-/

namespace TP2Kernel

namespace FileDescriptorsMap

/-- Entry `fd` is a descriptor of a file. -/
def Occupied (fds : FileDescriptorsMap) (fd : Nat) : Prop := (fds.entries fd).occupied ≠ 0

instance (fds : FileDescriptorsMap) : DecidablePred fds.Occupied := fun fd =>
  inferInstanceAs (Decidable ((fds.entries fd).occupied ≠ 0))

def Inv (fds : FileDescriptorsMap) : Prop :=
  fds.size.toNat = Counting.count fds.Occupied MAX_FILES

variable {fds : FileDescriptorsMap} {e : FileDescriptorMapEntry} {fd : Nat}

theorem inv_zero : FileDescriptorsMap.zero.Inv := by
  unfold Inv
  rw [Counting.count_eq_zero_iff.mpr fun i _ h => h rfl]
  rfl

theorem Inv.lowestFree (h : fds.Inv) (hroom : fds.size < UInt64.ofNat MAX_FILES) :
    fds.lowestFree < MAX_FILES ∧ (fds.entries fds.lowestFree).occupied = 0 := by
  have hlt : fds.size.toNat < MAX_FILES := UInt64.lt_iff_toNat_lt.mp hroom
  rw [h] at hlt
  obtain ⟨j, hj, hfree⟩ := Counting.exists_of_count_lt hlt
  have hscan : fds.lowestFree < MAX_FILES :=
    Scan.scan_lt_iff.mpr ⟨j, hj, by simpa [Occupied] using hfree⟩
  exact ⟨hscan, Scan.scan_match hscan⟩

theorem Inv.insert (h : fds.Inv) (hroom : fds.size < UInt64.ofNat MAX_FILES)
    (he : e.occupied ≠ 0) : (fds.insert e).Inv := by
  obtain ⟨hlt, hfree⟩ := h.lowestFree hroom
  have hcount := Counting.count_update_set (fun e : FileDescriptorMapEntry => e.occupied ≠ 0)
    fds.entries e hlt (not_not.mpr hfree) he
  show (fds.size + 1).toNat = _
  rw [Word.uint64_toNat_succ_of_lt hroom, h]
  exact hcount.symm

theorem Inv.erase (h : fds.Inv) (hfd : fd < MAX_FILES) (hocc : fds.Occupied fd) :
    (fds.erase fd).Inv := by
  have hcount := Counting.count_update_clear
    (fun e : FileDescriptorMapEntry => e.occupied ≠ 0) fds.entries .zero hfd hocc
    (fun hne => hne rfl)
  have hsize : fds.size.toNat =
      Counting.count (fun i => (fds.entries i).occupied ≠ 0) MAX_FILES := h
  have hpos : 0 < fds.size.toNat := by
    rw [hsize]
    exact Counting.count_pos_iff.mpr ⟨fd, hfd, hocc⟩
  show (fds.size - 1).toNat = Counting.count
    (fun i => (Function.update fds.entries fd .zero i).occupied ≠ 0) MAX_FILES
  rw [Word.uint64_toNat_pred hpos]
  omega

/-- What is counted of occupied entries counts the new one, if it is of that kind. -/
theorem count_insert (p : FileDescriptorMapEntry → Prop) [DecidablePred p]
    (hp : ∀ e, p e → e.occupied ≠ 0) (h : fds.Inv) (hroom : fds.size < UInt64.ofNat MAX_FILES) :
    Counting.count (fun fd => p ((fds.insert e).entries fd)) MAX_FILES =
      Counting.count (fun fd => p (fds.entries fd)) MAX_FILES + if p e then 1 else 0 := by
  obtain ⟨hlt, hfree⟩ := h.lowestFree hroom
  have hcount := Counting.count_update p fds.entries e hlt
  have hnone : ¬ p (fds.entries fds.lowestFree) := fun hocc => hp _ hocc hfree
  rw [if_neg hnone, Nat.add_zero] at hcount
  exact hcount

theorem count_erase (p : FileDescriptorMapEntry → Prop) [DecidablePred p]
    (hp : ∀ e, p e → e.occupied ≠ 0) (hfd : fd < MAX_FILES) :
    Counting.count (fun fd' => p ((fds.erase fd).entries fd')) MAX_FILES +
        (if p (fds.entries fd) then 1 else 0) =
      Counting.count (fun fd' => p (fds.entries fd')) MAX_FILES := by
  have hcount := Counting.count_update p fds.entries .zero hfd
  have hnone : ¬ p .zero := fun hocc => hp _ hocc rfl
  rw [if_neg hnone, Nat.add_zero] at hcount
  exact hcount

theorem insert_entries (fd : Nat) : (fds.insert e).entries fd =
    if fd = fds.lowestFree then e else fds.entries fd := by
  by_cases hfd : fd = fds.lowestFree <;> simp [insert, hfd]

theorem erase_entries (fd fd' : Nat) : (fds.erase fd).entries fd' =
    if fd' = fd then .zero else fds.entries fd' := by
  by_cases hfd : fd' = fd <;> simp [erase, hfd]

/-! ### Descriptors of a message queue -/

/-- The entry is a descriptor of message queue `i`. -/
def PointsTo (e : FileDescriptorMapEntry) (i : Nat) : Prop :=
  e.occupied ≠ 0 ∧ e.fileType = FileType.MESSAGE_QUEUE.code ∧ e.index.toNat = i

instance (e : FileDescriptorMapEntry) (i : Nat) : Decidable (PointsTo e i) :=
  inferInstanceAs (Decidable (_ ∧ _ ∧ _))

/-- The number of descriptors of message queue `i` in the table. -/
def links (fds : FileDescriptorsMap) (i : Nat) : Nat :=
  Counting.count (fun fd => PointsTo (fds.entries fd) i) MAX_FILES

theorem links_pos_iff {i : Nat} :
    0 < fds.links i ↔ ∃ fd, fd < MAX_FILES ∧ PointsTo (fds.entries fd) i :=
  Counting.count_pos_iff

theorem links_insert (h : fds.Inv) (hroom : fds.size < UInt64.ofNat MAX_FILES) (i : Nat) :
    (fds.insert e).links i = fds.links i + if PointsTo e i then 1 else 0 :=
  count_insert (PointsTo · i) (fun _ hp => hp.1) h hroom

theorem links_erase (hfd : fd < MAX_FILES) (i : Nat) :
    (fds.erase fd).links i + (if PointsTo (fds.entries fd) i then 1 else 0) = fds.links i :=
  count_erase (PointsTo · i) (fun _ hp => hp.1) hfd

theorem links_zero (i : Nat) : FileDescriptorsMap.zero.links i = 0 :=
  Counting.count_eq_zero_iff.mpr fun _ _ hp => hp.1 rfl

end FileDescriptorsMap

open FileDescriptorsMap

/-! ### The standard files -/

theorem inv_standardFiles : standardFiles.Inv := by
  unfold standardFiles stdioFiles
  apply Inv.insert _ (by decide) (by decide)
  apply Inv.insert _ (by decide) (by decide)
  apply Inv.insert _ (by decide) (by decide)
  exact inv_zero.insert (by decide) (by decide)

/-- A new process has no message queue open, and all its indices are zero. -/
theorem standardFiles_entry (fd : Nat) :
    (standardFiles.entries fd).index = 0 ∧
    (standardFiles.entries fd).fileType ≠ FileType.MESSAGE_QUEUE.code := by
  unfold standardFiles stdioFiles
  simp only [insert_entries]
  have hzero : FileDescriptorMapEntry.zero.fileType ≠ FileType.MESSAGE_QUEUE.code := by decide
  repeat' split
  · exact ⟨rfl, by decide⟩
  · exact ⟨rfl, by decide⟩
  · exact ⟨rfl, by decide⟩
  · exact ⟨rfl, by decide⟩
  · exact ⟨rfl, hzero⟩

theorem links_standardFiles (i : Nat) : standardFiles.links i = 0 := by
  apply Counting.count_eq_zero_iff.mpr
  intro fd _ h
  obtain ⟨-, htype, -⟩ := h
  exact (standardFiles_entry fd).2 htype

end TP2Kernel
