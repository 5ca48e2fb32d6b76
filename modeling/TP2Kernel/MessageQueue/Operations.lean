import TP2Kernel.BasicFile.Fifo
import TP2Kernel.MessageQueue.Outcome

/-! # `operateFile` on a message queue

    The tests, reading and writing, by a process with a descriptor of the queue.  A
    transfer either is refused, and changes nothing, or is that of the file; one that the
    file itself rejects counts as done.
-/

namespace TP2Kernel

namespace Kernel

/-- Descriptor `fd` of process `k` is message queue `i`. -/
structure EndAt (s : Kernel) (k fd : UInt64) (i : Nat) : Prop where
  good : s.pcb.badIndex k = false
  lt : fd.toNat < MAX_FILES
  occupied : (s.descriptor k fd).occupied ≠ 0
  fileType : (s.descriptor k fd).fileType = FileType.MESSAGE_QUEUE.code
  index : (s.descriptor k fd).index.toNat = i
  slot : i < MAX_MQS

variable {s s' : Kernel} {k fd : UInt64} {i f : Nat} {c : UInt8}

/-- Only the descriptors matter. -/
theorem EndAt.congr (h : s.EndAt k fd i) (hbad : s'.pcb.badIndex k = s.pcb.badIndex k)
    (hentry : s'.descriptor k fd = s.descriptor k fd) : s'.EndAt k fd i := by
  refine ⟨hbad.trans h.good, h.lt, ?_, ?_, ?_, h.slot⟩
  · rw [hentry]
    exact h.occupied
  · rw [hentry]
    exact h.fileType
  · rw [hentry]
    exact h.index

theorem EndAt.tableIndex (h : s.EndAt k fd i) :
    (tableIndex (s.descriptor k fd).index.toUInt64.toInt64).toNat = i := by
  have hlt := h.slot
  unfold MAX_MQS at hlt
  rw [toNat_tableIndex (by rw [h.index]; omega), h.index]

theorem EndAt.openEntry (h : s.EndAt k fd i) : s.OpenEntry k fd :=
  ⟨h.good, h.lt, h.occupied⟩

/-- `operateFile`, but for `CLOSE`, is `operate` on the slot. -/
theorem EndAt.operateFile (h : s.EndAt k fd i) {operation : FileOperation}
    (hclose : operation ≠ .CLOSE) : s.operateFile k fd operation c =
      if s.pcb.hasPermissions k fd operation = 0 then (-1, c, s)
      else s.operate operation FileType.MESSAGE_QUEUE.code
        (s.descriptor k fd).index.toUInt64.toInt64 c := by
  rw [h.openEntry.operateFile hclose, h.fileType]

/-! ### Closing -/

/-- A process that has an end of the queue can close its descriptor. -/
theorem EndAt.operateFile_close (h : s.EndAt k fd i)
    (hlive : (s.mqs i).file ≠ none)
    (hmine : (s.mqs i).readPID = s.getCurrentPID ∨ (s.mqs i).writePID = s.getCurrentPID) :
    s.operateFile k fd .CLOSE c = (0, c, (s.MQclose i).2.withoutDescriptor k fd) := by
  have hpass : ¬ ((s.pcb.badIndex k || decide (s.pcb.existsFile k fd = 0)) = true) := by
    simp [h.good, h.openEntry.existsFile]
  have hperm : ¬ s.pcb.hasPermissions k fd .CLOSE = 0 := by
    show ¬ (1 : UInt64) = 0
    decide
  have hcode : (s.MQclose i).1 ≠ -1 := by
    have hcl := MQclose_closed s i
    generalize (s.MQclose i).1 = code, (s.MQclose i).2 = s' at hcl
    cases hcl with
    | refused hno =>
      rcases hno with hdead | ⟨hr, hw⟩
      · exact absurd hdead hlive
      · rcases hmine with hmine | hmine
        · exact absurd hmine hr
        · exact absurd hmine hw
    | kept | destroyed => decide
  have hpcb := (MQclose_closed s i).pcb
  have hremove : (s.MQclose i).2.pcb.removeFile k fd = (0, (s.MQclose i).2.pcb.modifyProcess
      k.toNat fun process => { process with
        fileDescriptors := process.fileDescriptors.erase fd.toNat }) :=
    removeFile_eq (by rw [hpcb]; exact h.good) h.lt
  unfold Kernel.operateFile
  rw [if_neg hpass, if_neg hperm, h.fileType]
  simp only [operate, FileType.ofCode_code, close, h.tableIndex, if_neg hcode]
  simp only [hremove]
  rfl

/-! ### Tests -/

theorem operateFile_isFull (h : s.EndAt k fd i) (hfile : (s.mqs i).file = some f) :
    s.operateFile k fd .IS_FULL c =
      (if s.files.basicFileIsFull (some f) = true then 0 else -1, c, s) := by
  have hperm : ¬ s.pcb.hasPermissions k fd .IS_FULL = 0 := by
    show ¬ (1 : UInt64) = 0
    decide
  have hlt : ¬ MAX_MQS ≤ i := Nat.not_le.mpr h.slot
  rw [h.operateFile (by decide), if_neg hperm]
  simp only [operate, FileType.ofCode_code, isFull, MQisFull, h.tableIndex, hfile]
  by_cases hfull : s.files.basicFileIsFull (some f) = true <;> simp [hfull, hlt]

theorem operateFile_isEmpty (h : s.EndAt k fd i) (hfile : (s.mqs i).file = some f) :
    s.operateFile k fd .IS_EMPTY c =
      (if s.files.basicFileIsEmpty (some f) = true then 0 else -1, c, s) := by
  have hperm : ¬ s.pcb.hasPermissions k fd .IS_EMPTY = 0 := by
    show ¬ (1 : UInt64) = 0
    decide
  have hlt : ¬ MAX_MQS ≤ i := Nat.not_le.mpr h.slot
  rw [h.operateFile (by decide), if_neg hperm]
  simp only [operate, FileType.ofCode_code, isEmpty, MQisEmpty, h.tableIndex, hfile]
  by_cases hempty : s.files.basicFileIsEmpty (some f) = true <;> simp [hempty, hlt]

/-! ### Transfers -/

/-- Descriptor and queue are the current process's for writing. -/
def MayWrite (s : Kernel) (k fd : UInt64) (i : Nat) : Prop :=
  s.pcb.hasPermissions k fd .WRITE ≠ 0 ∧ (s.mqs i).writePID = s.getCurrentPID

/-- Descriptor and queue are the current process's for reading. -/
def MayRead (s : Kernel) (k fd : UInt64) (i : Nat) : Prop :=
  s.pcb.hasPermissions k fd .READ ≠ 0 ∧ (s.mqs i).readPID = s.getCurrentPID

instance : Decidable (s.MayWrite k fd i) := inferInstanceAs (Decidable (_ ∧ _))
instance : Decidable (s.MayRead k fd i) := inferInstanceAs (Decidable (_ ∧ _))

theorem operateFile_write (h : s.EndAt k fd i) (hfile : (s.mqs i).file = some f)
    {r : Int} {files : FilesTable} {mem : Memory}
    (hwrite : s.files.basicFileWriteChar s.mem c (some f) = (r, files, mem)) :
    s.operateFile k fd .WRITE c =
      if s.MayWrite k fd i then (0, c, { s with files := files, mem := mem }) else (-1, c, s) := by
  rw [h.operateFile (by decide)]
  by_cases hperm : s.pcb.hasPermissions k fd .WRITE = 0
  · rw [if_pos hperm, if_neg (fun hmay : s.MayWrite k fd i => hmay.1 hperm)]
  have hlt : ¬ MAX_MQS ≤ i := Nat.not_le.mpr h.slot
  rw [if_neg hperm]
  simp only [operate, FileType.ofCode_code, writeChar, MQwriteChar, h.tableIndex, hfile, hwrite]
  by_cases hpid : (s.mqs i).writePID = s.getCurrentPID
  · have hmay : s.MayWrite k fd i := ⟨hperm, hpid⟩
    rw [if_pos hmay]
    -- whether the file took the byte or not
    by_cases hr : r = EOF <;> simp [hlt, hpid, hr]
  · have hmay : ¬ s.MayWrite k fd i := fun hmay => hpid hmay.2
    simp [hpid, hmay]

theorem operateFile_read (h : s.EndAt k fd i) (hfile : (s.mqs i).file = some f)
    {r : Int} {files : FilesTable}
    (hread : s.files.basicFileReadChar s.mem (some f) = (r, files)) :
    s.operateFile k fd .READ c =
      if s.MayRead k fd i then (0, toChar r, { s with files := files }) else (-1, c, s) := by
  rw [h.operateFile (by decide)]
  by_cases hperm : s.pcb.hasPermissions k fd .READ = 0
  · rw [if_pos hperm, if_neg (fun hmay : s.MayRead k fd i => hmay.1 hperm)]
  have hlt : ¬ MAX_MQS ≤ i := Nat.not_le.mpr h.slot
  rw [if_neg hperm]
  simp only [operate, FileType.ofCode_code, readChar, MQreadChar, h.tableIndex, hfile, hread]
  by_cases hpid : (s.mqs i).readPID = s.getCurrentPID
  · have hmay : s.MayRead k fd i := ⟨hperm, hpid⟩
    rw [if_pos hmay]
    -- a byte 255 is the `EOF` of a `char`, and returns 0
    by_cases hr : (toChar r).toInt8.toInt = EOF <;> simp [hlt, hpid, hr]
  · have hmay : ¬ s.MayRead k fd i := fun hmay => hpid hmay.2
    simp [hpid, hmay]

end Kernel

end TP2Kernel
