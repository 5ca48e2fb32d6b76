import TP2Kernel.BasicFile.Invariant
import TP2Kernel.FileManager.Operate

/-! # What the calls of the message queues can do

    `MQopen`, `MQclose` and `operateFile` with `CLOSE`, each with the results it can have
    and the state it leaves.
-/

namespace TP2Kernel

/-! ### One slot -/

namespace MessageQueue

/-- Nobody has the queue open in the mode the flags ask for; reading comes first. -/
def Available (q : MessageQueue) (accessFlags : UInt32) : Prop :=
  if accessFlags &&& F_READ ≠ 0 then q.readPID = -1
  else accessFlags &&& F_WRITE ≠ 0 ∧ q.writePID = -1

instance (q : MessageQueue) (accessFlags : UInt32) : Decidable (q.Available accessFlags) := by
  unfold Available
  exact inferInstance

/-- The slot after `markAccess`. -/
def marked (q : MessageQueue) (pid : UInt64) (accessFlags : UInt32) : MessageQueue :=
  if accessFlags &&& F_READ ≠ 0 then { q with readPID := pid } else { q with writePID := pid }

/-- A slot with a file that nobody has marked. -/
def unused (file : BasicFile) : MessageQueue := ⟨file, 0, -1, -1⟩

/-- The slot after `MQclose` took the pid and a link away. -/
def unmarked (q : MessageQueue) (pid : UInt64) : MessageQueue where
  file := q.file
  links := if q.links > 0 then q.links - 1 else q.links
  readPID := if q.readPID = pid then -1 else q.readPID
  writePID := if q.readPID = pid then q.writePID else -1

@[simp] theorem marked_file (q : MessageQueue) (pid : UInt64) (accessFlags : UInt32) :
    (q.marked pid accessFlags).file = q.file := by
  unfold marked
  split <;> rfl

@[simp] theorem marked_links (q : MessageQueue) (pid : UInt64) (accessFlags : UInt32) :
    (q.marked pid accessFlags).links = q.links := by
  unfold marked
  split <;> rfl

theorem available_unused (file : BasicFile) {accessFlags : UInt32}
    (hflags : ¬ (accessFlags &&& F_READ = 0 ∧ accessFlags &&& F_WRITE = 0)) :
    (unused file).Available accessFlags := by
  unfold Available unused
  by_cases hread : accessFlags &&& F_READ = 0
  · simpa [hread] using hflags
  · simp [hread]

/-- What is marked in an unused slot is taken off again by a close. -/
theorem marked_unmarked (file : BasicFile) (pid : UInt64) (accessFlags : UInt32) :
    ((unused file).marked pid accessFlags).unmarked pid = unused file := by
  unfold marked
  split
  · simp [unmarked, unused]
  · by_cases hpid : (-1 : UInt64) = pid
    · subst hpid
      simp [unmarked, unused]
    · simp [unmarked, unused, hpid]

end MessageQueue

namespace Kernel

variable {s s' : Kernel} {name : CString} {accessFlags : UInt32}

/-! ### The static functions -/

theorem indexOfMQ_some {i : Nat} (h : s.indexOfMQ name = some i) :
    i < MAX_MQS ∧ (s.mqs i).file ≠ none ∧ s.files.getBasicFileName (s.mqs i).file = name := by
  obtain ⟨hi, hlive, hname, -⟩ := Scan.countedScan_some h
  exact ⟨hi, hlive, (streql_iff _ _).mp hname⟩

theorem findFreeSlot_some {i : Nat} (h : s.findFreeSlot = some i) :
    i < MAX_MQS ∧ (s.mqs i).file = none := by
  unfold findFreeSlot at h
  simp only at h
  split at h
  · next hlt =>
    obtain rfl := Option.some.inj h
    exact ⟨hlt, Scan.scan_match hlt⟩
  · cases h

theorem markAccess_eq {i : Nat} {pid : UInt64} (hfile : (s.mqs i).file ≠ none) :
    s.markAccess i pid accessFlags =
      if (s.mqs i).Available accessFlags then
        (1, s.setMQ i ((s.mqs i).marked pid accessFlags))
      else (-1, s) := by
  unfold markAccess MessageQueue.Available MessageQueue.marked
  simp only [hfile, if_false]
  by_cases hread : accessFlags &&& F_READ = 0
  · by_cases hwrite : accessFlags &&& F_WRITE = 0
    · simp [hread, hwrite]
    · by_cases hpid : (s.mqs i).writePID = -1 <;> simp [hread, hwrite, hpid]
  · by_cases hpid : (s.mqs i).readPID = -1 <;> simp [hread, hpid]

/-- The kernel with a new queue in slot `i`, marked for the current process. -/
def withMQ (s : Kernel) (i : Nat) (name : CString) (accessFlags : UInt32) : Kernel :=
  { s with
    files := s.files.withFile s.files.firstFree (FilesTable.newEntry name s.pages.pop.2)
    pages := s.pages.pop.1
    mqs := Function.update s.mqs i
      ((MessageQueue.unused (some s.files.firstFree)).marked s.getCurrentPID accessFlags)
    numMQs := s.numMQs + 1 }

/-- The file for a queue of that name can be created. -/
def CanCreateFile (s : Kernel) (name : CString) : Prop :=
  ¬ FilesTable.BadName name ∧ s.pages.pop.2 ≠ NULL ∧ s.files.Accepts name

instance (s : Kernel) (name : CString) : Decidable (s.CanCreateFile name) :=
  inferInstanceAs (Decidable (_ ∧ _ ∧ _))

/-- What the attempt to create the file does to the pages when it fails. -/
def pagesAfter (s : Kernel) (name : CString) : PageStack :=
  if FilesTable.BadName name then s.pages
  else if s.pages.pop.2 = NULL then s.pages.pop.1
  else FilesTable.givenBack s.pages

theorem createBasicFileWithName_eq (s : Kernel) (name : CString) :
    s.files.createBasicFileWithName s.pages (some name) =
      if s.CanCreateFile name then
        (some s.files.firstFree,
          s.files.withFile s.files.firstFree (FilesTable.newEntry name s.pages.pop.2),
          s.pages.pop.1)
      else (none, s.files, s.pagesAfter name) := by
  rw [FilesTable.createBasicFileWithName_eq]
  unfold CanCreateFile pagesAfter
  by_cases hname : FilesTable.BadName name
  · simp [hname]
  by_cases hpage : s.pages.pop.2 = NULL
  · simp [hname, hpage]
  · by_cases hacc : s.files.Accepts name <;> simp [hname, hpage, hacc]

theorem newMQ_eq {i : Nat} (hfile : (s.mqs i).file = none)
    (hflags : ¬ (accessFlags &&& F_READ = 0 ∧ accessFlags &&& F_WRITE = 0)) :
    s.newMQ name i accessFlags =
      if s.CanCreateFile name then (1, s.withMQ i name accessFlags)
      else (-1, { s with pages := s.pagesAfter name }) := by
  unfold newMQ
  rw [if_neg (by simpa [hfile] using hflags), createBasicFileWithName_eq]
  by_cases hcan : s.CanCreateFile name
  · rw [if_pos hcan, if_pos hcan]
    have havail := MessageQueue.available_unused (some s.files.firstFree) hflags
    have hmark := @markAccess_eq
      (({ s with
        files := s.files.withFile s.files.firstFree (FilesTable.newEntry name s.pages.pop.2)
        pages := s.pages.pop.1 } : Kernel).setMQ i
          (MessageQueue.unused (some s.files.firstFree)))
      accessFlags i s.getCurrentPID (by simp [MessageQueue.unused])
    simp only [setMQ_mqs, Function.update_self, if_pos havail] at hmark
    have hpid : ({ s with
        files := s.files.withFile s.files.firstFree (FilesTable.newEntry name s.pages.pop.2)
        pages := s.pages.pop.1 } : Kernel).getCurrentPID = s.getCurrentPID := rfl
    have hslot : (⟨some s.files.firstFree, 0, -1, -1⟩ : MessageQueue) =
        MessageQueue.unused (some s.files.firstFree) := rfl
    simp only [hpid, hslot]
    rw [hmark]
    simp [withMQ, setMQ]
  · rw [if_neg hcan, if_neg hcan]

/-! ### MQclose -/

/-- The kernel after slot `i` was destroyed, its links and pids being `q`'s. -/
def withoutMQ (s : Kernel) (i : Nat) (q : MessageQueue) : Kernel :=
  { s with
    files := (s.files.destroyBasicFile s.pages q.file).2.1
    pages := (s.files.destroyBasicFile s.pages q.file).2.2
    mqs := Function.update s.mqs i { q with file := none }
    numMQs := s.numMQs - 1 }

/-- The results of `MQclose`. -/
inductive MQClosed (s : Kernel) (i : Nat) : Int → Kernel → Prop where
  | refused : (s.mqs i).file = none ∨
      ((s.mqs i).readPID ≠ s.getCurrentPID ∧ (s.mqs i).writePID ≠ s.getCurrentPID) →
      MQClosed s i (-1) s
  | kept : (s.mqs i).file ≠ none →
      (s.mqs i).readPID = s.getCurrentPID ∨ (s.mqs i).writePID = s.getCurrentPID →
      ((s.mqs i).unmarked s.getCurrentPID).links ≠ 0 →
      MQClosed s i 0 (s.setMQ i ((s.mqs i).unmarked s.getCurrentPID))
  | destroyed : (s.mqs i).file ≠ none →
      (s.mqs i).readPID = s.getCurrentPID ∨ (s.mqs i).writePID = s.getCurrentPID →
      ((s.mqs i).unmarked s.getCurrentPID).links = 0 →
      MQClosed s i 1 (s.withoutMQ i ((s.mqs i).unmarked s.getCurrentPID))

theorem MQclose_eq (s : Kernel) (i : Nat) : s.MQclose i =
    if (s.mqs i).file = none ∨
        ((s.mqs i).readPID ≠ s.getCurrentPID ∧ (s.mqs i).writePID ≠ s.getCurrentPID) then (-1, s)
    else if ((s.mqs i).unmarked s.getCurrentPID).links = 0 then
      (1, s.withoutMQ i ((s.mqs i).unmarked s.getCurrentPID))
    else (0, s.setMQ i ((s.mqs i).unmarked s.getCurrentPID)) := by
  by_cases hfile : (s.mqs i).file = none
  · simp [MQclose, hfile]
  by_cases hpid : (s.mqs i).readPID ≠ s.getCurrentPID ∧ (s.mqs i).writePID ≠ s.getCurrentPID
  · simp [MQclose, hfile, hpid]
  rw [if_neg (not_or.mpr ⟨hfile, hpid⟩)]
  unfold MQclose
  simp only [hfile, hpid, if_false]
  -- the two assignments, as one value
  have hslot : ∀ q : MessageQueue, (if (if q.readPID = s.getCurrentPID then
        { q with readPID := -1 } else { q with writePID := -1 }).links > 0 then
        { (if q.readPID = s.getCurrentPID then { q with readPID := -1 }
            else { q with writePID := -1 }) with
          links := (if q.readPID = s.getCurrentPID then { q with readPID := -1 }
            else { q with writePID := -1 }).links - 1 }
      else (if q.readPID = s.getCurrentPID then { q with readPID := -1 }
        else { q with writePID := -1 })) = q.unmarked s.getCurrentPID := by
    intro q
    unfold MessageQueue.unmarked
    by_cases hr : q.readPID = s.getCurrentPID <;> by_cases hl : q.links > 0 <;> simp [hr, hl]
  rw [hslot]
  have hfile' : ((s.mqs i).unmarked s.getCurrentPID).file ≠ none := hfile
  split
  · simp [destroyMQ, hfile', withoutMQ, setMQ]
  · rfl

theorem MQclose_closed (s : Kernel) (i : Nat) :
    MQClosed s i (s.MQclose i).1 (s.MQclose i).2 := by
  rw [MQclose_eq]
  split
  · next hno => exact .refused hno
  · next hno =>
    obtain ⟨hfile, hpid⟩ := not_or.mp hno
    have hmine : (s.mqs i).readPID = s.getCurrentPID ∨
        (s.mqs i).writePID = s.getCurrentPID := by
      by_contra hne
      exact hpid (not_or.mp hne)
    split
    · next hlinks => exact .destroyed hfile hmine hlinks
    · next hlinks => exact .kept hfile hmine hlinks

theorem MQClosed.pcb {i : Nat} {code : Int} (h : MQClosed s i code s') : s'.pcb = s.pcb := by
  cases h <;> rfl

theorem MQClosed.sched {i : Nat} {code : Int} (h : MQClosed s i code s') :
    s'.sched = s.sched := by
  cases h <;> rfl

/-! ### MQopen -/

/-- The results of `obtainMQ`: the slot, marked, or `none`. -/
inductive Obtained (s : Kernel) (name : CString) (accessFlags : UInt32) :
    Option Nat → Kernel → Prop where
  | taken (i : Nat) : s.indexOfMQ name = some i → ¬ (s.mqs i).Available accessFlags →
      Obtained s name accessFlags none s
  | full : s.indexOfMQ name = none → s.findFreeSlot = none →
      Obtained s name accessFlags none s
  | notCreated (i : Nat) : s.indexOfMQ name = none → s.findFreeSlot = some i →
      ¬ s.CanCreateFile name →
      Obtained s name accessFlags none { s with pages := s.pagesAfter name }
  | shared (i : Nat) : s.indexOfMQ name = some i → (s.mqs i).Available accessFlags →
      Obtained s name accessFlags (some i)
        (s.setMQ i ((s.mqs i).marked s.getCurrentPID accessFlags))
  | new (i : Nat) : ¬ (accessFlags &&& F_READ = 0 ∧ accessFlags &&& F_WRITE = 0) →
      s.indexOfMQ name = none → s.findFreeSlot = some i → s.CanCreateFile name →
      Obtained s name accessFlags (some i) (s.withMQ i name accessFlags)

theorem obtainMQ_obtained (s : Kernel) (name : CString)
    (hflags : ¬ (accessFlags &&& F_READ = 0 ∧ accessFlags &&& F_WRITE = 0)) :
    Obtained s name accessFlags (s.obtainMQ name accessFlags).1
      (s.obtainMQ name accessFlags).2 := by
  unfold obtainMQ
  cases hindex : s.indexOfMQ name with
  | some i =>
    obtain ⟨-, hfile, -⟩ := indexOfMQ_some hindex
    simp only [markAccess_eq hfile]
    by_cases havail : (s.mqs i).Available accessFlags
    · simp only [if_pos havail]
      exact .shared i hindex havail
    · simp only [if_neg havail]
      exact .taken i hindex havail
  | none =>
    cases hslot : s.findFreeSlot with
    | none => exact .full hindex hslot
    | some i =>
      obtain ⟨-, hfile⟩ := findFreeSlot_some hslot
      simp only [newMQ_eq hfile hflags]
      by_cases hcan : s.CanCreateFile name
      · simp only [if_pos hcan]
        exact .new i hflags hindex hslot hcan
      · simp only [if_neg hcan]
        exact .notCreated i hindex hslot hcan

/-- The table of the current process is full, or there is no such table. -/
def NoDescriptor (s : Kernel) : Prop :=
  s.pcb.badIndex s.sched.getCurrentPCBIndex = true ∨
    UInt64.ofNat MAX_FILES ≤ (s.pcb.process s.sched.getCurrentPCBIndex).fileDescriptors.size

/-- The kernel after the current process got a descriptor for slot `i`. -/
def withDescriptor (s : Kernel) (i : Nat) (accessFlags : UInt32) : Kernel :=
  { s with
    pcb := s.pcb.modifyProcess s.sched.getCurrentPCBIndex.toNat fun process => { process with
      fileDescriptors := process.fileDescriptors.insert
        ⟨1, UInt32.ofNat i, FileType.MESSAGE_QUEUE.code, accessFlags⟩ }
    mqs := Function.update s.mqs i { s.mqs i with links := (s.mqs i).links + 1 } }

theorem registerMQ_eq (s : Kernel) (i : Nat) (accessFlags : UInt32) :
    (s.NoDescriptor ∧ s.registerMQ i accessFlags = (-1, (s.MQclose i).2)) ∨
    (¬ s.NoDescriptor ∧ s.registerMQ i accessFlags =
      (↑(s.pcb.process s.sched.getCurrentPCBIndex).fileDescriptors.lowestFree,
        s.withDescriptor i accessFlags)) := by
  unfold registerMQ
  by_cases hno : s.NoDescriptor
  · left
    refine ⟨hno, ?_⟩
    rw [Pcb.addFile_refused (Pcb.addFile_eq_none_iff.mpr hno)]
  · right
    refine ⟨hno, ?_⟩
    obtain ⟨hbad, hsize⟩ := not_or.mp hno
    rw [Pcb.addFile_of_room (by simpa using hbad) (by simpa using hsize)]
    rfl

/-- The results of `MQopen`. -/
inductive Opened (s : Kernel) (accessFlags : UInt32) :
    Option CString → Int → Kernel → Prop where
  | noName : Opened s accessFlags none (-1) s
  | noMode (name : CString) : accessFlags &&& F_READ = 0 ∧ accessFlags &&& F_WRITE = 0 →
      Opened s accessFlags (some name) (-1) s
  | notObtained (name : CString) (s' : Kernel) :
      s.obtainMQ name accessFlags = (none, s') → Obtained s name accessFlags none s' →
      Opened s accessFlags (some name) (-1) s'
  | refused (name : CString) (i : Nat) (s' : Kernel) :
      s.obtainMQ name accessFlags = (some i, s') → Obtained s name accessFlags (some i) s' →
      s'.NoDescriptor → Opened s accessFlags (some name) (-1) (s'.MQclose i).2
  | ok (name : CString) (i : Nat) (s' : Kernel) :
      s.obtainMQ name accessFlags = (some i, s') → Obtained s name accessFlags (some i) s' →
      ¬ s'.NoDescriptor →
      Opened s accessFlags (some name)
        (↑(s'.pcb.process s'.sched.getCurrentPCBIndex).fileDescriptors.lowestFree)
        (s'.withDescriptor i accessFlags)

theorem MQopen_opened (s : Kernel) (name : Option CString) (accessFlags : UInt32) :
    Opened s accessFlags name (s.MQopen name accessFlags).1 (s.MQopen name accessFlags).2 := by
  cases name with
  | none => exact .noName
  | some name =>
    by_cases hflags : accessFlags &&& F_READ = 0 ∧ accessFlags &&& F_WRITE = 0
    · simp only [MQopen, if_pos hflags]
      exact .noMode name hflags
    · have hob := obtainMQ_obtained s name hflags
      simp only [MQopen, if_neg hflags]
      rcases hres : s.obtainMQ name accessFlags with ⟨_ | i, s'⟩
      · rw [hres] at hob
        exact .notObtained name s' hres hob
      · rw [hres] at hob
        simp only
        rcases registerMQ_eq s' i accessFlags with ⟨hno, heq⟩ | ⟨hno, heq⟩
        · rw [heq]
          exact .refused name i s' hres hob hno
        · rw [heq]
          exact .ok name i s' hres hob hno

/-- A queue that is not there yet is created, and the process gets a descriptor of it. -/
theorem MQopen_new {i : Nat}
    (hflags : ¬ (accessFlags &&& F_READ = 0 ∧ accessFlags &&& F_WRITE = 0))
    (hindex : s.indexOfMQ name = none) (hslot : s.findFreeSlot = some i)
    (hcan : s.CanCreateFile name) (hno : ¬ s.NoDescriptor) :
    s.MQopen (some name) accessFlags =
      (↑(s.pcb.process s.sched.getCurrentPCBIndex).fileDescriptors.lowestFree,
        (s.withMQ i name accessFlags).withDescriptor i accessFlags) := by
  obtain ⟨-, hfile⟩ := findFreeSlot_some hslot
  have hob : s.obtainMQ name accessFlags = (some i, s.withMQ i name accessFlags) := by
    simp only [obtainMQ, hindex, hslot, newMQ_eq hfile hflags, if_pos hcan]
    rfl
  simp only [MQopen, if_neg hflags, hob]
  rcases registerMQ_eq (s.withMQ i name accessFlags) i accessFlags with ⟨hno', -⟩ | ⟨-, heq⟩
  · exact absurd hno' hno
  · exact heq

/-- The free end of a queue that is there already. -/
theorem MQopen_shared {i : Nat}
    (hflags : ¬ (accessFlags &&& F_READ = 0 ∧ accessFlags &&& F_WRITE = 0))
    (hindex : s.indexOfMQ name = some i) (havail : (s.mqs i).Available accessFlags)
    (hno : ¬ s.NoDescriptor) :
    s.MQopen (some name) accessFlags =
      (↑(s.pcb.process s.sched.getCurrentPCBIndex).fileDescriptors.lowestFree,
        (s.setMQ i ((s.mqs i).marked s.getCurrentPID accessFlags)).withDescriptor i
          accessFlags) := by
  obtain ⟨-, hfile, -⟩ := indexOfMQ_some hindex
  have hob : s.obtainMQ name accessFlags =
      (some i, s.setMQ i ((s.mqs i).marked s.getCurrentPID accessFlags)) := by
    simp only [obtainMQ, hindex, markAccess_eq hfile, if_pos havail]
    rfl
  simp only [MQopen, if_neg hflags, hob]
  rcases registerMQ_eq (s.setMQ i ((s.mqs i).marked s.getCurrentPID accessFlags)) i
    accessFlags with ⟨hno', -⟩ | ⟨-, heq⟩
  · exact absurd hno' hno
  · exact heq

section Obtained
variable {r : Option Nat}

theorem Obtained.pcb (h : Obtained s name accessFlags r s') : s'.pcb = s.pcb := by
  cases h <;> rfl

theorem Obtained.sched (h : Obtained s name accessFlags r s') : s'.sched = s.sched := by
  cases h <;> rfl

theorem Obtained.noDescriptor (h : Obtained s name accessFlags r s') :
    s'.NoDescriptor ↔ s.NoDescriptor := by
  unfold NoDescriptor
  rw [h.pcb, h.sched]

end Obtained

/-- An open leaves the scheduler alone. -/
theorem MQopen_sched (s : Kernel) (name : Option CString) (accessFlags : UInt32) :
    (s.MQopen name accessFlags).2.sched = s.sched := by
  have hopened := MQopen_opened s name accessFlags
  generalize (s.MQopen name accessFlags).1 = r, (s.MQopen name accessFlags).2 = s' at hopened ⊢
  cases hopened with
  | noName | noMode => rfl
  | notObtained name s' _ hob => exact hob.sched
  | refused name i s' _ hob _ => exact (MQclose_closed s' i).sched.trans hob.sched
  | ok name i s' _ hob _ => exact hob.sched

/-! ### operateFile with CLOSE -/

/-- The kernel after a descriptor was taken off the table of process `k`. -/
def withoutDescriptor (s : Kernel) (k fileDescriptor : UInt64) : Kernel :=
  { s with
    pcb := s.pcb.modifyProcess k.toNat fun process => { process with
      fileDescriptors := process.fileDescriptors.erase fileDescriptor.toNat } }

/-- The results of `operateFile` with `CLOSE` on a descriptor of the table. -/
inductive Closed (s : Kernel) (k fileDescriptor : UInt64) : Int → Kernel → Prop where
  | refused : Closed s k fileDescriptor (-1) s
  | file : s.pcb.badIndex k = false → (s.descriptor k fileDescriptor).occupied ≠ 0 →
      (s.descriptor k fileDescriptor).fileType ≠ FileType.MESSAGE_QUEUE.code →
      Closed s k fileDescriptor 0 (s.withoutDescriptor k fileDescriptor)
  | queue (code : Int) (s' : Kernel) : s.pcb.badIndex k = false →
      (s.descriptor k fileDescriptor).occupied ≠ 0 →
      (s.descriptor k fileDescriptor).fileType = FileType.MESSAGE_QUEUE.code → code ≠ -1 →
      MQClosed s (s.descriptor k fileDescriptor).index.toNat code s' →
      Closed s k fileDescriptor 0 (s'.withoutDescriptor k fileDescriptor)

theorem removeFile_eq {p : Pcb} {k fileDescriptor : UInt64} (hbad : p.badIndex k = false)
    (hfd : fileDescriptor.toNat < MAX_FILES) :
    p.removeFile k fileDescriptor = (0, p.modifyProcess k.toNat fun process => { process with
      fileDescriptors := process.fileDescriptors.erase fileDescriptor.toNat }) := by
  simp [Pcb.removeFile, hbad, not_le_maxFiles hfd]

theorem occupied_of_existsFile {k fileDescriptor : UInt64} (hbad : s.pcb.badIndex k = false)
    (hfd : fileDescriptor.toNat < MAX_FILES) (h : s.pcb.existsFile k fileDescriptor ≠ 0) :
    (s.descriptor k fileDescriptor).occupied ≠ 0 := by
  have hlt : ¬ fileDescriptor ≥ UInt64.ofNat MAX_FILES := not_le_maxFiles hfd
  simp only [Pcb.existsFile, hbad, hlt] at h
  intro h0
  apply h
  show (s.descriptor k fileDescriptor).occupied.toUInt64 = 0
  rw [h0]
  rfl

theorem operateFile_closed {k fileDescriptor : UInt64} {character : UInt8}
    (hfd : fileDescriptor.toNat < MAX_FILES)
    (hindex : s.pcb.badIndex k = false → (s.descriptor k fileDescriptor).occupied ≠ 0 →
      (s.descriptor k fileDescriptor).index.toNat < 2 ^ 31) :
    Closed s k fileDescriptor (s.operateFile k fileDescriptor .CLOSE character).1
      (s.operateFile k fileDescriptor .CLOSE character).2.2 := by
  -- closing needs no permission
  have hperm : s.pcb.hasPermissions k fileDescriptor .CLOSE ≠ 0 := by
    show (1 : UInt64) ≠ 0
    decide
  unfold operateFile
  by_cases hno : s.pcb.badIndex k || s.pcb.existsFile k fileDescriptor = 0
  · rw [if_pos hno]
    exact .refused
  rw [if_neg hno, if_neg hperm]
  obtain ⟨hbad, hexists⟩ : s.pcb.badIndex k = false ∧ s.pcb.existsFile k fileDescriptor ≠ 0 := by
    simpa using hno
  have hocc := occupied_of_existsFile hbad hfd hexists
  cases htype : FileType.ofCode (s.descriptor k fileDescriptor).fileType with
  | none =>
    simp only [operate, htype, if_true]
    exact .refused
  | some fileType =>
    simp only [operate, htype]
    have hcode := FileType.code_of_ofCode htype
    -- only a queue has something to close besides the descriptor
    by_cases hmq : fileType = .MESSAGE_QUEUE
    · subst hmq
      have hcl := MQclose_closed s (s.descriptor k fileDescriptor).index.toNat
      simp only [close, toNat_tableIndex (hindex hbad hocc)]
      generalize s.MQclose (s.descriptor k fileDescriptor).index.toNat = result at hcl ⊢
      obtain ⟨code, s'⟩ := result
      -- a refused close keeps the descriptor
      by_cases hfail : code = -1
      · subst hfail
        cases hcl
        simp only [if_true]
        exact .refused
      · have hbad' : s'.pcb.badIndex k = false := hcl.pcb ▸ hbad
        simp only [if_neg hfail, removeFile_eq hbad' hfd, if_true]
        exact .queue code s' hbad hocc hcode.symm hfail hcl
    · have hclose : s.close fileType
          (tableIndex (s.descriptor k fileDescriptor).index.toUInt64.toInt64) = (0, s) := by
        cases fileType <;> first | rfl | exact absurd rfl hmq
      simp only [hclose, removeFile_eq hbad hfd]
      refine .file hbad hocc ?_
      rw [← hcode]
      cases fileType <;> first | decide | exact absurd rfl hmq

end Kernel

end TP2Kernel
