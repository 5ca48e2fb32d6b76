import TP2Kernel.Framework.Transition
import TP2Kernel.MessageQueue.Outcome
import TP2Kernel.Process.Descriptors
import TP2Kernel.Process.StackWrites

/-! # The descriptor tables in every run

    `addFile` looks for a free entry without a bound, and `removeFile` counts down without
    looking at the entry.  Both are safe as long as `size` is the number of occupied
    entries: a full table is refused before the search, and what is removed was open.

    This is so in the runs that keep to the tables.  A frame that does not fit in its page
    overwrites the page of the PCB, if that is the one below; and for a descriptor that is
    out of range `operateFile` takes the file from the bytes behind the table.
-/

namespace TP2Kernel

open Transition FileDescriptorsMap

/-! ### Operations leave the PCB alone -/

namespace Kernel

variable {s s' : Kernel}

theorem readChar_pcb (fileType : FileType) (fileIndex : UInt64) :
    (s.readChar fileType fileIndex).2.2.pcb = s.pcb := by
  cases fileType with
  | STDIN_ | STDOUT_ | STDERR_ | RAW_KEYS => rfl
  | MESSAGE_QUEUE =>
    simp only [readChar, MQreadChar]
    split <;> rfl

theorem writeChar_pcb (fileType : FileType) (fileIndex : UInt64) (character : UInt8) :
    (s.writeChar fileType fileIndex character).2.pcb = s.pcb := by
  cases fileType with
  | STDIN_ | STDOUT_ | STDERR_ | RAW_KEYS => rfl
  | MESSAGE_QUEUE =>
    simp only [writeChar, MQwriteChar]
    split <;> rfl

theorem close_pcb (fileType : FileType) (fileIndex : UInt64) :
    (s.close fileType fileIndex).2.pcb = s.pcb := by
  cases fileType with
  | STDIN_ | STDOUT_ | STDERR_ | RAW_KEYS => rfl
  | MESSAGE_QUEUE => exact (MQclose_closed s fileIndex.toNat).pcb

theorem operate_pcb (operation : FileOperation) (fileType : UInt32) (fileIndex : Int64)
    (character : UInt8) :
    (s.operate operation fileType fileIndex character).2.2.pcb = s.pcb := by
  unfold operate
  cases FileType.ofCode fileType with
  | none => rfl
  | some fileType =>
    cases operation with
    | READ => exact readChar_pcb fileType _
    | WRITE => exact writeChar_pcb fileType _ character
    | CLOSE => exact close_pcb fileType _
    | IS_EMPTY | IS_FULL | OPEN => rfl

/-- Only `CLOSE` touches a table, and only if the descriptor was open. -/
theorem operateFile_pcb (k fd : UInt64) (operation : FileOperation) (character : UInt8) :
    (s.operateFile k fd operation character).2.2.pcb = s.pcb ∨
    (s.OpenEntry k fd ∧ (s.operateFile k fd operation character).2.2.pcb =
      s.pcb.modifyProcess k.toNat fun process => { process with
        fileDescriptors := process.fileDescriptors.erase fd.toNat }) := by
  unfold operateFile
  by_cases hno : (s.pcb.badIndex k || decide (s.pcb.existsFile k fd = 0)) = true
  · rw [if_pos hno]
    exact Or.inl rfl
  by_cases hperm : s.pcb.hasPermissions k fd operation = 0
  · rw [if_neg hno, if_pos hperm]
    exact Or.inl rfl
  rw [if_neg hno, if_neg hperm]
  rw [Bool.or_eq_true, not_or, Bool.not_eq_true, decide_eq_true_eq] at hno
  obtain ⟨hgood, hexists⟩ := hno
  have hpcb := @operate_pcb s operation (s.descriptor k fd).fileType
    (s.descriptor k fd).index.toUInt64.toInt64 character
  rcases hres : s.operate operation (s.descriptor k fd).fileType
    (s.descriptor k fd).index.toUInt64.toInt64 character with ⟨result, c, s'⟩
  rw [hres] at hpcb
  have hpcb' : s'.pcb = s.pcb := hpcb
  simp only [hres]
  by_cases hresult : result = -1
  · rw [if_pos hresult]
    exact Or.inl hpcb'
  by_cases hclose : operation = .CLOSE
  · rw [if_neg hresult, if_pos hclose, hpcb']
    by_cases hfd : fd.toNat < MAX_FILES
    · rw [removeFile_eq hgood hfd]
      exact Or.inr ⟨⟨hgood, hfd, occupied_of_existsFile hgood hfd hexists⟩, rfl⟩
    · -- `removeFile` refuses what `existsFile` let through
      have hrange : fd ≥ UInt64.ofNat MAX_FILES := by
        rw [ge_iff_le, UInt64.le_iff_toNat_le]
        exact Nat.le_of_not_lt hfd
      left
      simp [Pcb.removeFile, hrange]
  · rw [if_neg hresult, if_neg hclose]
    exact Or.inl hpcb'

/-- The other operations leave the tables as they are. -/
theorem operateFile_pcb_eq {k fd : UInt64} {operation : FileOperation} {character : UInt8}
    (hop : operation ≠ .CLOSE) :
    (s.operateFile k fd operation character).2.2.pcb = s.pcb := by
  unfold operateFile
  split
  · rfl
  split
  · rfl
  · have hpcb := @operate_pcb s operation (s.descriptor k fd).fileType
      (s.descriptor k fd).index.toUInt64.toInt64 character
    rcases hres : s.operate operation (s.descriptor k fd).fileType
      (s.descriptor k fd).index.toUInt64.toInt64 character with ⟨result, c, s'⟩
    rw [hres] at hpcb
    simp only [hres]
    split <;> exact hpcb

end Kernel

/-! ### The system -/

inductive TableAction where
  | createProcess (a : ProcessParams)
  | addFile (PCBIndex : UInt64) (index : UInt32) (fileType : FileType) (flags : UInt32)
  | MQopen (name : Option CString) (accessFlags : UInt32)
  | operateFile (PCBIndex fileDescriptor : UInt64) (operation : FileOperation)
      (character : UInt8)
  | destroyProcess (PCBIndex : UInt64)
  | other

/-- Everything that works on a descriptor table, for any process; `addFile` as `createProcess`
    and `MQopen` call it.  The rest of the kernel does anything else. -/
def descriptorTables : System Kernel TableAction where
  init := fun s => ∃ m : Machine, m.initializePCB = (0, s.toMachine)
  step := fun s action s' =>
    match action with
    | .createProcess a => ∃ r m, s.toMachine.createProcess a = some (r, m) ∧
        s' = { s with toMachine := m }
    | .addFile k index fileType flags => k.toNat < pcbEntries ∧
        (fileType = .MESSAGE_QUEUE → index.toNat < MAX_MQS) ∧
        s' = { s with pcb := (s.pcb.addFile k index fileType flags).2 }
    | .MQopen name accessFlags => s.sched.getCurrentPCBIndex.toNat < pcbEntries ∧
        s' = (s.MQopen name accessFlags).2
    | .operateFile k fd operation character => k.toNat < pcbEntries ∧
        s' = (s.operateFile k fd operation character).2.2
    | .destroyProcess k => k.toNat < pcbEntries ∧
        ∃ r m, s.toMachine.destroyProcess k = some (r, m) ∧ s' = { s with toMachine := m }
    | .other => s'.pcb.pcb = s.pcb.pcb ∧ s'.pcb.maxProcesses = s.pcb.maxProcesses ∧
        ∀ e, e < pcbEntries →
          (s'.pcb.entries e).fileDescriptors = (s.pcb.entries e).fileDescriptors

namespace Kernel

/-- The frame of a new process fits in its page, and `operateFile` gets a descriptor in
    range. -/
def KeepsToTables (s : Kernel) (action : TableAction) : Prop :=
  match action with
  | .createProcess a => s.toMachine.Fits a
  | .operateFile _ fileDescriptor _ _ => fileDescriptor.toNat < MAX_FILES
  | .addFile _ _ _ _ | .MQopen _ _ | .destroyProcess _ | .other => True

/-- The table of PCB entry `e`. -/
def tableOf (s : Kernel) (e : Nat) : FileDescriptorsMap := (s.pcb.entries e).fileDescriptors

/-- The descriptors that an action is about: `touches s action e fd` for descriptor `fd` of
    PCB entry `e`.  A new process takes over an entry without a process. -/
def touches (s : Kernel) (action : TableAction) (e fd : Nat) : Prop :=
  match action with
  | .createProcess _ => (s.pcb.entries e).occupied = 0
  | .addFile k _ _ _ => e = k.toNat ∧ fd = (s.tableOf e).lowestFree
  | .MQopen _ _ => e = s.sched.getCurrentPCBIndex.toNat ∧ fd = (s.tableOf e).lowestFree
  | .operateFile k fileDescriptor _ _ => e = k.toNat ∧ fd = fileDescriptor.toNat
  | .destroyProcess k => e = k.toNat
  | .other => False

/-! ### What an action does to the tables -/

/-- At most one table changes, and stays well formed: it becomes `table`. -/
structure OneTable (p p' : Pcb) (e : Nat) (table : FileDescriptorsMap) : Prop where
  pcb : p'.pcb = p.pcb
  maxProcesses : p'.maxProcesses = p.maxProcesses
  inv : table.Inv
  tables : ∀ i, i < pcbEntries → (p'.entries i).fileDescriptors =
    if i = e then table else (p.entries i).fileDescriptors

/-- The PCB is there, and all tables are well formed. -/
structure TablesInv (s : Kernel) : Prop where
  pcb : s.pcb.pcb ≠ NULL
  maxProcesses : s.pcb.maxProcesses = UInt64.ofNat pcbEntries
  tables : ∀ e, e < pcbEntries → (s.tableOf e).Inv

variable {s s' : Kernel} {e : Nat} {table : FileDescriptorsMap}

theorem TablesInv.badIndex (h : TablesInv s) {k : UInt64} (hk : k.toNat < pcbEntries) :
    s.pcb.badIndex k = false := by
  have hmax : ¬ k > s.pcb.maxProcesses := by
    rw [h.maxProcesses, UInt64.not_lt, UInt64.le_iff_toNat_le]
    exact Nat.le_of_lt hk
  simp [Pcb.badIndex, h.pcb, hmax]

theorem TablesInv.oneTable (h : TablesInv s) (hone : OneTable s.pcb s'.pcb e table) :
    TablesInv s' := by
  refine ⟨?_, hone.maxProcesses.trans h.maxProcesses, ?_⟩
  · rw [hone.pcb]
    exact h.pcb
  · intro i hi
    unfold tableOf
    rw [hone.tables i hi]
    split
    · exact hone.inv
    · exact h.tables i hi

/-- Nothing changes. -/
theorem TablesInv.same (h : TablesInv s) (hpcb : s'.pcb.pcb = s.pcb.pcb)
    (hmax : s'.pcb.maxProcesses = s.pcb.maxProcesses)
    (htables : ∀ i, i < pcbEntries → s'.tableOf i = s.tableOf i) :
    OneTable s.pcb s'.pcb 0 (s.tableOf 0) := by
  refine ⟨hpcb, hmax, h.tables 0 (by decide), ?_⟩
  intro i hi
  by_cases hzero : i = 0
  · rw [if_pos hzero, hzero]
    exact htables 0 (by decide)
  · rw [if_neg hzero]
    exact htables i hi

/-- A change of entry `e`. -/
theorem oneTable_modify {p p' : Pcb} {f : PcbEntry → PcbEntry} (hp : p' = p.modifyProcess e f)
    (hinv : table.Inv) (hf : (f (p.entries e)).fileDescriptors = table) :
    OneTable p p' e table := by
  refine ⟨by rw [hp]; rfl, by rw [hp]; rfl, hinv, ?_⟩
  intro i _
  rw [hp, Pcb.modifyProcess_entries]
  by_cases hie : i = e
  · rw [if_pos hie, if_pos hie]
    exact hf
  · rw [if_neg hie, if_neg hie]

/-- One action, one table, and in it only the descriptors that the action is about. -/
def Acts (s : Kernel) (action : TableAction) (s' : Kernel) : Prop :=
  ∃ e table, OneTable s.pcb s'.pcb e table ∧
    ∀ fd, ¬ s.touches action e fd → table.entries fd = (s.tableOf e).entries fd

theorem TablesInv.acts_same (h : TablesInv s) (action : TableAction) (hpcb : s'.pcb = s.pcb) :
    Acts s action s' := by
  refine ⟨0, s.tableOf 0, h.same (by rw [hpcb]) (by rw [hpcb]) ?_, fun _ _ => rfl⟩
  intro i _
  unfold tableOf
  rw [hpcb]

/-- `addFile` is refused, or fills in the lowest free entry. -/
theorem TablesInv.addFile (h : TablesInv s) {k : UInt64} (hk : k.toNat < pcbEntries)
    (index : UInt32) (fileType : FileType) (flags : UInt32) :
    ((s.tableOf k.toNat).size ≥ UInt64.ofNat MAX_FILES ∧
      s.pcb.addFile k index fileType flags = (none, s.pcb)) ∨
    ((s.tableOf k.toNat).size < UInt64.ofNat MAX_FILES ∧
      (s.pcb.addFile k index fileType flags).1 = some (s.tableOf k.toNat).lowestFree ∧
      OneTable s.pcb (s.pcb.addFile k index fileType flags).2 k.toNat
        ((s.tableOf k.toNat).insert ⟨1, index, fileType.code, flags⟩)) := by
  have hgood := h.badIndex hk
  by_cases hroom : (s.tableOf k.toNat).size < UInt64.ofNat MAX_FILES
  · right
    refine ⟨hroom, ?_⟩
    have hinsert : ((s.tableOf k.toNat).insert ⟨1, index, fileType.code, flags⟩).Inv :=
      (h.tables k.toNat hk).insert hroom (show (1 : UInt32) ≠ 0 by decide)
    have heq := Pcb.addFile_of_room hgood hroom index fileType flags
    have hpcb : (s.pcb.addFile k index fileType flags).2 =
        s.pcb.modifyProcess k.toNat fun process => { process with
          fileDescriptors := (s.tableOf k.toNat).insert ⟨1, index, fileType.code, flags⟩ } :=
      congrArg Prod.snd heq
    exact ⟨congrArg Prod.fst heq, oneTable_modify hpcb hinsert rfl⟩
  · left
    refine ⟨UInt64.not_lt.mp hroom, Pcb.addFile_refused ?_⟩
    exact Pcb.addFile_eq_none_iff.mpr (Or.inr (UInt64.not_lt.mp hroom))

/-! ### One action -/

theorem TablesInv.acts_createProcess (h : TablesInv s) {a : ProcessParams} {r : UInt64}
    {m : Machine} (hcreate : s.toMachine.createProcess a = some (r, m)) :
    Acts s (.createProcess a) { s with toMachine := m } := by
  rcases (Machine.createProcess_created hcreate).entry with hsame | hnew
  · exact h.acts_same _ hsame
  · obtain ⟨index, e, hlt, hfree, -, -, htable, hpcb⟩ := hnew
    rw [h.maxProcesses] at hlt
    have hinv : e.fileDescriptors.Inv := by
      rcases htable with hold | hstandard
      · rw [hold]
        exact h.tables index hlt
      · rw [hstandard]
        exact inv_standardFiles
    refine ⟨index, e.fileDescriptors, ⟨?_, ?_, hinv, ?_⟩, fun fd htouch => absurd hfree htouch⟩
    · show m.pcb.pcb = s.pcb.pcb
      rw [hpcb]
      rfl
    · show m.pcb.maxProcesses = s.pcb.maxProcesses
      rw [hpcb]
      rfl
    · intro i _
      show (m.pcb.entries i).fileDescriptors = _
      rw [hpcb]
      show ((s.pcb.setProcess index e).entries i).fileDescriptors = _
      by_cases hii : i = index
      · rw [hii, Pcb.setProcess_self, if_pos rfl]
      · rw [Pcb.setProcess_ne _ _ _ hii, if_neg hii]

theorem TablesInv.acts_addFile (h : TablesInv s) {k : UInt64} (hk : k.toNat < pcbEntries)
    (index : UInt32) (fileType : FileType) (flags : UInt32) :
    Acts s (.addFile k index fileType flags)
      { s with pcb := (s.pcb.addFile k index fileType flags).2 } := by
  rcases h.addFile hk index fileType flags with ⟨-, heq⟩ | ⟨-, -, hone⟩
  · apply h.acts_same
    rw [heq]
  · refine ⟨_, _, hone, ?_⟩
    intro fd htouch
    rw [insert_entries, if_neg]
    exact fun hfd => htouch ⟨rfl, hfd⟩

theorem TablesInv.acts_MQopen (h : TablesInv s)
    (hcurrent : s.sched.getCurrentPCBIndex.toNat < pcbEntries) (name : Option CString)
    (accessFlags : UInt32) : Acts s (.MQopen name accessFlags) (s.MQopen name accessFlags).2 := by
  have hopened := MQopen_opened s name accessFlags
  generalize (s.MQopen name accessFlags).1 = r, (s.MQopen name accessFlags).2 = s' at hopened
  cases hopened with
  | noName | noMode => exact h.acts_same _ rfl
  | notObtained name s' _ hob => exact h.acts_same _ hob.pcb
  | refused name i s' _ hob _ =>
    exact h.acts_same _ ((MQclose_closed s' i).pcb.trans hob.pcb)
  | ok name i s' _ hob hroom =>
    -- the table is still that of the state before
    unfold NoDescriptor at hroom
    rw [hob.pcb, hob.sched, not_or] at hroom
    have hsize := UInt64.not_le.mp hroom.2
    have hinsert := (h.tables _ hcurrent).insert hsize
      (e := ⟨1, UInt32.ofNat i, FileType.MESSAGE_QUEUE.code, accessFlags⟩)
      (show (1 : UInt32) ≠ 0 by decide)
    have hpcb : (s'.withDescriptor i accessFlags).pcb =
        s.pcb.modifyProcess s.sched.getCurrentPCBIndex.toNat fun process => { process with
          fileDescriptors := process.fileDescriptors.insert
            ⟨1, UInt32.ofNat i, FileType.MESSAGE_QUEUE.code, accessFlags⟩ } := by
      rw [← hob.pcb, ← hob.sched]
      rfl
    refine ⟨_, _, oneTable_modify hpcb hinsert rfl, ?_⟩
    intro fd htouch
    rw [insert_entries, if_neg]
    exact fun hfd => htouch ⟨rfl, hfd⟩

theorem TablesInv.acts_operateFile (h : TablesInv s) {k : UInt64} (hk : k.toNat < pcbEntries)
    (fd : UInt64) (operation : FileOperation) (character : UInt8) :
    Acts s (.operateFile k fd operation character)
      (s.operateFile k fd operation character).2.2 := by
  rcases @operateFile_pcb s k fd operation character with hsame | ⟨hopen, hpcb⟩
  · exact h.acts_same _ hsame
  · have herase : ((s.tableOf k.toNat).erase fd.toNat).Inv :=
      (h.tables k.toNat hk).erase hopen.lt hopen.occupied
    refine ⟨k.toNat, _, oneTable_modify hpcb herase rfl, ?_⟩
    intro fd' htouch
    rw [erase_entries, if_neg]
    exact fun hfd => htouch ⟨rfl, hfd⟩

theorem TablesInv.acts_destroyProcess (h : TablesInv s) {k : UInt64} (hk : k.toNat < pcbEntries)
    {r : UInt64} {m : Machine} (hdestroy : s.toMachine.destroyProcess k = some (r, m)) :
    Acts s (.destroyProcess k) { s with toMachine := m } := by
  have hpcb : m.pcb = s.pcb.modifyProcess k.toNat fun _ => .zero := by
    have hgood : s.toMachine.pcb.badIndex k = false := h.badIndex hk
    simp only [Machine.destroyProcess, hgood, Bool.false_eq_true, if_false] at hdestroy
    split at hdestroy
    · cases hdestroy
    · rw [← (Prod.mk.inj (Option.some.inj hdestroy)).2]
      rfl
  exact ⟨k.toNat, .zero, oneTable_modify hpcb inv_zero rfl, fun fd htouch => absurd rfl htouch⟩

theorem TablesInv.acts (h : TablesInv s) {action : TableAction}
    (hstep : descriptorTables.step s action s') : Acts s action s' := by
  cases action with
  | createProcess a =>
    obtain ⟨r, m, hcreate, rfl⟩ := hstep
    exact h.acts_createProcess hcreate
  | addFile k index fileType flags =>
    obtain ⟨hk, -, rfl⟩ := hstep
    exact h.acts_addFile hk index fileType flags
  | MQopen name accessFlags =>
    obtain ⟨hcurrent, rfl⟩ := hstep
    exact h.acts_MQopen hcurrent name accessFlags
  | operateFile k fd operation character =>
    obtain ⟨hk, rfl⟩ := hstep
    exact h.acts_operateFile hk fd operation character
  | destroyProcess k =>
    obtain ⟨hk, r, m, hdestroy, rfl⟩ := hstep
    exact h.acts_destroyProcess hk hdestroy
  | other =>
    obtain ⟨hpcb, hmax, htables⟩ := hstep
    exact ⟨0, _, h.same hpcb hmax htables, fun _ _ => rfl⟩

theorem tablesInv_init (h : descriptorTables.init s) : TablesInv s := by
  obtain ⟨m, hinit⟩ := h
  obtain ⟨hpcb, hmax, -, hzero⟩ := initializePCB_ok hinit
  refine ⟨hpcb, hmax, ?_⟩
  intro e he
  have htable : s.tableOf e = .zero := congrArg PcbEntry.fileDescriptors (hzero e he)
  rw [htable]
  exact inv_zero

theorem tablesInv_reachable (h : descriptorTables.Reachable s) : TablesInv s := by
  apply h.invariant TablesInv
  · intro s hinit
    exact tablesInv_init hinit
  · intro s action s' hinv hstep
    obtain ⟨e, table, hone, -⟩ := hinv.acts hstep
    exact hinv.oneTable hone

/-! ### The property -/

/-- The tables of a state, and what `addFile` does to them. -/
structure TablesConsistent (s : Kernel) : Prop where
  size : ∀ e, e < pcbEntries →
    (s.tableOf e).size.toNat = Counting.count (s.tableOf e).Occupied MAX_FILES ∧
    (s.tableOf e).size.toNat ≤ MAX_FILES
  /-- A file can be added as long as the table is not full. -/
  room : ∀ (k : UInt64) index fileType flags, k.toNat < pcbEntries →
    ((s.pcb.addFile k index fileType flags).1 ≠ none ↔ (s.tableOf k.toNat).size.toNat < MAX_FILES)
  /-- It gets the lowest free descriptor, and the search has not passed the end. -/
  lowest : ∀ (k : UInt64) index fileType flags fd, k.toNat < pcbEntries →
    (s.pcb.addFile k index fileType flags).1 = some fd →
    fd < MAX_FILES ∧ ¬ (s.tableOf k.toNat).Occupied fd ∧
      ∀ fd', fd' < fd → (s.tableOf k.toNat).Occupied fd'

theorem TablesInv.consistent (h : TablesInv s) : TablesConsistent s := by
  have hmax : (UInt64.ofNat MAX_FILES).toNat = MAX_FILES := rfl
  refine ⟨?_, ?_, ?_⟩
  · intro e he
    have hsize := h.tables e he
    refine ⟨hsize, ?_⟩
    rw [hsize]
    exact Counting.count_le
  · intro k index fileType flags hk
    rcases h.addFile hk index fileType flags with ⟨hfull, heq⟩ | ⟨hroom, heq, -⟩
    · have hge := UInt64.le_iff_toNat_le.mp hfull
      rw [heq]
      constructor
      · intro hsome
        exact absurd rfl hsome
      · intro hlt
        omega
    · have hlt := UInt64.lt_iff_toNat_lt.mp hroom
      rw [heq]
      constructor
      · intro _
        exact hlt
      · intro _
        exact Option.some_ne_none _
  · intro k index fileType flags fd hk hfd
    rcases h.addFile hk index fileType flags with ⟨-, heq⟩ | ⟨hroom, heq, -⟩
    · rw [heq] at hfd
      cases hfd
    · rw [heq] at hfd
      obtain rfl := Option.some.inj hfd
      obtain ⟨hlt, hfree⟩ := (h.tables _ hk).lowestFree hroom
      refine ⟨hlt, not_not.mpr hfree, ?_⟩
      intro fd' hfd'
      exact Scan.not_of_lt_scan hfd'

/-- **The descriptor tables are consistent in every run that keeps to them, and an action
    changes only the descriptors that it is about.** -/
theorem descriptorTables_consistent (h : (descriptorTables.restrict KeepsToTables).Reachable s) :
    TablesConsistent s ∧ ∀ action s', (descriptorTables.restrict KeepsToTables).step s action s' →
      ∀ e fd, e < pcbEntries → ¬ s.touches action e fd →
        (s'.tableOf e).entries fd = (s.tableOf e).entries fd := by
  have hinv := tablesInv_reachable h.of_restrict
  refine ⟨hinv.consistent, ?_⟩
  intro action s' hstep e fd he htouch
  obtain ⟨e', table, hone, hkept⟩ := hinv.acts hstep.2
  unfold tableOf at hkept ⊢
  rw [hone.tables e he]
  by_cases hee : e = e'
  · subst hee
    rw [if_pos rfl]
    exact hkept fd htouch
  · rw [if_neg hee]

/-- The kernel right after `initializePCB`. -/
def cleared : Kernel where
  toMachine :=
    (Machine.initializePCB { mem := fun _ => 0, pages := .popped 0, pcb := .bss fun _ => .zero }).2
  sched := .bss fun _ => ⟨0, .RUNNING, 0, 0⟩
  files := .cleared
  mqs := fun _ => .zero
  numMQs := 0
  tty := .bss
  rawKeys := .empty

theorem cleared_init : descriptorTables.init cleared := by
  refine ⟨{ mem := fun _ => 0, pages := .popped 0, pcb := .bss fun _ => .zero }, ?_⟩
  have hcode : (Machine.initializePCB
      { mem := fun _ => 0, pages := .popped 0, pcb := .bss fun _ => .zero }).1 = 0 := by
    decide +kernel
  exact Prod.ext hcode rfl

/-- The tables after one `addFile`. -/
theorem descriptorTables_consistent_one : TablesConsistent
    { cleared with pcb := (cleared.pcb.addFile 0 0 .STDIN_ F_READ).2 } :=
  (descriptorTables_consistent
    (.step (.addFile 0 0 .STDIN_ F_READ) (.init cleared_init) ⟨trivial, by decide, by simp, rfl⟩)).1

/-! ### An argument that does not fit -/

/-- The kernel right after `initializePCB`, with 8703 letters in memory. -/
def clearedWithLetters : Kernel := { cleared with toMachine := Machine.withLetters 8703 }

theorem clearedWithLetters_init : descriptorTables.init clearedWithLetters := by
  refine ⟨{ mem := (Machine.withLetters 8703).mem, pages := .popped 0, pcb := .bss fun _ => .zero },
    ?_⟩
  have hcode : (Machine.initializePCB { mem := (Machine.withLetters 8703).mem, pages := .popped 0
                                        pcb := .bss fun _ => .zero }).1 = 0 := by
    decide +kernel
  exact Prod.ext hcode rfl

/-- The first process gets an argument of 8703 letters, and the last entry of the cleared PCB
    becomes occupied, with a size that is larger than the table. -/
theorem longArgument_fillsTable : ∃ s', descriptorTables.init clearedWithLetters ∧
    (∀ e, e < pcbEntries → clearedWithLetters.storedOccupied e = 0 ∧
      clearedWithLetters.storedSize e = 0) ∧
    descriptorTables.step clearedWithLetters (.createProcess (Machine.callWith 1)) s' ∧
    ¬ ∀ e, e < pcbEntries → s'.storedOccupied e ≠ 0 → (s'.storedSize e).toNat ≤ MAX_FILES := by
  have hhas : Machine.HasLetters clearedWithLetters.toMachine 8703 :=
    Machine.withLetters_hasLetters (by decide)
  obtain ⟨m', hcreate, hletters⟩ := hhas.createProcess
  have hpage : m'.pcb.pcb = 0x10000000 := by
    rw [(Machine.createProcess_created hcreate).pcb_pcb]
    decide +kernel
  have htop : clearedWithLetters.nextStackTop.toNat = 0x10004000 := by
    show Machine.fresh.nextStackTop.toNat = _
    decide
  refine ⟨{ clearedWithLetters with toMachine := m' }, clearedWithLetters_init, ?_,
    ⟨_, m', hcreate, rfl⟩, ?_⟩
  · decide +kernel
  · intro hsmall
    have hoccupied : m'.storedOccupied 15 = 0x4141414141414141 := by
      have hat : (0x10000000 + UInt64.ofNat (512 * 15) : Addr).toNat = 0x10001E00 := by decide
      unfold Machine.storedOccupied
      rw [hpage]
      apply hletters
      · omega
      · omega
    have hsize : m'.storedSize 15 = 0x4141414141414141 := by
      have hat : (0x10000000 + UInt64.ofNat (512 * 15 + 64) : Addr).toNat = 0x10001E40 := by decide
      unfold Machine.storedSize
      rw [hpage]
      apply hletters
      · omega
      · omega
    have hlast : (m'.storedSize 15).toNat ≤ MAX_FILES :=
      hsmall 15 (by decide) (by rw [hoccupied]; decide)
    rw [hsize] at hlast
    exact absurd hlast (by decide)

end Kernel

end TP2Kernel
