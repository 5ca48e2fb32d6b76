import TP2Kernel.Process.Lifecycle

/-! # What creating and destroying a process can do

    One inversion lemma for `createProcess` and one for `destroyProcess`: the possible
    results, each with its guard and the machine it leaves.  Everything else about the
    two functions follows from these.
-/

namespace TP2Kernel

/-- `initializePCB` succeeds with a page only. -/
theorem initializePCB_eq {m m' : Machine} (h : m.initializePCB = (0, m')) :
    (m.pages.pageManager .POP_PAGE m.pcb.pcb).2 ≠ NULL ∧
    m' = { m with
      pages := (m.pages.pageManager .POP_PAGE m.pcb.pcb).1
      pcb.pcb := (m.pages.pageManager .POP_PAGE m.pcb.pcb).2
      pcb.maxProcesses := PAGE_SIZE / Machine.pcbEntrySize
      pcb.entries := fun i =>
        if i < (PAGE_SIZE / Machine.pcbEntrySize).toNat then .zero else m.pcb.entries i } := by
  unfold Machine.initializePCB at h
  split at h
  next pages page hpop =>
  split at h
  · cases h
  next hpage =>
  obtain rfl := (Prod.mk.inj h).2
  rw [hpop]
  exact ⟨hpage, rfl⟩

/-- What `initializePCB` leaves: a cleared PCB. -/
theorem initializePCB_ok {m m' : Machine} (h : m.initializePCB = (0, m')) :
    m'.pcb.pcb ≠ NULL ∧ m'.pcb.maxProcesses = UInt64.ofNat pcbEntries ∧
    m'.pcb.nextPid = m.pcb.nextPid ∧ ∀ i, i < pcbEntries → m'.pcb.entries i = .zero := by
  obtain ⟨hpage, rfl⟩ := initializePCB_eq h
  refine ⟨hpage, rfl, rfl, ?_⟩
  intro i hi
  have hmax : (PAGE_SIZE / Machine.pcbEntrySize).toNat = pcbEntries := rfl
  simp [hmax, hi]

theorem initializePCB_pages {m m' : Machine} (h : m.initializePCB = (0, m')) :
    m'.pages = (m.pages.pageManager .POP_PAGE m.pcb.pcb).1 := by
  obtain ⟨-, rfl⟩ := initializePCB_eq h
  rfl

/-! ### Opening the standard files -/

/-- The table after `openSTDIOFiles`. -/
def stdioFiles : FileDescriptorsMap :=
  ((FileDescriptorsMap.zero.insert ⟨1, 0, FileType.STDIN_.code, F_READ⟩).insert
    ⟨1, 0, FileType.STDOUT_.code, F_WRITE⟩).insert
    ⟨1, 0, FileType.STDERR_.code, F_WRITE⟩

/-- The descriptor table of a new process: stdin, stdout, stderr and the raw keys. -/
def standardFiles : FileDescriptorsMap :=
  stdioFiles.insert ⟨1, 0, FileType.RAW_KEYS.code, F_READ⟩

theorem Pcb.addFile_setProcess {p : Pcb} {k : UInt64} {e : PcbEntry}
    (hk : p.badIndex k = false) (hroom : e.fileDescriptors.size < UInt64.ofNat MAX_FILES)
    (index : UInt32) (fileType : FileType) (flags : UInt32) :
    (p.setProcess k.toNat e).addFile k index fileType flags =
      (some e.fileDescriptors.lowestFree,
        p.setProcess k.toNat { e with
          fileDescriptors := e.fileDescriptors.insert
            { occupied := 1, index := index, fileType := fileType.code, flags := flags } }) := by
  have he : (p.setProcess k.toNat e).process k = e := by simp [Pcb.process]
  rw [Pcb.addFile_of_room (by simpa using hk) (by rw [he]; exact hroom), he,
    Pcb.setProcess_modifyProcess]

namespace Machine

theorem openSTDIOFiles_zero {p : Pcb} {k : UInt64} {e : PcbEntry}
    (hk : p.badIndex k = false) (he : e.fileDescriptors = .zero) :
    openSTDIOFiles (p.setProcess k.toNat e) k =
      (0, p.setProcess k.toNat { e with fileDescriptors := stdioFiles }) := by
  simp only [openSTDIOFiles]
  rw [Pcb.addFile_setProcess hk (by rw [he]; decide)]
  simp only [he]
  rw [Pcb.addFile_setProcess hk (by dsimp only; decide)]
  simp only
  rw [Pcb.addFile_setProcess hk (by dsimp only; decide)]
  rfl

theorem openRawKeys_stdio {p : Pcb} {k : UInt64} {e : PcbEntry}
    (hk : p.badIndex k = false) (he : e.fileDescriptors = stdioFiles) :
    openRawKeys (p.setProcess k.toNat e) k =
      (0, p.setProcess k.toNat { e with fileDescriptors := standardFiles }) := by
  simp only [openRawKeys]
  rw [Pcb.addFile_setProcess hk (by rw [he]; decide)]
  simp only [he]
  rfl

/-! ### createProcess -/

/-- What `POP_PAGE` yields for the stack of the process in entry `index`. -/
def stackPageFor (m : Machine) (index : Nat) : PageStack × Addr :=
  m.pages.pageManager .POP_PAGE (m.pcb.entries index).stackPage

/-- The entry of a process whose creation succeeds. -/
def createdEntry (m : Machine) (a : ProcessParams) (index : Nat) (sp : Addr) : PcbEntry :=
  { claimedEntry m (m.pcb.entries index) a with
    stackPage := (m.stackPageFor index).2
    stack := sp
    fileDescriptors := standardFiles
    heapPage := NULL }

/-- The results of `createProcess`. -/
inductive Created (m : Machine) (a : ProcessParams) : UInt64 → Machine → Prop where
  | noPcb : m.pcb.pcb = NULL → Created m a (-1) m
  | noEntry : m.pcb.pcb ≠ NULL → freeEntry m.pcb = m.pcb.maxProcesses.toNat →
      Created m a (-2) m
  | noPage (index : Nat) : m.pcb.pcb ≠ NULL → index = freeEntry m.pcb →
      index < m.pcb.maxProcesses.toNat → (m.stackPageFor index).2 = NULL →
      Created m a (-3)
        { mem := m.mem
          pages := (m.stackPageFor index).1
          pcb := m.withNewProcess index
            { claimedEntry m (m.pcb.entries index) a with stackPage := NULL } }
  | noArguments (index : Nat) : m.pcb.pcb ≠ NULL → index = freeEntry m.pcb →
      index < m.pcb.maxProcesses.toNat → (m.stackPageFor index).2 ≠ NULL → a.argc = 0 →
      Created m a (-4)
        { mem := m.mem
          pages := (m.stackPageFor index).1
          pcb := m.withNewProcess index
            { claimedEntry m (m.pcb.entries index) a with
              stackPage := (m.stackPageFor index).2
              stack := (m.stackPageFor index).2 + PAGE_SIZE } }
  | ok (index : Nat) (mem : Memory) (sp : Addr) : m.pcb.pcb ≠ NULL →
      index = freeEntry m.pcb → index < m.pcb.maxProcesses.toNat →
      (m.stackPageFor index).2 ≠ NULL → a.argc ≠ 0 →
      initializeStack m.mem ((m.stackPageFor index).2 + PAGE_SIZE) a.entryPoint a.argc a.argv =
        some (0, mem, sp) →
      Created m a (UInt64.ofNat index)
        { mem := mem
          pages := (m.stackPageFor index).1
          pcb := m.withNewProcess index (m.createdEntry a index sp) }

/-- `initializeStack` fails for the lack of arguments only, and then touches nothing. -/
theorem initializeStack_code {mem : Memory} {sp f argv : Addr} {argc : UInt64}
    {r : UInt64 × Memory × Addr} (h : initializeStack mem sp f argc argv = some r) :
    (argc = 0 ∧ r = (-1, mem, sp)) ∨ (argc ≠ 0 ∧ r.1 = 0) := by
  have hle : argc ≤ 0 ↔ argc = 0 := by
    rw [UInt64.le_iff_toNat_le, ← UInt64.toNat_inj]
    simp
  unfold initializeStack at h
  split at h
  · next h0 => exact .inl ⟨hle.mp h0, (Option.some.inj h).symm⟩
  · next h0 =>
    refine .inr ⟨fun h' => h0 (hle.mpr h'), ?_⟩
    simp only at h
    split at h
    · cases h
    · rw [← Option.some.inj h]

@[simp] theorem withNewProcess_modifyProcess (m : Machine) (index : Nat) (e : PcbEntry)
    (f : PcbEntry → PcbEntry) :
    (m.withNewProcess index e).modifyProcess index f = m.withNewProcess index (f e) := by
  simp [withNewProcess, Pcb.modifyProcess, Pcb.setProcess]

@[simp] theorem withNewProcess_entries_self (m : Machine) (index : Nat) (e : PcbEntry) :
    (m.withNewProcess index e).entries index = e := by
  simp [withNewProcess]

theorem freeEntry_le (p : Pcb) : freeEntry p ≤ p.maxProcesses.toNat := Scan.scan_le _

theorem createStack_eq (m : Machine) (index : Nat) (e : PcbEntry)
    (he : e.stackPage = (m.pcb.entries index).stackPage) :
    createStack { m with pcb := m.withNewProcess index e } index =
      if (m.stackPageFor index).2 = NULL then
        (-1, { m with
          pages := (m.stackPageFor index).1
          pcb := m.withNewProcess index { e with stackPage := (m.stackPageFor index).2 } })
      else
        (0, { m with
          pages := (m.stackPageFor index).1
          pcb := m.withNewProcess index
            { e with
              stackPage := (m.stackPageFor index).2
              stack := (m.stackPageFor index).2 + PAGE_SIZE } }) := by
  simp only [createStack, modifyProcess, withNewProcess_entries_self, he,
    withNewProcess_modifyProcess]
  rfl

theorem openFiles_eq {m m₀ : Machine} {index : Nat} {e : PcbEntry}
    (hpcb : m.pcb = m₀.withNewProcess index e) (hnull : m₀.pcb.pcb ≠ NULL)
    (hlt : index < m₀.pcb.maxProcesses.toNat) :
    m.openFiles index = (UInt64.ofNat index, { m with
      pcb := m₀.withNewProcess index
        { e with fileDescriptors := standardFiles, heapPage := NULL } }) := by
  have hk : (UInt64.ofNat index).toNat = index := by
    apply UInt64.toNat_ofNat_of_lt'
    exact hlt.trans m₀.pcb.maxProcesses.toNat_lt
  have hbad : ({ m₀.pcb with nextPid := m₀.pcb.nextPid + 1 } : Pcb).badIndex
      (UInt64.ofNat index) = false := by
    have hle : ¬ UInt64.ofNat index > m₀.pcb.maxProcesses := by
      intro hgt
      have := UInt64.lt_iff_toNat_lt.mp hgt
      omega
    simp [Pcb.badIndex, hnull, hle]
  have hset : ∀ e, m₀.withNewProcess index e =
      ({ m₀.pcb with nextPid := m₀.pcb.nextPid + 1 } : Pcb).setProcess
        (UInt64.ofNat index).toNat e := by
    intro e
    rw [hk]
    rfl
  simp only [openFiles, hpcb, withNewProcess_modifyProcess]
  rw [hset, openSTDIOFiles_zero hbad rfl]
  simp only
  rw [openRawKeys_stdio hbad rfl]
  simp only [hk, Pcb.setProcess_modifyProcess]
  rfl

theorem createProcess_created {m m' : Machine} {a : ProcessParams} {r : UInt64}
    (h : m.createProcess a = some (r, m')) : Created m a r m' := by
  unfold createProcess at h
  -- no table of processes
  split at h
  · next hnull =>
    obtain ⟨rfl, rfl⟩ : -1 = r ∧ m = m' := by simpa using h
    exact .noPcb hnull
  · next hnull =>
    simp only at h
    -- no free entry
    split at h
    · next hfull =>
      obtain ⟨rfl, rfl⟩ : -2 = r ∧ m = m' := by simpa using h
      exact .noEntry hnull hfull
    · next hfull =>
      have hlt : freeEntry m.pcb < m.pcb.maxProcesses.toNat := by
        have := freeEntry_le m.pcb
        omega
      generalize hidx : freeEntry m.pcb = index at h hlt
      rw [createStack_eq m index (claimedEntry m (m.pcb.entries index) a) rfl] at h
      -- no page for the stack
      by_cases hpage : (m.stackPageFor index).2 = NULL
      · rw [if_pos hpage, hpage] at h
        obtain ⟨rfl, rfl⟩ := Prod.mk.inj (Option.some.inj h)
        exact .noPage index hnull hidx.symm hlt hpage
      · rw [if_neg hpage] at h
        simp only [withNewProcess_entries_self, ne_eq, not_true_eq_false, if_false] at h
        split at h
        · cases h
        -- no arguments, or a stack laid out
        · next code mem sp hinit =>
          rcases initializeStack_code hinit with ⟨hargc, hr⟩ | ⟨hargc, hr⟩
          · obtain ⟨rfl, rfl, rfl⟩ : code = -1 ∧ mem = m.mem ∧
                sp = (m.stackPageFor index).2 + PAGE_SIZE := by simpa using hr
            obtain ⟨rfl, rfl⟩ := Prod.mk.inj (Option.some.inj h)
            simp only [modifyProcess, withNewProcess_modifyProcess]
            exact .noArguments index hnull hidx.symm hlt hpage hargc
          · obtain rfl : code = 0 := hr
            simp only [modifyProcess, withNewProcess_modifyProcess, not_true_eq_false,
              if_false] at h
            rw [openFiles_eq rfl hnull hlt] at h
            obtain ⟨rfl, rfl⟩ := Prod.mk.inj (Option.some.inj h)
            exact .ok index mem sp hnull hidx.symm hlt hpage hargc hinit

/-- With one argument the stack is always laid out: the null pushed first ends every walk
    along the argument. -/
theorem initializeStack_isSome (mem : Memory) (sp mainFunction argv : Addr) :
    ∃ r, initializeStack mem sp mainFunction 1 argv = some r := by
  have hz : (pushZeros mem sp 8).1 (sp - 8) = 0 := memset_self mem (sp - 8) 0 7
  have hloop : loopCount 1 = 1 := by decide
  obtain ⟨p, hpush⟩ : ∃ p, pushArguments (pushZeros mem sp 8).1 (pushZeros mem sp 8).2 argv
      (loopCount 1) = some p := by
    rw [hloop]
    obtain ⟨len, hlen⟩ := strlen_isSome hz
      ((pushZeros mem sp 8).1.readWord (argv + UInt64.ofNat (8 * 0)))
    simp only [pushArguments, hlen]
    exact ⟨_, rfl⟩
  unfold initializeStack
  rw [if_neg (by decide)]
  simp only [hpush]
  exact ⟨_, rfl⟩

/-- The creation returns when the laying out of its stack does. -/
theorem createProcess_isSome_of_stack (m : Machine) {a : ProcessParams}
    (h : ∃ r, initializeStack m.mem ((m.stackPageFor (freeEntry m.pcb)).2 + PAGE_SIZE)
      a.entryPoint a.argc a.argv = some r) : ∃ r m', m.createProcess a = some (r, m') := by
  obtain ⟨⟨code, mem, sp⟩, hinit⟩ := h
  unfold createProcess
  split
  · exact ⟨_, _, rfl⟩
  simp only
  split
  · exact ⟨_, _, rfl⟩
  rw [createStack_eq m _ (claimedEntry m (m.pcb.entries _) a) rfl]
  split
  · exact ⟨_, _, rfl⟩
  simp only [ne_eq, not_true_eq_false, if_false, withNewProcess_entries_self, hinit]
  split <;> exact ⟨_, _, rfl⟩

theorem createProcess_isSome (m : Machine) {a : ProcessParams} (ha : a.argc = 1) :
    ∃ r m', m.createProcess a = some (r, m') := by
  apply createProcess_isSome_of_stack m
  rw [ha]
  exact initializeStack_isSome _ _ _ _

section Created
variable {m m' : Machine} {a : ProcessParams} {r : UInt64}

theorem freeEntry_unoccupied {p : Pcb} (h : freeEntry p < p.maxProcesses.toNat) :
    (p.entries (freeEntry p)).occupied = 0 :=
  Scan.scan_match h

theorem Created.pcb_pcb (h : Created m a r m') : m'.pcb.pcb = m.pcb.pcb := by
  cases h <;> rfl

theorem Created.maxProcesses (h : Created m a r m') :
    m'.pcb.maxProcesses = m.pcb.maxProcesses := by
  cases h <;> rfl

theorem Created.badIndex (h : Created m a r m') (k : UInt64) :
    m'.pcb.badIndex k = m.pcb.badIndex k := by
  simp only [Pcb.badIndex, h.pcb_pcb, h.maxProcesses]

/-- The entries of the processes there are stay as they are. -/
theorem Created.entries_of_occupied (h : Created m a r m') {i : Nat}
    (hi : (m.pcb.entries i).occupied ≠ 0) : m'.pcb.entries i = m.pcb.entries i := by
  have hne : ∀ index, index = freeEntry m.pcb → index < m.pcb.maxProcesses.toNat →
      i ≠ index := by
    rintro index rfl hlt rfl
    exact hi (freeEntry_unoccupied hlt)
  cases h with
  | noPcb | noEntry => rfl
  | noPage index _ hidx hlt => simp [withNewProcess, hne index hidx hlt]
  | noArguments index _ hidx hlt => simp [withNewProcess, hne index hidx hlt]
  | ok index mem sp _ hidx hlt => simp [withNewProcess, hne index hidx hlt]

/-- No entry gets a heap. -/
theorem Created.heapPage (h : Created m a r m') {i : Nat}
    (hi : (m.pcb.entries i).heapPage = NULL) : (m'.pcb.entries i).heapPage = NULL := by
  cases h with
  | noPcb | noEntry => exact hi
  | noPage index =>
    by_cases hii : i = index
    · subst hii
      simpa [withNewProcess, claimedEntry] using hi
    · simpa [withNewProcess, hii] using hi
  | noArguments index =>
    by_cases hii : i = index
    · subst hii
      simpa [withNewProcess, claimedEntry] using hi
    · simpa [withNewProcess, hii] using hi
  | ok index =>
    by_cases hii : i = index
    · simp [hii, createdEntry]
    · simpa [withNewProcess, hii] using hi

/-- An error code, or the index of an entry that was free and now holds a process. -/
theorem Created.index (h : Created m a r m') :
    2 ^ 63 ≤ r.toNat ∨
    ∃ index sp, r = UInt64.ofNat index ∧ index < m.pcb.maxProcesses.toNat ∧
      (m.pcb.entries index).occupied = 0 ∧
      m'.pcb = m.withNewProcess index (m.createdEntry a index sp) := by
  cases h with
  | noPcb | noEntry | noPage | noArguments => exact .inl (by decide)
  | ok index mem sp _ hidx hlt =>
    subst hidx
    exact .inr ⟨_, sp, rfl, hlt, freeEntry_unoccupied hlt, rfl⟩

/-- Nothing, or one free entry is filled in. -/
theorem Created.entry (h : Created m a r m') : m'.pcb = m.pcb ∨
    ∃ index e, index < m.pcb.maxProcesses.toNat ∧ (m.pcb.entries index).occupied = 0 ∧
      e.occupied = 1 ∧ e.pid = m.pcb.nextPid ∧
      (e.fileDescriptors = (m.pcb.entries index).fileDescriptors ∨
        e.fileDescriptors = standardFiles) ∧
      m'.pcb = m.withNewProcess index e := by
  cases h with
  | noPcb | noEntry => exact .inl rfl
  | noPage index _ hidx hlt =>
    subst hidx
    refine .inr ⟨_, _, hlt, freeEntry_unoccupied hlt, ?_, ?_, ?_, rfl⟩
    · rfl
    · rfl
    · exact .inl rfl
  | noArguments index _ hidx hlt =>
    subst hidx
    refine .inr ⟨_, _, hlt, freeEntry_unoccupied hlt, ?_, ?_, ?_, rfl⟩
    · rfl
    · rfl
    · exact .inl rfl
  | ok index mem sp _ hidx hlt =>
    subst hidx
    refine .inr ⟨_, _, hlt, freeEntry_unoccupied hlt, ?_, ?_, ?_, rfl⟩
    · rfl
    · rfl
    · exact .inr rfl

end Created

/-! ### destroyProcess -/

/-- What `destroyProcess` leaves when the process has no heap. -/
def withoutProcess (m : Machine) (k : UInt64) : Machine :=
  if m.pcb.badIndex k then m
  else { m with
    pages := (m.pages.pageManager .PUSH_PAGE (m.pcb.process k).stackPage).1
    pcb := m.pcb.setProcess k.toNat .zero }

/-- A process without a heap is always destroyed. -/
theorem destroyProcess_of_no_heap {m : Machine} {k : UInt64}
    (hheap : m.pcb.badIndex k = false → (m.pcb.process k).heapPage = NULL) :
    ∃ r, m.destroyProcess k = some (r, m.withoutProcess k) := by
  unfold destroyProcess withoutProcess
  by_cases hbad : m.pcb.badIndex k = true
  · simp [hbad]
  · simp [hbad, freePages, hheap (by simpa using hbad)]

/-- Destroying several processes, one after the other. -/
def withoutProcesses (m : Machine) (ks : List UInt64) : Machine :=
  ks.foldl withoutProcess m

section
variable (m : Machine) (k : UInt64) (ks : List UInt64)

@[simp] theorem withoutProcess_pcb_pcb : (m.withoutProcess k).pcb.pcb = m.pcb.pcb := by
  unfold withoutProcess
  split <;> rfl

@[simp] theorem withoutProcess_maxProcesses :
    (m.withoutProcess k).pcb.maxProcesses = m.pcb.maxProcesses := by
  unfold withoutProcess
  split <;> rfl

@[simp] theorem withoutProcess_nextPid :
    (m.withoutProcess k).pcb.nextPid = m.pcb.nextPid := by
  unfold withoutProcess
  split <;> rfl

@[simp] theorem withoutProcess_badIndex (k' : UInt64) :
    (m.withoutProcess k).pcb.badIndex k' = m.pcb.badIndex k' := by
  unfold withoutProcess
  split <;> rfl

/-- The entry is cleared and the others stay. -/
theorem withoutProcess_entries (i : Nat) :
    (m.withoutProcess k).pcb.entries i =
      if m.pcb.badIndex k = false ∧ k.toNat = i then .zero else m.pcb.entries i := by
  by_cases hbad : m.pcb.badIndex k = true
  · simp [withoutProcess, hbad]
  · by_cases hki : k.toNat = i
    · simp [withoutProcess, hbad, hki]
    · simp [withoutProcess, hbad, hki, Ne.symm hki]

@[simp] theorem withoutProcesses_nil : m.withoutProcesses [] = m := rfl

@[simp] theorem withoutProcesses_cons :
    m.withoutProcesses (k :: ks) = (m.withoutProcess k).withoutProcesses ks := rfl

/-- What the destruction of a process leaves, that of several leaves. -/
theorem withoutProcesses_same {β : Sort*} (f : Machine → β)
    (hf : ∀ m k, f (withoutProcess m k) = f m) : f (m.withoutProcesses ks) = f m := by
  induction ks generalizing m with
  | nil => rfl
  | cons k ks ih =>
    rw [withoutProcesses_cons, ih, hf]

@[simp] theorem withoutProcesses_pcb_pcb : (m.withoutProcesses ks).pcb.pcb = m.pcb.pcb :=
  withoutProcesses_same m ks (fun m => m.pcb.pcb) withoutProcess_pcb_pcb

@[simp] theorem withoutProcesses_maxProcesses :
    (m.withoutProcesses ks).pcb.maxProcesses = m.pcb.maxProcesses :=
  withoutProcesses_same m ks (fun m => m.pcb.maxProcesses) withoutProcess_maxProcesses

@[simp] theorem withoutProcesses_nextPid :
    (m.withoutProcesses ks).pcb.nextPid = m.pcb.nextPid :=
  withoutProcesses_same m ks (fun m => m.pcb.nextPid) withoutProcess_nextPid

@[simp] theorem withoutProcesses_badIndex (k' : UInt64) :
    (m.withoutProcesses ks).pcb.badIndex k' = m.pcb.badIndex k' :=
  withoutProcesses_same m ks (fun m => m.pcb.badIndex k') fun m k =>
    withoutProcess_badIndex m k k'

theorem withoutProcesses_entries (i : Nat) :
    (m.withoutProcesses ks).pcb.entries i =
      if ∃ k ∈ ks, m.pcb.badIndex k = false ∧ k.toNat = i then .zero
      else m.pcb.entries i := by
  induction ks generalizing m with
  | nil => simp
  | cons k ks ih =>
    rw [withoutProcesses_cons, ih, withoutProcess_entries]
    by_cases hk : m.pcb.badIndex k = false ∧ k.toNat = i
    · simp [hk]
    · simp [hk]

end

end Machine

end TP2Kernel
