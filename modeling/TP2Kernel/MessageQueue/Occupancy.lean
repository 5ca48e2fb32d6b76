import TP2Kernel.MessageQueue.Links
import TP2Kernel.Scheduler.Recycling

/-! # A process that opens queue after queue

    The first process of the system has four files open.  Each queue it opens takes one
    more descriptor, until its table is full.
-/

namespace TP2Kernel

open Transition Scheduler FileDescriptorsMap

namespace Kernel

/-- The name of the `k`-th queue: `a`, `aa`, … -/
def queueName (k : Nat) : CString :=
  ⟨List.replicate (k + 1) 97, by
    intro b hb
    rw [List.eq_of_mem_replicate hb]
    decide⟩

theorem queueName_inj {j k : Nat} (h : queueName j = queueName k) : j = k := by
  have hlen := congrArg (fun n : CString => n.bytes.length) h
  simpa [queueName] using hlen

theorem queueName_ne_empty (k : Nat) : queueName k ≠ CString.empty := by
  intro h
  have hlen := congrArg (fun n : CString => n.bytes.length) h
  simp [queueName, CString.empty] at hlen

theorem length_queueName (k : Nat) : (queueName k).length = k + 1 := by
  simp [queueName, CString.length]

/-- Process `k` reads from queue `i`, in which nobody has written yet. -/
structure Reads (s : Kernel) (k : UInt64) (i : Nat) (name : CString) : Prop where
  lt : i < MAX_MQS
  file : ∃ f stream, (s.mqs i).file = some f ∧ f < maxFiles ∧
    s.files.filesTable f = FilesTable.newEntry name stream
  readPID : (s.mqs i).readPID = s.pcb.getProcessPID k
  writePID : (s.mqs i).writePID = -1
  descriptor : ∃ fd, fd < MAX_FILES ∧ (s.pcb.process k).fileDescriptors.entries fd =
    ⟨1, UInt32.ofNat i, FileType.MESSAGE_QUEUE.code, F_READ⟩

/-- The only process runs and has the queues `0` to `k - 1` open, for reading. -/
structure Stocked (s : Kernel) (k : Nat) : Prop where
  reachable : (messaging.restrict WellBehaved).Reachable s
  queue : ∃ f, s.sched.queue = [f] ∧ s.sched.isFinished f = false
  good : s.pcb.badIndex s.sched.getCurrentPCBIndex = false
  size : (s.pcb.process s.sched.getCurrentPCBIndex).fileDescriptors.size =
    UInt64.ofNat (4 + k)
  pages : s.pages = .popped (UInt16.ofNat (4 + k))
  nextPid : s.pcb.nextPid = 2
  free : ∃ e, e < pcbEntries ∧ (s.pcb.entries e).occupied = 0
  numFiles : s.files.numFiles.toNat = k
  numMQs : s.numMQs.toNat = k
  names : ∀ i, i < maxFiles → s.files.Named i →
    ∃ j, j < k ∧ (s.files.filesTable i).name = queueName j
  queues : ∀ j, j < k → ∃ i, Reads s s.sched.getCurrentPCBIndex i (queueName j)

variable {s s' : Kernel} {k : Nat}

theorem Reads.live {k : UInt64} {i : Nat} {name : CString} (h : Reads s k i name) : s.Live i := by
  obtain ⟨f, stream, hf, -⟩ := h.file
  unfold Live
  rw [hf]
  exact Option.some_ne_none f

theorem Reads.name {k : UInt64} {i : Nat} {name : CString} (h : Reads s k i name) :
    s.nameOf i = name := by
  obtain ⟨f, stream, hf, -, hentry⟩ := h.file
  unfold nameOf
  rw [hf]
  show (s.files.filesTable f).name = name
  rw [hentry]
  rfl

/-- What else happens does not matter. -/
theorem Reads.congr {k k' : UInt64} {i : Nat} {name : CString} (h : Reads s k i name)
    (hfile : ∀ f, (s.mqs i).file = some f →
      s'.files.filesTable f = s.files.filesTable f)
    (hmq : s'.mqs i = s.mqs i) (hpid : s'.pcb.getProcessPID k' = s.pcb.getProcessPID k)
    (hentry : ∀ fd, ((s.pcb.process k).fileDescriptors.entries fd).occupied ≠ 0 →
      (s'.pcb.process k').fileDescriptors.entries fd =
        (s.pcb.process k).fileDescriptors.entries fd) : Reads s' k' i name := by
  obtain ⟨f, stream, hf, hlt, hnew⟩ := h.file
  obtain ⟨fd, hfd, hdesc⟩ := h.descriptor
  refine ⟨h.lt, ⟨f, stream, ?_, hlt, ?_⟩, ?_, ?_, fd, hfd, ?_⟩
  · rw [hmq]
    exact hf
  · rw [hfile f hf]
    exact hnew
  · rw [hmq, hpid]
    exact h.readPID
  · rw [hmq]
    exact h.writePID
  · have hocc : ((s.pcb.process k).fileDescriptors.entries fd).occupied ≠ 0 := by
      rw [hdesc]
      show (1 : UInt32) ≠ 0
      decide
    rw [hentry fd hocc]
    exact hdesc

/-! ### The start -/

/-- With a page for the table of files and two more, the kernel starts. -/
theorem boot_fresh (mem : Memory) (entries : Nat → PcbEntry) (nodes : Nat → Node) :
    ∃ s, Kernel.boot mem (.popped 0) entries nodes = some s ∧
      Tasks.boot mem (.popped 1) entries nodes = some s.toTasks ∧ s.mem = mem ∧
      s.pages = .popped 3 ∧ s.files = .cleared ∧ (∀ i, s.mqs i = .zero) ∧ s.numMQs = 0 ∧
      s.tty = .bss ∧ s.rawKeys = .empty := by
  have hpop : (PageStack.popped 0).pageManager .POP_PAGE NULL =
      (.popped 1, PageStack.pageAddress 0) := PageStack.popped_pop (by decide) NULL
  obtain ⟨t, hboot, hmem, hpages⟩ := Tasks.boot_popped (k := 1) (by decide) mem entries nodes
  have hpage : PageStack.pageAddress 0 ≠ NULL := PageStack.pageAddress_ne_null (by decide)
  have hkernel : Kernel.boot mem (.popped 0) entries nodes =
      some { toTasks := t, files := .cleared, mqs := fun _ => .zero, numMQs := 0
             tty := .bss, rawKeys := .empty } := by
    simp only [Kernel.boot, hpop, if_neg hpage, hboot]
    rfl
  exact ⟨_, hkernel, hboot, hmem, hpages, rfl, fun _ => rfl, rfl, rfl, rfl⟩

/-- The first process is added and gets the turn, in every system that starts like the
    kernel and in which the scheduler runs.  It has the standard files, and all buffers are
    empty. -/
theorem stocked_first : ∃ s, Stocked s 0 ∧ (∀ sys : System Kernel QueueAction,
    (∀ s, messaging.init s → sys.init s) →
    (∀ s action s', (messaging.restrict WellBehaved).step s (.task action) s' →
      sys.step s (.task action) s') → sys.Reachable s) ∧
    (s.pcb.process s.sched.getCurrentPCBIndex).fileDescriptors = standardFiles ∧
    s.sched.current ≠ none ∧ s.tty = .bss ∧ s.rawKeys = .empty := by
  obtain ⟨s₀, hboot, htasks, hmem, hpages, hfiles, hmqs, hnum, htty, hraw⟩ :=
    boot_fresh (fun _ => 0) (fun _ => .zero) (fun _ => ⟨0, .RUNNING, 0, 0⟩)
  obtain ⟨-, -, -, -, hmax, hpid, hzero⟩ := Tasks.boot_ok htasks
  have h₀ := taskInv_boot htasks
  have hroom : Room s₀.toTasks := by
    refine ⟨by rw [hpages]; exact ⟨rfl, by decide, by decide⟩, 0, by decide, ?_⟩
    rw [hzero 0 (by decide)]
    rfl
  -- the first process joins, and the first tick gives it the turn
  obtain ⟨r₁, t₁, i, hadd, -, hjoin, -, hres⟩ := room_addProcess hroom h₀
    (show 0 < MAX_PROCESSES by decide) (a := ⟨0, NULL, NULL, 1, NULL⟩) rfl
  have hinit : messaging.init s₀ := ⟨_, _, _, _, hboot⟩
  have hfits : s₀.FrameFits ⟨0, NULL, NULL, 1, NULL⟩ :=
    .inr (Machine.fits_of_nullArgument rfl (fun _ _ => by rw [hmem]))
  have hstep₁ : (messaging.restrict WellBehaved).step s₀ (.task (.addProcess _))
      { s₀ with toTasks := t₁ } :=
    ⟨by show s₀.pcb.nextPid ≠ -1; rw [hpid]; decide, ⟨hfits, r₁, hadd⟩, rfl⟩
  -- alone on the ring, it is the next one
  obtain ⟨rsp, t₂, hnext, hturn⟩ := nextProcess_turnTaken hjoin.inv 0x1000
  have hqueue : nextQueue t₁.sched [i] = [i] := by simp [nextQueue, hres.isFinished]
  have h₂ := hturn.inv
  rw [hqueue] at h₂
  have hleaves : ∀ e, ¬ t₁.Leaves e := by
    intro e h
    obtain ⟨n, hn, -⟩ := h
    rw [hjoin.inv.queue_eq] at hn
    simp [hres.isFinished] at hn
  have hstep₂ : (messaging.restrict WellBehaved).step { s₀ with toTasks := t₁ }
      (.task (.nextProcess 0x1000)) { s₀ with toTasks := t₂ } :=
    ⟨fun e hl => absurd hl (hleaves e), ⟨rsp, hnext⟩, rfl⟩
  -- both steps are well-behaved, so any system that allows these can take them
  have hreach : ∀ sys : System Kernel QueueAction, (∀ s, messaging.init s → sys.init s) →
      (∀ s action s', (messaging.restrict WellBehaved).step s (.task action) s' →
        sys.step s (.task action) s') → sys.Reachable { s₀ with toTasks := t₂ } :=
    fun sys hstart hsteps => .step _ (.step _ (.init (hstart _ hinit)) (hsteps _ _ _ hstep₁))
      (hsteps _ _ _ hstep₂)
  have hcur := (h₂.getCurrentPCBIndex_eq).2
  obtain ⟨mem, sp, -, hentry⟩ := hjoin.entry
  have hmem : i ∈ nextQueue t₁.sched [i] := by rw [hqueue]; exact List.mem_singleton.mpr rfl
  -- it has the standard files only
  have hstandard : (t₂.pcb.process t₂.sched.getCurrentPCBIndex).fileDescriptors =
      standardFiles := by
    have hfds : (t₁.pcb.process (t₁.sched.nodes i).PCBIndex).fileDescriptors = standardFiles := by
      rw [hjoin.pcbIndex, hentry]
      rfl
    rw [hcur, hturn.pcbIndex, hturn.process i hmem hres.good, Pcb.process,
      Tasks.rotate_fileDescriptors]
    exact hfds
  have hturns : t₂.sched.current ≠ none := by
    rw [(h₂.getCurrentPCBIndex_eq).1]
    exact Option.some_ne_none i
  refine ⟨{ s₀ with toTasks := t₂ }, ⟨hreach _ (fun _ h => h) (fun _ _ _ h => h),
    ⟨i, h₂.queue_eq, ?_⟩, ?_, ?_, ?_, ?_, ?_, ?_, ?_, ?_, ?_⟩, hreach, hstandard, hturns, htty,
    hraw⟩
  · rw [hturn.isFinished]
    exact hres.isFinished
  · show t₂.pcb.badIndex t₂.sched.getCurrentPCBIndex = false
    rw [hcur, hturn.pcbIndex, hturn.badIndex]
    exact hres.good
  · show (t₂.pcb.process t₂.sched.getCurrentPCBIndex).fileDescriptors.size = _
    rw [hstandard]
    rfl
  -- three pages are taken: the file table, the PCB and the stack
  · show t₂.pages = _
    have hpages₂ : t₂.pages = t₁.pages := by
      rw [hturn.machine]
      simp [hres.isFinished]
    rw [hpages₂, hjoin.pages, Machine.stackPageFor, hpages,
      PageStack.popped_pop (by decide)]
    rfl
  · show t₂.pcb.nextPid = 2
    rw [hturn.nextPid, hjoin.nextPid, hpid]
    rfl
  · -- one entry is taken
    have hother : ∃ e, e < pcbEntries ∧ e ≠ Machine.freeEntry s₀.pcb := by
      by_cases hfirst : Machine.freeEntry s₀.pcb = 0
      · exact ⟨1, by decide, by rw [hfirst]; decide⟩
      · exact ⟨0, by decide, fun heq => hfirst heq.symm⟩
    obtain ⟨e, he, hne⟩ := hother
    refine ⟨e, he, ?_⟩
    obtain ⟨stack, hstay⟩ := (nextProcess_entries hjoin.inv hnext).stays e (hleaves e)
    show (t₂.pcb.entries e).occupied = 0
    rw [hstay, hjoin.entries e hne, hzero e he]
    rfl
  · show s₀.files.numFiles.toNat = 0
    rw [hfiles]
    rfl
  · show s₀.numMQs.toNat = 0
    rw [hnum]
    rfl
  · intro j _ hn
    have hn' : s₀.files.Named j := hn
    rw [hfiles] at hn'
    exact absurd rfl hn'
  · intro j hj
    exact absurd hj (Nat.not_lt_zero j)

/-! ### One more queue -/

/-- Nothing stands in the way of the next queue. -/
theorem Stocked.canOpen (h : Stocked s k) (hk : k < 12) :
    s.indexOfMQ (queueName k) = none ∧ (∃ i, s.findFreeSlot = some i) ∧
    s.CanCreateFile (queueName k) ∧ ¬ s.NoDescriptor := by
  obtain ⟨hinv, -⟩ := ledger h.reachable
  refine ⟨?_, ?_, ⟨?_, ?_, ?_, queueName_ne_empty k, ?_, ?_⟩, ?_⟩
  · -- the names there are belong to smaller numbers
    cases hindex : s.indexOfMQ (queueName k) with
    | none => rfl
    | some i =>
      obtain ⟨hi, hlive, hname⟩ := indexOfMQ_some hindex
      obtain ⟨f, hf⟩ := Option.ne_none_iff_exists'.mp hlive
      obtain ⟨hlt, hn⟩ := hinv.slots.file i f hi hf
      obtain ⟨j, hj, hjname⟩ := h.names f hlt hn
      rw [hf] at hname
      have hjk : queueName j = queueName k := hjname.symm.trans hname
      have := queueName_inj hjk
      omega
  -- one slot a queue is taken, so one is free
  · have hcount : Counting.count (fun i => (s.mqs i).file ≠ none) MAX_MQS < MAX_MQS := by
      rw [← hinv.slots.numMQs, h.numMQs]
      unfold MAX_MQS
      omega
    obtain ⟨j, hj, hfree⟩ := Counting.exists_of_count_lt hcount
    have hlt : Scan.scan (fun i => (s.mqs i).file = none) MAX_MQS < MAX_MQS :=
      Scan.scan_lt_iff.mpr ⟨j, hj, not_not.mp hfree⟩
    exact ⟨Scan.scan (fun i => (s.mqs i).file = none) MAX_MQS, if_pos hlt⟩
  -- the name is one letter
  · unfold FilesTable.BadName
    rw [length_queueName, not_or]
    exact ⟨queueName_ne_empty k, by unfold MAX_NAME; omega⟩
  -- the page stack still has pages
  · have hlt : (UInt16.ofNat (4 + k)).toNat < STACK_SIZE := by
      rw [UInt16.toNat_ofNat_of_lt' (by show 4 + k < 2 ^ 16; omega)]
      unfold STACK_SIZE
      omega
    rw [h.pages, PageStack.pop, PageStack.popped_pop hlt]
    exact PageStack.pageAddress_ne_null hlt
  · rw [UInt64.lt_iff_toNat_lt, h.numFiles]
    show k < 128
    omega
  · rw [length_queueName]
    unfold MAX_NAME
    omega
  -- a file of that name would be that of an earlier queue
  · apply FilesTable.findBasicFile_none_iff.mpr
    intro i hi hname
    have hn : s.files.Named i := by
      unfold FilesTable.Named
      rw [hname]
      exact queueName_ne_empty k
    obtain ⟨j, hj, hjname⟩ := h.names i hi hn
    have := queueName_inj (hjname.symm.trans hname)
    omega
  -- the process has a descriptor left: four and one per queue
  · intro h
    rcases h with hbad | hfull
    · rw [h.good] at hbad
      cases hbad
    · have hsize : (UInt64.ofNat (4 + k)).toNat = 4 + k :=
        UInt64.toNat_ofNat_of_lt' (by show 4 + k < 2 ^ 64; omega)
      have hmax : (UInt64.ofNat MAX_FILES).toNat = 16 := rfl
      rw [h.size, UInt64.le_iff_toNat_le, hsize, hmax] at hfull
      omega

theorem Stocked.opens (h : Stocked s k) (hk : k < 12) :
    Stocked (s.MQopen (some (queueName k)) F_READ).2 (k + 1) := by
  obtain ⟨hinv, hledger⟩ := ledger h.reachable
  obtain ⟨hindex, ⟨i, hslot⟩, hcan, hno⟩ := h.canOpen hk
  have hflags : ¬ (F_READ &&& F_READ = 0 ∧ F_READ &&& F_WRITE = 0) := by decide
  have hopen := MQopen_new hflags hindex hslot hcan hno
  obtain ⟨hi, hdead⟩ := findFreeSlot_some hslot
  obtain ⟨hlt, hn, -⟩ := hinv.slots.table.firstFree hcan.2.2.1
  obtain ⟨hbad, hentry, hroom⟩ := hinv.room hno
  have hmqs : ((s.withMQ i (queueName k) F_READ).withDescriptor i F_READ).mqs =
      Function.update s.mqs i ⟨some s.files.firstFree, 1, s.getCurrentPID, -1⟩ := by
    have hread : F_READ &&& F_READ ≠ 0 := by decide
    simp only [withDescriptor, withMQ, Function.update_self, Function.update_idem,
      MessageQueue.marked, if_pos hread]
    rfl
  have hreach : (messaging.restrict WellBehaved).Reachable
      ((s.withMQ i (queueName k) F_READ).withDescriptor i F_READ) := by
    apply System.Reachable.step (.MQopen (some (queueName k)) F_READ) h.reachable
    refine ⟨fun hover => hno hover.1, ?_⟩
    show _ = (s.MQopen (some (queueName k)) F_READ).2
    rw [hopen]
  have hpid : ((s.withMQ i (queueName k) F_READ).withDescriptor i F_READ).getCurrentPID =
      s.getCurrentPID := by
    rw [getCurrentPID_eq h.good, getCurrentPID_eq (s := (s.withMQ i (queueName k)
      F_READ).withDescriptor i F_READ) h.good]
    exact setFds_pid _
  -- the names of the other files stay
  have hname : ∀ f, f ≠ s.files.firstFree →
      ((s.withMQ i (queueName k) F_READ).withDescriptor i F_READ).files.filesTable f =
        s.files.filesTable f := fun f hf => FilesTable.setEntry_ne _ _ hf
  have hself : (((s.withMQ i (queueName k) F_READ).withDescriptor i F_READ).files.filesTable
      s.files.firstFree).name = queueName k := by
    show ((s.files.setEntry _ _).filesTable _).name = _
    rw [FilesTable.setEntry_self]
    rfl
  rw [hopen]
  obtain ⟨hfd, hunocc⟩ := (hinv.tables _ hentry).1.lowestFree hroom
  have hfds : (((s.withMQ i (queueName k) F_READ).withDescriptor i F_READ).pcb.process
      s.sched.getCurrentPCBIndex).fileDescriptors =
      (s.pcb.process s.sched.getCurrentPCBIndex).fileDescriptors.insert
        ⟨1, UInt32.ofNat i, FileType.MESSAGE_QUEUE.code, F_READ⟩ := by
    show (setFds s.pcb.entries _ _ _).fileDescriptors = _
    rw [setFds_fileDescriptors]
    exact if_pos rfl
  have hentries : ∀ fd, (((s.withMQ i (queueName k) F_READ).withDescriptor i F_READ).pcb.process
      s.sched.getCurrentPCBIndex).fileDescriptors.entries fd =
      if fd = (s.pcb.process s.sched.getCurrentPCBIndex).fileDescriptors.lowestFree then
        ⟨1, UInt32.ofNat i, FileType.MESSAGE_QUEUE.code, F_READ⟩
      else (s.pcb.process s.sched.getCurrentPCBIndex).fileDescriptors.entries fd := by
    intro fd
    rw [hfds, insert_entries]
  have hfree : ∃ e, e < pcbEntries ∧ (((s.withMQ i (queueName k) F_READ).withDescriptor i
      F_READ).pcb.entries e).occupied = 0 := by
    obtain ⟨e, he, hocc⟩ := h.free
    exact ⟨e, he, (setFds_occupied e).trans hocc⟩
  refine ⟨hreach, h.queue, h.good, ?_, ?_, h.nextPid, hfree, ?_, ?_, ?_, ?_⟩
  · apply (congrArg FileDescriptorsMap.size hfds).trans
    show (s.pcb.process s.sched.getCurrentPCBIndex).fileDescriptors.size + 1 = _
    rw [h.size, ← Nat.add_assoc, UInt64.ofNat_add (4 + k) 1]
    rfl
  · have hlt' : (UInt16.ofNat (4 + k)).toNat < STACK_SIZE := by
      rw [UInt16.toNat_ofNat_of_lt' (by show 4 + k < 2 ^ 16; omega)]
      unfold STACK_SIZE
      omega
    show s.pages.pop.1 = _
    rw [h.pages, PageStack.pop, PageStack.popped_pop hlt', ← Nat.add_assoc,
      UInt16.ofNat_add (4 + k) 1]
    rfl
  · show (s.files.numFiles + 1).toNat = k + 1
    rw [Word.uint64_toNat_succ (by rw [h.numFiles]; omega), h.numFiles]
  · show (s.numMQs + 1).toNat = k + 1
    rw [Word.uint64_toNat_succ (by rw [h.numMQs]; omega), h.numMQs]
  · intro f hf hnf
    by_cases hff : f = s.files.firstFree
    · exact ⟨k, Nat.lt_succ_self k, by rw [hff, hself]⟩
    · unfold FilesTable.Named at hnf
      rw [hname f hff] at hnf ⊢
      obtain ⟨j, hj, hjname⟩ := h.names f hf hnf
      exact ⟨j, by omega, hjname⟩
  · intro j hj
    by_cases hjk : j = k
    · subst hjk
      refine ⟨i, hi, ⟨s.files.firstFree, s.pages.pop.2, ?_, hlt, ?_⟩, ?_, ?_,
        (s.pcb.process s.sched.getCurrentPCBIndex).fileDescriptors.lowestFree, hfd, ?_⟩
      · rw [hmqs, Function.update_self]
      · exact FilesTable.setEntry_self _ _ _
      · rw [hmqs, Function.update_self]
        exact hpid.symm
      · rw [hmqs, Function.update_self]
      · exact (hentries _).trans (if_pos rfl)
    · obtain ⟨i', hreads⟩ := h.queues j (by omega)
      have hne : i' ≠ i := fun heq => hreads.live (heq ▸ hdead)
      refine ⟨i', hreads.congr ?_ ?_ hpid ?_⟩
      · intro f hf
        have hff : f ≠ s.files.firstFree := fun heq =>
          hn (heq ▸ (hinv.slots.file i' f hreads.lt hf).2)
        exact hname f hff
      · rw [hmqs, Function.update_of_ne hne]
      · intro fd hocc
        have hne : fd ≠ _ := fun heq => hocc (heq ▸ hunocc)
        exact (hentries fd).trans (if_neg hne)

/-- The first process can fill its table. -/
theorem stocked (k : Nat) (hk : k ≤ 12) : ∃ s, Stocked s k := by
  induction k with
  | zero =>
    obtain ⟨s, hs, -⟩ := stocked_first
    exact ⟨s, hs⟩
  | succ k ih =>
    obtain ⟨s, hs⟩ := ih (by omega)
    exact ⟨_, hs.opens (by omega)⟩

end Kernel

end TP2Kernel
