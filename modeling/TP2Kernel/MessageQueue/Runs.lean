import TP2Kernel.MessageQueue.Outcome
import TP2Kernel.Process.Descriptors
import TP2Kernel.Scheduler.Runs

/-! # Runs of the message queues

    From the kernel's start on, processes are scheduled as in `Scheduler.Runs`, the frame of
    each new one fitting in its page, and the one that runs opens and closes message queues.

    `QueueInv` is what holds in every reachable state, whatever the processes do: the
    table of queues agrees with the table of files and with `numMQs`, and the descriptor
    tables are well formed.  What holds of links and pids in well-behaved runs is in
    `MessageQueue.Links`.
-/

namespace TP2Kernel

open Transition Scheduler

inductive QueueAction where
  | MQopen (name : Option CString) (accessFlags : UInt32)
  | close (fileDescriptor : UInt64)
  | task (action : TaskAction)

/-- What reading, writing and sleeping leave as it is, beside what `Elsewhere` says:
    descriptors, queues, and files up to their two indices. -/
structure AtRest (s s' : Kernel) : Prop where
  fileDescriptors : ∀ i,
    (s'.pcb.entries i).fileDescriptors = (s.pcb.entries i).fileDescriptors
  mqs : s'.mqs = s.mqs
  numMQs : s'.numMQs = s.numMQs
  numFiles : s'.files.numFiles = s.files.numFiles
  named : ∀ i, ∃ writeIndex readIndex, s'.files.filesTable i =
    { s.files.filesTable i with writeIndex := writeIndex, readIndex := readIndex }
  unused : ∀ i, ¬ s.files.Named i → s'.files.filesTable i = s.files.filesTable i

/-- What a call of the scheduler, or the time between the calls, does to the rest. -/
def Beside (s : Kernel) (action : TaskAction) (s' : Kernel) : Prop :=
  match action with
  | .other => AtRest s s'
  | .addProcess _ | .finishProcess | .nextProcess _ => s' = { s with toTasks := s'.toTasks }

/-- The kernel's start: the file manager, the PCB and the scheduler. -/
def Kernel.boot (mem : Memory) (pages : PageStack) (entries : Nat → PcbEntry)
    (nodes : Nat → Node) : Option Kernel :=
  -- `initializeBasicFiles`: the page is cleared
  let (pages, filesTablePage) := pages.pageManager .POP_PAGE NULL
  if filesTablePage = NULL then none
  else
    (Tasks.boot mem pages entries nodes).map fun t =>
      { toTasks := t, files := .cleared, mqs := fun _ => .zero, numMQs := 0
        tty := .bss, rawKeys := .empty }

/-- The kernel at work; `MQopen` and `close` are system calls of the current process. -/
def messaging : System Kernel QueueAction where
  init := fun s => ∃ mem pages entries nodes, Kernel.boot mem pages entries nodes = some s
  step := fun s action s' =>
    match action with
    | .MQopen name accessFlags => s' = (s.MQopen name accessFlags).2
    | .close fileDescriptor => fileDescriptor.toNat < MAX_FILES ∧
        s' = (s.operateFile s.sched.getCurrentPCBIndex fileDescriptor .CLOSE 0).2.2
    | .task action => scheduling.step s.toTasks action s'.toTasks ∧ Beside s action s'

/-! ### The invariant -/

namespace Kernel

/-- Slot `i` has a queue. -/
def Live (s : Kernel) (i : Nat) : Prop := (s.mqs i).file ≠ none

instance (s : Kernel) : DecidablePred s.Live := fun i =>
  inferInstanceAs (Decidable ((s.mqs i).file ≠ none))

/-- The name of the queue in slot `i`. -/
def nameOf (s : Kernel) (i : Nat) : CString := s.files.getBasicFileName (s.mqs i).file

/-- The table of queues and the table of files. -/
structure SlotsInv (files : FilesTable) (mqs : Nat → MessageQueue) (numMQs : UInt64) :
    Prop where
  table : files.Inv
  file : ∀ i f, i < MAX_MQS → (mqs i).file = some f → f < maxFiles ∧ files.Named f
  apart : ∀ i j f, i < MAX_MQS → j < MAX_MQS → (mqs i).file = some f →
    (mqs j).file = some f → i = j
  numMQs : numMQs.toNat = Counting.count (fun i => (mqs i).file ≠ none) MAX_MQS

/-- A descriptor table whose indices are in range. -/
def TableInv (fds : FileDescriptorsMap) : Prop :=
  fds.Inv ∧ ∀ fd, fd < MAX_FILES → fds.Occupied fd → (fds.entries fd).index.toNat < MAX_MQS

structure QueueInv (s : Kernel) : Prop where
  tasks : TaskInv s.toTasks s.sched.queue
  slots : SlotsInv s.files s.mqs s.numMQs
  tables : ∀ e, e < pcbEntries → TableInv (s.pcb.entries e).fileDescriptors

/-! ### Slots -/

section SlotsInv
variable {files files' : FilesTable} {mqs mqs' : Nat → MessageQueue} {numMQs : UInt64}

/-- Links, pids and the indices of the circular arrays do not matter. -/
theorem SlotsInv.congr (h : SlotsInv files mqs numMQs) (hfiles : files'.Inv)
    (hnamed : ∀ i, files.Named i → files'.Named i)
    (hfile : ∀ i, i < MAX_MQS → (mqs' i).file = (mqs i).file) :
    SlotsInv files' mqs' numMQs := by
  refine ⟨hfiles, ?_, ?_, ?_⟩
  · intro i f hi hf
    rw [hfile i hi] at hf
    obtain ⟨hlt, hn⟩ := h.file i f hi hf
    exact ⟨hlt, hnamed f hn⟩
  · intro i j f hi hj hif hjf
    rw [hfile i hi] at hif
    rw [hfile j hj] at hjf
    exact h.apart i j f hi hj hif hjf
  · rw [h.numMQs]
    apply Counting.count_congr
    intro i hi
    rw [hfile i hi]

theorem SlotsInv.update (h : SlotsInv files mqs numMQs) {i : Nat} {q : MessageQueue}
    (hq : q.file = (mqs i).file) : SlotsInv files (Function.update mqs i q) numMQs := by
  apply h.congr h.table (fun _ hn => hn)
  intro j _
  by_cases hji : j = i
  · subst hji
    rw [Function.update_self, hq]
  · rw [Function.update_of_ne hji]

/-- A new file goes to a free slot. -/
theorem SlotsInv.withFile (h : SlotsInv files mqs numMQs) {i f : Nat} {e : BasicFileEntry}
    {q : MessageQueue} (hi : i < MAX_MQS) (hfree : (mqs i).file = none) (hf : f < maxFiles)
    (hnew : ¬ files.Named f) (hname : e.name ≠ CString.empty)
    (hinv : (files.withFile f e).Inv) (hq : q.file = some f) :
    SlotsInv (files.withFile f e) (Function.update mqs i q) (numMQs + 1) := by
  -- the file is new, so no other slot has it
  have hold : ∀ j g, j < MAX_MQS → j ≠ i → (Function.update mqs i q j).file = some g →
      (mqs j).file = some g ∧ g ≠ f := by
    intro j g hj hji hg
    rw [Function.update_of_ne hji] at hg
    refine ⟨hg, ?_⟩
    rintro rfl
    exact hnew (h.file j g hj hg).2
  refine ⟨hinv, ?_, ?_, ?_⟩
  · intro j g hj hg
    by_cases hji : j = i
    · rw [hji, Function.update_self, hq] at hg
      obtain rfl := Option.some.inj hg
      exact ⟨hf, (FilesTable.named_withFile hname).mpr (.inl rfl)⟩
    · obtain ⟨hlt, hn⟩ := h.file j g hj (hold j g hj hji hg).1
      exact ⟨hlt, (FilesTable.named_withFile hname).mpr (.inr hn)⟩
  · intro j k g hj hk hjg hkg
    by_cases hji : j = i <;> by_cases hki : k = i
    · rw [hji, hki]
    · rw [hji, Function.update_self, hq] at hjg
      exact absurd (Option.some.inj hjg).symm (hold k g hk hki hkg).2
    · rw [hki, Function.update_self, hq] at hkg
      exact absurd (Option.some.inj hkg).symm (hold j g hj hji hjg).2
    · exact h.apart j k g hj hk (hold j g hj hji hjg).1 (hold k g hk hki hkg).1
  · have hcount := Counting.count_update_set (fun q : MessageQueue => q.file ≠ none) mqs q hi
      (not_not.mpr hfree) (by rw [hq]; simp)
    have hle := Counting.count_le (p := fun i => (mqs i).file ≠ none) (n := MAX_MQS)
    rw [← h.numMQs] at hle
    rw [Word.uint64_toNat_succ (by unfold MAX_MQS at hle; omega), h.numMQs]
    exact hcount.symm

/-- The file of a live slot is destroyed, or missed, and the slot becomes free. -/
theorem SlotsInv.destroyed (h : SlotsInv files mqs numMQs) (pages : PageStack) {i f : Nat}
    {q : MessageQueue} (hi : i < MAX_MQS) (hf : (mqs i).file = some f)
    (hq : q.file = none) :
    SlotsInv (files.destroyBasicFile pages (some f)).2.1 (Function.update mqs i q)
      (numMQs - 1) := by
  obtain ⟨hlt, hn⟩ := h.file i f hi hf
  -- the slots that stay have other files
  have hold : ∀ j g, j < MAX_MQS → (Function.update mqs i q j).file = some g →
      (mqs j).file = some g ∧ g ≠ f := by
    intro j g hj hg
    by_cases hji : j = i
    · rw [hji, Function.update_self, hq] at hg
      cases hg
    · rw [Function.update_of_ne hji] at hg
      refine ⟨hg, ?_⟩
      rintro rfl
      exact hji (h.apart j i g hj hi hg hf)
  -- whether or not the scan finds the file, the others stay
  have hfiles : (files.destroyBasicFile pages (some f)).2.1.Inv ∧
      ∀ g, g ≠ f → files.Named g → (files.destroyBasicFile pages (some f)).2.1.Named g := by
    rcases FilesTable.destroyBasicFile_cases h.table pages hlt hn with hmiss | ⟨-, hfound⟩
    · rw [hmiss]
      exact ⟨h.table, fun _ _ hg => hg⟩
    · rw [hfound]
      exact ⟨h.table.withoutFile hlt hn,
        fun g hne hg => FilesTable.named_withoutFile.mpr ⟨hne, hg⟩⟩
  refine ⟨hfiles.1, ?_, ?_, ?_⟩
  · intro j g hj hg
    obtain ⟨hjg, hne⟩ := hold j g hj hg
    obtain ⟨hlt', hn'⟩ := h.file j g hj hjg
    exact ⟨hlt', hfiles.2 g hne hn'⟩
  · intro j k g hj hk hjg hkg
    exact h.apart j k g hj hk (hold j g hj hjg).1 (hold k g hk hkg).1
  · have hlive : (mqs i).file ≠ none := by
      rw [hf]
      simp
    have hcount := Counting.count_update_clear (fun q : MessageQueue => q.file ≠ none) mqs q hi
      hlive (not_not.mpr hq)
    have hnum := h.numMQs
    have hpos : 0 < numMQs.toNat := by
      rw [hnum]
      exact Counting.count_pos_iff.mpr ⟨i, hi, hlive⟩
    rw [Word.uint64_toNat_pred hpos]
    show numMQs.toNat - 1 =
      Counting.count (fun j => (Function.update mqs i q j).file ≠ none) MAX_MQS
    omega

theorem slotsInv_boot : SlotsInv .cleared (fun _ => .zero) 0 := by
  refine ⟨FilesTable.inv_cleared, ?_, ?_, ?_⟩
  · rintro i f - hf
    cases hf
  · rintro i j f - - hf
    cases hf
  · rw [Counting.count_eq_zero_iff.mpr fun i _ h => h rfl]
    rfl

end SlotsInv

/-! ### Names -/

section Names
variable {s : Kernel}

theorem SlotsInv.nameOf_eq (h : SlotsInv s.files s.mqs s.numMQs) {i j : Nat}
    (hi : i < MAX_MQS) (hj : j < MAX_MQS) (hli : s.Live i) (hlj : s.Live j)
    (heq : s.nameOf i = s.nameOf j) : i = j := by
  obtain ⟨f, hf⟩ := Option.ne_none_iff_exists'.mp hli
  obtain ⟨g, hg⟩ := Option.ne_none_iff_exists'.mp hlj
  obtain ⟨hflt, hfn⟩ := h.file i f hi hf
  obtain ⟨hglt, -⟩ := h.file j g hj hg
  unfold nameOf at heq
  rw [hf, hg] at heq
  obtain rfl := h.table.distinct f g hflt hglt hfn heq
  exact h.apart i j f hi hj hf hg

/-- The early stop of the lookup loses nothing. -/
theorem SlotsInv.indexOfMQ_iff (h : SlotsInv s.files s.mqs s.numMQs) (name : CString)
    (i : Nat) : s.indexOfMQ name = some i ↔ i < MAX_MQS ∧ s.Live i ∧ s.nameOf i = name := by
  constructor
  · exact indexOfMQ_some
  · intro h
    obtain ⟨hi, hlive, hname⟩ := h
    have hsome : (s.indexOfMQ name).isSome := by
      apply (Scan.countedScan_isSome_iff h.numMQs).mpr
      exact ⟨i, hi, hlive, (streql_iff _ _).mpr hname⟩
    obtain ⟨j, hj⟩ := Option.isSome_iff_exists.mp hsome
    obtain ⟨hjlt, hjlive, hjname⟩ := indexOfMQ_some hj
    rw [hj, h.nameOf_eq hjlt hi hjlive hlive (hjname.trans hname.symm)]

end Names

/-! ### Descriptor tables -/

section TableInv
variable {fds : FileDescriptorsMap}

theorem TableInv.insert (h : TableInv fds) (hroom : fds.size < UInt64.ofNat MAX_FILES)
    {e : FileDescriptorMapEntry} (hocc : e.occupied ≠ 0) (hindex : e.index.toNat < MAX_MQS) :
    TableInv (fds.insert e) := by
  refine ⟨h.1.insert hroom hocc, ?_⟩
  intro fd hfd ho
  unfold FileDescriptorsMap.Occupied at ho
  rw [FileDescriptorsMap.insert_entries] at ho ⊢
  split at ho
  · next heq => rwa [if_pos heq]
  · next hne =>
    rw [if_neg hne]
    exact h.2 fd hfd ho

theorem TableInv.erase (h : TableInv fds) {fd : Nat} (hfd : fd < MAX_FILES)
    (hocc : fds.Occupied fd) : TableInv (fds.erase fd) := by
  refine ⟨h.1.erase hfd hocc, ?_⟩
  intro fd' hfd' ho
  unfold FileDescriptorsMap.Occupied at ho
  rw [FileDescriptorsMap.erase_entries] at ho ⊢
  split at ho
  · exact absurd rfl ho
  · next hne =>
    rw [if_neg hne]
    exact h.2 fd' hfd' ho

theorem tableInv_zero : TableInv .zero :=
  ⟨FileDescriptorsMap.inv_zero, fun _ _ ho => absurd rfl ho⟩

theorem tableInv_standardFiles : TableInv standardFiles := by
  refine ⟨inv_standardFiles, ?_⟩
  intro fd _ _
  rw [(standardFiles_entry fd).1]
  decide

end TableInv

/-! ### Each call keeps the invariant -/

variable {s s' : Kernel}

/-- Only memory, pages and descriptor tables differ. -/
theorem elsewhere_of_sched {t t' : Tasks} (hs : t'.sched = t.sched)
    (hpcb : t'.pcb.pcb = t.pcb.pcb) (hmax : t'.pcb.maxProcesses = t.pcb.maxProcesses)
    (hpid : t'.pcb.nextPid = t.pcb.nextPid)
    (hentry : ∀ i, ∃ fds, t'.pcb.entries i = { t.pcb.entries i with fileDescriptors := fds }) :
    Elsewhere t t' := by
  refine ⟨⟨t.sched.nodes, hs, fun i => ⟨rfl, rfl, rfl, Iff.rfl⟩⟩, hpcb, hmax, hpid, ?_, ?_, ?_,
    ?_⟩
  all_goals
    intro i
    obtain ⟨fds, heq⟩ := hentry i
    rw [heq]

theorem QueueInv.obtained (h : QueueInv s) {name : CString} {accessFlags : UInt32}
    {r : Option Nat} (hob : Obtained s name accessFlags r s') : QueueInv s' := by
  have hpcb := hob.pcb
  have hsched := hob.sched
  refine ⟨?_, ?_, by rw [hpcb]; exact h.tables⟩
  · rw [hsched]
    apply taskInv_elsewhere h.tasks
    exact elsewhere_of_sched hsched (by rw [hpcb]) (by rw [hpcb]) (by rw [hpcb])
      (fun i => ⟨_, by rw [hpcb]⟩)
  · cases hob with
    | taken | full => exact h.slots
    | notCreated => exact h.slots
    | shared i => exact h.slots.update (by simp)
    | new i _ _ hslot hcan =>
      obtain ⟨hi, hfree⟩ := findFreeSlot_some hslot
      obtain ⟨-, hpage, hroom, hname, -, hnew⟩ := hcan
      obtain ⟨hlt, hn, -⟩ := h.slots.table.firstFree hroom
      have hnew' := FilesTable.findBasicFile_none_iff.mp hnew
      exact h.slots.withFile hi hfree hlt hn hname (h.slots.table.withFile hlt hn hname hnew')
        (by simp [MessageQueue.unused])

theorem Obtained.lt {name : CString} {accessFlags : UInt32} {i : Nat}
    (hob : Obtained s name accessFlags (some i) s') : i < MAX_MQS := by
  cases hob with
  | shared _ hindex => exact (indexOfMQ_some hindex).1
  | new _ _ _ hslot => exact (findFreeSlot_some hslot).1

theorem QueueInv.mqClosed (h : QueueInv s) {i : Nat} {code : Int} (hi : i < MAX_MQS)
    (hcl : MQClosed s i code s') : QueueInv s' := by
  have hpcb := hcl.pcb
  have hsched := hcl.sched
  refine ⟨?_, ?_, by rw [hpcb]; exact h.tables⟩
  · rw [hsched]
    apply taskInv_elsewhere h.tasks
    exact elsewhere_of_sched hsched (by rw [hpcb]) (by rw [hpcb]) (by rw [hpcb])
      (fun i => ⟨_, by rw [hpcb]⟩)
  · cases hcl with
    | refused => exact h.slots
    | kept => exact h.slots.update rfl
    | destroyed hfile =>
      obtain ⟨f, hf⟩ := Option.ne_none_iff_exists'.mp hfile
      have := h.slots.destroyed s.pages hi hf
        (q := { (s.mqs i).unmarked s.getCurrentPID with file := none }) rfl
      rwa [← hf] at this

/-- The current process's table changes. -/
theorem QueueInv.setDescriptors (h : QueueInv s) {k : Nat} {mqs : Nat → MessageQueue}
    {f : FileDescriptorsMap → FileDescriptorsMap}
    (hmqs : SlotsInv s.files mqs s.numMQs)
    (htable : k < pcbEntries → TableInv (f (s.pcb.entries k).fileDescriptors)) :
    QueueInv { s with
      pcb := s.pcb.modifyProcess k fun process => { process with
        fileDescriptors := f process.fileDescriptors }
      mqs := mqs } := by
  refine ⟨?_, hmqs, ?_⟩
  · apply taskInv_elsewhere h.tasks
    refine elsewhere_of_sched rfl rfl rfl rfl (fun i => ?_)
    simp only [Pcb.modifyProcess_entries]
    split
    · next heq => exact ⟨_, by rw [heq]⟩
    · exact ⟨_, rfl⟩
  · intro e he
    simp only [Pcb.modifyProcess_entries]
    split
    · next heq => exact htable (heq ▸ he)
    · exact h.tables e he

/-- Without a refusal there is room in the current process's table. -/
theorem QueueInv.room (h : QueueInv s) (hno : ¬ s.NoDescriptor) :
    s.pcb.badIndex s.sched.getCurrentPCBIndex = false ∧
    s.sched.getCurrentPCBIndex.toNat < pcbEntries ∧
    (s.pcb.process s.sched.getCurrentPCBIndex).fileDescriptors.size <
      UInt64.ofNat MAX_FILES := by
  obtain ⟨hbad, hsize⟩ := not_or.mp hno
  have hgood : s.pcb.badIndex s.sched.getCurrentPCBIndex = false := by simpa using hbad
  exact ⟨hgood, (h.tasks.current_entry hgood).1, by simpa using hsize⟩

theorem toNat_ofNat_slot {i : Nat} (hi : i < MAX_MQS) : (UInt32.ofNat i).toNat = i := by
  apply UInt32.toNat_ofNat_of_lt'
  unfold MAX_MQS at hi
  show i < 2 ^ 32
  omega

theorem QueueInv.withDescriptor (h : QueueInv s) {i : Nat} {accessFlags : UInt32}
    (hi : i < MAX_MQS) (hno : ¬ s.NoDescriptor) : QueueInv (s.withDescriptor i accessFlags) := by
  obtain ⟨-, -, hroom⟩ := h.room hno
  apply h.setDescriptors (f := fun fds => fds.insert
    ⟨1, UInt32.ofNat i, FileType.MESSAGE_QUEUE.code, accessFlags⟩)
  · exact h.slots.update rfl
  · intro hk
    apply (h.tables _ hk).insert hroom (show (1 : UInt32) ≠ 0 by decide)
    rw [toNat_ofNat_slot hi]
    exact hi

theorem QueueInv.withoutDescriptor (h : QueueInv s) {k fd : UInt64}
    (hfd : fd.toNat < MAX_FILES)
    (hocc : (s.descriptor k fd).occupied ≠ 0) : QueueInv (s.withoutDescriptor k fd) := by
  apply h.setDescriptors (f := fun fds => fds.erase fd.toNat) h.slots
  intro hk
  exact (h.tables _ hk).erase hfd hocc

theorem QueueInv.opened (h : QueueInv s) {name : Option CString} {accessFlags : UInt32}
    {r : Int} (hop : Opened s accessFlags name r s') : QueueInv s' := by
  cases hop with
  | noName => exact h
  | noMode => exact h
  | notObtained name s' _ hob => exact h.obtained hob
  | refused name i s₁ _ hob hno =>
    exact (h.obtained hob).mqClosed hob.lt (MQclose_closed s₁ i)
  | ok name i s₁ _ hob hno => exact (h.obtained hob).withDescriptor hob.lt hno

/-- What `CLOSE` on a descriptor of the current process does. -/
theorem QueueInv.operateFile_closed (h : QueueInv s) {fd : UInt64}
    (hfd : fd.toNat < MAX_FILES) (character : UInt8) :
    Closed s s.sched.getCurrentPCBIndex fd
      (s.operateFile s.sched.getCurrentPCBIndex fd .CLOSE character).1
      (s.operateFile s.sched.getCurrentPCBIndex fd .CLOSE character).2.2 := by
  apply Kernel.operateFile_closed hfd
  intro hbad hocc
  have := (h.tables _ (h.tasks.current_entry hbad).1).2 fd.toNat hfd hocc
  unfold MAX_MQS at this
  show (s.descriptor s.sched.getCurrentPCBIndex fd).index.toNat < 2 ^ 31
  exact Nat.lt_trans this (by decide)

theorem QueueInv.descriptor_lt (h : QueueInv s) {fd : UInt64} (hfd : fd.toNat < MAX_FILES)
    (hbad : s.pcb.badIndex s.sched.getCurrentPCBIndex = false)
    (hocc : (s.descriptor s.sched.getCurrentPCBIndex fd).occupied ≠ 0) :
    (s.descriptor s.sched.getCurrentPCBIndex fd).index.toNat < MAX_MQS :=
  (h.tables _ (h.tasks.current_entry hbad).1).2 fd.toNat hfd hocc

theorem QueueInv.closed (h : QueueInv s) {fd : UInt64} {r : Int} (hfd : fd.toNat < MAX_FILES)
    (hcl : Closed s s.sched.getCurrentPCBIndex fd r s') : QueueInv s' := by
  cases hcl with
  | refused => exact h
  | file _ hocc => exact h.withoutDescriptor hfd hocc
  | queue code s₁ hbad hocc htype hcode hmq =>
    have hk := h.tasks.current_entry hbad
    apply (h.mqClosed (h.descriptor_lt hfd hbad hocc) hmq).withoutDescriptor hfd
    unfold Kernel.descriptor
    rw [hmq.pcb]
    exact hocc

/-- What a call of the scheduler can do to a descriptor table. -/
theorem fileDescriptors_of_task {t t' : Tasks} (action : TaskAction)
    (h : TaskInv t t.sched.queue) (hother : action ≠ .other)
    (hstep : scheduling.step t action t') (e : Nat) :
    (t'.pcb.entries e).fileDescriptors = (t.pcb.entries e).fileDescriptors ∨
    (t'.pcb.entries e).fileDescriptors = standardFiles ∨
    (t'.pcb.entries e).fileDescriptors = .zero := by
  cases action with
  | addProcess a =>
    obtain ⟨-, r, hadd⟩ := hstep
    cases Tasks.addProcess_added hadd with
    | noNode => exact .inl rfl
    | ok i k m hi hfree hcreate =>
      -- a new entry has the standard files once they are opened, and its old ones before
      rcases (Machine.createProcess_created hcreate).entry with
        hm | ⟨index, e', -, -, -, -, hfds, hm⟩
      · left
        show (m.pcb.entries e).fileDescriptors = _
        rw [hm]
      · show (m.pcb.entries e).fileDescriptors = _ ∨ (m.pcb.entries e).fileDescriptors = _ ∨ _
        rw [hm]
        by_cases hei : e = index
        · subst hei
          rw [Machine.withNewProcess_entries_self]
          rcases hfds with hsame | hstd
          · exact .inl hsame
          · exact .inr (.inl hstd)
        · left
          simp [Machine.withNewProcess, hei]
  | finishProcess =>
    obtain rfl := hstep
    left
    rw [Tasks.finishProcess_pcb]
  | nextProcess currentRSP =>
    obtain ⟨rsp, hnext⟩ := hstep
    have hent := nextProcess_entries h hnext
    by_cases hl : t.Leaves e
    -- `destroyProcess` has cleared the entry
    · right
      right
      rw [hent.left e hl]
      rfl
    · left
      obtain ⟨stack, heq⟩ := hent.stays e hl
      rw [heq]
  | other => exact absurd rfl hother

theorem beside_eq {action : TaskAction} (h : Beside s action s')
    (hother : action ≠ .other) : s' = { s with toTasks := s'.toTasks } := by
  cases action with
  | other => exact absurd rfl hother
  | addProcess | finishProcess | nextProcess => exact h

/-- The calls of the scheduler and the time between leave the slots. -/
theorem beside_mqs {action : TaskAction} (h : Beside s action s') : s'.mqs = s.mqs := by
  by_cases hother : action = .other
  · subst hother
    exact AtRest.mqs h
  · rw [beside_eq h hother]

theorem QueueInv.task (h : QueueInv s) (action : TaskAction)
    (hstep : scheduling.step s.toTasks action s'.toTasks) (hbeside : Beside s action s') :
    QueueInv s' := by
  have htasks := taskInv_step action h.tasks hstep
  by_cases hother : action = .other
  · subst hother
    -- between two calls files may be read and written, which keeps their names
    have hrest : AtRest s s' := hbeside
    refine ⟨htasks, ?_, ?_⟩
    · have hname : ∀ i, (s'.files.filesTable i).name = (s.files.filesTable i).name := by
        intro i
        obtain ⟨w, r, heq⟩ := hrest.named i
        rw [heq]
      rw [hrest.mqs, hrest.numMQs]
      apply h.slots.congr
      · exact h.slots.table.congr hrest.numFiles hname hrest.unused
      · intro i hn
        unfold FilesTable.Named
        rw [hname i]
        exact hn
      · exact fun _ _ => rfl
    · intro e he
      rw [hrest.fileDescriptors]
      exact h.tables e he
  · have heq := beside_eq hbeside hother
    refine ⟨htasks, ?_, ?_⟩
    · rw [heq]
      exact h.slots
    · intro e he
      rcases fileDescriptors_of_task action h.tasks hother hstep e with hsame | hstd | hzero
      · rw [hsame]
        exact h.tables e he
      · rw [hstd]
        exact tableInv_standardFiles
      · rw [hzero]
        exact tableInv_zero

theorem queueInv_step (action : QueueAction) (h : QueueInv s)
    (hstep : messaging.step s action s') : QueueInv s' := by
  cases action with
  | MQopen name accessFlags =>
    obtain rfl := hstep
    exact h.opened (MQopen_opened s name accessFlags)
  | close fd =>
    obtain ⟨hfd, rfl⟩ := hstep
    exact h.closed hfd (h.operateFile_closed hfd 0)
  | task action => exact h.task action hstep.1 hstep.2

theorem queueInv_boot {mem : Memory} {pages : PageStack} {entries : Nat → PcbEntry}
    {nodes : Nat → Node} (h : Kernel.boot mem pages entries nodes = some s) : QueueInv s := by
  unfold Kernel.boot at h
  split at h
  split at h
  · cases h
  obtain ⟨t, hboot, rfl⟩ := Option.map_eq_some_iff.mp h
  have hinv := taskInv_boot hboot
  obtain ⟨-, -, -, -, -, -, hzero⟩ := Tasks.boot_ok hboot
  refine ⟨?_, slotsInv_boot, ?_⟩
  · rw [hinv.queue_eq]
    exact hinv
  · intro e he
    rw [hzero e he]
    exact tableInv_zero

/-- The invariant holds in every reachable state. -/
theorem queues_inv (h : messaging.Reachable s) : QueueInv s := by
  apply h.invariant QueueInv
  · intro s h
    obtain ⟨mem, pages, entries, nodes, hboot⟩ := h
    exact queueInv_boot hboot
  · intro s action s' hinv hstep
    exact queueInv_step action hinv hstep

end Kernel

end TP2Kernel
