import TP2Kernel.MessageQueue.Modes
import TP2Kernel.MessageQueue.Occupancy
import TP2Kernel.MessageQueue.Operations

/-! # Descriptors and access rights

    `MQclose` gets the slot of the queue only, not the descriptor, and gives up reading
    whenever the process reads the queue.  So descriptors and access rights agree until a
    process that has both ends of a queue closes the one for writing first.
-/

namespace TP2Kernel

open Transition Scheduler FileDescriptorsMap

namespace Kernel

/-! ### Runs in which every open asks for one mode -/

/-- Exactly one of reading and writing. -/
def OpensOneMode (_ : Kernel) (action : QueueAction) : Prop :=
  match action with
  | .MQopen _ accessFlags => OneMode accessFlags
  | .close _ | .task _ => True

/-- Processes share queues: well-behaved runs, with one mode for each descriptor. -/
def sharing : System Kernel QueueAction :=
  (messaging.restrict WellBehaved).restrict OpensOneMode

/-- Descriptor `fd` of the current process is open on slot `i` for `mode`. -/
def CurrentEnd (s : Kernel) (fd : UInt64) (i : Nat) (mode : AccessMode) : Prop :=
  s.pcb.badIndex s.sched.getCurrentPCBIndex = false ∧ i < MAX_MQS ∧
    OpenFor (s.descriptor s.sched.getCurrentPCBIndex fd) i mode

/-- No process closes a descriptor for writing while it also reads the queue. -/
def ClosesOwn (s : Kernel) (action : QueueAction) : Prop :=
  match action with
  | .close fd => ∀ i, s.CurrentEnd fd i .write → (s.mqs i).readPID ≠ s.getCurrentPID
  | .MQopen _ _ | .task _ => True

/-- The process in entry `e` has slot `i` open for `mode`. -/
def Holds (s : Kernel) (e i : Nat) (mode : AccessMode) : Prop :=
  ∃ fd, fd < MAX_FILES ∧ OpenFor ((s.pcb.entries e).fileDescriptors.entries fd) i mode

/-- Descriptors and access rights agree. -/
structure Agreed (s : Kernel) : Prop where
  holds : ∀ e i mode, e < pcbEntries → i < MAX_MQS → (s.pcb.entries e).occupied ≠ 0 →
    (s.Holds e i mode ↔ (s.mqs i).pidOf mode = (s.pcb.entries e).pid)
  alone : ∀ e e' i mode, e < pcbEntries → e' < pcbEntries → i < MAX_MQS →
    s.Holds e i mode → s.Holds e' i mode → e = e'

/-- The call that closes `fd` gives up slot `i` for `mode` and nothing else. -/
structure GivesUp (s s' : Kernel) (i : Nat) (mode : AccessMode) : Prop where
  own : (s'.mqs i).pidOf mode = -1
  other : (s'.mqs i).pidOf mode.other = (s.mqs i).pidOf mode.other
  slots : ∀ j, j ≠ i → s'.mqs j = s.mqs j

def Modes (s : Kernel) : Prop := ModesInv s.pcb.entries s.mqs

variable {s s' : Kernel} {fd : UInt64} {i : Nat} {mode : AccessMode}

theorem Modes.agreed (h : s.Modes) (hledger : s.Ledger) : s.Agreed := by
  have hiff : ∀ e i mode, e < pcbEntries → i < MAX_MQS → (s.Holds e i mode ↔
      (s.pcb.entries e).occupied ≠ 0 ∧ (s.mqs i).pidOf mode = (s.pcb.entries e).pid) := by
    intro e i mode he hi
    unfold Holds
    rw [← ends_pos_iff, h.ends e i mode he hi]
    split
    · next hand => exact ⟨fun _ => hand, fun _ => Nat.one_pos⟩
    · next hand => exact ⟨fun hpos => absurd hpos (Nat.lt_irrefl 0), fun hand' => absurd hand' hand⟩
  constructor
  · intro e i mode he hi ho
    rw [hiff e i mode he hi]
    exact ⟨fun hand => hand.2, fun heq => ⟨ho, heq⟩⟩
  · intro e e' i mode he he' hi hholds hholds'
    obtain ⟨ho, hpid⟩ := (hiff e i mode he hi).mp hholds
    obtain ⟨ho', hpid'⟩ := (hiff e' i mode he' hi).mp hholds'
    exact hledger.pids.distinct e e' he he' ho ho' (hpid.symm.trans hpid')

/-! ### Closing -/

/-- The slot after a close of one of its ends. -/
theorem MQclose_mqs (hlive : (s.mqs i).file ≠ none)
    (hmine : (s.mqs i).readPID = s.getCurrentPID ∨ (s.mqs i).writePID = s.getCurrentPID) :
    (s.MQclose i).2.mqs = Function.update s.mqs i ((s.mqs i).left s.getCurrentPID) := by
  have hno : ¬ ((s.mqs i).file = none ∨
      ((s.mqs i).readPID ≠ s.getCurrentPID ∧ (s.mqs i).writePID ≠ s.getCurrentPID)) := by
    intro h
    rcases h with hdead | ⟨hr, hw⟩
    · exact hlive hdead
    · exact hmine.elim hr hw
  rw [MQclose_eq, if_neg hno]
  unfold MessageQueue.left
  split <;> rfl

/-- `MQclose` gives up reading if the process reads, and writing otherwise. -/
theorem pidOf_left_iff {q : MessageQueue} {pid : UInt64} (hpid : pid ≠ -1)
    (hmine : q.pidOf mode = pid) :
    ((q.left pid).pidOf mode = -1 ∧ (q.left pid).pidOf mode.other = q.pidOf mode.other) ↔
      (mode = .write → q.readPID ≠ pid) := by
  have hleft : ∀ m, (q.left pid).pidOf m = (q.unmarked pid).pidOf m := by
    intro m
    unfold MessageQueue.left
    split <;> cases m <;> rfl
  rw [hleft, hleft]
  cases mode with
  | read =>
    have hread : q.readPID = pid := hmine
    simp [MessageQueue.pidOf, MessageQueue.unmarked, AccessMode.other, hread]
  | write =>
    have hwrite : q.writePID = pid := hmine
    by_cases hread : q.readPID = pid
    · simp [MessageQueue.pidOf, MessageQueue.unmarked, AccessMode.other, hread, hwrite, hpid]
    · simp [MessageQueue.pidOf, MessageQueue.unmarked, AccessMode.other, hread]

/-! ### One step -/

section Step

theorem CurrentEnd.endAt (h : s.CurrentEnd fd i mode) (hfd : fd.toNat < MAX_FILES) :
    s.EndAt s.sched.getCurrentPCBIndex fd i :=
  ⟨h.1, hfd, h.2.2.1.1, h.2.2.1.2.1, h.2.2.1.2.2, h.2.1⟩

/-- The current process has the end that its descriptor is for. -/
theorem Modes.pidOf_current (h : s.Modes) (hinv : QueueInv s) (hfd : fd.toNat < MAX_FILES)
    (hend : s.CurrentEnd fd i mode) : (s.mqs i).pidOf mode = s.getCurrentPID := by
  have hk := (hinv.tasks.current_entry hend.1).1
  have hends := h.ends s.sched.getCurrentPCBIndex.toNat i mode hk hend.2.1
  have hpos : 0 < (s.pcb.entries s.sched.getCurrentPCBIndex.toNat).fileDescriptors.ends i mode :=
    ends_pos_iff.mpr ⟨fd.toNat, hfd, hend.2.2⟩
  rw [getCurrentPID_eq hend.1]
  split at hends
  · next hand => exact hand.2
  · omega

/-- A descriptor is for one slot and one mode. -/
theorem Modes.closesOwn_iff (h : s.Modes) (hinv : QueueInv s) (hfd : fd.toNat < MAX_FILES)
    (hend : s.CurrentEnd fd i mode) :
    s.ClosesOwn (.close fd) ↔ (mode = .write → (s.mqs i).readPID ≠ s.getCurrentPID) := by
  have hk := (hinv.tasks.current_entry hend.1).1
  obtain ⟨mode', hasks⟩ := h.oneMode _ fd.toNat hk hfd ⟨hend.2.2.1.1, hend.2.2.1.2.1⟩
  have hmode : ∀ m, s.CurrentEnd fd i m → m = mode := by
    intro m hend'
    rw [(hasks m).mp hend'.2.2.2, (hasks mode).mp hend.2.2.2]
  constructor
  · rintro hown rfl
    exact hown i hend
  · intro hread j hend'
    have hji : j = i := hend'.2.2.1.2.2.symm.trans hend.2.2.1.2.2
    subst hji
    exact hread (hmode _ hend').symm

/-- What closing a descriptor of a queue does. -/
theorem Modes.closed_eq (h : s.Modes) (hinv : QueueInv s) (hledger : s.Ledger)
    (hfd : fd.toNat < MAX_FILES) (hend : s.CurrentEnd fd i mode)
    (hs' : s' = (s.operateFile s.sched.getCurrentPCBIndex fd .CLOSE 0).2.2) :
    s'.mqs = Function.update s.mqs i ((s.mqs i).left s.getCurrentPID) ∧
    s'.pcb.entries = setFds s.pcb.entries s.sched.getCurrentPCBIndex.toNat
      ((s.pcb.entries s.sched.getCurrentPCBIndex.toNat).fileDescriptors.erase fd.toNat) := by
  obtain ⟨hk, hocc⟩ := hinv.tasks.current_entry hend.1
  have hpid := h.pidOf_current hinv hfd hend
  have hne : s.getCurrentPID ≠ -1 := by
    rw [getCurrentPID_eq hend.1]
    exact hledger.pids.ne_none hk hocc
  -- a pid of a process that is there stands in a live slot
  have hlive : (s.mqs i).file ≠ none := by
    rcases LedgerInv.pidOf hledger hend.2.1 mode with hnone | hzero | hand
    · exact absurd (hpid.symm.trans hnone) hne
    · have hbound := (hledger.pids.bounds _ hk hocc).1
      rw [getCurrentPID_eq hend.1] at hpid
      rw [← hpid, hzero] at hbound
      exact absurd hbound (Nat.lt_irrefl 0)
    · exact hand.1
  have hmine : (s.mqs i).readPID = s.getCurrentPID ∨ (s.mqs i).writePID = s.getCurrentPID := by
    cases mode with
    | read => exact .inl hpid
    | write => exact .inr hpid
  rw [(hend.endAt hfd).operateFile_close hlive hmine] at hs'
  rw [hs']
  constructor
  · exact MQclose_mqs hlive hmine
  · show ((s.MQclose i).2.pcb.modifyProcess _ _).entries = _
    rw [(MQclose_closed s i).pcb]
    rfl

/-! ### Opening -/

theorem pidOf_joined {q : MessageQueue} {pid : UInt64} {accessFlags : UInt32}
    (hasks : Asks accessFlags mode) (m : AccessMode) :
    (q.joined pid accessFlags).pidOf m = if m = mode then pid else q.pidOf m := by
  have hread : accessFlags &&& F_READ ≠ 0 ↔ AccessMode.read = mode := hasks .read
  have hmark : (q.joined pid accessFlags).pidOf m = (q.marked pid accessFlags).pidOf m := by
    cases m <;> rfl
  rw [hmark]
  unfold MessageQueue.marked
  cases mode with
  | read =>
    rw [if_pos (hread.mpr rfl)]
    cases m <;> rfl
  | write =>
    rw [if_neg (fun hne => absurd (hread.mp hne) (by decide))]
    cases m <;> rfl

theorem pidOf_of_available {q : MessageQueue} {accessFlags : UInt32}
    (hasks : Asks accessFlags mode) (havail : q.Available accessFlags) : q.pidOf mode = -1 := by
  have hread : accessFlags &&& F_READ ≠ 0 ↔ AccessMode.read = mode := hasks .read
  unfold MessageQueue.Available at havail
  cases mode with
  | read => rwa [if_pos (hread.mpr rfl)] at havail
  | write =>
    rw [if_neg (fun hne => absurd (hread.mp hne) (by decide))] at havail
    exact havail.2

theorem Modes.joined (h : s.Modes) (hinv : QueueInv s) (hledger : s.Ledger)
    {name : CString} {accessFlags : UInt32} (hone : OneMode accessFlags)
    (hob : Obtained s name accessFlags (some i) s') (hno : ¬ s.NoDescriptor) :
    (s'.withDescriptor i accessFlags).Modes := by
  obtain ⟨mode, hasks⟩ := hone
  obtain ⟨hbad, hk, hroom⟩ := hinv.room hno
  obtain ⟨-, hocc⟩ := hinv.tasks.current_entry hbad
  have hi := hob.lt
  have hpid := getCurrentPID_eq hbad
  have htable := (hinv.tables _ hk).1
  have hpids : PidsInv s.pcb.entries s.pcb.nextPid := LedgerInv.pids hledger
  unfold Modes
  cases hob with
  | shared _ hindex havail =>
    have hmqs : ((s.setMQ i ((s.mqs i).marked s.getCurrentPID accessFlags)).withDescriptor i
        accessFlags).mqs =
        Function.update s.mqs i ((s.mqs i).joined s.getCurrentPID accessFlags) := by
      simp [Kernel.withDescriptor, MessageQueue.joined]
    rw [hmqs]
    apply ModesInv.join h hpids hk hocc htable hroom hi hasks
    · rw [pidOf_joined hasks, if_pos rfl, hpid]
    · intro e he ho heq
      rw [pidOf_of_available hasks havail] at heq
      exact hpids.ne_none he ho heq.symm
    · intro m hm e _ _
      rw [pidOf_joined hasks, if_neg hm]
  | new _ hflags _ hslot _ =>
    obtain ⟨-, hdead⟩ := findFreeSlot_some hslot
    -- what a free slot has for pids is nobody's
    have hnobody : ∀ m e, e < pcbEntries → (s.pcb.entries e).occupied ≠ 0 →
        (s.mqs i).pidOf m ≠ (s.pcb.entries e).pid := by
      intro m e he ho heq
      rcases LedgerInv.pidOf hledger hi m with hnone | hzero | hand
      · exact hpids.ne_none he ho (heq.symm.trans hnone)
      · have hbound := (hpids.bounds e he ho).1
        rw [← heq, hzero] at hbound
        exact absurd hbound (Nat.lt_irrefl 0)
      · exact hand.1 hdead
    have hmqs : ((s.withMQ i name accessFlags).withDescriptor i accessFlags).mqs =
        Function.update s.mqs i ((MessageQueue.unused (some s.files.firstFree)).joined
          s.getCurrentPID accessFlags) := by
      simp [Kernel.withDescriptor, Kernel.withMQ, MessageQueue.joined]
    rw [hmqs]
    apply ModesInv.join h hpids hk hocc htable hroom hi hasks
    · rw [pidOf_joined hasks, if_pos rfl, hpid]
    · exact hnobody mode
    · intro m hm e he ho
      rw [pidOf_joined hasks, if_neg hm]
      have hunused : (MessageQueue.unused (some s.files.firstFree)).pidOf m = -1 := by
        cases m <;> rfl
      rw [hunused]
      exact ⟨fun heq => absurd heq.symm (hpids.ne_none he ho),
        fun heq => absurd heq (hnobody m e he ho)⟩

theorem Modes.opened (h : s.Modes) (hinv : QueueInv s) (hledger : s.Ledger)
    {name : Option CString} {accessFlags : UInt32} {r : Int} (hone : OneMode accessFlags)
    (hok : ¬ s.Overflows name accessFlags) (hop : Opened s accessFlags name r s') :
    s'.Modes := by
  cases hop with
  | noName | noMode => exact h
  | notObtained name s' _ hob =>
    cases hob with
    | taken | full | notCreated => exact h
  | refused name i s₁ heq hob hno =>
    exact absurd ⟨hob.noDescriptor.mp hno, name, i, s₁, rfl, heq⟩ hok
  | ok name i s₁ heq hob hno =>
    exact h.joined hinv hledger hone hob (fun hno' => hno (hob.noDescriptor.mpr hno'))

/-! ### One step -/

/-- A close keeps the modes if it gives up what the descriptor was for. -/
theorem Modes.closed (h : s.Modes) (hinv : QueueInv s) (hledger : s.Ledger)
    (hfd : fd.toNat < MAX_FILES) (hown : s.ClosesOwn (.close fd))
    (hs' : s' = (s.operateFile s.sched.getCurrentPCBIndex fd .CLOSE 0).2.2) : s'.Modes := by
  by_cases hend : ∃ i mode, s.CurrentEnd fd i mode
  -- an end of a queue: its own pid goes, as `ClosesOwn` says
  · obtain ⟨i, mode, hend⟩ := hend
    obtain ⟨hmqs, hentries⟩ := h.closed_eq hinv hledger hfd hend hs'
    obtain ⟨hk, hocc⟩ := hinv.tasks.current_entry hend.1
    have hpid := h.pidOf_current hinv hfd hend
    have hne : s.getCurrentPID ≠ -1 := by
      rw [getCurrentPID_eq hend.1]
      exact hledger.pids.ne_none hk hocc
    obtain ⟨hself, hother⟩ := (pidOf_left_iff hne hpid).mpr
      ((h.closesOwn_iff hinv hfd hend).mp hown)
    unfold Modes
    rw [hmqs, hentries]
    apply ModesInv.leave h (LedgerInv.pids hledger) hk hocc hend.2.1 hfd hend.2.2 hself
    intro m hm
    rw [AccessMode.eq_other_of_ne hm]
    exact hother
  · have hcl := hinv.operateFile_closed hfd 0
    rw [← hs'] at hcl
    generalize (s.operateFile s.sched.getCurrentPCBIndex fd .CLOSE 0).1 = r at hcl
    cases hcl with
    | refused => exact h
    | file hbad hocc htype =>
      apply ModesInv.keep h
      intro e he
      left
      refine ⟨setFds_occupied e, setFds_pid e, ?_⟩
      intro fd' _
      show (setFds s.pcb.entries _ _ e).fileDescriptors.entries fd' = _ ∨
        (¬ IsQueue ((setFds s.pcb.entries _ _ e).fileDescriptors.entries fd') ∧ _)
      rw [setFds_fileDescriptors]
      by_cases hek : e = s.sched.getCurrentPCBIndex.toNat
      · subst hek
        rw [if_pos rfl]
        by_cases hfd' : fd' = fd.toNat
        · -- the descriptor that goes is none of a queue
          right
          subst hfd'
          constructor
          · have herase : ((s.pcb.entries s.sched.getCurrentPCBIndex.toNat).fileDescriptors.erase
                fd.toNat).entries fd.toNat = _ := erase_entries fd.toNat fd.toNat
            rw [if_pos rfl] at herase
            intro h
            obtain ⟨hocc', -⟩ := h
            exact hocc' (congrArg FileDescriptorMapEntry.occupied herase)
          · exact fun hq => htype hq.2
        · left
          exact (erase_entries _ _).trans (if_neg hfd')
      · rw [if_neg hek]
        exact .inl rfl
    -- a descriptor of a queue is an end of it
    | queue code s₁ hbad hocc htype hcode hmq =>
      exfalso
      apply hend
      have hk := (hinv.tasks.current_entry hbad).1
      obtain ⟨mode, hasks⟩ := h.oneMode _ fd.toNat hk hfd ⟨hocc, htype⟩
      exact ⟨_, mode, hbad, hinv.descriptor_lt hfd hbad hocc, ⟨hocc, htype, rfl⟩,
        (hasks mode).mpr rfl⟩

theorem Modes.task (h : s.Modes) (hinv : QueueInv s) (hledger : s.Ledger) (action : TaskAction)
    (hok : s.WellBehaved (.task action))
    (hstep : scheduling.step s.toTasks action s'.toTasks) (hbeside : Beside s action s') :
    s'.Modes := by
  unfold Modes
  rw [beside_mqs hbeside]
  cases action with
  | addProcess a =>
    obtain ⟨-, r, hadd⟩ := hstep
    generalize s'.toTasks = t' at hadd ⊢
    cases Tasks.addProcess_added hadd with
    | noNode => exact h
    | ok i k m hi hfree hcreate =>
      show ModesInv m.pcb.entries s.mqs
      rcases (Machine.createProcess_created hcreate).entry with
        hm | ⟨index, e, hlt, hun, ho, hp, hfds, hm⟩
      · rw [hm]
        exact h
      · rw [hm]
        rw [hinv.tasks.toNat_maxProcesses] at hlt
        apply ModesInv.keep h
        intro e' he'
        -- the new process, whose pid stands nowhere, or another one
        by_cases hei : e' = index
        · right
          subst hei
          rw [Machine.withNewProcess_entries_self]
          constructor
          · intro _ j mode hj
            rw [hp]
            exact LedgerInv.pidOf_ne_nextPid hledger hok hj mode
          · intro fd hfd hq
            rcases hfds with hsame | hstd
            · rw [hsame] at hq
              have hj := (hinv.tables e' hlt).2 fd hfd hq.1
              have hnone := LedgerInv.links_of_free hledger hlt hun hj
              have hpos := links_pos_iff.mpr ⟨fd, hfd, hq.1, hq.2, rfl⟩
              omega
            · rw [hstd] at hq
              exact (standardFiles_entry fd).2 hq.2
        · left
          have hother : (s.toMachine.withNewProcess index e).entries e' = s.pcb.entries e' := by
            simp [Machine.withNewProcess, hei]
          rw [hother]
          exact ⟨rfl, rfl, fun _ _ => .inl rfl⟩
  | finishProcess =>
    rw [show s'.toTasks = s.toTasks.finishProcess.2 from hstep, Tasks.finishProcess_pcb]
    exact h
  | nextProcess currentRSP =>
    obtain ⟨rsp, hnext⟩ := hstep
    have hent := nextProcess_entries hinv.tasks hnext
    apply ModesInv.keep h
    intro e he
    by_cases hl : s.toTasks.Leaves e
    · right
      rw [hent.left e hl]
      exact ⟨fun ho => absurd rfl ho, fun fd _ hq => hq.1 rfl⟩
    · left
      obtain ⟨stack, heq⟩ := hent.stays e hl
      rw [heq]
      exact ⟨rfl, rfl, fun _ _ => .inl rfl⟩
  | other =>
    have helse : Elsewhere s.toTasks s'.toTasks := hstep
    have hrest : AtRest s s' := hbeside
    apply ModesInv.keep h
    intro e he
    left
    rw [hrest.fileDescriptors]
    exact ⟨helse.occupied e, helse.pid e, fun _ _ => .inl rfl⟩

theorem modes_step (action : QueueAction) (h : s.Modes) (hinv : QueueInv s)
    (hledger : s.Ledger) (hown : s.ClosesOwn action) (hstep : sharing.step s action s') :
    s'.Modes := by
  obtain ⟨hone, hok, hstep⟩ := hstep
  cases action with
  | MQopen name accessFlags =>
    obtain rfl := hstep
    exact h.opened hinv hledger hone hok (MQopen_opened s name accessFlags)
  | close fd => exact h.closed hinv hledger hstep.1 hown hstep.2
  | task action => exact h.task hinv hledger action hok hstep.1 hstep.2

end Step

/-! ### Runs -/

theorem modes_boot {mem : Memory} {pages : PageStack} {entries : Nat → PcbEntry}
    {nodes : Nat → Node} (h : Kernel.boot mem pages entries nodes = some s) : s.Modes := by
  unfold Kernel.boot at h
  split at h
  split at h
  · cases h
  obtain ⟨t, hboot, rfl⟩ := Option.map_eq_some_iff.mp h
  obtain ⟨-, -, -, -, -, -, hzero⟩ := Tasks.boot_ok hboot
  have hno : ∀ e fd, e < pcbEntries → ¬ IsQueue ((t.pcb.entries e).fileDescriptors.entries fd) := by
    intro e fd he hq
    rw [hzero e he] at hq
    exact hq.1 rfl
  constructor
  · intro e i mode he _
    show (t.pcb.entries e).fileDescriptors.ends i mode = _
    rw [ends_of_noQueue (fun fd _ => hno e fd he)]
    have hfree : ¬ ((t.pcb.entries e).occupied ≠ 0) := by
      rw [hzero e he]
      exact fun ho => ho rfl
    exact (if_neg (fun hand => hfree hand.1)).symm
  · intro e fd he _ hq
    exact absurd hq (hno e fd he)

/-- In every state of a run that closes what it means to close. -/
theorem modes (h : (sharing.restrict ClosesOwn).Reachable s) :
    QueueInv s ∧ s.Ledger ∧ s.Modes := by
  apply h.invariant (fun s => QueueInv s ∧ s.Ledger ∧ s.Modes)
  · intro s h
    obtain ⟨mem, pages, entries, nodes, hboot⟩ := h
    exact ⟨queueInv_boot hboot, ledger_boot hboot, modes_boot hboot⟩
  · rintro s action s' ⟨hinv, hledger, hmodes⟩ ⟨hown, hstep⟩
    exact ⟨queueInv_step action hinv hstep.2.2, ledger_step action hledger hinv hstep.2.1 hstep.2.2,
      modes_step action hmodes hinv hledger hown hstep⟩

/-- A close of the other end leaves the process with a descriptor for reading that its queue
    does not know. -/
theorem Modes.closesOwn_of_agreed (h : s.Modes) (hinv : QueueInv s) (hledger : s.Ledger)
    (hfd : fd.toNat < MAX_FILES)
    (hs' : s' = (s.operateFile s.sched.getCurrentPCBIndex fd .CLOSE 0).2.2)
    (hagreed : s'.Agreed) : s.ClosesOwn (.close fd) := by
  intro i hend hread
  obtain ⟨hmqs, hentries⟩ := h.closed_eq hinv hledger hfd hend hs'
  obtain ⟨hk, hocc⟩ := hinv.tasks.current_entry hend.1
  have hpid := getCurrentPID_eq hend.1
  have hne : s.getCurrentPID ≠ -1 := by
    rw [hpid]
    exact hledger.pids.ne_none hk hocc
  -- the descriptor for reading is another one, and stays
  have hpos :
      0 < (s.pcb.entries s.sched.getCurrentPCBIndex.toNat).fileDescriptors.ends i .read := by
    have hcond : (s.pcb.entries s.sched.getCurrentPCBIndex.toNat).occupied ≠ 0 ∧
        (s.mqs i).pidOf .read = (s.pcb.entries s.sched.getCurrentPCBIndex.toNat).pid :=
      ⟨hocc, hread.trans hpid⟩
    rw [h.ends _ i .read hk hend.2.1, if_pos hcond]
    exact Nat.one_pos
  obtain ⟨fd', hfd', hopen⟩ := ends_pos_iff.mp hpos
  have hother : fd' ≠ fd.toNat := by
    rintro rfl
    obtain ⟨mode, hasks⟩ := h.oneMode _ _ hk hfd ⟨hopen.1.1, hopen.1.2.1⟩
    have hr := (hasks .read).mp hopen.2
    have hw := (hasks .write).mp hend.2.2.2
    exact absurd (hr.trans hw.symm) (by decide)
  have hholds : s'.Holds s.sched.getCurrentPCBIndex.toNat i .read := by
    refine ⟨fd', hfd', ?_⟩
    rw [hentries, setFds_fileDescriptors, if_pos rfl, erase_entries, if_neg hother]
    exact hopen
  -- but the slot's pid for reading is gone
  have hgone : (s'.mqs i).pidOf .read = -1 := by
    rw [hmqs, Function.update_self]
    have hmine : (s.mqs i).pidOf .read = s.getCurrentPID := hread
    exact ((pidOf_left_iff hne hmine).mpr (fun heq => absurd heq (by decide))).1
  have hocc' : (s'.pcb.entries s.sched.getCurrentPCBIndex.toNat).occupied ≠ 0 := by
    rw [hentries, setFds_occupied]
    exact hocc
  have hagree := (hagreed.holds _ i .read hk hend.2.1 hocc').mp hholds
  rw [hgone, hentries, setFds_pid, ← hpid] at hagree
  exact hne hagree.symm

/-- As long as processes close their descriptors for writing only when they do not read the
    queue as well, descriptors and access rights agree; the first other close breaks that.
    Processes are created while the pid counter is not at -1, which stands for no pid. -/
theorem agreed_iff_closesOwn (h : (sharing.restrict ClosesOwn).Reachable s) :
    s.Agreed ∧
    (∀ action s', sharing.step s action s' → (s'.Agreed ↔ s.ClosesOwn action)) ∧
    ∀ fd i mode s', s.CurrentEnd fd i mode → sharing.step s (.close fd) s' →
      (s.GivesUp s' i mode ↔ s.ClosesOwn (.close fd)) := by
  obtain ⟨hinv, hledger, hmodes⟩ := modes h
  refine ⟨hmodes.agreed hledger, ?_, ?_⟩
  · intro action s' hstep
    constructor
    · intro hagreed
      cases action with
      | MQopen name accessFlags => trivial
      | task action => trivial
      | close fd =>
        obtain ⟨-, -, hfd, hs'⟩ := hstep
        exact hmodes.closesOwn_of_agreed hinv hledger hfd hs' hagreed
    · intro hown
      exact (modes_step action hmodes hinv hledger hown hstep).agreed
        (ledger_step action hledger hinv hstep.2.1 hstep.2.2)
  · intro fd i mode s' hend hstep
    obtain ⟨-, -, hfd, hs'⟩ := hstep
    obtain ⟨hmqs, -⟩ := hmodes.closed_eq hinv hledger hfd hend hs'
    obtain ⟨hk, hocc⟩ := hinv.tasks.current_entry hend.1
    have hne : s.getCurrentPID ≠ -1 := by
      rw [getCurrentPID_eq hend.1]
      exact hledger.pids.ne_none hk hocc
    have hpid := hmodes.pidOf_current hinv hfd hend
    -- what the slot loses is what `left` takes from it
    rw [hmodes.closesOwn_iff hinv hfd hend, ← pidOf_left_iff hne hpid]
    have hself : s'.mqs i = (s.mqs i).left s.getCurrentPID := by rw [hmqs, Function.update_self]
    constructor
    · intro hgives
      rw [← hself]
      exact ⟨hgives.own, hgives.other⟩
    · intro h
      obtain ⟨hown, hother⟩ := h
      rw [← hself] at hown hother
      refine ⟨hown, hother, ?_⟩
      intro j hji
      rw [hmqs, Function.update_of_ne hji]

/-! ### One process with both ends -/

/-- The first process opens a queue for reading. -/
theorem reader : ∃ s i, Stocked s 1 ∧ (sharing.restrict ClosesOwn).Reachable s ∧
    Reads s s.sched.getCurrentPCBIndex i (queueName 0) := by
  obtain ⟨s, hs, hsys, -⟩ := stocked_first
  have hreach : (sharing.restrict ClosesOwn).Reachable s :=
    hsys _ (fun _ hinit => hinit) (fun _ _ _ hstep => ⟨trivial, trivial, hstep⟩)
  obtain ⟨-, -, -, hno⟩ := hs.canOpen (by decide)
  have hopens := hs.opens (by decide)
  obtain ⟨i, hreads⟩ := hopens.queues 0 Nat.one_pos
  exact ⟨_, i, hopens, .step (.MQopen (some (queueName 0)) F_READ) hreach
    ⟨trivial, ⟨.read, asks_flag .read⟩, fun hover => hno hover.1, rfl⟩, hreads⟩

/-- A descriptor that was opened for that mode. -/
theorem currentEnd_of_entry {fd : Nat} (mode : AccessMode)
    (hgood : s.pcb.badIndex s.sched.getCurrentPCBIndex = false) (hi : i < MAX_MQS)
    (hfd : fd < MAX_FILES)
    (hentry : (s.pcb.process s.sched.getCurrentPCBIndex).fileDescriptors.entries fd =
      ⟨1, UInt32.ofNat i, FileType.MESSAGE_QUEUE.code, mode.flag⟩) :
    (UInt64.ofNat fd).toNat = fd ∧ s.CurrentEnd (UInt64.ofNat fd) i mode := by
  have hfd' : (UInt64.ofNat fd).toNat = fd := by
    apply UInt64.toNat_ofNat_of_lt'
    unfold MAX_FILES at hfd
    show fd < 2 ^ 64
    omega
  refine ⟨hfd', hgood, hi, ?_⟩
  unfold descriptor
  rw [hfd', hentry]
  exact ⟨⟨by show (1 : UInt32) ≠ 0; decide, rfl, toNat_ofNat_slot hi⟩,
    (asks_flag mode mode).mpr rfl⟩

/-- A reader closes its only descriptor of the queue. -/
theorem agreed_iff_closesOwn_reader : ∃ s s' fd i, (sharing.restrict ClosesOwn).Reachable s ∧
    s.CurrentEnd fd i .read ∧ sharing.step s (.close fd) s' ∧ s'.Agreed ∧
    s.GivesUp s' i .read := by
  obtain ⟨s, i, hs, hreach, hreads⟩ := reader
  obtain ⟨fd, hfd, hentry⟩ := hreads.descriptor
  obtain ⟨hfd', hend⟩ := currentEnd_of_entry .read hs.good hreads.lt hfd hentry
  obtain ⟨hinv, -, hmodes⟩ := modes hreach
  have hown : s.ClosesOwn (.close (UInt64.ofNat fd)) :=
    (hmodes.closesOwn_iff hinv (hfd'.trans_lt hfd) hend).mpr
      (fun heq => absurd heq (by decide))
  have hstep : sharing.step s (.close (UInt64.ofNat fd)) _ :=
    ⟨trivial, trivial, hfd'.trans_lt hfd, rfl⟩
  obtain ⟨-, hagreed, hgives⟩ := agreed_iff_closesOwn hreach
  exact ⟨s, _, _, i, hreach, hend, hstep, (hagreed _ _ hstep).mpr hown,
    (hgives _ i .read _ hend hstep).mpr hown⟩

/-- A process opens a queue for reading and for writing, and closes the descriptor for
    writing. -/
theorem writer_keeps_reading : ¬ ∀ s, sharing.Reachable s → s.Agreed := by
  intro hclaim
  obtain ⟨s, i, hs, hreach, hreads⟩ := reader
  obtain ⟨hinv, -, -⟩ := modes hreach
  have hflags : ¬ (F_WRITE &&& F_READ = 0 ∧ F_WRITE &&& F_WRITE = 0) := by decide
  have hindex : s.indexOfMQ (queueName 0) = some i :=
    (hinv.slots.indexOfMQ_iff _ _).mpr ⟨hreads.lt, hreads.live, hreads.name⟩
  -- nobody writes the queue yet, so the second open succeeds
  have havail : (s.mqs i).Available F_WRITE := by
    unfold MessageQueue.Available
    rw [if_neg (by decide)]
    exact ⟨by decide, hreads.writePID⟩
  have hno : ¬ s.NoDescriptor := by
    intro h
    rcases h with hbad | hfull
    · rw [hs.good] at hbad
      cases hbad
    · rw [hs.size] at hfull
      exact absurd hfull (by decide)
  have hopen := MQopen_shared hflags hindex havail hno
  obtain ⟨hbad, hentry, hroom⟩ := hinv.room hno
  obtain ⟨hfd, -⟩ := (hinv.tables _ hentry).1.lowestFree hroom
  obtain ⟨s₂, hs₂⟩ : ∃ s₂, s₂ = (s.setMQ i ((s.mqs i).marked s.getCurrentPID
      F_WRITE)).withDescriptor i F_WRITE := ⟨_, rfl⟩
  have hreach₂ : (sharing.restrict ClosesOwn).Reachable s₂ := by
    apply System.Reachable.step (.MQopen (some (queueName 0)) F_WRITE) hreach
    refine ⟨trivial, ⟨.write, asks_flag .write⟩, fun hover => hno hover.1, ?_⟩
    show s₂ = (s.MQopen (some (queueName 0)) F_WRITE).2
    rw [hopen, hs₂]
  have hgood₂ : s₂.pcb.badIndex s₂.sched.getCurrentPCBIndex = false := by
    rw [hs₂]
    exact hs.good
  have hpid₂ : s₂.getCurrentPID = s.getCurrentPID := by
    rw [getCurrentPID_eq hgood₂, getCurrentPID_eq hs.good, hs₂]
    exact setFds_pid _
  -- it leaves `readPID`, so the process has both ends
  have hread₂ : (s₂.mqs i).readPID = s₂.getCurrentPID := by
    have hpid : s.pcb.getProcessPID s.sched.getCurrentPCBIndex = s.getCurrentPID := rfl
    have hkeep : (s₂.mqs i).readPID = (s.mqs i).readPID := by
      rw [hs₂]
      simp [withDescriptor, MessageQueue.marked, show F_WRITE &&& F_READ = 0 by decide]
    rw [hkeep, hpid₂, hreads.readPID, hpid]
  have hfds₂ : (s₂.pcb.process s₂.sched.getCurrentPCBIndex).fileDescriptors =
      (s.pcb.process s.sched.getCurrentPCBIndex).fileDescriptors.insert
        ⟨1, UInt32.ofNat i, FileType.MESSAGE_QUEUE.code, F_WRITE⟩ := by
    rw [hs₂]
    exact (setFds_fileDescriptors _).trans (if_pos rfl)
  have hentry₂ : (s₂.pcb.process s₂.sched.getCurrentPCBIndex).fileDescriptors.entries
      (s.pcb.process s.sched.getCurrentPCBIndex).fileDescriptors.lowestFree =
      ⟨1, UInt32.ofNat i, FileType.MESSAGE_QUEUE.code, F_WRITE⟩ := by
    rw [hfds₂, insert_entries, if_pos rfl]
  obtain ⟨hfd', hend⟩ := currentEnd_of_entry .write hgood₂ hreads.lt hfd hentry₂
  have hstep : sharing.step s₂ (.close (UInt64.ofNat
      (s.pcb.process s.sched.getCurrentPCBIndex).fileDescriptors.lowestFree)) _ :=
    ⟨trivial, trivial, hfd'.trans_lt hfd, rfl⟩
  have hshared : sharing.Reachable s₂ := hreach₂.of_restrict
  obtain ⟨hinv₂, hledger₂, hmodes₂⟩ := modes hreach₂
  -- agreement after the close would mean that the process does not read the queue
  have hown := hmodes₂.closesOwn_of_agreed hinv₂ hledger₂ (hfd'.trans_lt hfd) rfl
    (hclaim _ (.step _ hshared hstep))
  exact hown i hend hread₂

end Kernel

end TP2Kernel
