import TP2Kernel.MessageQueue.Invariant

/-! # What a failed `MQopen` leaves behind

    A failed open should change nothing.  `MQopen` undoes its work with `MQclose`, which
    takes a link away that the open has not counted yet: when the queue was there before,
    the link of somebody else.  A page taken for a file that is not created is given back
    unless it was the last one.
-/

namespace TP2Kernel

open Transition Scheduler FileDescriptorsMap

namespace Kernel

/-- Nothing that a failed open could spoil has changed: the slots, the table of files, the
    PCB with the descriptors of all processes, and the free pages. -/
structure Untouched (s s' : Kernel) : Prop where
  mqs : s'.mqs = s.mqs
  numMQs : s'.numMQs = s.numMQs
  files : s'.files = s.files
  pcb : s'.pcb = s.pcb
  mem : s'.mem = s.mem
  freePages : ∀ page, s'.pages.Free page ↔ s.pages.Free page

variable {s s' : Kernel} {name : CString} {accessFlags : UInt32} {i : Nat}

theorem Untouched.refl (s : Kernel) : Untouched s s :=
  ⟨rfl, rfl, rfl, rfl, rfl, fun _ => Iff.rfl⟩

/-! ### The three ways to leave a trace -/

/-- The queue is there and its end is free, but the process has no descriptor left. -/
def JoinsInVain (s : Kernel) (name : CString) (accessFlags : UInt32) : Prop :=
  s.NoDescriptor ∧ ∃ i, s.indexOfMQ name = some i ∧ (s.mqs i).Available accessFlags

/-- The queue is to be created in slot `i`, and a page is popped for it. -/
structure TakesPage (s : Kernel) (name : CString) (accessFlags : UInt32) (i : Nat) : Prop where
  mode : ¬ (accessFlags &&& F_READ = 0 ∧ accessFlags &&& F_WRITE = 0)
  index : s.indexOfMQ name = none
  slot : s.findFreeSlot = some i
  goodName : ¬ FilesTable.BadName name
  page : s.pages.pop.2 ≠ NULL

/-- The last page is popped for a file that is not created, or not kept. -/
def LosesPage (s : Kernel) (name : CString) (accessFlags : UInt32) : Prop :=
  s.pages.LastPage ∧ (¬ s.files.Accepts name ∨ s.NoDescriptor) ∧
    ∃ i, s.TakesPage name accessFlags i

/-- A new queue is destroyed again in a slot whose fields were others before. -/
def LeavesPids (s : Kernel) (name : CString) (accessFlags : UInt32) : Prop :=
  s.files.Accepts name ∧ s.NoDescriptor ∧
    ∃ i, s.TakesPage name accessFlags i ∧ s.mqs i ≠ .unused none

def LeavesTrace (s : Kernel) (name : CString) (accessFlags : UInt32) : Prop :=
  s.JoinsInVain name accessFlags ∨ s.LosesPage name accessFlags ∨ s.LeavesPids name accessFlags

/-! ### A queue that is there -/

theorem MQopen_joinsInVain (hno : s.NoDescriptor) (hindex : s.indexOfMQ name = some i)
    (havail : (s.mqs i).Available accessFlags) :
    s.MQopen (some name) accessFlags =
      (-1, ((s.setMQ i ((s.mqs i).marked s.getCurrentPID accessFlags)).MQclose i).2) := by
  obtain ⟨-, hfile, -⟩ := indexOfMQ_some hindex
  have hflags : ¬ (accessFlags &&& F_READ = 0 ∧ accessFlags &&& F_WRITE = 0) := by
    intro h
    obtain ⟨hread, hwrite⟩ := h
    unfold MessageQueue.Available at havail
    rw [if_neg (not_not.mpr hread)] at havail
    exact havail.1 hwrite
  have hob : s.obtainMQ name accessFlags =
      (some i, s.setMQ i ((s.mqs i).marked s.getCurrentPID accessFlags)) := by
    simp only [obtainMQ, hindex, markAccess_eq hfile, if_pos havail]
    rfl
  simp only [MQopen, if_neg hflags, hob]
  rcases registerMQ_eq (s.setMQ i ((s.mqs i).marked s.getCurrentPID accessFlags)) i
    accessFlags with ⟨-, heq⟩ | ⟨hno', -⟩
  · exact heq
  · exact absurd hno hno'

/-- The process that marked a slot is one of its two pids. -/
theorem marked_mine (q : MessageQueue) (pid : UInt64) (accessFlags : UInt32) :
    (q.marked pid accessFlags).readPID = pid ∨ (q.marked pid accessFlags).writePID = pid := by
  unfold MessageQueue.marked
  split
  · exact .inl rfl
  · exact .inr rfl

/-- The rollback takes a link away, or the whole queue. -/
theorem MQclose_marked_spoils (hfile : (s.mqs i).file ≠ none) :
    (((s.setMQ i ((s.mqs i).marked s.getCurrentPID accessFlags)).MQclose i).2.mqs i).file =
      none ∨
    (((s.setMQ i ((s.mqs i).marked s.getCurrentPID accessFlags)).MQclose i).2.mqs i).links ≠
      (s.mqs i).links := by
  -- `MQclose` runs on the slot that `markAccess` has just given to the caller
  obtain ⟨s₁, hs₁⟩ : ∃ s₁, s₁ = s.setMQ i ((s.mqs i).marked s.getCurrentPID accessFlags) :=
    ⟨_, rfl⟩
  have hslot : s₁.mqs i = (s.mqs i).marked s.getCurrentPID accessFlags := by
    rw [hs₁, setMQ_mqs, Function.update_self]
  have hpid : s₁.getCurrentPID = s.getCurrentPID := by
    rw [hs₁]
    rfl
  rw [← hs₁]
  have hcl := MQclose_closed s₁ i
  generalize s₁.MQclose i = result at hcl ⊢
  obtain ⟨code, s₂⟩ := result
  cases hcl with
  | refused hno =>
    -- it is not refused: one of the pids is the caller's
    rw [hslot, hpid] at hno
    rcases hno with hnone | ⟨hr, hw⟩
    · rw [MessageQueue.marked_file] at hnone
      exact absurd hnone hfile
    · rcases marked_mine (s.mqs i) s.getCurrentPID accessFlags with hm | hm
      · exact absurd hm hr
      · exact absurd hm hw
  | kept _ _ hlinks =>
    right
    rw [hslot, hpid] at hlinks
    show (Function.update s₁.mqs i ((s₁.mqs i).unmarked s₁.getCurrentPID) i).links ≠ _
    rw [Function.update_self, hslot, hpid]
    simp only [MessageQueue.unmarked, MessageQueue.marked_links] at hlinks ⊢
    by_cases hpos : (s.mqs i).links > 0
    · rw [if_pos hpos]
      have hgt : 0 < (s.mqs i).links.toNat := UInt64.lt_iff_toNat_lt.mp hpos
      have hpred := Word.uint64_toNat_pred hgt
      intro heq
      rw [heq] at hpred
      omega
    -- without links the slot would have been destroyed
    · rw [if_neg hpos] at hlinks
      have h0 : (s.mqs i).links.toNat = 0 := by
        rw [gt_iff_lt, UInt64.lt_iff_toNat_lt] at hpos
        simpa using hpos
      exact absurd (UInt64.toNat_inj.mp h0) hlinks
  | destroyed =>
    left
    show (Function.update s₁.mqs i _ i).file = none
    rw [Function.update_self]

/-! ### A new queue -/

/-- The page is given back, or lost. -/
theorem givenBack_eq (hpage : s.pages.pop.2 ≠ NULL) : FilesTable.givenBack s.pages =
    if s.pages.LastPage then s.pages.pop.1 else s.pages :=
  PageStack.push_pop hpage

theorem MQopen_notAccepted (h : s.TakesPage name accessFlags i)
    (hacc : ¬ s.files.Accepts name) : s.MQopen (some name) accessFlags =
      (-1, { s with pages := FilesTable.givenBack s.pages }) := by
  obtain ⟨-, hfile⟩ := findFreeSlot_some h.slot
  have hcan : ¬ s.CanCreateFile name := fun hc => hacc hc.2.2
  have hpages : s.pagesAfter name = FilesTable.givenBack s.pages := by
    rw [pagesAfter, if_neg h.goodName, if_neg h.page]
  have hob : s.obtainMQ name accessFlags =
      (none, { s with pages := FilesTable.givenBack s.pages }) := by
    simp only [obtainMQ, h.index, h.slot, newMQ_eq hfile h.mode, if_neg hcan, hpages]
    rfl
  simp only [MQopen, if_neg h.mode, hob]

/-- The kernel without the queue that was to be created in slot `i`. -/
def withdrawn (s : Kernel) (i : Nat) : Kernel :=
  { s with
    pages := FilesTable.givenBack s.pages
    mqs := Function.update s.mqs i (.unused none) }

/-- The new queue is destroyed again, and its file with it. -/
theorem MQclose_withMQ (hinv : QueueInv s) (hacc : s.files.Accepts name) :
    ((s.withMQ i name accessFlags).MQclose i).2 = s.withdrawn i := by
  have hslot : (s.withMQ i name accessFlags).mqs i =
      (MessageQueue.unused (some s.files.firstFree)).marked s.getCurrentPID accessFlags :=
    Function.update_self _ _ _
  have hpid : (s.withMQ i name accessFlags).getCurrentPID = s.getCurrentPID := rfl
  -- the slot is the caller's, and has no links yet
  have hmine : ¬ (((s.withMQ i name accessFlags).mqs i).file = none ∨
      (((s.withMQ i name accessFlags).mqs i).readPID ≠ s.getCurrentPID ∧
        ((s.withMQ i name accessFlags).mqs i).writePID ≠ s.getCurrentPID)) := by
    rw [hslot]
    intro h
    rcases h with hnone | ⟨hr, hw⟩
    · simp [MessageQueue.unused] at hnone
    · rcases marked_mine (.unused (some s.files.firstFree)) s.getCurrentPID accessFlags
        with hm | hm
      · exact hr hm
      · exact hw hm
  have hunmarked : ((s.withMQ i name accessFlags).mqs i).unmarked s.getCurrentPID =
      .unused (some s.files.firstFree) := by
    rw [hslot, MessageQueue.marked_unmarked]
  have hlinks : (MessageQueue.unused (some s.files.firstFree)).links = 0 := rfl
  have hdestroy := hinv.slots.table.destroyBasicFile_new hacc s.pages.pop.1 s.pages.pop.2
  have hcount : s.numMQs + 1 - 1 = s.numMQs := UInt64.add_sub_cancel _ _
  rw [MQclose_eq, hpid, if_neg hmine, hunmarked, if_pos hlinks]
  simp only [withoutMQ, withMQ, MessageQueue.unused, hdestroy, Function.update_idem, hcount]
  rfl

theorem MQopen_newInVain (hinv : QueueInv s) (h : s.TakesPage name accessFlags i)
    (hacc : s.files.Accepts name) (hno : s.NoDescriptor) :
    s.MQopen (some name) accessFlags = (-1, s.withdrawn i) := by
  obtain ⟨-, hfile⟩ := findFreeSlot_some h.slot
  have hcan : s.CanCreateFile name := ⟨h.goodName, h.page, hacc⟩
  have hob : s.obtainMQ name accessFlags = (some i, s.withMQ i name accessFlags) := by
    simp only [obtainMQ, h.index, h.slot, newMQ_eq hfile h.mode, if_pos hcan]
    rfl
  simp only [MQopen, if_neg h.mode, hob]
  rcases registerMQ_eq (s.withMQ i name accessFlags) i accessFlags with ⟨-, heq⟩ | ⟨hno', -⟩
  · rw [heq, MQclose_withMQ hinv hacc]
  · exact absurd hno hno'

/-! ### When nothing changes -/

/-- The page is back in its place. -/
theorem untouched_withdrawn (hpage : s.pages.pop.2 ≠ NULL) (hlast : ¬ s.pages.LastPage)
    (hslot : s.mqs i = .unused none) : s.Untouched (s.withdrawn i) := by
  have hmqs : Function.update s.mqs i (.unused none) = s.mqs := by
    rw [← hslot, Function.update_eq_self]
  refine ⟨hmqs, rfl, rfl, rfl, rfl, fun page => ?_⟩
  show (FilesTable.givenBack s.pages).Free page ↔ _
  rw [givenBack_eq hpage, if_neg hlast]

theorem untouched_pagesAfter (hacc : s.pages.LastPage → FilesTable.BadName name ∨
    s.pages.pop.2 = NULL) : s.Untouched { s with pages := s.pagesAfter name } := by
  refine ⟨rfl, rfl, rfl, rfl, rfl, fun page => ?_⟩
  show (s.pagesAfter name).Free page ↔ _
  unfold pagesAfter
  by_cases hname : FilesTable.BadName name
  · rw [if_pos hname]
  · rw [if_neg hname]
    by_cases hpage : s.pages.pop.2 = NULL
    · rw [if_pos hpage, PageStack.pop_null_free hpage]
    · have hlast : ¬ s.pages.LastPage := fun hl => (hacc hl).elim hname hpage
      rw [if_neg hpage, givenBack_eq hpage, if_neg hlast]

/-- Every trace is left by a call that fails. -/
theorem LeavesTrace.spoils (hinv : QueueInv s) (h : s.LeavesTrace name accessFlags) :
    (s.MQopen (some name) accessFlags).1 = -1 ∧
      ¬ s.Untouched (s.MQopen (some name) accessFlags).2 := by
  rcases h with ⟨hno, i, hindex, havail⟩ | ⟨hlast, hfail, i, htakes⟩ | ⟨hacc, hno, i, htakes, hne⟩
  · rw [MQopen_joinsInVain hno hindex havail]
    -- the rollback hits the queue that was there
    obtain ⟨-, hfile, -⟩ := indexOfMQ_some hindex
    refine ⟨rfl, fun hun => ?_⟩
    rcases @MQclose_marked_spoils s accessFlags i hfile with hnone | hlinks
    · exact hfile (by rw [← hun.mqs]; exact hnone)
    · exact hlinks (by rw [hun.mqs])
  · -- the page is not given back
    have hlost : ∀ s' : Kernel, s'.pages = FilesTable.givenBack s.pages → ¬ s.Untouched s' := by
      intro s' hpages hun
      obtain ⟨hfree, hgone⟩ := PageStack.lastPage_free htakes.page hlast
      rw [← hun.freePages, hpages, givenBack_eq htakes.page, if_pos hlast] at hfree
      exact hgone hfree
    by_cases hacc : s.files.Accepts name
    · rw [MQopen_newInVain hinv htakes hacc (hfail.resolve_left (not_not.mpr hacc))]
      exact ⟨rfl, hlost _ rfl⟩
    · rw [MQopen_notAccepted htakes hacc]
      exact ⟨rfl, hlost _ rfl⟩
  -- the fields of the slot are not what they were
  · rw [MQopen_newInVain hinv htakes hacc hno]
    refine ⟨rfl, fun hun => hne ?_⟩
    rw [← hun.mqs]
    exact Function.update_self _ _ _

/-- Every call that fails without one leaves things as they were. -/
theorem untouched_of_not_leavesTrace (hinv : QueueInv s)
    (h : ¬ s.LeavesTrace name accessFlags)
    (hfailed : (s.MQopen (some name) accessFlags).1 = -1) :
    s.Untouched (s.MQopen (some name) accessFlags).2 := by
  obtain ⟨hjoins, hloses, hleaves⟩ : ¬ s.JoinsInVain name accessFlags ∧
      ¬ s.LosesPage name accessFlags ∧ ¬ s.LeavesPids name accessFlags := by
    simpa [LeavesTrace, not_or] using h
  by_cases hmode : accessFlags &&& F_READ = 0 ∧ accessFlags &&& F_WRITE = 0
  · simp only [MQopen, if_pos hmode]
    exact .refl s
  have hopened := MQopen_opened s (some name) accessFlags
  generalize s.MQopen (some name) accessFlags = result at hopened hfailed ⊢
  obtain ⟨code, s'⟩ := result
  cases hopened with
  | noMode => exact .refl _
  | notObtained _ _ _ hob =>
    cases hob with
    | taken => exact .refl _
    | full => exact .refl _
    | notCreated i hindex hslot hcan =>
      -- only the page can be gone, when it was the last
      apply untouched_pagesAfter
      intro hlast
      by_contra hneither
      obtain ⟨hname, hpage⟩ := not_or.mp hneither
      have hacc : ¬ s.files.Accepts name := fun hacc => hcan ⟨hname, hpage, hacc⟩
      exact hloses ⟨hlast, .inl hacc, i, hmode, hindex, hslot, hname, hpage⟩
  | refused _ i _ _ hob hno =>
    rw [hob.noDescriptor] at hno
    cases hob with
    -- the rollback would have taken a link of a queue that was there
    | shared _ hindex havail => exact absurd ⟨hno, i, hindex, havail⟩ hjoins
    | new _ _ hindex hslot hcan =>
      obtain ⟨hname, hpage, hacc⟩ := hcan
      -- the rollback takes the new queue away again
      have htakes : s.TakesPage name accessFlags i := ⟨hmode, hindex, hslot, hname, hpage⟩
      show s.Untouched ((s.withMQ i name accessFlags).MQclose i).2
      rw [MQclose_withMQ hinv hacc]
      apply untouched_withdrawn hpage
      · exact fun hlast => hloses ⟨hlast, .inr hno, i, htakes⟩
      · by_contra hne
        exact hleaves ⟨hacc, hno, i, htakes, hne⟩
  | ok =>
    have hnonneg : (0 : Int) ≤ -1 := hfailed ▸ Int.natCast_nonneg _
    exact absurd hnonneg (by decide)

/-- A failed open changes nothing unless its rollback hits a queue that was there, loses
    the last page, or clears the fields of a slot for the first time. -/
theorem failed_MQopen_untouched_iff (h : messaging.Reachable s) (name : Option CString)
    (accessFlags : UInt32) :
    ((s.MQopen name accessFlags).1 = -1 → s.Untouched (s.MQopen name accessFlags).2) ↔
      ∀ n, name = some n → ¬ s.LeavesTrace n accessFlags := by
  have hinv := queues_inv h
  constructor
  · rintro huntouched n rfl htrace
    obtain ⟨hfailed, hspoiled⟩ := htrace.spoils hinv
    exact hspoiled (huntouched hfailed)
  · intro hno hfailed
    cases name with
    | none => exact .refl s
    | some n => exact untouched_of_not_leavesTrace hinv (hno n rfl) hfailed

/-- The first process opens the same end of a queue twice. -/
theorem failed_MQopen_untouched_iff_taken :
    ∃ s : Kernel, messaging.Reachable s ∧
      (s.MQopen (some (queueName 0)) F_READ).1 = -1 ∧
      s.Untouched (s.MQopen (some (queueName 0)) F_READ).2 := by
  obtain ⟨s, hs⟩ := stocked 1 (by decide)
  have hreach : messaging.Reachable s := System.Reachable.of_restrict hs.reachable
  obtain ⟨hinv, hledger⟩ := ledger hs.reachable
  obtain ⟨i, hreads⟩ := hs.queues 0 (by decide)
  have hindex := (hinv.slots.indexOfMQ_iff (queueName 0) i).mpr
    ⟨hreads.lt, hreads.live, hreads.name⟩
  obtain ⟨hlt, hocc⟩ := hinv.tasks.current_entry hs.good
  have hpid : s.getCurrentPID ≠ -1 := by
    rw [getCurrentPID_eq hs.good]
    exact LedgerInv.pids hledger |>.ne_none hlt hocc
  -- the reading end is the process's own
  have htaken : ¬ (s.mqs i).Available F_READ := by
    unfold MessageQueue.Available
    rw [if_pos (by decide), hreads.readPID]
    exact hpid
  have hfailed : (s.MQopen (some (queueName 0)) F_READ).1 = -1 := by
    have hflags : ¬ (F_READ &&& F_READ = 0 ∧ F_READ &&& F_WRITE = 0) := by decide
    simp only [MQopen, if_neg hflags, obtainMQ, hindex, markAccess_eq hreads.live, if_neg htaken]
    rfl
  refine ⟨s, hreach, hfailed, (failed_MQopen_untouched_iff hreach _ _).mpr ?_ hfailed⟩
  rintro n hn
  obtain rfl := Option.some.inj hn
  intro h
  rcases h with ⟨-, j, hj, havail⟩ | ⟨-, -, j, htakes⟩ | ⟨-, -, j, htakes, -⟩
  · rw [hindex] at hj
    obtain rfl := Option.some.inj hj
    exact htaken havail
  · exact absurd (hindex.symm.trans htakes.index) (Option.some_ne_none i)
  · exact absurd (hindex.symm.trans htakes.index) (Option.some_ne_none i)

/-- A process with a full table opens the other end of a queue it reads from: the queue
    is destroyed, or loses a link. -/
theorem MQopen_fullTable_spoils :
    ¬ ∀ s : Kernel, messaging.Reachable s → ∀ name accessFlags,
      (s.MQopen name accessFlags).1 = -1 → s.Untouched (s.MQopen name accessFlags).2 := by
  intro h
  obtain ⟨s, hs⟩ := stocked 12 (by decide)
  have hreach : messaging.Reachable s := System.Reachable.of_restrict hs.reachable
  obtain ⟨hinv, -⟩ := ledger hs.reachable
  obtain ⟨i, hreads⟩ := hs.queues 0 (by decide)
  have hindex := (hinv.slots.indexOfMQ_iff (queueName 0) i).mpr
    ⟨hreads.lt, hreads.live, hreads.name⟩
  have hfull : s.NoDescriptor := by
    right
    rw [hs.size]
    decide
  have havail : (s.mqs i).Available F_WRITE := by
    unfold MessageQueue.Available
    rw [if_neg (by decide)]
    exact ⟨by decide, hreads.writePID⟩
  have htrace : s.LeavesTrace (queueName 0) F_WRITE := .inl ⟨hfull, i, hindex, havail⟩
  obtain ⟨hfailed, hspoiled⟩ := htrace.spoils hinv
  exact hspoiled (h s hreach _ _ hfailed)

end Kernel

end TP2Kernel
