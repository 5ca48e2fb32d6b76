import TP2Kernel.MessageQueue.Company
import TP2Kernel.MessageQueue.Steps
import TP2Kernel.Scheduler.Preemption

/-! # An open against the last close

    A process opens a queue by its name while the only process that has it open closes it.
    The steps of the two calls interleave in any order; each is taken by the process that
    has the turn.

    The open is in danger between its `markAccess` and its `links++`: a close that comes to
    its `destroyMQ` meanwhile counts no link and destroys the queue.
-/

namespace TP2Kernel

open Transition Scheduler Kernel Queues

/-- Who opens and who closes what. -/
structure Contest where
  name : CString
  accessFlags : UInt32
  slot : Nat
  openerIndex : UInt64
  closerIndex : UInt64

/-- The two calls in progress. -/
structure Race extends Queues where
  opener : Opening
  closer : Closing

inductive Move where
  | opener
  | closer
  | preempt

namespace Contest

/-- The process that will close the queue is the only one that has it open. -/
structure Start (c : Contest) (s : Race) : Prop where
  opener : s.opener = .check
  closer : s.closer = .lock
  openMutex : s.openMutex = 0
  closeMutex : s.closeMutex = 0
  slots : SlotsInv s.kernel.files s.kernel.mqs s.kernel.numMQs
  lt : c.slot < MAX_MQS
  live : s.kernel.Live c.slot
  name : s.kernel.nameOf c.slot = c.name
  links : (s.kernel.mqs c.slot).links = 1
  holder :
    ((s.kernel.mqs c.slot).readPID = s.kernel.pcb.getProcessPID c.closerIndex ∧
      (s.kernel.mqs c.slot).writePID = -1) ∨
    ((s.kernel.mqs c.slot).readPID = -1 ∧
      (s.kernel.mqs c.slot).writePID = s.kernel.pcb.getProcessPID c.closerIndex)
  closerPID : s.kernel.pcb.getProcessPID c.closerIndex ≠ -1
  openerPID : s.kernel.pcb.getProcessPID c.openerIndex ≠ s.kernel.pcb.getProcessPID c.closerIndex

/-- The two calls, interleaved. -/
def race (c : Contest) : System Race Move where
  init := c.Start
  step := fun s move s' =>
    match move with
    | .opener => s.kernel.sched.getCurrentPCBIndex = c.openerIndex ∧
        s' = { s with
          toQueues := (openStep c.name c.accessFlags s.toQueues s.opener).1
          opener := (openStep c.name c.accessFlags s.toQueues s.opener).2 }
    | .closer => s.kernel.sched.getCurrentPCBIndex = c.closerIndex ∧
        s' = { s with
          toQueues := (closeStep c.slot s.toQueues s.closer).1
          closer := (closeStep c.slot s.toQueues s.closer).2 }
    | .preempt => ∃ t, Preempted s.kernel.toTasks t ∧
        s' = { s with kernel := { s.kernel with toTasks := t } }

/-- The close does not come to its `destroyMQ` between `markAccess` and `links++`. -/
def Apart (_ : Contest) (s : Race) (move : Move) : Prop :=
  match move with
  | .closer => s.closer = .destroy → ∀ i fd, s.opener ≠ .add i ∧ s.opener ≠ .link i fd
  | .opener | .preempt => True

/-- The slot of descriptor `fd` holds a live queue with the name, and counts a link. -/
def Good (c : Contest) (s : Race) (fd : Nat) : Prop :=
  let i := ((s.kernel.pcb.process c.openerIndex).fileDescriptors.entries fd).index.toNat
  s.kernel.Live i ∧ s.kernel.nameOf i = c.name ∧ 1 ≤ (s.kernel.mqs i).links.toNat

end Contest

/-! ### What holds at each point -/

namespace Closing

/-- The close will not touch the queue any more. -/
def Past : Closing → Prop
  | .unlock _ | .done _ => True
  | .lock | .test | .clear | .unlink | .destroy => False

/-- `links` of the queue that is closed, when `joined` of them are the opener's. -/
def Counts (links joined : Nat) : Closing → Prop
  | .lock | .test | .clear | .unlink => links = joined + 1
  | .destroy => links = joined
  | .unlock _ | .done _ => 1 ≤ links ∧ links ≤ joined + 1

end Closing

namespace Contest

variable (c : Contest)

/-- The queue is still there. -/
def Standing (k : Kernel) (closer : Closing) (joined : Nat) : Prop :=
  k.Live c.slot ∧ k.nameOf c.slot = c.name ∧ closer.Counts (k.mqs c.slot).links.toNat joined

/-- The close has destroyed the queue. -/
def Lost (k : Kernel) (closer : Closing) : Prop := closer.Past ∧ ¬ k.Live c.slot

/-- The open has slot `i`: that of the old queue, or that of a new one. -/
def Placed (k : Kernel) (closer : Closing) (i joined : Nat) : Prop :=
  i < MAX_MQS ∧ ((i = c.slot ∧ c.Standing k closer joined) ∨
    (closer.Past ∧ k.Live i ∧ k.nameOf i = c.name ∧ (k.mqs i).links.toNat = joined))

/-- Descriptor `fd` of the opener is slot `i`. -/
def Registered (k : Kernel) (i fd : Nat) : Prop :=
  ((k.pcb.process c.openerIndex).fileDescriptors.entries fd).index = UInt32.ofNat i

/-- What holds as long as the two keep apart. -/
def Clean (k : Kernel) (closer : Closing) : Opening → Prop
  | .check | .lock | .lookup => SlotsInv k.files k.mqs k.numMQs ∧
      (c.Standing k closer 0 ∨
        (closer.Past ∧ ∀ i, i < MAX_MQS → k.Live i → k.nameOf i ≠ c.name))
  | .search => closer.Past
  | .create i => i < MAX_MQS ∧ closer.Past ∧ ¬ k.Live i
  | .mark i => i = c.slot ∧ (c.Standing k closer 0 ∨ c.Lost k closer)
  | .add i => c.Placed k closer i 0
  | .link i fd => c.Placed k closer i 0 ∧ c.Registered k i fd
  | .undo _ _ => True
  | .unlock result | .done result =>
      result = -1 ∨ ∃ i fd : Nat, result = fd ∧ c.Registered k i fd ∧ c.Placed k closer i 1

/-- What holds once they did not. -/
def Spoiled (k : Kernel) (closer : Closing) : Opening → Prop
  | .check | .lock | .lookup | .search | .create _ | .mark _ => False
  | .add i => i = c.slot ∧ c.Lost k closer
  | .link i fd => i = c.slot ∧ c.Lost k closer ∧ c.Registered k i fd
  | .undo _ _ => True
  | .unlock result | .done result =>
      result = -1 ∨ (c.Lost k closer ∧ ∃ fd : Nat, result = fd ∧ c.Registered k c.slot fd)

variable {c} {k k' : Kernel} {s : Queues} {closer closer' : Closing} {opener : Opening}
  {i j joined joined' : Nat}

/-! ### Steps of the close -/

/-- A close changes neither descriptors nor the turn. -/
theorem closeStep_frame (i : Nat) (s : Queues) (closer : Closing) :
    (closeStep i s closer).1.kernel.pcb = s.kernel.pcb ∧
    (closeStep i s closer).1.kernel.sched = s.kernel.sched := by
  cases closer with
  | lock | test | unlink =>
    simp only [closeStep]
    split <;> exact ⟨rfl, rfl⟩
  | unlock | done => exact ⟨rfl, rfl⟩
  | clear =>
    simp only [closeStep]
    split
    · exact ⟨rfl, rfl⟩
    · split <;> exact ⟨rfl, rfl⟩
  | destroy =>
    simp only [closeStep, destroyMQ]
    split
    · split <;> exact ⟨rfl, rfl⟩
    · exact ⟨rfl, rfl⟩

theorem closeStep_past (i : Nat) (s : Queues) (h : closer.Past) :
    (closeStep i s closer).1.kernel = s.kernel ∧ (closeStep i s closer).2.Past := by
  cases closer with
  | unlock | done => exact ⟨rfl, trivial⟩
  | lock | test | clear | unlink | destroy => exact h.elim

theorem Standing.setMQ (h : c.Standing k closer joined) {q : MessageQueue}
    (hq : q.file = (k.mqs c.slot).file) (hcounts : closer'.Counts q.links.toNat joined') :
    c.Standing (k.setMQ c.slot q) closer' joined' := by
  have hslot : (k.setMQ c.slot q).mqs c.slot = q := Function.update_self _ _ _
  refine ⟨?_, ?_, ?_⟩
  · unfold Live
    rw [hslot, hq]
    exact h.1
  · unfold nameOf
    rw [hslot, hq]
    exact h.2.1
  · rw [hslot]
    exact hcounts

/-- A close that does not destroy the queue keeps count. -/
theorem Standing.close (h : c.Standing s.kernel closer joined) (hle : joined ≤ 1)
    (hkeep : closer = .destroy → joined = 1) :
    c.Standing (closeStep c.slot s closer).1.kernel (closeStep c.slot s closer).2 joined := by
  obtain ⟨hlive, hname, hcounts⟩ := h
  have hfile : (s.kernel.mqs c.slot).file ≠ none := hlive
  cases closer with
  | lock =>
    simp only [closeStep]
    split <;> exact ⟨hlive, hname, hcounts⟩
  | test =>
    simp only [closeStep, if_neg hfile]
    exact ⟨hlive, hname, hcounts⟩
  | clear =>
    simp only [closeStep]
    split
    · exact Standing.setMQ ⟨hlive, hname, hcounts⟩ rfl hcounts
    split
    · exact Standing.setMQ ⟨hlive, hname, hcounts⟩ rfl hcounts
    · -- not the close's queue: its link stays
      have hlinks : (s.kernel.mqs c.slot).links.toNat = joined + 1 := hcounts
      have hpast : 1 ≤ (s.kernel.mqs c.slot).links.toNat ∧
          (s.kernel.mqs c.slot).links.toNat ≤ joined + 1 := by omega
      exact ⟨hlive, hname, hpast⟩
  | unlink =>
    have hlinks : (s.kernel.mqs c.slot).links.toNat = joined + 1 := hcounts
    have hpos : (s.kernel.mqs c.slot).links > 0 := by
      rw [gt_iff_lt, UInt64.lt_iff_toNat_lt, hlinks]
      exact Nat.succ_pos _
    simp only [closeStep, if_pos hpos]
    refine Standing.setMQ ⟨hlive, hname, hcounts⟩ rfl ?_
    show ((s.kernel.mqs c.slot).links - 1).toNat = joined
    rw [Word.uint64_toNat_pred (by omega), hlinks]
    omega
  | destroy =>
    have hlinks : (s.kernel.mqs c.slot).links.toNat = joined := hcounts
    -- the other link keeps the queue alive
    have hne : (s.kernel.mqs c.slot).links ≠ 0 := by
      intro h0
      rw [h0, hkeep rfl] at hlinks
      exact absurd hlinks (by decide)
    have hone := hkeep rfl
    have hpast : 1 ≤ (s.kernel.mqs c.slot).links.toNat ∧
        (s.kernel.mqs c.slot).links.toNat ≤ joined + 1 := by omega
    simp only [closeStep, if_neg hne]
    exact ⟨hlive, hname, hpast⟩
  | unlock => exact ⟨hlive, hname, hcounts⟩
  | done => exact ⟨hlive, hname, hcounts⟩

/-- With no link counted, the queue is destroyed. -/
theorem Standing.destroyed (h : c.Standing s.kernel .destroy 0) :
    closeStep c.slot s .destroy =
      ({ s with kernel := (s.kernel.destroyMQ c.slot).2 }, .unlock 1) ∧
    (s.kernel.destroyMQ c.slot).2 = s.kernel.withoutMQ c.slot (s.kernel.mqs c.slot) := by
  obtain ⟨hlive, -, hcounts⟩ := h
  have hfile : (s.kernel.mqs c.slot).file ≠ none := hlive
  have hlinks : (s.kernel.mqs c.slot).links = 0 := UInt64.toNat_inj.mp hcounts
  have hdestroy : s.kernel.destroyMQ c.slot =
      (1, s.kernel.withoutMQ c.slot (s.kernel.mqs c.slot)) := by
    simp only [destroyMQ, if_neg hfile]
    rfl
  simp only [closeStep, if_pos hlinks, hdestroy]
  exact ⟨rfl, trivial⟩

theorem lost_withoutMQ (q : MessageQueue) (result : Int) :
    c.Lost (k.withoutMQ c.slot q) (.unlock result) := by
  refine ⟨trivial, ?_⟩
  unfold Live withoutMQ
  simp

/-- The other queues keep their names when one is destroyed. -/
theorem nameOf_withoutMQ (hslots : SlotsInv k.files k.mqs k.numMQs) (hi : i < MAX_MQS)
    (hlive : k.Live i) (hj : j < MAX_MQS) (hlj : (k.withoutMQ i (k.mqs i)).Live j) :
    j ≠ i ∧ k.Live j ∧ (k.withoutMQ i (k.mqs i)).nameOf j = k.nameOf j := by
  have hji : j ≠ i := by
    rintro rfl
    exact hlj (by simp [withoutMQ])
  have hmqs : (k.withoutMQ i (k.mqs i)).mqs j = k.mqs j := Function.update_of_ne hji _ _
  unfold Live at hlj
  rw [hmqs] at hlj
  refine ⟨hji, hlj, ?_⟩
  obtain ⟨f, hf⟩ := Option.ne_none_iff_exists'.mp hlive
  obtain ⟨g, hg⟩ := Option.ne_none_iff_exists'.mp hlj
  obtain ⟨hflt, hfn⟩ := hslots.file i f hi hf
  -- two queues do not share a file
  have hgf : g ≠ f := fun heq => hji (hslots.apart j i g hj hi hg (heq ▸ hf))
  unfold nameOf
  rw [hmqs, hg]
  show (((k.files.destroyBasicFile k.pages (k.mqs i).file).2.1).filesTable g).name = _
  rw [hf]
  rcases FilesTable.destroyBasicFile_cases hslots.table k.pages hflt hfn with hmiss | ⟨-, hdone⟩
  · rw [hmiss]
    rfl
  · rw [hdone]
    show ((k.files.setEntry f _).filesTable g).name = _
    rw [FilesTable.setEntry_ne _ _ hgf]
    rfl

/-! ### The close keeps what holds -/

theorem closeStep_slots (h : SlotsInv s.kernel.files s.kernel.mqs s.kernel.numMQs)
    (hi : i < MAX_MQS) (closer : Closing) :
    SlotsInv (closeStep i s closer).1.kernel.files (closeStep i s closer).1.kernel.mqs
      (closeStep i s closer).1.kernel.numMQs := by
  cases closer with
  | lock | test =>
    simp only [closeStep]
    split <;> exact h
  | clear =>
    simp only [closeStep]
    split
    · exact h.update rfl
    · split
      · exact h.update rfl
      · exact h
  | unlink =>
    simp only [closeStep]
    split
    · exact h.update rfl
    · exact h
  | destroy =>
    simp only [closeStep]
    split
    · cases hfile : (s.kernel.mqs i).file with
      | none =>
        simp only [destroyMQ, hfile, if_true]
        exact h
      | some f =>
        simp only [destroyMQ, hfile, reduceCtorEq, if_false]
        -- whether or not its file is found, the slot is free afterwards
        exact h.destroyed s.kernel.pages hi hfile rfl
    · exact h
  | unlock | done => exact h

theorem registered_close (h : c.Registered s.kernel i j) :
    c.Registered (closeStep c.slot s closer).1.kernel i j := by
  unfold Registered
  rw [(closeStep_frame c.slot s closer).1]
  exact h

theorem Placed.close (h : c.Placed s.kernel closer i joined) (hle : joined ≤ 1)
    (hkeep : closer = .destroy → joined = 1) :
    c.Placed (closeStep c.slot s closer).1.kernel (closeStep c.slot s closer).2 i joined := by
  obtain ⟨hi, ⟨hslot, hstanding⟩ | ⟨hpast, hnew⟩⟩ := h
  · exact ⟨hi, .inl ⟨hslot, hstanding.close hle hkeep⟩⟩
  · obtain ⟨hkernel, hpast'⟩ := closeStep_past c.slot s hpast
    rw [hkernel]
    exact ⟨hi, .inr ⟨hpast', hnew⟩⟩

theorem Lost.close (h : c.Lost s.kernel closer) :
    c.Lost (closeStep c.slot s closer).1.kernel (closeStep c.slot s closer).2 := by
  obtain ⟨hpast, hdead⟩ := h
  obtain ⟨hkernel, hpast'⟩ := closeStep_past c.slot s hpast
  rw [hkernel]
  exact ⟨hpast', hdead⟩

/-- The close goes on while the open has not looked the name up. -/
theorem early_close (hlt : c.slot < MAX_MQS) (h : c.Clean s.kernel closer .lookup) :
    c.Clean (closeStep c.slot s closer).1.kernel (closeStep c.slot s closer).2 .lookup := by
  obtain ⟨hslots, hstanding | ⟨hpast, hnone⟩⟩ := h
  · refine ⟨closeStep_slots hslots hlt closer, ?_⟩
    by_cases hdestroy : closer = .destroy
    · subst hdestroy
      obtain ⟨hstep, hkernel⟩ := hstanding.destroyed
      right
      rw [hstep, hkernel]
      refine ⟨trivial, ?_⟩
      intro i hi hlive hname
      obtain ⟨hne, hlive', hname'⟩ := nameOf_withoutMQ hslots hlt hstanding.1 hi hlive
      rw [hname', ← hstanding.2.1] at hname
      exact hne (hslots.nameOf_eq hi hlt hlive' hstanding.1 hname)
    · exact .inl (hstanding.close (Nat.zero_le 1) (fun heq => absurd heq hdestroy))
  · obtain ⟨hkernel, hpast'⟩ := closeStep_past c.slot s hpast
    rw [hkernel]
    exact ⟨hslots, .inr ⟨hpast', hnone⟩⟩

theorem Clean.close (h : c.Clean s.kernel closer opener) (hlt : c.slot < MAX_MQS)
    (hapart : closer = .destroy → ∀ i fd, opener ≠ .add i ∧ opener ≠ .link i fd) :
    c.Clean (closeStep c.slot s closer).1.kernel (closeStep c.slot s closer).2 opener := by
  cases opener with
  | check | lock | lookup => exact early_close hlt h
  | search => exact (closeStep_past c.slot s h).2
  | create i =>
    obtain ⟨hi, hpast, hdead⟩ := h
    obtain ⟨hkernel, hpast'⟩ := closeStep_past c.slot s hpast
    unfold Clean
    rw [hkernel]
    exact ⟨hi, hpast', hdead⟩
  | mark i =>
    obtain ⟨hi, hstanding | hlost⟩ := h
    -- the link is not counted yet, so the close may still destroy the queue
    · by_cases hdestroy : closer = .destroy
      · subst hdestroy
        obtain ⟨hstep, hkernel⟩ := hstanding.destroyed
        unfold Clean
        rw [hstep, hkernel]
        exact ⟨hi, .inr (lost_withoutMQ _ _)⟩
      · exact ⟨hi, .inl (hstanding.close (Nat.zero_le 1) (fun heq => absurd heq hdestroy))⟩
    · exact ⟨hi, .inr hlost.close⟩
  -- from here on it may not
  | add i =>
    exact Placed.close h (Nat.zero_le 1) (fun heq => absurd rfl (hapart heq i 0).1)
  | link i fd =>
    obtain ⟨hplaced, hreg⟩ := h
    exact ⟨hplaced.close (Nat.zero_le 1) (fun heq => absurd rfl (hapart heq i fd).2),
      registered_close hreg⟩
  | undo => trivial
  | unlock result | done result =>
    rcases h with hfailed | ⟨i, fd, hresult, hreg, hplaced⟩
    · exact .inl hfailed
    · exact .inr ⟨i, fd, hresult, registered_close hreg,
        hplaced.close (Nat.le_refl 1) (fun _ => rfl)⟩

/-- The close comes to its `destroyMQ` at the wrong time. -/
theorem Clean.spoil (h : c.Clean s.kernel .destroy opener)
    (hbetween : ∃ i fd, opener = .add i ∨ opener = .link i fd) :
    c.Spoiled (closeStep c.slot s .destroy).1.kernel (closeStep c.slot s .destroy).2 opener := by
  have hdestroyed : ∀ i, c.Placed s.kernel .destroy i 0 → i = c.slot ∧
      c.Lost (closeStep c.slot s .destroy).1.kernel (closeStep c.slot s .destroy).2 := by
    intro i h
    obtain ⟨-, ⟨hslot, hstanding⟩ | ⟨hpast, -⟩⟩ := h
    · obtain ⟨hstep, hkernel⟩ := hstanding.destroyed
      rw [hstep, hkernel]
      exact ⟨hslot, lost_withoutMQ _ _⟩
    · exact hpast.elim
  obtain ⟨i, fd, rfl | rfl⟩ := hbetween
  · exact hdestroyed i h
  · obtain ⟨hslot, hlost⟩ := hdestroyed i h.1
    exact ⟨hslot, hlost, registered_close h.2⟩

theorem Spoiled.close (h : c.Spoiled s.kernel closer opener) :
    c.Spoiled (closeStep c.slot s closer).1.kernel (closeStep c.slot s closer).2 opener := by
  cases opener with
  | check | lock | lookup | search | create | mark => exact h
  | add i => exact ⟨h.1, h.2.close⟩
  | link i fd => exact ⟨h.1, h.2.1.close, registered_close h.2.2⟩
  | undo => trivial
  | unlock result | done result =>
    rcases h with hfailed | ⟨hlost, fd, hresult, hreg⟩
    · exact .inl hfailed
    · exact .inr ⟨hlost.close, fd, hresult, registered_close hreg⟩

/-! ### The open keeps what holds -/

theorem addFile_index {p p' : Pcb} {PCBIndex : UInt64} {index flags : UInt32}
    {fileType : FileType} {fd : Nat}
    (h : p.addFile PCBIndex index fileType flags = (some fd, p')) :
    ((p'.process PCBIndex).fileDescriptors.entries fd).index = index := by
  unfold Pcb.addFile at h
  split at h
  · cases h
  · simp only at h
    split at h
    · cases h
    · obtain ⟨hfd, rfl⟩ := Prod.mk.inj h
      obtain rfl := Option.some.inj hfd
      simp [Pcb.process, Pcb.modifyProcess, FileDescriptorsMap.insert]

/-- The open counts its link. -/
theorem Placed.link (h : c.Placed k closer i 0) : c.Placed
    (k.setMQ i { k.mqs i with links := (k.mqs i).links + 1 }) closer i 1 := by
  have hslot : ∀ q, (k.setMQ i q).mqs i = q := fun q => Function.update_self _ _ _
  have hsucc : (k.mqs i).links.toNat ≤ 1 →
      ((k.mqs i).links + 1).toNat = (k.mqs i).links.toNat + 1 :=
    fun hle => Word.uint64_toNat_succ (by omega)
  obtain ⟨hi, ⟨rfl, hstanding⟩ | ⟨hpast, hlive, hname, hlinks⟩⟩ := h
  · refine ⟨hi, .inl ⟨rfl, hstanding.setMQ rfl ?_⟩⟩
    have hcounts := hstanding.2.2
    show closer.Counts ((k.mqs c.slot).links + 1).toNat 1
    -- until it is gone the closing end counts as well
    cases closer with
    | lock | test | clear | unlink =>
      have hone : (k.mqs c.slot).links.toNat = 1 := hcounts
      show ((k.mqs c.slot).links + 1).toNat = 2
      rw [hsucc (by omega), hone]
    | destroy =>
      have hzero : (k.mqs c.slot).links.toNat = 0 := hcounts
      show ((k.mqs c.slot).links + 1).toNat = 1
      rw [hsucc (by omega), hzero]
    | unlock | done =>
      have hone : 1 ≤ (k.mqs c.slot).links.toNat ∧ (k.mqs c.slot).links.toNat ≤ 1 := hcounts
      show 1 ≤ ((k.mqs c.slot).links + 1).toNat ∧ ((k.mqs c.slot).links + 1).toNat ≤ 2
      rw [hsucc hone.2]
      omega
  · refine ⟨hi, .inr ⟨hpast, ?_, ?_, ?_⟩⟩
    · unfold Live
      rw [hslot]
      exact hlive
    · unfold nameOf
      rw [hslot]
      exact hname
    · rw [hslot]
      show ((k.mqs i).links + 1).toNat = 1
      rw [hsucc (by omega), hlinks]

/-- A new queue is placed. -/
theorem placed_withMQ (hi : i < MAX_MQS) (hpast : closer.Past) :
    c.Placed (k.withMQ i c.name c.accessFlags) closer i 0 := by
  have hslot : (k.withMQ i c.name c.accessFlags).mqs i =
      (MessageQueue.unused (some k.files.firstFree)).marked k.getCurrentPID c.accessFlags :=
    Function.update_self _ _ _
  refine ⟨hi, .inr ⟨hpast, ?_, ?_, ?_⟩⟩
  · unfold Live
    rw [hslot, MessageQueue.marked_file]
    exact Option.some_ne_none _
  · unfold nameOf
    rw [hslot, MessageQueue.marked_file]
    show ((k.files.setEntry k.files.firstFree _).filesTable k.files.firstFree).name = c.name
    rw [FilesTable.setEntry_self]
    rfl
  · rw [hslot, MessageQueue.marked_links]
    rfl

theorem Clean.create (hi : i < MAX_MQS) (hpast : closer.Past) (hdead : ¬ s.kernel.Live i) :
    c.Clean (openStep c.name c.accessFlags s (.create i)).1.kernel closer
      (openStep c.name c.accessFlags s (.create i)).2 := by
  have hfile : (s.kernel.mqs i).file = none := not_not.mp hdead
  by_cases hmode : c.accessFlags &&& F_READ = 0 ∧ c.accessFlags &&& F_WRITE = 0
  · have hnew : s.kernel.newMQ c.name i c.accessFlags = (-1, s.kernel) := by
      simp only [newMQ, if_pos (Or.inr hmode)]
    simp only [openStep, hnew, if_true]
    exact .inl rfl
  -- `newMQ` places the queue, or fails and the open fails with it
  have hnew := @newMQ_eq s.kernel c.name c.accessFlags i hfile hmode
  by_cases hcan : s.kernel.CanCreateFile c.name
  · rw [if_pos hcan] at hnew
    have hcode : ¬ (1 : Int) = -1 := by decide
    simp only [openStep, hnew, if_neg hcode]
    exact placed_withMQ hi hpast
  · rw [if_neg hcan] at hnew
    simp only [openStep, hnew, if_true]
    exact .inl rfl

theorem Clean.mark (h : c.Standing s.kernel closer 0 ∨ c.Lost s.kernel closer)
    (hlt : c.slot < MAX_MQS) :
    c.Clean (openStep c.name c.accessFlags s (.mark c.slot)).1.kernel closer
      (openStep c.name c.accessFlags s (.mark c.slot)).2 := by
  rcases h with hstanding | ⟨-, hdead⟩
  · have hmark := @markAccess_eq s.kernel c.accessFlags c.slot s.kernel.getCurrentPID
      hstanding.1
    by_cases havail : (s.kernel.mqs c.slot).Available c.accessFlags
    · rw [if_pos havail] at hmark
      have hcode : ¬ (1 : Int) = -1 := by decide
      simp only [openStep, hmark, if_neg hcode]
      refine ⟨hlt, .inl ⟨rfl, hstanding.setMQ (MessageQueue.marked_file _ _ _) ?_⟩⟩
      rw [MessageQueue.marked_links]
      exact hstanding.2.2
    · rw [if_neg havail] at hmark
      simp only [openStep, hmark, if_true]
      exact .inl rfl
  · -- the file is gone, and `markAccess` sees it
    have hfile : (s.kernel.mqs c.slot).file = none := not_not.mp hdead
    have hmark : s.kernel.markAccess c.slot s.kernel.getCurrentPID c.accessFlags =
        (-1, s.kernel) := by
      simp only [markAccess, hfile, if_true]
    simp only [openStep, hmark, if_true]
    exact .inl rfl

theorem Clean.opened (h : c.Clean s.kernel closer opener) (hlt : c.slot < MAX_MQS)
    (hcur : s.kernel.sched.getCurrentPCBIndex = c.openerIndex) :
    c.Clean (openStep c.name c.accessFlags s opener).1.kernel closer
      (openStep c.name c.accessFlags s opener).2 := by
  cases opener with
  | check =>
    simp only [openStep]
    split
    · exact .inl rfl
    · exact h
  | lock =>
    simp only [openStep]
    split <;> exact h
  -- the queue that is found is the one that the close has not destroyed
  | lookup =>
    obtain ⟨hslots, hwhere⟩ := h
    cases hindex : s.kernel.indexOfMQ c.name with
    | none =>
      simp only [openStep, hindex]
      rcases hwhere with ⟨hlive, hname, -⟩ | ⟨hpast, -⟩
      · have hfound := (hslots.indexOfMQ_iff c.name c.slot).mpr ⟨hlt, hlive, hname⟩
        rw [hindex] at hfound
        cases hfound
      · exact hpast
    | some i =>
      simp only [openStep, hindex]
      obtain ⟨hi, hlive, hname⟩ := indexOfMQ_some hindex
      rcases hwhere with hstanding | ⟨-, hnone⟩
      · obtain rfl := hslots.nameOf_eq hi hlt hlive hstanding.1 (hname.trans hstanding.2.1.symm)
        exact ⟨rfl, .inl hstanding⟩
      · exact absurd hname (hnone i hi hlive)
  -- a free slot is none that the close works on
  | search =>
    cases hslot : s.kernel.findFreeSlot with
    | none =>
      simp only [openStep, hslot]
      exact .inl rfl
    | some i =>
      simp only [openStep, hslot]
      obtain ⟨hi, hfile⟩ := findFreeSlot_some hslot
      exact ⟨hi, h, not_not.mpr hfile⟩
  | create i => exact Clean.create h.1 h.2.1 h.2.2
  | mark i =>
    obtain ⟨rfl, hwhere⟩ := h
    exact Clean.mark hwhere hlt
  | add i =>
    rcases hadd : s.kernel.pcb.addFile s.kernel.sched.getCurrentPCBIndex (UInt32.ofNat i)
      .MESSAGE_QUEUE c.accessFlags with ⟨_ | fd, pcb⟩
    · simp only [openStep, hadd]
      trivial
    · simp only [openStep, hadd]
      have hreg := addFile_index hadd
      rw [hcur] at hreg
      exact ⟨h, hreg⟩
  | link i fd => exact .inr ⟨i, fd, rfl, h.2, h.1.link⟩
  | undo i closing =>
    cases closing with
    | done result => exact .inl rfl
    | lock | test | clear | unlink | destroy | unlock => trivial
  | unlock result => exact h
  | done result => exact h

theorem Spoiled.opened (h : c.Spoiled s.kernel closer opener)
    (hcur : s.kernel.sched.getCurrentPCBIndex = c.openerIndex) :
    c.Spoiled (openStep c.name c.accessFlags s opener).1.kernel closer
      (openStep c.name c.accessFlags s opener).2 := by
  cases opener with
  | check | lock | lookup | search | create | mark => exact h.elim
  | add i =>
    rcases hadd : s.kernel.pcb.addFile s.kernel.sched.getCurrentPCBIndex (UInt32.ofNat i)
      .MESSAGE_QUEUE c.accessFlags with ⟨_ | fd, pcb⟩
    · simp only [openStep, hadd]
      trivial
    · simp only [openStep, hadd]
      have hreg := addFile_index hadd
      rw [hcur] at hreg
      exact ⟨h.1, h.2, hreg⟩
  | link i fd =>
    obtain ⟨rfl, ⟨hpast, hdead⟩, hreg⟩ := h
    refine .inr ⟨⟨hpast, ?_⟩, fd, rfl, hreg⟩
    -- a link is counted in a slot without a file
    show ¬ ((Function.update s.kernel.mqs c.slot _) c.slot).file ≠ none
    rw [Function.update_self]
    exact hdead
  | undo i closing =>
    cases closing with
    | done result => exact .inl rfl
    | lock | test | clear | unlink | destroy | unlock => trivial
  | unlock result => exact h
  | done result => exact h

/-! ### Preemption keeps what holds -/

theorem registered_preempt {t : Tasks} {fd : Nat} (h : c.Registered k i fd)
    (hpre : Preempted k.toTasks t) : c.Registered { k with toTasks := t } i fd := by
  unfold Registered Pcb.process at h ⊢
  rw [← h]
  show ((t.pcb.entries _).fileDescriptors.entries fd).index = _
  rw [hpre.fileDescriptors]

theorem Clean.preempt {t : Tasks} (h : c.Clean k closer opener)
    (hpre : Preempted k.toTasks t) : c.Clean { k with toTasks := t } closer opener := by
  cases opener with
  | check | lock | lookup | search | create | mark | add => exact h
  | link i fd => exact ⟨h.1, registered_preempt h.2 hpre⟩
  | undo => trivial
  | unlock result | done result =>
    rcases h with hfailed | ⟨i, fd, hresult, hreg, hplaced⟩
    · exact .inl hfailed
    · exact .inr ⟨i, fd, hresult, registered_preempt hreg hpre, hplaced⟩

theorem Spoiled.preempt {t : Tasks} (h : c.Spoiled k closer opener)
    (hpre : Preempted k.toTasks t) : c.Spoiled { k with toTasks := t } closer opener := by
  cases opener with
  | check | lock | lookup | search | create | mark => exact h.elim
  | add => exact h
  | link i fd => exact ⟨h.1, h.2.1, registered_preempt h.2.2 hpre⟩
  | undo => trivial
  | unlock result | done result =>
    rcases h with hfailed | ⟨hlost, fd, hresult, hreg⟩
    · exact .inl hfailed
    · exact .inr ⟨hlost, fd, hresult, registered_preempt hreg hpre⟩

/-! ### Several steps in a row -/

theorem markAccess_sched (k : Kernel) (i : Nat) (pid : UInt64) (accessFlags : UInt32) :
    (k.markAccess i pid accessFlags).2.sched = k.sched := by
  unfold markAccess
  simp only
  split_ifs <;> rfl

theorem newMQ_sched (k : Kernel) (name : CString) (i : Nat) (accessFlags : UInt32) :
    (k.newMQ name i accessFlags).2.sched = k.sched := by
  unfold newMQ
  split
  · rfl
  rcases k.files.createBasicFileWithName k.pages (some name) with ⟨_ | file, files, pages⟩
  · rfl
  · have hpid : ({ k with files := files, pages := pages } : Kernel).getCurrentPID =
        k.getCurrentPID := rfl
    simp only [hpid]
    have hmark := markAccess_sched (({ k with files := files, pages := pages } : Kernel).setMQ i
      ⟨some file, 0, -1, -1⟩) i k.getCurrentPID accessFlags
    rcases hresult : (({ k with files := files, pages := pages } : Kernel).setMQ i
      ⟨some file, 0, -1, -1⟩).markAccess i k.getCurrentPID accessFlags with ⟨code, k'⟩
    rw [hresult] at hmark
    simp only
    split
    · exact hmark
    · exact hmark

/-- An open does not touch the scheduler. -/
theorem openStep_sched (s : Queues) (opener : Opening) :
    (openStep c.name c.accessFlags s opener).1.kernel.sched = s.kernel.sched := by
  cases opener with
  | check | lock =>
    simp only [openStep]
    split <;> rfl
  | lookup | search | add =>
    simp only [openStep]
    split <;> rfl
  | create i => exact newMQ_sched _ _ _ _
  | mark i => exact markAccess_sched _ _ _ _
  | undo i closing =>
    by_cases hdone : ∃ result, closing = .done result
    · obtain ⟨result, rfl⟩ := hdone
      rfl
    · rw [openStep_undo i s (fun result heq => hdone ⟨result, heq⟩)]
      exact (closeStep_frame i s closing).2
  | link | unlock | done => rfl

/-- A party that has the turn takes several steps. -/
theorem race_openSteps (n : Nat) {sys : System Race Move} {s : Race}
    (hsys : ∀ s s', c.race.step s .opener s' → sys.step s .opener s') (h : sys.Reachable s)
    (hcur : s.kernel.sched.getCurrentPCBIndex = c.openerIndex) :
    sys.Reachable { s with
      toQueues := (openSteps c.name c.accessFlags n (s.toQueues, s.opener)).1
      opener := (openSteps c.name c.accessFlags n (s.toQueues, s.opener)).2 } := by
  induction n generalizing s with
  | zero => exact h
  | succ n ih =>
    have hstep : sys.Reachable _ := .step .opener h (hsys s _ ⟨hcur, rfl⟩)
    exact ih hstep (by rw [openStep_sched]; exact hcur)

theorem race_closeSteps (n : Nat) {s : Race} (h : c.race.Reachable s)
    (hcur : s.kernel.sched.getCurrentPCBIndex = c.closerIndex) :
    c.race.Reachable { s with
      toQueues := (closeSteps c.slot n (s.toQueues, s.closer)).1
      closer := (closeSteps c.slot n (s.toQueues, s.closer)).2 } := by
  induction n generalizing s with
  | zero => exact h
  | succ n ih =>
    have hstep : c.race.Reachable _ := .step .closer h ⟨hcur, rfl⟩
    exact ih hstep (by rw [(closeStep_frame c.slot _ _).2]; exact hcur)

/-- The open comes as far as its mark. -/
theorem Start.marks {s : Race} (hstart : c.Start s)
    (hmode : ¬ (c.accessFlags &&& F_READ = 0 ∧ c.accessFlags &&& F_WRITE = 0))
    (havail : (s.kernel.mqs c.slot).Available c.accessFlags) :
    openSteps c.name c.accessFlags 4 (s.toQueues, s.opener) =
      (⟨s.kernel.setMQ c.slot
        ((s.kernel.mqs c.slot).marked s.kernel.getCurrentPID c.accessFlags), 1, 0⟩,
        .add c.slot) := by
  have hindex := (hstart.slots.indexOfMQ_iff c.name c.slot).mpr
    ⟨hstart.lt, hstart.live, hstart.name⟩
  have hmark := @markAccess_eq s.kernel c.accessFlags c.slot s.kernel.getCurrentPID hstart.live
  rw [if_pos havail] at hmark
  have hfree : ¬ s.openMutex = 1 := by
    rw [hstart.openMutex]
    decide
  have hcode : ¬ (1 : Int) = -1 := by decide
  rw [hstart.opener, ← hstart.closeMutex]
  simp only [openSteps_succ, openStep, if_neg hmode, if_neg hfree, hindex, hmark, if_neg hcode]
  rfl

/-- With room for a descriptor, the open comes to its end. -/
theorem openSteps_add {closeMutex : UInt8} (hno : ¬ k.NoDescriptor) : ∃ (fd : Nat) (pcb : Pcb),
    openSteps c.name c.accessFlags 3 (⟨k, 1, closeMutex⟩, .add i) =
      (⟨({ k with pcb := pcb } : Kernel).setMQ i
        { k.mqs i with links := (k.mqs i).links + 1 }, 0, closeMutex⟩, .done fd) ∧
    ((pcb.process k.sched.getCurrentPCBIndex).fileDescriptors.entries fd).index =
      UInt32.ofNat i := by
  rcases hadd : k.pcb.addFile k.sched.getCurrentPCBIndex (UInt32.ofNat i)
    .MESSAGE_QUEUE c.accessFlags with ⟨_ | fd, pcb⟩
  · exact absurd (Pcb.addFile_eq_none_iff.mp (congrArg Prod.fst hadd)) hno
  · refine ⟨fd, pcb, ?_, addFile_index hadd⟩
    simp only [openSteps_succ, openStep, hadd]
    rfl

/-! ### The two processes -/

/-- The second process opens the other end of the queue that the first one closes. -/
theorem start_of_company {k : Kernel} {r w : UInt64} (h : Company k r w i) :
    Start ⟨queueName 0, F_WRITE, i, w, r⟩ ⟨⟨k, 0, 0⟩, .check, .lock⟩ := by
  obtain ⟨hinv, hledger⟩ := ledger h.reachable
  have hends := LedgerInv.isOpen hledger i h.lt h.live
  have hlinks := LedgerInv.links hledger i h.lt h.live
  -- somebody has an end open, and it is the reading one
  have hpid : k.pcb.getProcessPID r ≠ -1 := by
    intro heq
    simp [MessageQueue.ends, h.readPID, h.writePID, heq] at hends
  have hone : (k.mqs i).links = 1 := by
    rw [← UInt64.toNat_inj, hlinks]
    simp [MessageQueue.ends, h.readPID, h.writePID, hpid]
  exact ⟨rfl, rfl, rfl, rfl, hinv.slots, h.lt, h.live, h.name, hone,
    .inl ⟨h.readPID, h.writePID⟩, hpid, h.pids⟩

/-! ### Runs -/

theorem clean_step {s s' : Race} (move : Move) (hlt : c.slot < MAX_MQS)
    (h : c.Clean s.kernel s.closer s.opener) (hapart : c.Apart s move)
    (hstep : c.race.step s move s') : c.Clean s'.kernel s'.closer s'.opener := by
  cases move with
  | opener =>
    obtain ⟨hcur, rfl⟩ := hstep
    exact Clean.opened h hlt hcur
  | closer =>
    obtain ⟨-, rfl⟩ := hstep
    exact Clean.close h hlt hapart
  | preempt =>
    obtain ⟨t, hpre, rfl⟩ := hstep
    exact Clean.preempt h hpre

theorem spoiled_step {s s' : Race} (move : Move) (h : c.Spoiled s.kernel s.closer s.opener)
    (hstep : c.race.step s move s') : c.Spoiled s'.kernel s'.closer s'.opener := by
  cases move with
  | opener =>
    obtain ⟨hcur, rfl⟩ := hstep
    exact Spoiled.opened h hcur
  | closer =>
    obtain ⟨-, rfl⟩ := hstep
    exact Spoiled.close h
  | preempt =>
    obtain ⟨t, hpre, rfl⟩ := hstep
    exact Spoiled.preempt h hpre

theorem clean_reachable {s : Race} (h : (c.race.restrict c.Apart).Reachable s) :
    c.slot < MAX_MQS ∧ c.Clean s.kernel s.closer s.opener := by
  apply h.invariant (fun s => c.slot < MAX_MQS ∧ c.Clean s.kernel s.closer s.opener)
  · intro s hstart
    have hlinks : (s.kernel.mqs c.slot).links.toNat = 1 := by
      rw [hstart.links]
      rfl
    refine ⟨hstart.lt, ?_⟩
    rw [hstart.opener, hstart.closer]
    exact ⟨hstart.slots, .inl ⟨hstart.live, hstart.name, hlinks⟩⟩
  · rintro s move s' ⟨hlt, hclean⟩ ⟨hapart, hstep⟩
    exact ⟨hlt, clean_step move hlt hclean hapart hstep⟩

/-- A run in which the two did not keep apart is spoiled. -/
theorem apart_or_spoiled {s : Race} (h : c.race.Reachable s) :
    (c.race.restrict c.Apart).Reachable s ∨ c.Spoiled s.kernel s.closer s.opener := by
  induction h with
  | init hi => exact .inl (.init hi)
  | @step s s' move _ hstep ih =>
    rcases ih with hreach | hspoiled
    · by_cases hapart : c.Apart s move
      · exact .inl (.step move hreach ⟨hapart, hstep⟩)
      · right
        cases move with
        -- only the close can come at the wrong time
        | opener | preempt => exact absurd trivial hapart
        | closer =>
          obtain ⟨-, rfl⟩ := hstep
          obtain ⟨hdestroy, i, fd, hbetween⟩ : s.closer = .destroy ∧
              ∃ i fd, ¬ (s.opener ≠ .add i ∧ s.opener ≠ .link i fd) := by
            simpa only [Apart, Classical.not_imp, not_forall] using hapart
          have hclean := (clean_reachable hreach).2
          rw [hdestroy] at hclean
          show c.Spoiled (closeStep c.slot s.toQueues s.closer).1.kernel
            (closeStep c.slot s.toQueues s.closer).2 s.opener
          rw [hdestroy]
          refine hclean.spoil ⟨i, fd, ?_⟩
          by_contra hneither
          exact hbetween (not_or.mp hneither)
    · exact .inr (spoiled_step move hspoiled hstep)

/-- An open that returned a descriptor has a queue behind it exactly when the close did
    not come to its `destroyMQ` between `markAccess` and `links++`. -/
theorem good_iff_apart {s : Race} {fd : Nat} (h : c.race.Reachable s)
    (hdone : s.opener = .done fd) :
    c.Good s fd ↔ (c.race.restrict c.Apart).Reachable s := by
  have hfd : ∀ fd' : Nat, (fd : Int) = fd' → fd = fd' := fun fd' heq => Int.ofNat.inj heq
  have hnonneg : (fd : Int) ≠ -1 := by omega
  constructor
  -- a spoiled run leaves the descriptor with a destroyed queue
  · intro hgood
    rcases apart_or_spoiled h with hreach | hspoiled
    · exact hreach
    · rw [hdone] at hspoiled
      rcases hspoiled with hfailed | ⟨⟨-, hdead⟩, fd', heq, hreg⟩
      · exact absurd hfailed hnonneg
      · obtain rfl := hfd fd' heq
        have hlt : c.slot < MAX_MQS :=
          h.invariant (fun _ => c.slot < MAX_MQS) (fun s (hs : c.Start s) => hs.lt)
            (fun _ _ _ hlt _ => hlt)
        unfold Registered at hreg
        unfold Good at hgood
        simp only [hreg, toNat_ofNat_slot hlt] at hgood
        exact absurd hgood.1 hdead
  -- in the other runs the queue stands, at the old slot or at a new one
  · intro hreach
    obtain ⟨-, hclean⟩ := clean_reachable hreach
    rw [hdone] at hclean
    rcases hclean with hfailed | ⟨i, fd', heq, hreg, hi, hplaced⟩
    · exact absurd hfailed hnonneg
    · obtain rfl := hfd fd' heq
      unfold Registered at hreg
      unfold Good
      simp only [hreg, toNat_ofNat_slot hi]
      rcases hplaced with ⟨rfl, hlive, hname, hcounts⟩ | ⟨-, hlive, hname, hlinks⟩
      · refine ⟨hlive, hname, ?_⟩
        generalize s.closer = closer at hcounts
        cases closer with
        | lock | test | clear | unlink =>
          have htwo : (s.kernel.mqs c.slot).links.toNat = 2 := hcounts
          omega
        | destroy =>
          have hone : (s.kernel.mqs c.slot).links.toNat = 1 := hcounts
          omega
        | unlock | done => exact hcounts.1
      · exact ⟨hlive, hname, by omega⟩

/-- The open goes on to its end before the close begins. -/
theorem good_iff_apart_open_first : ∃ (c : Contest) (s : Race) (fd : Nat),
    c.race.Reachable s ∧ s.opener = .done fd ∧ c.Good s fd := by
  obtain ⟨k, r, w, i, h⟩ := company
  have hstart := start_of_company h
  have hmode : ¬ (F_WRITE &&& F_READ = 0 ∧ F_WRITE &&& F_WRITE = 0) := by decide
  obtain ⟨c, hc⟩ : ∃ c : Contest, c = ⟨queueName 0, F_WRITE, i, w, r⟩ := ⟨_, rfl⟩
  have hinit : (c.race.restrict c.Apart).Reachable ⟨⟨k, 0, 0⟩, .check, .lock⟩ :=
    .init (hc ▸ hstart)
  have hcur : k.sched.getCurrentPCBIndex = c.openerIndex := by
    rw [hc]
    exact h.turn
  have hmarks := (hc ▸ hstart : c.Start _).marks (by rw [hc]; exact hmode)
    (by rw [hc]; exact h.available)
  have hapart : ∀ s s', c.race.step s .opener s' →
      (c.race.restrict c.Apart).step s .opener s' := fun _ _ hstep => ⟨trivial, hstep⟩
  have hreach₁ := race_openSteps 4 hapart hinit hcur
  rw [hmarks] at hreach₁
  have hreach₂ := race_openSteps 3 hapart hreach₁ hcur
  obtain ⟨fd, pcb, hend, -⟩ := @openSteps_add c (k.setMQ c.slot
    ((k.mqs c.slot).marked k.getCurrentPID c.accessFlags)) c.slot 0 h.room
  rw [hend] at hreach₂
  have hreach := System.Reachable.of_restrict hreach₂
  exact ⟨c, _, fd, hreach, rfl, (good_iff_apart hreach rfl).mpr hreach₂⟩

/-! ### A race that is lost -/

/-- Marking one end does not hide the other one's holder. -/
theorem marked_holder {q : MessageQueue} {pid p : UInt64} {accessFlags : UInt32}
    (hholder : (q.readPID = p ∧ q.writePID = -1) ∨ (q.readPID = -1 ∧ q.writePID = p))
    (hp : p ≠ -1) (havail : q.Available accessFlags) :
    (q.marked pid accessFlags).readPID = p ∨ (q.marked pid accessFlags).writePID = p := by
  unfold MessageQueue.Available at havail
  unfold MessageQueue.marked
  by_cases hread : accessFlags &&& F_READ ≠ 0
  · rw [if_pos hread] at havail ⊢
    rcases hholder with ⟨hr, -⟩ | ⟨-, hw⟩
    · exact absurd (hr.symm.trans havail) hp
    · exact .inr hw
  · rw [if_neg hread] at havail ⊢
    rcases hholder with ⟨hr, -⟩ | ⟨-, hw⟩
    · exact .inl hr
    · exact absurd (hw.symm.trans havail.2) hp

/-- The open marks the queue, the close runs from its first step to its last, the open
    goes on: it returns a descriptor of a slot without a file. -/
theorem Start.lost {s : Race} (hstart : c.Start s)
    (hcur : s.kernel.sched.getCurrentPCBIndex = c.openerIndex)
    (hmode : ¬ (c.accessFlags &&& F_READ = 0 ∧ c.accessFlags &&& F_WRITE = 0))
    (havail : (s.kernel.mqs c.slot).Available c.accessFlags) (hno : ¬ s.kernel.NoDescriptor)
    {sched : Scheduler} (hturn : sched.getCurrentPCBIndex = c.closerIndex) :
    ∃ (s' : Race) (fd : Nat) (result : Int), c.race.Reachable s' ∧ s'.opener = .done fd ∧
      s'.closer = .done result ∧ ¬ c.Good s' fd := by
  have hreach : c.race.Reachable s := .init hstart
  have hopen := hstart.marks hmode havail
  obtain ⟨k₁, hk₁⟩ : ∃ k₁, k₁ = s.kernel.setMQ c.slot
      ((s.kernel.mqs c.slot).marked s.kernel.getCurrentPID c.accessFlags) := ⟨_, rfl⟩
  rw [← hk₁] at hopen
  have hreach₁ := race_openSteps 4 (fun _ _ hstep => hstep) hreach hcur
  rw [hopen] at hreach₁
  -- the close, from its first step to its last
  obtain ⟨k₂, hk₂⟩ : ∃ k₂, k₂ = { k₁ with sched := sched } := ⟨_, rfl⟩
  have hreach₂ : c.race.Reachable { s with
      toQueues := ⟨k₂, 1, 0⟩, opener := .add c.slot } := by
    refine .step .preempt hreach₁ ⟨{ k₁.toTasks with sched := sched }, ?_, by rw [hk₂]⟩
    exact ⟨rfl, rfl, rfl, rfl, rfl, fun i => ⟨_, rfl⟩⟩
  have hclose := closeSteps_MQclose (s := ⟨k₂, 1, 0⟩) c.slot rfl
  have hreach₃ := race_closeSteps 6 hreach₂ (by rw [hk₂]; exact hturn)
  simp only [hstart.closer] at hreach₃
  rw [hclose] at hreach₃
  have hslot : k₂.mqs c.slot =
      (s.kernel.mqs c.slot).marked s.kernel.getCurrentPID c.accessFlags := by
    rw [hk₂, hk₁]
    exact Function.update_self _ _ _
  have hpid : k₂.getCurrentPID = s.kernel.pcb.getProcessPID c.closerIndex := by
    rw [hk₂, hk₁, ← hturn]
    rfl
  have hdestroy : (k₂.MQclose c.slot).2.pcb = s.kernel.pcb ∧
      ((k₂.MQclose c.slot).2.mqs c.slot).file = none := by
    have hmine := @marked_holder _ s.kernel.getCurrentPID _ _ hstart.holder
      hstart.closerPID havail
    have hfile : (s.kernel.mqs c.slot).file ≠ none := hstart.live
    have hopened : ¬ ((k₂.mqs c.slot).file = none ∨
        ((k₂.mqs c.slot).readPID ≠ k₂.getCurrentPID ∧
          (k₂.mqs c.slot).writePID ≠ k₂.getCurrentPID)) := by
      rw [hslot, hpid, MessageQueue.marked_file]
      intro h
      rcases h with hnone | ⟨hr, hw⟩
      · exact hfile hnone
      · exact hmine.elim hr hw
    have hlast : ((k₂.mqs c.slot).unmarked k₂.getCurrentPID).links = 0 := by
      rw [hslot]
      simp only [MessageQueue.unmarked, MessageQueue.marked_links, hstart.links]
      decide
    rw [MQclose_eq, if_neg hopened, if_pos hlast]
    refine ⟨by rw [hk₂, hk₁]; rfl, ?_⟩
    show (Function.update k₂.mqs c.slot _ c.slot).file = none
    rw [Function.update_self]
  -- the open, from there on
  obtain ⟨k₄, hk₄⟩ : ∃ k₄, k₄ = { (k₂.MQclose c.slot).2 with sched := s.kernel.sched } :=
    ⟨_, rfl⟩
  have hreach₄ : c.race.Reachable
      ⟨⟨k₄, 1, 0⟩, .add c.slot, .done (k₂.MQclose c.slot).1⟩ := by
    refine .step .preempt hreach₃
      ⟨{ (k₂.MQclose c.slot).2.toTasks with sched := s.kernel.sched }, ?_, by rw [hk₄]⟩
    exact ⟨rfl, rfl, rfl, rfl, rfl, fun i => ⟨_, rfl⟩⟩
  have hreach₅ := race_openSteps 3 (fun _ _ hstep => hstep) hreach₄ (by rw [hk₄]; exact hcur)
  have hno₄ : ¬ k₄.NoDescriptor := by
    have hpcb : k₄.pcb = s.kernel.pcb := by
      rw [hk₄]
      exact hdestroy.1
    unfold NoDescriptor
    rw [hpcb, hk₄]
    exact hno
  have hdead : (k₄.mqs c.slot).file = none := by
    rw [hk₄]
    exact hdestroy.2
  obtain ⟨fd, pcb, hend, hindex⟩ := @openSteps_add c k₄ c.slot 0 hno₄
  rw [hend] at hreach₅
  refine ⟨_, fd, _, hreach₅, rfl, rfl, ?_⟩
  intro h
  obtain ⟨hlive, -⟩ := h
  apply hlive
  have hturn₄ : k₄.sched.getCurrentPCBIndex = c.openerIndex := by
    rw [hk₄]
    exact hcur
  rw [hturn₄] at hindex
  show ((Function.update k₄.mqs c.slot _)
    ((pcb.process c.openerIndex).fileDescriptors.entries fd).index.toNat).file = none
  rw [hindex, toNat_ofNat_slot hstart.lt, Function.update_self]
  exact hdead

/-- The second process opens what the first one closes, and gets a descriptor of nothing. -/
theorem open_against_close_lost : ¬ ∀ (c : Contest) (s : Race) (fd : Nat) (result : Int),
    c.race.Reachable s → s.opener = .done fd → s.closer = .done result → c.Good s fd := by
  intro hclaim
  obtain ⟨k, r, w, i, h⟩ := company
  have hstart := start_of_company h
  obtain ⟨sched, hturn⟩ := h.otherTurn
  obtain ⟨s, fd, result, hreach, hopen, hclose, hbad⟩ :=
    hstart.lost h.turn (show ¬ (F_WRITE &&& F_READ = 0 ∧ F_WRITE &&& F_WRITE = 0) by decide)
      h.available h.room hturn
  exact hbad (hclaim _ s fd result hreach hopen hclose)

end Contest

end TP2Kernel
