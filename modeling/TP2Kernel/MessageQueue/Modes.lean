import TP2Kernel.MessageQueue.Links

/-! # The ledger of modes

    A descriptor carries the mode it was opened with, and the slot of a queue has one pid
    for each mode.  `ModesInv` says that every pid stands for one descriptor of its mode.
-/

namespace TP2Kernel

open Transition Scheduler FileDescriptorsMap

/-! ### Modes -/

inductive AccessMode where
  | read
  | write
  deriving DecidableEq

namespace AccessMode

def flag : AccessMode → UInt32
  | read => F_READ
  | write => F_WRITE

def other : AccessMode → AccessMode
  | read => write
  | write => read

theorem eq_other_of_ne {m mode : AccessMode} (h : m ≠ mode) : m = mode.other := by
  cases m <;> cases mode <;> first | rfl | exact absurd rfl h

end AccessMode

/-- The pid of the process that has the queue open in that mode. -/
def MessageQueue.pidOf (q : MessageQueue) : AccessMode → UInt64
  | .read => q.readPID
  | .write => q.writePID

/-- The flags ask for `mode` and for no other. -/
def Asks (flags : UInt32) (mode : AccessMode) : Prop :=
  ∀ m : AccessMode, flags &&& m.flag ≠ 0 ↔ m = mode

/-- Exactly one of `F_READ` and `F_WRITE` is set. -/
def OneMode (flags : UInt32) : Prop := ∃ mode, Asks flags mode

theorem asks_flag (mode : AccessMode) : Asks mode.flag mode := by
  intro m
  cases m <;> cases mode <;> decide

/-- The entry is a descriptor of a message queue. -/
def IsQueue (e : FileDescriptorMapEntry) : Prop :=
  e.occupied ≠ 0 ∧ e.fileType = FileType.MESSAGE_QUEUE.code

/-- The entry is a descriptor of message queue `i` that was opened for `mode`. -/
def OpenFor (e : FileDescriptorMapEntry) (i : Nat) (mode : AccessMode) : Prop :=
  PointsTo e i ∧ e.flags &&& mode.flag ≠ 0

instance (e : FileDescriptorMapEntry) (i : Nat) (mode : AccessMode) :
    Decidable (OpenFor e i mode) :=
  inferInstanceAs (Decidable (_ ∧ _))

namespace FileDescriptorsMap

/-- The number of descriptors of message queue `i` for `mode`. -/
def ends (fds : FileDescriptorsMap) (i : Nat) (mode : AccessMode) : Nat :=
  Counting.count (fun fd => OpenFor (fds.entries fd) i mode) MAX_FILES

variable {fds fds' : FileDescriptorsMap} {e : FileDescriptorMapEntry} {fd i : Nat}
  {mode : AccessMode}

theorem ends_insert (h : fds.Inv) (hroom : fds.size < UInt64.ofNat MAX_FILES) :
    (fds.insert e).ends i mode = fds.ends i mode + if OpenFor e i mode then 1 else 0 :=
  count_insert (OpenFor · i mode) (fun _ hp => hp.1.1) h hroom

theorem ends_erase (hfd : fd < MAX_FILES) :
    (fds.erase fd).ends i mode + (if OpenFor (fds.entries fd) i mode then 1 else 0) =
      fds.ends i mode :=
  count_erase (OpenFor · i mode) (fun _ hp => hp.1.1) hfd

theorem ends_pos_iff :
    0 < fds.ends i mode ↔ ∃ fd, fd < MAX_FILES ∧ OpenFor (fds.entries fd) i mode :=
  Counting.count_pos_iff

theorem ends_of_noQueue (h : ∀ fd, fd < MAX_FILES → ¬ IsQueue (fds.entries fd)) :
    fds.ends i mode = 0 := by
  apply Counting.count_eq_zero_iff.mpr
  intro fd hfd hopen
  exact h fd hfd ⟨hopen.1.1, hopen.1.2.1⟩

/-- Only descriptors of queues count. -/
theorem ends_congr (h : ∀ fd, fd < MAX_FILES → fds'.entries fd = fds.entries fd ∨
    (¬ IsQueue (fds'.entries fd) ∧ ¬ IsQueue (fds.entries fd))) :
    fds'.ends i mode = fds.ends i mode := by
  apply Counting.count_congr
  intro fd hfd
  rcases h fd hfd with heq | ⟨hno', hno⟩
  · rw [heq]
  · constructor
    · exact fun hopen => absurd ⟨hopen.1.1, hopen.1.2.1⟩ hno'
    · exact fun hopen => absurd ⟨hopen.1.1, hopen.1.2.1⟩ hno

end FileDescriptorsMap

namespace Kernel

/-! ### The ledger of modes -/

/-- Each open end of a queue is one descriptor, of the process whose pid stands there. -/
structure ModesInv (entries : Nat → PcbEntry) (mqs : Nat → MessageQueue) : Prop where
  ends : ∀ e i mode, e < pcbEntries → i < MAX_MQS →
    (entries e).fileDescriptors.ends i mode =
      if (entries e).occupied ≠ 0 ∧ (mqs i).pidOf mode = (entries e).pid then 1 else 0
  oneMode : ∀ e fd, e < pcbEntries → fd < MAX_FILES →
    IsQueue ((entries e).fileDescriptors.entries fd) →
    OneMode ((entries e).fileDescriptors.entries fd).flags

section
variable {entries entries' : Nat → PcbEntry} {nextPid : UInt64} {mqs : Nat → MessageQueue}
  {i k : Nat} {accessFlags : UInt32} {mode : AccessMode} {q : MessageQueue}

/-- The process of entry `k` gets a descriptor of slot `i` for `mode`, and its pid is
    written there.  Nobody else's end changes. -/
theorem ModesInv.join (h : ModesInv entries mqs) (hpids : PidsInv entries nextPid)
    (hk : k < pcbEntries) (hocc : (entries k).occupied ≠ 0)
    (htable : (entries k).fileDescriptors.Inv)
    (hroom : (entries k).fileDescriptors.size < UInt64.ofNat MAX_FILES) (hi : i < MAX_MQS)
    (hasks : Asks accessFlags mode) (hself : q.pidOf mode = (entries k).pid)
    (hfree : ∀ e, e < pcbEntries → (entries e).occupied ≠ 0 →
      (mqs i).pidOf mode ≠ (entries e).pid)
    (hother : ∀ m, m ≠ mode → ∀ e, e < pcbEntries → (entries e).occupied ≠ 0 →
      (q.pidOf m = (entries e).pid ↔ (mqs i).pidOf m = (entries e).pid)) :
    ModesInv
      (setFds entries k ((entries k).fileDescriptors.insert
        ⟨1, UInt32.ofNat i, FileType.MESSAGE_QUEUE.code, accessFlags⟩))
      (Function.update mqs i q) := by
  have hopen : ∀ j m,
      OpenFor ⟨1, UInt32.ofNat i, FileType.MESSAGE_QUEUE.code, accessFlags⟩ j m ↔
        j = i ∧ m = mode := by
    intro j m
    unfold OpenFor PointsTo
    rw [toNat_ofNat_slot hi, hasks m]
    simp [eq_comm]
  constructor
  · intro e j m he hj
    rw [setFds_fileDescriptors, setFds_occupied, setFds_pid]
    have hold := h.ends e j m he hj
    -- the number of ends before, and the new one
    have hnew : (if e = k then (entries k).fileDescriptors.insert
          ⟨1, UInt32.ofNat i, FileType.MESSAGE_QUEUE.code, accessFlags⟩
        else (entries e).fileDescriptors).ends j m =
        (entries e).fileDescriptors.ends j m + if e = k ∧ j = i ∧ m = mode then 1 else 0 := by
      by_cases hek : e = k
      · subst hek
        rw [if_pos rfl, ends_insert htable hroom]
        simp only [hopen, true_and]
      · rw [if_neg hek, if_neg (fun hand => hek hand.1), Nat.add_zero]
    rw [hnew, hold]
    by_cases hji : j = i
    · subst hji
      rw [Function.update_self]
      by_cases hm : m = mode
      · subst hm
        by_cases hoe : (entries e).occupied ≠ 0
        · rw [if_neg (fun hand => hfree e he hoe hand.2), hself]
          have hsame : (entries k).pid = (entries e).pid ↔ e = k :=
            (hpids.pid_eq_iff hk he hocc hoe).trans eq_comm
          simp [hoe, hsame]
        · have hek : e ≠ k := fun heq => hoe (heq ▸ hocc)
          simp [hoe, hek]
      · by_cases hoe : (entries e).occupied ≠ 0
        · simp only [hother m hm e he hoe, hm, and_false, if_false, Nat.add_zero]
        · simp [hoe, hm]
    · rw [Function.update_of_ne hji]
      simp [hji]
  · intro e fd he hfd hq
    rw [setFds_fileDescriptors] at hq ⊢
    by_cases hek : e = k
    · rw [if_pos hek, insert_entries] at hq ⊢
      by_cases hnew : fd = (entries k).fileDescriptors.lowestFree
      · rw [if_pos hnew]
        exact ⟨mode, hasks⟩
      · rw [if_neg hnew] at hq ⊢
        exact h.oneMode k fd hk hfd hq
    · rw [if_neg hek] at hq ⊢
      exact h.oneMode e fd he hfd hq

/-- The process of entry `k` closes its descriptor of slot `i` for `mode`, and its pid is
    taken off there. -/
theorem ModesInv.leave (h : ModesInv entries mqs) (hpids : PidsInv entries nextPid)
    (hk : k < pcbEntries) (hocc : (entries k).occupied ≠ 0) (hi : i < MAX_MQS) {fd : Nat}
    (hfd : fd < MAX_FILES)
    (hopen : OpenFor ((entries k).fileDescriptors.entries fd) i mode)
    (hself : q.pidOf mode = -1) (hother : ∀ m, m ≠ mode → q.pidOf m = (mqs i).pidOf m) :
    ModesInv (setFds entries k ((entries k).fileDescriptors.erase fd))
      (Function.update mqs i q) := by
  obtain ⟨hpoints, hflag⟩ := hopen
  obtain ⟨mode', hasks⟩ := h.oneMode k fd hk hfd ⟨hpoints.1, hpoints.2.1⟩
  obtain rfl := (hasks mode).mp hflag
  -- the descriptor counts, so the pid stands at its end
  have hpid : (mqs i).pidOf mode = (entries k).pid := by
    have hends := h.ends k i mode hk hi
    have hpos : 0 < (entries k).fileDescriptors.ends i mode :=
      ends_pos_iff.mpr ⟨fd, hfd, hpoints, hflag⟩
    split at hends
    · next hand => exact hand.2
    · omega
  have hiff : ∀ j m, OpenFor ((entries k).fileDescriptors.entries fd) j m ↔
      j = i ∧ m = mode := by
    intro j m
    unfold OpenFor
    rw [hasks m]
    constructor
    · exact fun hand => ⟨hand.1.2.2.symm.trans hpoints.2.2, hand.2⟩
    · intro h
      obtain ⟨rfl, rfl⟩ := h
      exact ⟨hpoints, rfl⟩
  constructor
  · intro e j m he hj
    rw [setFds_fileDescriptors, setFds_occupied, setFds_pid]
    have hold := h.ends e j m he hj
    -- the number of ends before and after
    have hnew : (if e = k then (entries k).fileDescriptors.erase fd
        else (entries e).fileDescriptors).ends j m +
        (if e = k ∧ j = i ∧ m = mode then 1 else 0) = (entries e).fileDescriptors.ends j m := by
      by_cases hek : e = k
      · subst hek
        have herase : ((entries e).fileDescriptors.erase fd).ends j m + _ = _ := ends_erase hfd
        rw [if_pos rfl]
        simpa only [hiff, true_and] using herase
      · rw [if_neg hek, if_neg (fun hand => hek hand.1), Nat.add_zero]
    rw [hold] at hnew
    by_cases hji : j = i
    · subst hji
      rw [Function.update_self]
      by_cases hm : m = mode
      · subst hm
        rw [hself]
        have hnone : ¬ ((entries e).occupied ≠ 0 ∧ (-1 : UInt64) = (entries e).pid) :=
          fun hand => hpids.ne_none he hand.1 hand.2.symm
        rw [if_neg hnone]
        by_cases hoe : (entries e).occupied ≠ 0
        · have hsame : (entries k).pid = (entries e).pid ↔ e = k :=
            (hpids.pid_eq_iff hk he hocc hoe).trans eq_comm
          simp only [hoe, hpid, hsame, true_and, and_true, ne_eq, not_false_eq_true] at hnew
          omega
        · simp only [hoe, false_and, if_false] at hnew
          omega
      · rw [hother m hm]
        simpa [hm] using hnew
    · rw [Function.update_of_ne hji]
      simpa [hji] using hnew
  -- the other descriptors keep their mode
  · intro e fd' he hlt hq
    rw [setFds_fileDescriptors] at hq ⊢
    by_cases hek : e = k
    · rw [if_pos hek, erase_entries] at hq ⊢
      by_cases hfd' : fd' = fd
      · rw [if_pos hfd'] at hq
        exact absurd rfl hq.1
      · rw [if_neg hfd'] at hq ⊢
        exact h.oneMode k fd' hk hlt hq
    · rw [if_neg hek] at hq ⊢
      exact h.oneMode e fd' he hlt hq

/-- Some entries are cleared or had no queue to begin with; the others keep what counts. -/
theorem ModesInv.keep (h : ModesInv entries mqs)
    (hentry : ∀ e, e < pcbEntries →
      ((entries' e).occupied = (entries e).occupied ∧ (entries' e).pid = (entries e).pid ∧
        ∀ fd, fd < MAX_FILES → (entries' e).fileDescriptors.entries fd =
            (entries e).fileDescriptors.entries fd ∨
          (¬ IsQueue ((entries' e).fileDescriptors.entries fd) ∧
            ¬ IsQueue ((entries e).fileDescriptors.entries fd))) ∨
      (((entries' e).occupied ≠ 0 → ∀ i mode, i < MAX_MQS →
          (mqs i).pidOf mode ≠ (entries' e).pid) ∧
        ∀ fd, fd < MAX_FILES → ¬ IsQueue ((entries' e).fileDescriptors.entries fd))) :
    ModesInv entries' mqs := by
  constructor
  · intro e i m he hi
    rcases hentry e he with ⟨ho, hp, hfds⟩ | ⟨hpid, hno⟩
    · rw [ends_congr hfds, ho, hp]
      exact h.ends e i m he hi
    · rw [ends_of_noQueue hno,
        if_neg (fun hand => hpid hand.1 i m hi hand.2)]
  · intro e fd he hfd hq
    rcases hentry e he with ⟨-, -, hfds⟩ | ⟨-, hno⟩
    · rcases hfds fd hfd with heq | ⟨hno, -⟩
      · rw [heq] at hq ⊢
        exact h.oneMode e fd he hfd hq
      · exact absurd hq hno
    · exact absurd hq (hno fd hfd)

/-- A slot's pids are none, the loader's zero or those of processes. -/
theorem LedgerInv.pidOf (h : LedgerInv entries nextPid mqs) (hi : i < MAX_MQS)
    (mode : AccessMode) : (mqs i).pidOf mode = -1 ∨ (mqs i).pidOf mode = 0 ∨
      ((mqs i).file ≠ none ∧ IsPid entries ((mqs i).pidOf mode)) := by
  by_cases hfile : (mqs i).file = none
  -- a slot never used, or one whose queue was destroyed
  · rcases h.dead i hi hfile with hzero | hunused
    · right
      left
      rw [hzero]
      cases mode <;> rfl
    · left
      rw [hunused]
      cases mode <;> rfl
  · by_cases hnone : (mqs i).pidOf mode = -1
    · exact .inl hnone
    · right
      right
      refine ⟨hfile, h.owner i hi hfile _ hnone (MessageQueue.held_pos_iff.mpr ?_)⟩
      cases mode with
      | read => exact .inl rfl
      | write => exact .inr rfl

/-- The pid of the next process stands nowhere yet. -/
theorem LedgerInv.pidOf_ne_nextPid (h : LedgerInv entries nextPid mqs) (hnext : nextPid ≠ -1)
    (hi : i < MAX_MQS) (mode : AccessMode) : (mqs i).pidOf mode ≠ nextPid := by
  intro heq
  rcases h.pidOf hi mode with hnone | hzero | ⟨-, e, he, ho, hpe⟩
  · exact hnext (heq.symm.trans hnone)
  · have hcounter := h.pids.counter
    rw [← heq, hzero] at hcounter
    exact absurd hcounter (Nat.lt_irrefl 0)
  · have hbound := (h.pids.bounds e he ho).2
    rw [hpe, heq] at hbound
    exact Nat.lt_irrefl _ hbound

end

end Kernel

end TP2Kernel
