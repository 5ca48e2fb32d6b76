import TP2Kernel.MessageQueue.Runs

/-! # Links, pids and descriptors

    Who has a queue open is recorded four times: in `links`, in the two pids of the slot,
    in the descriptor tables and, over all queues, in `numMQs`.  `LedgerInv` says that the
    records agree; opening, closing, creating processes and removing those that hold no
    queue keep it.
-/

namespace TP2Kernel

open Transition Scheduler FileDescriptorsMap

/-! ### The two ends of a queue -/

namespace MessageQueue

/-- How many ends of the queue process `pid` has. -/
def held (q : MessageQueue) (pid : UInt64) : Nat :=
  (if q.readPID = pid then 1 else 0) + (if q.writePID = pid then 1 else 0)

/-- How many ends of the queue are open. -/
def ends (q : MessageQueue) : Nat :=
  (if q.readPID ≠ -1 then 1 else 0) + (if q.writePID ≠ -1 then 1 else 0)

variable {q : MessageQueue} {p pid : UInt64} {accessFlags : UInt32}

theorem held_pos_iff : 0 < q.held p ↔ q.readPID = p ∨ q.writePID = p := by
  unfold held
  split <;> split <;> simp_all

theorem ends_le (q : MessageQueue) : q.ends ≤ 2 := by
  unfold ends
  split <;> split <;> omega

theorem held_marked (havail : q.Available accessFlags) (hp : p ≠ -1) :
    (q.marked pid accessFlags).held p = q.held p + if p = pid then 1 else 0 := by
  unfold Available at havail
  unfold marked held
  by_cases hread : accessFlags &&& F_READ ≠ 0
  · rw [if_pos hread] at havail ⊢
    simp only [havail, hp.symm, eq_comm (a := pid), if_false]
    omega
  · rw [if_neg hread] at havail ⊢
    simp only [havail.2, hp.symm, eq_comm (a := pid), if_false]
    omega

theorem ends_marked (havail : q.Available accessFlags) (hpid : pid ≠ -1) :
    (q.marked pid accessFlags).ends = q.ends + 1 := by
  unfold Available at havail
  unfold marked ends
  by_cases hread : accessFlags &&& F_READ ≠ 0
  · rw [if_pos hread] at havail ⊢
    simp only [havail, hpid, ne_eq, not_true_eq_false, not_false_eq_true, if_true, if_false]
    omega
  · rw [if_neg hread] at havail ⊢
    simp only [havail.2, hpid, ne_eq, not_true_eq_false, not_false_eq_true, if_true, if_false]

theorem held_unmarked (hmine : 0 < q.held pid) (hp : p ≠ -1) :
    (q.unmarked pid).held p + (if p = pid then 1 else 0) = q.held p := by
  rw [held_pos_iff] at hmine
  unfold unmarked held
  by_cases hr : q.readPID = pid
  · simp only [hr, if_true, hp.symm, if_false, eq_comm (a := pid)]
    omega
  · have hw := hmine.resolve_left hr
    simp only [hr, hw, if_false, hp.symm, eq_comm (a := pid)]
    omega

theorem ends_unmarked (hmine : 0 < q.held pid) (hpid : pid ≠ -1) :
    (q.unmarked pid).ends + 1 = q.ends := by
  rw [held_pos_iff] at hmine
  unfold unmarked ends
  by_cases hr : q.readPID = pid
  · simp only [hr, hpid, if_true, ne_eq, not_true_eq_false, not_false_eq_true, if_false]
    omega
  · have hw := hmine.resolve_left hr
    simp only [hr, hw, hpid, if_false, ne_eq, not_true_eq_false, not_false_eq_true, if_true]

theorem held_unused (file : BasicFile) (hp : p ≠ -1) : (unused file).held p = 0 := by
  simp [unused, held, hp.symm]

theorem ends_unused (file : BasicFile) : (unused file).ends = 0 := by
  simp [unused, ends]

/-- No end is open. -/
theorem eq_unused_of_ends (hlinks : q.links = 0) (hends : q.ends = 0) :
    q = unused q.file := by
  unfold ends at hends
  obtain ⟨file, links, r, w⟩ := q
  have hr : r = -1 := by
    by_contra hr
    simp [hr] at hends
  have hw : w = -1 := by
    by_contra hw
    simp [hw] at hends
  subst hr hw
  simp only at hlinks
  subst hlinks
  rfl

/-- The slot after `MQopen` marked it and counted the new link. -/
def joined (q : MessageQueue) (pid : UInt64) (accessFlags : UInt32) : MessageQueue :=
  { q.marked pid accessFlags with links := (q.marked pid accessFlags).links + 1 }

/-- The slot after `MQclose`, destroyed if that was the last link. -/
def left (q : MessageQueue) (pid : UInt64) : MessageQueue :=
  if (q.unmarked pid).links = 0 then { q.unmarked pid with file := none } else q.unmarked pid

theorem toNat_links_unmarked (hpos : 0 < q.links.toNat) :
    (q.unmarked pid).links.toNat = q.links.toNat - 1 := by
  have hgt : q.links > 0 := UInt64.lt_iff_toNat_lt.mpr hpos
  simp only [unmarked, if_pos hgt]
  exact Word.uint64_toNat_pred hpos

theorem held_eq_zero_of_ends (hends : q.ends = 0) (hp : p ≠ -1) : q.held p = 0 := by
  by_contra hpos
  unfold ends at hends
  rcases held_pos_iff.mp (Nat.pos_of_ne_zero hpos) with hr | hw
  · rw [hr, if_pos hp] at hends
    omega
  · rw [hw, if_pos hp] at hends
    omega

/-- The slot dies exactly when no end is open any more. -/
theorem left_cases (hfile : q.file ≠ none)
    (hlinks : (q.unmarked pid).links.toNat = (q.unmarked pid).ends) :
    ((q.left pid).file ≠ none ∧ 0 < (q.unmarked pid).ends ∧ q.left pid = q.unmarked pid) ∨
    ((q.unmarked pid).ends = 0 ∧ q.left pid = .unused none) := by
  unfold left
  by_cases hzero : (q.unmarked pid).links = 0
  · right
    have hends : (q.unmarked pid).ends = 0 := by
      rw [← hlinks, hzero]
      rfl
    rw [if_pos hzero, eq_unused_of_ends hzero hends]
    exact ⟨ends_unused _, rfl⟩
  · left
    rw [if_neg hzero]
    refine ⟨hfile, ?_, rfl⟩
    rw [← hlinks]
    apply Nat.pos_of_ne_zero
    intro h0
    exact hzero (UInt64.toNat_inj.mp h0)

/-- What a process had of the queue, less the end that is closed. -/
theorem held_left (hfile : q.file ≠ none)
    (hlinks : (q.unmarked pid).links.toNat = (q.unmarked pid).ends) (hmine : 0 < q.held pid)
    (hp : p ≠ -1) :
    (if (q.left pid).file ≠ none then (q.left pid).held p else 0) + (if p = pid then 1 else 0) =
      q.held p := by
  have hheld := @held_unmarked q p pid hmine hp
  rcases left_cases hfile hlinks with ⟨hne, -, heq⟩ | ⟨hends, heq⟩
  · rw [if_pos hne, heq]
    exact hheld
  · rw [held_eq_zero_of_ends hends hp] at hheld
    rw [heq, if_neg (fun hne => hne rfl)]
    exact hheld

end MessageQueue

/-! ### The ledger -/

namespace Kernel

/-- The pids of the processes are distinct, and smaller than the next one. -/
structure PidsInv (entries : Nat → PcbEntry) (nextPid : UInt64) : Prop where
  counter : 0 < nextPid.toNat
  bounds : ∀ e, e < pcbEntries → (entries e).occupied ≠ 0 →
    0 < (entries e).pid.toNat ∧ (entries e).pid.toNat < nextPid.toNat
  distinct : ∀ e e', e < pcbEntries → e' < pcbEntries → (entries e).occupied ≠ 0 →
    (entries e').occupied ≠ 0 → (entries e).pid = (entries e').pid → e = e'

/-- Some process has pid `p`. -/
def IsPid (entries : Nat → PcbEntry) (p : UInt64) : Prop :=
  ∃ e, e < pcbEntries ∧ (entries e).occupied ≠ 0 ∧ (entries e).pid = p

/-- The slots agree with the processes that have them open.  A slot without a queue is as
    the loader or as a close left it. -/
structure LedgerInv (entries : Nat → PcbEntry) (nextPid : UInt64)
    (mqs : Nat → MessageQueue) : Prop where
  pids : PidsInv entries nextPid
  links : ∀ i, i < MAX_MQS → (mqs i).file ≠ none → (mqs i).links.toNat = (mqs i).ends
  isOpen : ∀ i, i < MAX_MQS → (mqs i).file ≠ none → 0 < (mqs i).ends
  owner : ∀ i, i < MAX_MQS → (mqs i).file ≠ none → ∀ p, p ≠ -1 → 0 < (mqs i).held p →
    IsPid entries p
  dead : ∀ i, i < MAX_MQS → (mqs i).file = none → mqs i = .zero ∨ mqs i = .unused none
  share : ∀ e i, e < pcbEntries → i < MAX_MQS → (entries e).fileDescriptors.links i =
    if (mqs i).file ≠ none ∧ (entries e).occupied ≠ 0 then (mqs i).held (entries e).pid else 0

/-- The entries with another descriptor table for entry `k`. -/
def setFds (entries : Nat → PcbEntry) (k : Nat) (fds : FileDescriptorsMap) : Nat → PcbEntry :=
  Function.update entries k { entries k with fileDescriptors := fds }

section
variable {entries : Nat → PcbEntry} {nextPid : UInt64} {mqs : Nat → MessageQueue}
  {i k : Nat} {accessFlags : UInt32} {fds : FileDescriptorsMap}

@[simp] theorem setFds_occupied (e : Nat) :
    (setFds entries k fds e).occupied = (entries e).occupied := by
  unfold setFds
  by_cases hek : e = k
  · subst hek
    rw [Function.update_self]
  · rw [Function.update_of_ne hek]

@[simp] theorem setFds_pid (e : Nat) : (setFds entries k fds e).pid = (entries e).pid := by
  unfold setFds
  by_cases hek : e = k
  · subst hek
    rw [Function.update_self]
  · rw [Function.update_of_ne hek]

theorem setFds_fileDescriptors (e : Nat) : (setFds entries k fds e).fileDescriptors =
    if e = k then fds else (entries e).fileDescriptors := by
  unfold setFds
  by_cases hek : e = k
  · subst hek
    rw [Function.update_self, if_pos rfl]
  · rw [Function.update_of_ne hek, if_neg hek]

@[simp] theorem isPid_setFds {p : UInt64} : IsPid (setFds entries k fds) p ↔ IsPid entries p := by
  simp [IsPid]

theorem PidsInv.setFds (h : PidsInv entries nextPid) (k : Nat) (fds : FileDescriptorsMap) :
    PidsInv (setFds entries k fds) nextPid := by
  refine ⟨h.counter, ?_, ?_⟩
  · simpa using h.bounds
  · simpa using h.distinct

theorem PidsInv.ne_none (h : PidsInv entries nextPid) {e : Nat} (he : e < pcbEntries)
    (hocc : (entries e).occupied ≠ 0) : (entries e).pid ≠ -1 := by
  intro heq
  have hlt := (h.bounds e he hocc).2
  have := nextPid.toNat_lt
  rw [heq] at hlt
  have hmax : (-1 : UInt64).toNat = 2 ^ 64 - 1 := rfl
  omega

/-- Two processes with the same pid are one. -/
theorem PidsInv.pid_eq_iff (h : PidsInv entries nextPid) {e e' : Nat} (he : e < pcbEntries)
    (he' : e' < pcbEntries) (ho : (entries e).occupied ≠ 0) (ho' : (entries e').occupied ≠ 0) :
    (entries e).pid = (entries e').pid ↔ e = e' :=
  ⟨h.distinct e e' he he' ho ho', fun heq => by rw [heq]⟩

/-- A descriptor leads to a queue, and its process has an end of it. -/
theorem LedgerInv.held_of_links (h : LedgerInv entries nextPid mqs) {e : Nat}
    (he : e < pcbEntries) (hi : i < MAX_MQS) (hpos : 0 < (entries e).fileDescriptors.links i) :
    (mqs i).file ≠ none ∧ (entries e).occupied ≠ 0 ∧ 0 < (mqs i).held (entries e).pid := by
  rw [h.share e i he hi] at hpos
  split at hpos
  · next hlive => exact ⟨hlive.1, hlive.2, hpos⟩
  · exact absurd hpos (Nat.lt_irrefl 0)

/-- A free entry has no descriptor of a queue. -/
theorem LedgerInv.links_of_free (h : LedgerInv entries nextPid mqs) {e : Nat}
    (he : e < pcbEntries) (hfree : (entries e).occupied = 0) (hi : i < MAX_MQS) :
    (entries e).fileDescriptors.links i = 0 := by
  rw [h.share e i he hi]
  exact if_neg (fun hand => hand.2 hfree)

/-! ### Joining a queue -/

/-- The process of entry `k` joins the queue of slot `i`; `q` is the slot before it is
    marked. -/
theorem LedgerInv.join (h : LedgerInv entries nextPid mqs) {q : MessageQueue}
    (hk : k < pcbEntries) (hocc : (entries k).occupied ≠ 0)
    (htable : (entries k).fileDescriptors.Inv)
    (hroom : (entries k).fileDescriptors.size < UInt64.ofNat MAX_FILES)
    (hi : i < MAX_MQS) (hfile : q.file ≠ none) (havail : q.Available accessFlags)
    (hlinks : q.links.toNat = q.ends)
    (howner : ∀ p, p ≠ -1 → 0 < q.held p → IsPid entries p)
    (hshare : ∀ e, e < pcbEntries → (entries e).fileDescriptors.links i =
      if (entries e).occupied ≠ 0 then q.held (entries e).pid else 0) :
    LedgerInv
      (setFds entries k ((entries k).fileDescriptors.insert
        ⟨1, UInt32.ofNat i, FileType.MESSAGE_QUEUE.code, accessFlags⟩))
      nextPid (Function.update mqs i (q.joined (entries k).pid accessFlags)) := by
  have hpid := h.pids.ne_none hk hocc
  have hends : (q.joined (entries k).pid accessFlags).ends = q.ends + 1 :=
    MessageQueue.ends_marked havail hpid
  have hheld : ∀ p, p ≠ -1 → (q.joined (entries k).pid accessFlags).held p =
      q.held p + if p = (entries k).pid then 1 else 0 :=
    fun p hp => MessageQueue.held_marked havail hp
  have hjfile : (q.joined (entries k).pid accessFlags).file = q.file :=
    MessageQueue.marked_file q _ _
  refine ⟨h.pids.setFds _ _, ?_, ?_, ?_, ?_, ?_⟩
  -- one more link, one more end
  · intro j hj hlive
    by_cases hji : j = i
    · rw [hji, Function.update_self, hends]
      have := q.ends_le
      show ((q.marked (entries k).pid accessFlags).links + 1).toNat = _
      rw [MessageQueue.marked_links, Word.uint64_toNat_succ (by omega), hlinks]
    · rw [Function.update_of_ne hji] at hlive ⊢
      exact h.links j hj hlive
  · intro j hj hlive
    by_cases hji : j = i
    · rw [hji, Function.update_self, hends]
      exact Nat.succ_pos _
    · rw [Function.update_of_ne hji] at hlive ⊢
      exact h.isOpen j hj hlive
  -- the new end belongs to the process of entry `k`
  · intro j hj hlive p hp hpos
    rw [isPid_setFds]
    by_cases hji : j = i
    · rw [hji, Function.update_self, hheld p hp] at hpos
      by_cases hpk : p = (entries k).pid
      · exact ⟨k, hk, hocc, hpk.symm⟩
      · rw [if_neg hpk, Nat.add_zero] at hpos
        exact howner p hp hpos
    · rw [Function.update_of_ne hji] at hlive hpos
      exact h.owner j hj hlive p hp hpos
  · intro j hj hdead
    by_cases hji : j = i
    · rw [hji, Function.update_self, hjfile] at hdead
      exact absurd hdead hfile
    · rw [Function.update_of_ne hji] at hdead ⊢
      exact h.dead j hj hdead
  -- only entry `k` has a new descriptor, and only of slot `i`
  · intro e j he hj
    have hpoints : PointsTo ⟨1, UInt32.ofNat i, FileType.MESSAGE_QUEUE.code, accessFlags⟩ j ↔
        j = i := by
      unfold PointsTo
      rw [toNat_ofNat_slot hi]
      simp [eq_comm]
    rw [setFds_fileDescriptors, setFds_occupied, setFds_pid]
    by_cases hji : j = i
    · subst hji
      rw [Function.update_self, hjfile]
      by_cases hoe : (entries e).occupied ≠ 0
      · have hlive : q.file ≠ none ∧ (entries e).occupied ≠ 0 := ⟨hfile, hoe⟩
        rw [if_pos hlive, hheld _ (h.pids.ne_none he hoe)]
        by_cases hek : e = k
        · subst hek
          rw [if_pos rfl, links_insert htable hroom, hshare e he, if_pos hoe,
            if_pos (hpoints.mpr rfl), if_pos rfl]
        · have hne : (entries e).pid ≠ (entries k).pid :=
            mt (h.pids.pid_eq_iff he hk hoe hocc).mp hek
          rw [if_neg hek, hshare e he, if_pos hoe, if_neg hne, Nat.add_zero]
      · have hek : e ≠ k := fun heq => hoe (heq ▸ hocc)
        have hlive : ¬ (q.file ≠ none ∧ (entries e).occupied ≠ 0) := fun hand => hoe hand.2
        rw [if_neg hek, hshare e he, if_neg hoe, if_neg hlive]
    · rw [Function.update_of_ne hji, ← h.share e j he hj]
      by_cases hek : e = k
      · subst hek
        rw [if_pos rfl, links_insert htable hroom, if_neg (fun hp => hji (hpoints.mp hp)),
          Nat.add_zero]
      · rw [if_neg hek]

/-! ### Leaving a queue -/

/-- The process of entry `k` closes its descriptor `fd` of slot `i`. -/
theorem LedgerInv.leave (h : LedgerInv entries nextPid mqs) (hk : k < pcbEntries)
    (hi : i < MAX_MQS) {fd : Nat} (hfd : fd < MAX_FILES)
    (hpoints : PointsTo ((entries k).fileDescriptors.entries fd) i) :
    LedgerInv (setFds entries k ((entries k).fileDescriptors.erase fd)) nextPid
      (Function.update mqs i ((mqs i).left (entries k).pid)) := by
  obtain ⟨hfile, hocc, hmine⟩ := h.held_of_links hk hi (links_pos_iff.mpr ⟨fd, hfd, hpoints⟩)
  have hpid := h.pids.ne_none hk hocc
  have hends := MessageQueue.ends_unmarked hmine hpid
  -- one link and one end go together
  have hlinks : ((mqs i).unmarked (entries k).pid).links.toNat =
      ((mqs i).unmarked (entries k).pid).ends := by
    have hl := h.links i hi hfile
    rw [MessageQueue.toNat_links_unmarked (by omega)]
    omega
  have hheld : ∀ p, p ≠ -1 → (if ((mqs i).left (entries k).pid).file ≠ none then
      ((mqs i).left (entries k).pid).held p else 0) + (if p = (entries k).pid then 1 else 0) =
      (mqs i).held p :=
    fun p hp => MessageQueue.held_left hfile hlinks hmine hp
  have hleft := MessageQueue.left_cases hfile hlinks
  have hlive : ∀ j, j ≠ i → Function.update mqs i ((mqs i).left (entries k).pid) j = mqs j :=
    fun j hji => Function.update_of_ne hji _ _
  refine ⟨h.pids.setFds _ _, ?_, ?_, ?_, ?_, ?_⟩
  · intro j hj hne
    by_cases hji : j = i
    · rw [hji, Function.update_self] at hne ⊢
      rcases hleft with ⟨-, -, heq⟩ | ⟨-, heq⟩
      · rw [heq, hlinks]
      · rw [heq] at hne
        exact absurd rfl hne
    · rw [hlive j hji] at hne ⊢
      exact h.links j hj hne
  · intro j hj hne
    by_cases hji : j = i
    · rw [hji, Function.update_self] at hne ⊢
      rcases hleft with ⟨-, hpos, heq⟩ | ⟨-, heq⟩
      · rw [heq]
        exact hpos
      · rw [heq] at hne
        exact absurd rfl hne
    · rw [hlive j hji] at hne ⊢
      exact h.isOpen j hj hne
  -- who still has an end had it before
  · intro j hj hne p hp hpos
    rw [isPid_setFds]
    by_cases hji : j = i
    · rw [hji, Function.update_self] at hne hpos
      apply h.owner i hi hfile p hp
      rw [← hheld p hp, if_pos hne]
      omega
    · rw [hlive j hji] at hne hpos
      exact h.owner j hj hne p hp hpos
  -- a slot that dies is left as unused
  · intro j hj hdead
    by_cases hji : j = i
    · rw [hji, Function.update_self] at hdead ⊢
      rcases hleft with ⟨hne, -, -⟩ | ⟨-, heq⟩
      · exact absurd hdead hne
      · exact .inr heq
    · rw [hlive j hji] at hdead ⊢
      exact h.dead j hj hdead
  · intro e j he hj
    -- what process `e` had of the queue, less the descriptor that is closed
    have hold : (if e = k then (entries k).fileDescriptors.erase fd
        else (entries e).fileDescriptors).links j + (if e = k ∧ j = i then 1 else 0) =
        (entries e).fileDescriptors.links j := by
      have hiff : PointsTo ((entries k).fileDescriptors.entries fd) j ↔ j = i :=
        ⟨fun hp => hp.2.2.symm.trans hpoints.2.2, fun heq => heq ▸ hpoints⟩
      have herase : ((entries k).fileDescriptors.erase fd).links j + _ = _ := links_erase hfd j
      by_cases hek : e = k
      · subst hek
        rw [if_pos rfl]
        simpa only [hiff, true_and] using herase
      · rw [if_neg hek, if_neg (fun hand => hek hand.1), Nat.add_zero]
    rw [h.share e j he hj] at hold
    rw [setFds_fileDescriptors, setFds_occupied, setFds_pid]
    by_cases hji : j = i
    · subst hji
      rw [Function.update_self]
      by_cases hoe : (entries e).occupied ≠ 0
      · have hsame : (entries e).pid = (entries k).pid ↔ e = k :=
          h.pids.pid_eq_iff he hk hoe hocc
        have hnew := hheld _ (h.pids.ne_none he hoe)
        simp only [hfile, hoe, hsame, and_true, ne_eq, not_false_eq_true, if_true] at hold hnew ⊢
        omega
      · have hek : e ≠ k := fun heq => hoe (heq ▸ hocc)
        simpa [hoe, hek] using hold
    · rw [hlive j hji]
      simpa [hji] using hold

/-! ### Processes that come and go -/

/-- Some entries are cleared, of processes that held no queue; the others keep what counts. -/
theorem LedgerInv.keep (h : LedgerInv entries nextPid mqs) {entries' : Nat → PcbEntry}
    (hentry : ∀ e, e < pcbEntries →
      ((entries' e).occupied = (entries e).occupied ∧ (entries' e).pid = (entries e).pid ∧
        ∀ i, (entries' e).fileDescriptors.links i = (entries e).fileDescriptors.links i) ∨
      ((entries' e).occupied = 0 ∧ (∀ i, (entries' e).fileDescriptors.links i = 0) ∧
        ∀ i, i < MAX_MQS → (entries e).fileDescriptors.links i = 0)) :
    LedgerInv entries' nextPid mqs := by
  -- who is there was there, with the same pid
  have hocc : ∀ e, e < pcbEntries → (entries' e).occupied ≠ 0 →
      (entries e).occupied ≠ 0 ∧ (entries' e).pid = (entries e).pid := by
    intro e he hne
    rcases hentry e he with ⟨ho, hp, -⟩ | ⟨ho, -, -⟩
    · exact ⟨ho ▸ hne, hp⟩
    · exact absurd ho hne
  refine ⟨⟨h.pids.counter, ?_, ?_⟩, h.links, h.isOpen, ?_, h.dead, ?_⟩
  · intro e he hne
    obtain ⟨ho, hp⟩ := hocc e he hne
    rw [hp]
    exact h.pids.bounds e he ho
  · intro e e' he he' hne hne' heq
    obtain ⟨ho, hp⟩ := hocc e he hne
    obtain ⟨ho', hp'⟩ := hocc e' he' hne'
    rw [hp, hp'] at heq
    exact h.pids.distinct e e' he he' ho ho' heq
  · intro i hi hlive p hp hpos
    obtain ⟨e, he, ho, rfl⟩ := h.owner i hi hlive p hp hpos
    rcases hentry e he with ⟨ho', hp', -⟩ | ⟨-, -, hnone⟩
    · exact ⟨e, he, by rw [ho']; exact ho, hp'⟩
    · -- a process that leaves has no end of the queue
      have hshare := h.share e i he hi
      have hcond : (mqs i).file ≠ none ∧ (entries e).occupied ≠ 0 := ⟨hlive, ho⟩
      rw [hnone i hi, if_pos hcond] at hshare
      omega
  · intro e i he hi
    rcases hentry e he with ⟨ho, hp, hl⟩ | ⟨ho, hl, -⟩
    · rw [hl, ho, hp]
      exact h.share e i he hi
    · have hcond : ¬ ((mqs i).file ≠ none ∧ (entries' e).occupied ≠ 0) := fun hand => hand.2 ho
      rw [hl, if_neg hcond]

/-- A process without a queue gets the next pid, which is no slot's yet. -/
theorem LedgerInv.add (h : LedgerInv entries nextPid mqs) {e : PcbEntry}
    (hfree : (entries k).occupied = 0) (hpid : e.pid = nextPid) (hnext : nextPid ≠ -1)
    (hlinks : ∀ i, i < MAX_MQS → e.fileDescriptors.links i = 0) :
    LedgerInv (Function.update entries k e) (nextPid + 1) mqs := by
  have hsucc : (nextPid + 1).toNat = nextPid.toNat + 1 := by
    apply Word.uint64_toNat_succ
    have hlt := nextPid.toNat_lt
    have hmax : (-1 : UInt64).toNat = 2 ^ 64 - 1 := rfl
    have hne : nextPid.toNat ≠ (-1 : UInt64).toNat := fun heq =>
      hnext (UInt64.toNat_inj.mp heq)
    omega
  -- the processes there are lie elsewhere and have smaller pids
  have hold : ∀ e', e' < pcbEntries → (entries e').occupied ≠ 0 →
      e' ≠ k ∧ (entries e').pid ≠ nextPid := by
    intro e' he' ho
    refine ⟨fun heq => ho (heq ▸ hfree), ?_⟩
    intro heq
    have := (h.pids.bounds e' he' ho).2
    rw [heq] at this
    exact Nat.lt_irrefl _ this
  have hcounter := h.pids.counter
  refine ⟨⟨by omega, ?_, ?_⟩, h.links, h.isOpen, ?_, h.dead, ?_⟩
  · intro e' he' ho
    by_cases hek : e' = k
    · rw [hek, Function.update_self, hpid]
      omega
    · rw [Function.update_of_ne hek] at ho ⊢
      have := h.pids.bounds e' he' ho
      omega
  · intro e' e'' he' he'' ho' ho'' heq
    by_cases hek : e' = k <;> by_cases hek' : e'' = k
    · rw [hek, hek']
    · rw [Function.update_of_ne hek'] at ho''
      rw [hek, Function.update_self, Function.update_of_ne hek', hpid] at heq
      exact absurd heq.symm (hold e'' he'' ho'').2
    · rw [Function.update_of_ne hek] at ho'
      rw [hek', Function.update_self, Function.update_of_ne hek, hpid] at heq
      exact absurd heq (hold e' he' ho').2
    · rw [Function.update_of_ne hek] at ho' heq
      rw [Function.update_of_ne hek'] at ho'' heq
      exact h.pids.distinct e' e'' he' he'' ho' ho'' heq
  -- the owners of the ends stay
  · intro i hi hlive p hp hpos
    obtain ⟨e', he', ho', hpe⟩ := h.owner i hi hlive p hp hpos
    have hne := (hold e' he' ho').1
    refine ⟨e', he', ?_, ?_⟩
    · rw [Function.update_of_ne hne]
      exact ho'
    · rw [Function.update_of_ne hne]
      exact hpe
  · intro e' i he' hi
    by_cases hek : e' = k
    · rw [hek, Function.update_self, hlinks i hi, hpid]
      -- no end carries the new pid: its owner would have it already
      by_cases hlive : (mqs i).file ≠ none
      · have hnone : (mqs i).held nextPid = 0 := by
          by_contra hpos
          obtain ⟨e'', he'', ho'', hpe⟩ :=
            h.owner i hi hlive nextPid hnext (Nat.pos_of_ne_zero hpos)
          exact (hold e'' he'' ho'').2 hpe
        rw [hnone, ite_self]
      · rw [if_neg (fun hand => hlive hand.1)]
    · rw [Function.update_of_ne hek]
      exact h.share e' i he' hi

end

/-! ### Well-behaved runs -/

/-- The open gets hold of a queue, but the process has no descriptor left for it. -/
def Overflows (s : Kernel) (name : Option CString) (accessFlags : UInt32) : Prop :=
  s.NoDescriptor ∧ ∃ n i s', name = some n ∧ s.obtainMQ n accessFlags = (some i, s')

/-- The process in entry `e` has a descriptor of a message queue. -/
def HoldsQueue (s : Kernel) (e : Nat) : Prop :=
  ∃ fd, fd < MAX_FILES ∧ ((s.pcb.entries e).fileDescriptors.entries fd).occupied ≠ 0 ∧
    ((s.pcb.entries e).fileDescriptors.entries fd).fileType = FileType.MESSAGE_QUEUE.code

/-- No descriptor table overflows, nobody is removed with a queue open, and the pids do not
    run out. -/
def WellBehaved (s : Kernel) (action : QueueAction) : Prop :=
  match action with
  | .MQopen name accessFlags => ¬ s.Overflows name accessFlags
  | .close _ => True
  | .task (.addProcess _) => s.pcb.nextPid ≠ -1
  | .task (.nextProcess _) => ∀ e, s.toTasks.Leaves e → ¬ s.HoldsQueue e
  | .task .finishProcess => True
  | .task .other => True

/-- The ledger of a state. -/
def Ledger (s : Kernel) : Prop := LedgerInv s.pcb.entries s.pcb.nextPid s.mqs

variable {s s' : Kernel}

theorem links_of_not_holdsQueue {e : Nat} (h : ¬ s.HoldsQueue e) (i : Nat) :
    (s.pcb.entries e).fileDescriptors.links i = 0 := by
  apply Counting.count_eq_zero_iff.mpr
  intro fd hfd h
  obtain ⟨hocc, htype, -⟩ := h
  exact h ⟨fd, hfd, hocc, htype⟩

/-- The pid of the current process, when there is one. -/
theorem getCurrentPID_eq (hbad : s.pcb.badIndex s.sched.getCurrentPCBIndex = false) :
    s.getCurrentPID = (s.pcb.entries s.sched.getCurrentPCBIndex.toNat).pid := by
  simp [Tasks.getCurrentPID, Pcb.getProcessPID, hbad, Pcb.process]

theorem Ledger.joined (h : s.Ledger) (hinv : QueueInv s) {name : CString} {i : Nat}
    {accessFlags : UInt32} (hob : Obtained s name accessFlags (some i) s')
    (hno : ¬ s.NoDescriptor) : (s'.withDescriptor i accessFlags).Ledger := by
  obtain ⟨hbad, hk, hroom⟩ := hinv.room hno
  obtain ⟨-, hocc⟩ := hinv.tasks.current_entry hbad
  have hi := hob.lt
  have hpid := getCurrentPID_eq hbad
  have htable := (hinv.tables _ hk).1
  cases hob with
  | shared _ hindex havail =>
    obtain ⟨-, hfile, -⟩ := indexOfMQ_some hindex
    -- the queue keeps its descriptors and gets one more
    have hjoin := LedgerInv.join h hk hocc htable hroom hi hfile havail (h.links i hi hfile)
      (h.owner i hi hfile) (by
        intro e he
        rw [h.share e i he hi]
        simp only [hfile, ne_eq, not_false_eq_true, true_and])
    rw [← hpid] at hjoin
    unfold Ledger
    have hmqs : ((s.setMQ i ((s.mqs i).marked s.getCurrentPID accessFlags)).withDescriptor i
        accessFlags).mqs =
        Function.update s.mqs i ((s.mqs i).joined s.getCurrentPID accessFlags) := by
      simp [Kernel.withDescriptor, MessageQueue.joined]
    rw [hmqs]
    exact hjoin
  | new _ hflags _ hslot _ =>
    obtain ⟨-, hfree⟩ := findFreeSlot_some hslot
    -- nobody had a descriptor of a free slot, so the new queue counts from zero
    have hjoin := LedgerInv.join h (q := .unused (some s.files.firstFree)) hk hocc htable hroom
      hi (by simp [MessageQueue.unused])
      (MessageQueue.available_unused _ hflags)
      (by rw [MessageQueue.ends_unused]; rfl) (by
        intro p hp hpos
        rw [MessageQueue.held_unused _ hp] at hpos
        exact absurd hpos (Nat.lt_irrefl 0)) (by
        intro e he
        rw [h.share e i he hi, if_neg (fun hand => hand.1 hfree)]
        split
        · next ho => rw [MessageQueue.held_unused _ (h.pids.ne_none he ho)]
        · rfl)
    rw [← hpid] at hjoin
    unfold Ledger
    have hmqs : ((s.withMQ i name accessFlags).withDescriptor i accessFlags).mqs =
        Function.update s.mqs i ((MessageQueue.unused (some s.files.firstFree)).joined
          s.getCurrentPID accessFlags) := by
      simp [Kernel.withDescriptor, Kernel.withMQ, MessageQueue.joined]
    rw [hmqs]
    exact hjoin

theorem Ledger.opened (h : s.Ledger) (hinv : QueueInv s) {name : Option CString}
    {accessFlags : UInt32} {r : Int} (hok : ¬ s.Overflows name accessFlags)
    (hop : Opened s accessFlags name r s') : s'.Ledger := by
  cases hop with
  | noName | noMode => exact h
  | notObtained name s' _ hob =>
    cases hob with
    | taken | full | notCreated => exact h
  | refused name i s₁ heq hob hno =>
    exact absurd ⟨hob.noDescriptor.mp hno, name, i, s₁, rfl, heq⟩ hok
  | ok name i s₁ heq hob hno =>
    exact h.joined hinv hob (fun hno' => hno (hob.noDescriptor.mpr hno'))

theorem Ledger.closed (h : s.Ledger) (hinv : QueueInv s) {fd : UInt64} {r : Int}
    (hfd : fd.toNat < MAX_FILES) (hcl : Closed s s.sched.getCurrentPCBIndex fd r s') :
    s'.Ledger := by
  cases hcl with
  | refused => exact h
  | file hbad hocc htype =>
    -- a descriptor of another kind counts for no queue
    apply LedgerInv.keep h
    intro e he
    left
    refine ⟨setFds_occupied e, setFds_pid e, ?_⟩
    intro i
    show (setFds s.pcb.entries _ _ e).fileDescriptors.links i = _
    rw [setFds_fileDescriptors]
    split
    · next hek =>
      subst hek
      have herase : ((s.pcb.entries s.sched.getCurrentPCBIndex.toNat).fileDescriptors.erase
        fd.toNat).links i + _ = _ := links_erase hfd i
      rwa [if_neg (fun hp => htype hp.2.1), Nat.add_zero] at herase
    · rfl
  | queue code s₁ hbad hocc htype hcode hmq =>
    have hk := (hinv.tasks.current_entry hbad).1
    have hi := hinv.descriptor_lt hfd hbad hocc
    have hpid := getCurrentPID_eq hbad
    -- `left` is the slot after the call, whether or not the link was the last
    have hleave := LedgerInv.leave h hk hi hfd ⟨hocc, htype, rfl⟩
    rw [← hpid] at hleave
    cases hmq with
    | refused => exact absurd rfl hcode
    | kept _ _ hlinks =>
      unfold MessageQueue.left at hleave
      rw [if_neg hlinks] at hleave
      exact hleave
    | destroyed _ _ hlinks =>
      unfold MessageQueue.left at hleave
      rw [if_pos hlinks] at hleave
      exact hleave

theorem Ledger.task (h : s.Ledger) (hinv : QueueInv s) (action : TaskAction)
    (hok : s.WellBehaved (.task action))
    (hstep : scheduling.step s.toTasks action s'.toTasks) (hbeside : Beside s action s') :
    s'.Ledger := by
  unfold Ledger
  rw [beside_mqs hbeside]
  cases action with
  | addProcess a =>
    obtain ⟨-, r, hadd⟩ := hstep
    generalize s'.toTasks = t' at hadd ⊢
    -- nothing happens without a node; else an entry may be filled in
    cases Tasks.addProcess_added hadd with
    | noNode => exact h
    | ok i k m hi hfree hcreate =>
      show LedgerInv m.pcb.entries m.pcb.nextPid s.mqs
      rcases (Machine.createProcess_created hcreate).entry with
        hm | ⟨index, e, hlt, hun, ho, hp, hfds, hm⟩
      · rw [hm]
        exact h
      · rw [hm]
        rw [hinv.tasks.toNat_maxProcesses] at hlt
        apply LedgerInv.add h hun hp hok
        intro j hj
        rcases hfds with hsame | hstd
        · rw [hsame]
          exact LedgerInv.links_of_free h hlt hun hj
        · rw [hstd, links_standardFiles]
  | finishProcess =>
    rw [show s'.toTasks = s.toTasks.finishProcess.2 from hstep, Tasks.finishProcess_pcb]
    exact h
  | nextProcess currentRSP =>
    obtain ⟨rsp, hnext⟩ := hstep
    have hent := nextProcess_entries hinv.tasks hnext
    rw [hent.nextPid]
    apply LedgerInv.keep h
    intro e he
    -- who leaves holds no queue: the run is well-behaved
    by_cases hl : s.toTasks.Leaves e
    · right
      rw [hent.left e hl]
      exact ⟨rfl, links_zero, fun i _ => links_of_not_holdsQueue (hok e hl) i⟩
    · left
      obtain ⟨stack, heq⟩ := hent.stays e hl
      rw [heq]
      exact ⟨rfl, rfl, fun _ => rfl⟩
  | other =>
    have helse : Elsewhere s.toTasks s'.toTasks := hstep
    have hrest : AtRest s s' := hbeside
    rw [helse.nextPid]
    apply LedgerInv.keep h
    intro e he
    left
    rw [hrest.fileDescriptors]
    exact ⟨helse.occupied e, helse.pid e, fun _ => rfl⟩

/-- One well-behaved step keeps the ledger. -/
theorem ledger_step (action : QueueAction) (h : s.Ledger) (hinv : QueueInv s)
    (hok : s.WellBehaved action) (hstep : messaging.step s action s') : s'.Ledger := by
  cases action with
  | MQopen name accessFlags =>
    obtain rfl := hstep
    exact h.opened hinv hok (MQopen_opened s name accessFlags)
  | close fd =>
    obtain ⟨hfd, rfl⟩ := hstep
    exact h.closed hinv hfd (hinv.operateFile_closed hfd 0)
  | task action => exact h.task hinv action hok hstep.1 hstep.2

theorem ledger_boot {mem : Memory} {pages : PageStack} {entries : Nat → PcbEntry}
    {nodes : Nat → Node} (h : Kernel.boot mem pages entries nodes = some s) : s.Ledger := by
  unfold Kernel.boot at h
  split at h
  split at h
  · cases h
  obtain ⟨t, hboot, rfl⟩ := Option.map_eq_some_iff.mp h
  obtain ⟨-, -, -, -, -, hpid, hzero⟩ := Tasks.boot_ok hboot
  have hfree : ∀ e, e < pcbEntries → (t.pcb.entries e).occupied = 0 := by
    intro e he
    rw [hzero e he]
    rfl
  refine ⟨⟨?_, ?_, ?_⟩, ?_, ?_, ?_, ?_, ?_⟩
  · show 0 < t.pcb.nextPid.toNat
    rw [hpid]
    decide
  · intro e he ho
    exact absurd (hfree e he) ho
  · intro e _ he _ ho
    exact absurd (hfree e he) ho
  · intro i _ hlive
    exact absurd rfl hlive
  · intro i _ hlive
    exact absurd rfl hlive
  · intro i _ hlive
    exact absurd rfl hlive
  · intro i _ _
    exact .inl rfl
  · intro e i he _
    show (t.pcb.entries e).fileDescriptors.links i = _
    rw [hzero e he, if_neg (fun hand => hand.1 rfl)]
    exact links_zero i

/-- In every state of a well-behaved run. -/
theorem ledger (h : (messaging.restrict WellBehaved).Reachable s) : QueueInv s ∧ s.Ledger := by
  apply h.invariant (fun s => QueueInv s ∧ s.Ledger)
  · intro s h
    obtain ⟨mem, pages, entries, nodes, hboot⟩ := h
    exact ⟨queueInv_boot hboot, ledger_boot hboot⟩
  · rintro s action s' ⟨hinv, hledger⟩ ⟨hok, hstep⟩
    exact ⟨queueInv_step action hinv hstep, ledger_step action hledger hinv hok hstep⟩

end Kernel

end TP2Kernel
