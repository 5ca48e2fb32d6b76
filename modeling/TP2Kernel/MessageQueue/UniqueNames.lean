import TP2Kernel.MessageQueue.Occupancy
import TP2Kernel.Mutex.Calls
import TP2Kernel.Stdlib.IntToStr

/-! # Names of its own (`MQuniq`)

    `MQuniq` counts up until it comes to a number whose name no queue has.  There are more
    numbers than queues, so it always comes to one, and as long as the counter has not gone
    around once it never returns a name twice.
-/

namespace TP2Kernel

open Transition Kernel

/-! ### Names of numbers -/

theorem uniqName_inj {a b : UInt32} (h : uniqName a = uniqName b) : a = b := by
  have hbytes : (intToStr a.toUInt64).bytes = (intToStr b.toUInt64).bytes :=
    List.append_cancel_left (congrArg CString.bytes h)
  have hword := intToStr_inj (CString.ext hbytes)
  rw [← UInt32.toNat_inj]
  simpa using congrArg UInt64.toNat hword

/-- A prefix of five characters, and at most ten digits. -/
theorem length_uniqName_lt (id : UInt32) : (uniqName id).length < MAX_NAME := by
  have hlt : id.toUInt64.toNat < 10 ^ 10 := by
    rw [UInt32.toNat_toUInt64]
    exact Nat.lt_trans id.toNat_lt (by decide)
  have hdigits : (intToStr id.toUInt64).bytes.length ≤ 10 :=
    length_intToStr_le (by decide) hlt
  show ([47, 109, 113, 47, 117] ++ (intToStr id.toUInt64).bytes : List UInt8).length < MAX_NAME
  rw [List.length_append]
  exact Nat.lt_succ_of_le (Nat.add_le_add_left hdigits 5)

/-- Less than `2 ^ 32` apart, the numbers from `id` on are different. -/
theorem uniqName_add_inj {id : UInt32} {j k : Nat} (hj : j < 2 ^ 32) (hk : k < 2 ^ 32)
    (h : uniqName (id + UInt32.ofNat j) = uniqName (id + UInt32.ofNat k)) : j = k := by
  have hword : UInt32.ofNat j = UInt32.ofNat k := (UInt32.add_right_inj id).mp (uniqName_inj h)
  have hnat := congrArg UInt32.toNat hword
  rwa [UInt32.toNat_ofNat_of_lt' hj, UInt32.toNat_ofNat_of_lt' hk] at hnat

/-! ### One call -/

namespace Mutexes

variable {s s' : Mutexes} {dest : Addr} {startingID : UInt32} {name : CString}

/-- `n` steps of `MQuniq(dest)`, without interruption. -/
def uniqSteps (dest : Addr) (n : Nat) (p : Mutexes × Naming) : Mutexes × Naming :=
  (fun p => p.1.uniqStep dest p.2)^[n] p

theorem uniqSteps_succ (n : Nat) (p : Mutexes × Naming) :
    uniqSteps dest (n + 1) p = uniqSteps dest n (p.1.uniqStep dest p.2) := rfl

theorem uniqSteps_add (m n : Nat) (p : Mutexes × Naming) :
    uniqSteps dest (m + n) p = uniqSteps dest n (uniqSteps dest m p) := by
  rw [Nat.add_comm]
  exact Function.iterate_add_apply _ n m p

/-- The counter after `n` more numbers. -/
def advance (s : Mutexes) (n : Nat) : Mutexes :=
  { s with nextUniqueID := s.nextUniqueID + UInt32.ofNat n }

theorem add_ofNat_succ (id : UInt32) (n : Nat) :
    id + UInt32.ofNat n + 1 = id + UInt32.ofNat (n + 1) := by
  rw [UInt32.add_assoc, UInt32.ofNat_add]
  rfl

theorem advance_succ (n : Nat) : (s.advance n).advance 1 = s.advance (n + 1) := by
  show ({ s with nextUniqueID := s.nextUniqueID + UInt32.ofNat n + 1 } : Mutexes) = _
  rw [add_ofNat_succ]
  rfl

/-- A number whose name is taken is passed over. -/
theorem uniqSteps_taken (hfresh : s.nextUniqueID + 1 ≠ startingID)
    (htaken : s.kernel.indexOfMQ (uniqName (s.nextUniqueID + 1)) ≠ none) :
    uniqSteps dest 3 (s, .next startingID) = (s.advance 1, .next startingID) := by
  obtain ⟨i, hi⟩ := Option.ne_none_iff_exists'.mp htaken
  simp only [uniqSteps_succ 2, uniqStep]
  simp only [uniqSteps_succ 1, uniqStep, if_neg hfresh]
  simp only [uniqSteps_succ 0, uniqStep, hi]
  rfl

theorem uniqSteps_passedOver {k : Nat}
    (htaken : ∀ j, j < k → s.nextUniqueID + UInt32.ofNat (j + 1) ≠ startingID ∧
      s.kernel.indexOfMQ (uniqName (s.nextUniqueID + UInt32.ofNat (j + 1))) ≠ none) :
    uniqSteps dest (3 * k) (s, .next startingID) = (s.advance k, .next startingID) := by
  induction k with
  | zero =>
    show (s, _) = (s.advance 0, _)
    simp [advance]
  | succ k ih =>
    have hnext : (s.advance k).nextUniqueID + 1 = s.nextUniqueID + UInt32.ofNat (k + 1) :=
      add_ofNat_succ _ _
    obtain ⟨hfresh, hname⟩ := htaken k (Nat.lt_succ_self k)
    rw [← hnext] at hfresh hname
    rw [Nat.mul_succ, uniqSteps_add, ih fun j hj => htaken j (Nat.lt_succ_of_lt hj),
      uniqSteps_taken hfresh hname, advance_succ]

/-- A number whose name is free ends the search. -/
theorem uniqSteps_free (hfresh : s.nextUniqueID + 1 ≠ startingID)
    (hfree : s.kernel.indexOfMQ (uniqName (s.nextUniqueID + 1)) = none) :
    uniqSteps dest 3 (s, .next startingID) =
      (s.advance 1, .copy (uniqName (s.nextUniqueID + 1))) := by
  simp only [uniqSteps_succ 2, uniqStep]
  simp only [uniqSteps_succ 1, uniqStep, if_neg hfresh]
  simp only [uniqSteps_succ 0, uniqStep, hfree]
  rfl

/-- The kernel with the name stored. -/
def withName (s : Mutexes) (dest : Addr) (name : CString) : Mutexes :=
  { s with
    kernel.mem := s.kernel.mem.writeBytes dest (name.bytes ++ [0])
    uniqNameMutex := 0 }

theorem uniqSteps_copy : uniqSteps dest 2 (s, .copy name) = (s.withName dest name, .done 0) := rfl

/-- With the mutex free, the search begins at the counter. -/
theorem uniqSteps_start (hmutex : s.uniqNameMutex = 0) : uniqSteps dest 2 (s, .lock) =
    ({ s with uniqNameMutex := 1 }, .next s.nextUniqueID) := by
  have hlock : mutexLock s.uniqNameMutex = (true, 1) := by
    rw [hmutex]
    rfl
  simp only [uniqSteps_succ 1, uniqStep, hlock]
  rfl

/-- `indexOfMQ` finds no queue of a name that no queue has. -/
theorem indexOfMQ_eq_none_iff (h : SlotsInv s.kernel.files s.kernel.mqs s.kernel.numMQs)
    (name : CString) : s.kernel.indexOfMQ name = none ↔
      ∀ i, i < MAX_MQS → s.kernel.Live i → s.kernel.nameOf i ≠ name := by
  rw [Option.eq_none_iff_forall_ne_some]
  constructor
  · intro hnone i hi hlive hname
    exact hnone i ((h.indexOfMQ_iff name i).mpr ⟨hi, hlive, hname⟩)
  · intro hfree i hi
    obtain ⟨hlt, hlive, hname⟩ := (h.indexOfMQ_iff name i).mp hi
    exact hfree i hlt hlive hname

/-- One search passes over at most as many numbers as there are queues.  Each number takes
    three steps. -/
theorem uniqSteps_search (h : SlotsInv s.kernel.files s.kernel.mqs s.kernel.numMQs)
    (hmutex : s.uniqNameMutex = 0) (dest : Addr) :
    ∃ j, j ≤ Counting.count s.kernel.Live MAX_MQS ∧
      uniqSteps dest (3 * (j + 1) + 2) (s, .lock) =
        ({ s with uniqNameMutex := 1 }.advance (j + 1),
          .copy (uniqName (s.nextUniqueID + UInt32.ofNat (j + 1)))) ∧
      ∀ i, i < MAX_MQS → s.kernel.Live i →
        s.kernel.nameOf i ≠ uniqName (s.nextUniqueID + UInt32.ofNat (j + 1)) := by
  have hcount : Counting.count s.kernel.Live MAX_MQS ≤ 256 := Counting.count_le
  -- one of the first numbers has a free name
  obtain ⟨j₀, hj₀, hfree₀⟩ := Counting.exists_unmatched (p := s.kernel.Live) (n := MAX_MQS)
    (f := fun j => uniqName (s.nextUniqueID + UInt32.ofNat (j + 1))) (g := s.kernel.nameOf)
    (fun j k hj hk heq => Nat.succ_injective (uniqName_add_inj (by omega) (by omega) heq))
  have hex : ∃ j, s.kernel.indexOfMQ
      (uniqName (s.nextUniqueID + UInt32.ofNat (j + 1))) = none :=
    ⟨j₀, (indexOfMQ_eq_none_iff h _).mpr hfree₀⟩
  -- and the search stops at the first of them
  have hj : Nat.find hex ≤ j₀ := Nat.find_min' hex ((indexOfMQ_eq_none_iff h _).mpr hfree₀)
  have hfree := Nat.find_spec hex
  have hbefore : ∀ k, k < Nat.find hex → s.kernel.indexOfMQ
      (uniqName (s.nextUniqueID + UInt32.ofNat (k + 1))) ≠ none := fun k hk => Nat.find_min hex hk
  generalize Nat.find hex = j at hj hfree hbefore
  refine ⟨j, by omega, ?_, (indexOfMQ_eq_none_iff h _).mp hfree⟩
  have hround : ∀ k, k ≤ j → s.nextUniqueID + UInt32.ofNat (k + 1) ≠ s.nextUniqueID := by
    intro k hk heq
    have hzero : UInt32.ofNat (k + 1) = 0 := by simpa using heq
    have hnat := congrArg UInt32.toNat hzero
    rw [UInt32.toNat_ofNat_of_lt' (show k + 1 < 2 ^ 32 by omega)] at hnat
    exact Nat.succ_ne_zero k hnat
  have hlast : ({ s with uniqNameMutex := 1 }.advance j : Mutexes).nextUniqueID + 1 =
      s.nextUniqueID + UInt32.ofNat (j + 1) := add_ofNat_succ _ _
  have hsteps : 3 * (j + 1) + 2 = 2 + (3 * j + 3) := by omega
  rw [hsteps, uniqSteps_add, uniqSteps_start hmutex, uniqSteps_add,
    uniqSteps_passedOver (s := { s with uniqNameMutex := 1 })
      (fun k hk => ⟨hround k (by omega), hbefore k hk⟩),
    uniqSteps_free (by rw [hlast]; exact hround j (Nat.le_refl j)) (by rw [hlast]; exact hfree),
    hlast, advance_succ]

/-- What a call of `MQuniq` leaves when it tries `j + 1` numbers. -/
def afterUniq (s : Mutexes) (dest : Addr) (j : Nat) : Mutexes :=
  (s.advance (j + 1)).withName dest (uniqName (s.nextUniqueID + UInt32.ofNat (j + 1)))

end Mutexes

/-! ### Runs -/

open Mutexes

/-- The kernel with the names that `MQuniq` has returned, the last one first, and how far its
    counter has advanced. -/
structure Names extends Mutexes where
  returned : List CString
  advanced : Nat

/-- What a call of `MQuniq` leaves, and the name it stores. -/
inductive Uniq (s : Mutexes) (dest : Addr) : Mutexes → Option CString → Prop where
  | stored (n : Nat) (m : Mutexes) (name : CString) :
      uniqSteps dest n (s, .lock) = (m, .copy name) →
      Uniq s dest (uniqSteps dest 2 (m, .copy name)).1 (some name)
  | failed (n : Nat) (m : Mutexes) : uniqSteps dest n (s, .lock) = (m, .done (-1)) →
      Uniq s dest m none

inductive NameAction where
  | queue (action : QueueAction)
  | MQuniq (dest : Addr)

/-- Message queues are opened and closed, and names are asked for, with any number to start
    from. -/
def naming : System Names NameAction where
  init := fun s => messaging.init s.kernel ∧ s.uniqNameMutex = 0 ∧ s.returned = [] ∧
    s.advanced = 0
  step := fun s action s' =>
    match action with
    | .queue action => ∃ kernel, messaging.step s.kernel action kernel ∧
        s' = { s with kernel := kernel }
    | .MQuniq dest => ∃ m name, Uniq s.toMutexes dest m name ∧
        s' = { toMutexes := m
               returned := name.toList ++ s.returned
               advanced := s.advanced + (m.nextUniqueID - s.nextUniqueID).toNat }

namespace Mutexes

variable {s m : Mutexes} {dest : Addr} {name : CString} {point : Naming}

/-- What the steps of a call know of the state `s` in which it began. -/
def Searching (s m : Mutexes) : Naming → Prop
  | .lock => m.kernel = s.kernel ∧ m.nextUniqueID = s.nextUniqueID ∧
      m.uniqNameMutex = s.uniqNameMutex
  | .start => m.kernel = s.kernel ∧ m.nextUniqueID = s.nextUniqueID
  | .next startingID => m.kernel = s.kernel ∧ startingID = s.nextUniqueID
  | .compare startingID name => m.kernel = s.kernel ∧ startingID = s.nextUniqueID ∧
      name = uniqName m.nextUniqueID
  | .lookup startingID name => m.kernel = s.kernel ∧ startingID = s.nextUniqueID ∧
      name = uniqName m.nextUniqueID ∧ m.nextUniqueID ≠ s.nextUniqueID
  | .copy name => m.kernel = s.kernel ∧ name = uniqName m.nextUniqueID ∧
      m.nextUniqueID ≠ s.nextUniqueID
  | .unlock result => result = -1 → m.kernel = s.kernel
  | .done result => m.uniqNameMutex = 0 ∧ (result = -1 → m.kernel = s.kernel)

theorem searching_step (h : Searching s m point) (hmutex : s.uniqNameMutex = 0) :
    Searching s (m.uniqStep dest point).1 (m.uniqStep dest point).2 := by
  cases point with
  | lock =>
    obtain ⟨hkernel, hid, hlock⟩ := h
    have hfree : mutexLock m.uniqNameMutex = (true, 1) := by
      rw [hlock, hmutex]
      rfl
    simp only [uniqStep, hfree]
    exact ⟨hkernel, hid⟩
  | start => exact ⟨h.1, h.2⟩
  | next startingID => exact ⟨h.1, h.2, rfl⟩
  | compare startingID name =>
    obtain ⟨hkernel, hstart, hname⟩ := h
    by_cases hround : m.nextUniqueID = startingID
    · simp only [uniqStep, if_pos hround]
      exact fun _ => hkernel
    · simp only [uniqStep, if_neg hround]
      exact ⟨hkernel, hstart, hname, hstart ▸ hround⟩
  | lookup startingID name =>
    obtain ⟨hkernel, hstart, hname, hne⟩ := h
    cases hindex : m.kernel.indexOfMQ name with
    | some i =>
      simp only [uniqStep, hindex]
      exact ⟨hkernel, hstart⟩
    | none =>
      simp only [uniqStep, hindex]
      exact ⟨hkernel, hname, hne⟩
  | copy name => exact fun hfail => absurd hfail (by decide)
  | unlock result => exact ⟨rfl, h⟩
  | done result => exact h

theorem searching_steps (dest : Addr) (hmutex : s.uniqNameMutex = 0) (n : Nat) :
    Searching s (uniqSteps dest n (s, .lock)).1 (uniqSteps dest n (s, .lock)).2 := by
  induction n with
  | zero => exact ⟨rfl, rfl, rfl⟩
  | succ n ih =>
    rw [uniqSteps_add]
    exact searching_step ih hmutex

end Mutexes

namespace Names

variable {s s' : Names} {start : UInt32}

/-- The names returned are those of different numbers. -/
structure Inv (start : UInt32) (s : Names) : Prop where
  kernel : messaging.Reachable s.kernel
  mutex : s.uniqNameMutex = 0
  counter : s.nextUniqueID = start + UInt32.ofNat s.advanced
  names : ∃ offsets : List Nat,
    s.returned = offsets.map (fun a => uniqName (start + UInt32.ofNat a)) ∧
    offsets.Pairwise (· > ·) ∧ ∀ a ∈ offsets, a ≤ s.advanced

/-- Storing a name is one of the things that happen between the calls on the queues. -/
theorem reachable_withMem {k : Kernel} (h : messaging.Reachable k) (mem : Memory) :
    messaging.Reachable { k with mem := mem } := by
  refine .step (.task .other) h ⟨?_, ?_⟩
  · exact ⟨⟨_, rfl, fun i => ⟨rfl, rfl, rfl, Iff.rfl⟩⟩, rfl, rfl, rfl, fun _ => rfl, fun _ => rfl,
      fun _ => rfl, fun _ => rfl⟩
  · exact ⟨fun _ => rfl, rfl, rfl, rfl, fun _ => ⟨_, _, rfl⟩, fun _ _ => rfl⟩

/-- The counter goes on from where it was. -/
theorem Inv.counter_add (h : Inv start s) (id : UInt32) :
    id = start + UInt32.ofNat (s.advanced + (id - s.nextUniqueID).toNat) := by
  rw [UInt32.ofNat_add, UInt32.ofNat_toNat, ← UInt32.add_assoc, ← h.counter,
    UInt32.add_comm s.nextUniqueID, UInt32.sub_add_cancel]

theorem inv_step (action : NameAction) (h : Inv start s) (hstep : naming.step s action s') :
    Inv start s' := by
  cases action with
  | queue action =>
    obtain ⟨kernel, hqueue, rfl⟩ := hstep
    exact ⟨.step action h.kernel hqueue, h.mutex, h.counter, h.names⟩
  | MQuniq dest =>
    obtain ⟨m, name, huniq, rfl⟩ := hstep
    obtain ⟨offsets, hnames, hsorted, hle⟩ := h.names
    cases huniq with
    | failed n m hsteps =>
      have hdone := searching_steps dest h.mutex n
      rw [hsteps] at hdone
      obtain ⟨hmutex, hkernel⟩ := hdone
      refine ⟨?_, hmutex, h.counter_add _, offsets, hnames, hsorted, ?_⟩
      · show messaging.Reachable m.kernel
        rw [hkernel rfl]
        exact h.kernel
      · exact fun a ha => Nat.le_trans (hle a ha) (Nat.le_add_right _ _)
    | stored n m name hsteps =>
      have hcopy := searching_steps dest h.mutex n
      rw [hsteps] at hcopy
      obtain ⟨hkernel, hname, hne⟩ := hcopy
      have hcounter := h.counter_add m.nextUniqueID
      -- the number of the name is a later one
      have hpos : 0 < (m.nextUniqueID - s.nextUniqueID).toNat := by
        apply Nat.pos_of_ne_zero
        intro hzero
        apply hne
        have hsub : m.nextUniqueID - s.nextUniqueID = 0 := UInt32.toNat_inj.mp hzero
        rw [← UInt32.sub_add_cancel m.nextUniqueID s.nextUniqueID, hsub, UInt32.zero_add]
      refine ⟨?_, rfl, hcounter,
        (s.advanced + (m.nextUniqueID - s.nextUniqueID).toNat) :: offsets, ?_, ?_, ?_⟩
      · show messaging.Reachable { m.kernel with mem := _ }
        rw [hkernel]
        exact reachable_withMem h.kernel _
      · show name :: s.returned = _
        rw [List.map_cons, ← hcounter, hnames, hname]
      · refine List.pairwise_cons.mpr ⟨?_, hsorted⟩
        intro a ha
        exact Nat.lt_of_le_of_lt (hle a ha) (Nat.lt_add_of_pos_right hpos)
      · intro a ha
        rcases List.mem_cons.mp ha with rfl | ha
        · exact Nat.le_refl _
        · exact Nat.le_trans (hle a ha) (Nat.le_add_right _ _)

theorem inv_reachable (h : naming.Reachable s) : ∃ start, Inv start s := by
  apply h.invariant (fun s => ∃ start, Inv start s)
  · intro s hinit
    obtain ⟨hkernel, hmutex, hreturned, hadvanced⟩ := hinit
    refine ⟨s.nextUniqueID, .init hkernel, hmutex, ?_, [], hreturned, List.Pairwise.nil, ?_⟩
    · rw [hadvanced]
      exact (UInt32.add_zero _).symm
    · exact fun a ha => absurd ha List.not_mem_nil
  · intro s action s' h hstep
    obtain ⟨start, hinv⟩ := h
    exact ⟨start, inv_step action hinv hstep⟩

/-- Numbers less than one round apart have different names. -/
theorem Inv.nodup (h : Inv start s) (hround : s.advanced < 2 ^ 32) : s.returned.Nodup := by
  obtain ⟨offsets, hnames, hsorted, hle⟩ := h.names
  have hnodup : offsets.Nodup := hsorted.imp fun hlt => Nat.ne_of_gt hlt
  rw [hnames]
  refine hnodup.map_on ?_
  intro a ha b hb heq
  exact uniqName_add_inj (Nat.lt_of_le_of_lt (hle a ha) hround)
    (Nat.lt_of_le_of_lt (hle b hb) hround) heq

/-- **`MQuniq` returns a name of its own**: it tries at most one number more than there are
    queues, the name is short and no queue has it, and before the counter has gone around no
    name is returned twice. -/
theorem MQuniq_unique (h : naming.Reachable s) :
    (∀ dest, ∃ j, j ≤ Counting.count s.kernel.Live MAX_MQS ∧
      uniqSteps dest (3 * (j + 1) + 4) (s.toMutexes, .lock) = (s.afterUniq dest j, .done 0) ∧
      (uniqName (s.nextUniqueID + UInt32.ofNat (j + 1))).length < MAX_NAME ∧
      ∀ i, i < MAX_MQS → s.kernel.Live i →
        s.kernel.nameOf i ≠ uniqName (s.nextUniqueID + UInt32.ofNat (j + 1))) ∧
    (s.advanced < 2 ^ 32 → s.returned.Nodup) := by
  obtain ⟨start, hinv⟩ := inv_reachable h
  refine ⟨?_, hinv.nodup⟩
  intro dest
  obtain ⟨j, hj, hsearch, hfree⟩ :=
    uniqSteps_search (queues_inv hinv.kernel).slots hinv.mutex dest
  refine ⟨j, hj, ?_, length_uniqName_lt _, hfree⟩
  rw [show 3 * (j + 1) + 4 = 3 * (j + 1) + 2 + 2 from rfl, uniqSteps_add, hsearch, uniqSteps_copy]
  rfl

/-- Asking for a name is always possible, and takes the counter a little further. -/
theorem reachable_MQuniq (h : naming.Reachable s) (dest : Addr) :
    ∃ s', naming.Reachable s' ∧ (∃ name, s'.returned = name :: s.returned) ∧
      s'.advanced ≤ s.advanced + 257 := by
  obtain ⟨start, hinv⟩ := inv_reachable h
  obtain ⟨j, hj, hsearch, -⟩ := uniqSteps_search (queues_inv hinv.kernel).slots hinv.mutex dest
  have hcount : Counting.count s.kernel.Live MAX_MQS ≤ 256 := Counting.count_le
  refine ⟨_, .step (.MQuniq dest) h ⟨_, _, .stored _ _ _ hsearch, rfl⟩, ⟨_, rfl⟩, ?_⟩
  show s.advanced + (s.nextUniqueID + UInt32.ofNat (j + 1) - s.nextUniqueID).toNat ≤ _
  rw [UInt32.add_comm, UInt32.add_sub_cancel,
    UInt32.toNat_ofNat_of_lt' (show j + 1 < 2 ^ 32 by omega)]
  omega

/-- Two names from the highest number on. -/
theorem MQuniq_unique_two : ∃ s, naming.Reachable s ∧ s.returned.length = 2 ∧
    s.returned.Nodup := by
  obtain ⟨k, hboot, -⟩ :=
    boot_fresh (fun _ => 0) (fun _ => .zero) (fun _ => ⟨0, .RUNNING, 0, 0⟩)
  have h₀ : naming.Reachable ⟨⟨⟨k, 0, 0⟩, 0, 4294967295, 0⟩, [], 0⟩ :=
    .init ⟨⟨_, _, _, _, hboot⟩, rfl, rfl, rfl⟩
  obtain ⟨s₁, h₁, ⟨a, ha⟩, hle₁⟩ := reachable_MQuniq h₀ 0x200000
  obtain ⟨s₂, h₂, ⟨b, hb⟩, hle₂⟩ := reachable_MQuniq h₁ 0x200000
  have hround : s₂.advanced < 2 ^ 32 := by
    have hle := Nat.le_trans hle₂ (Nat.add_le_add_right hle₁ 257)
    exact Nat.lt_of_le_of_lt hle (show 0 + 257 + 257 < 2 ^ 32 by decide)
  refine ⟨s₂, h₂, ?_, (MQuniq_unique h₂).2 hround⟩
  rw [hb, ha]
  rfl

end Names

end TP2Kernel
