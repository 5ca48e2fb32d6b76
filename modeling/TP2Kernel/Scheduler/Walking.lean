import TP2Kernel.Scheduler.Refinement

/-! # A walk along the ring while others have the turn

    A process can be interrupted while it follows the `next` pointers of the ring, and the
    node it has come to can be taken off the ring meanwhile.  The way back to its own node
    stays open: it gets shorter by the nodes that left, and it misses nobody.
-/

namespace TP2Kernel

open Transition Scheduler LinkedRing

/-- `getProcessPID(node->PCBIndex)`. -/
def Tasks.pidOf (t : Tasks) (node : Nat) : UInt64 :=
  t.pcb.getProcessPID (t.sched.nodes node).PCBIndex

variable {t t' : Tasks} {q xs : List Nat} {a c f l : Nat}

/-! ### Removing nodes -/

/-- Dequeueing the front takes it off the way to any other node. -/
theorem path_dequeued {s : Scheduler} (hfront : (s.nodes l).next = f) (hfc : f ≠ c)
    (h : Path s.next a xs c) :
    ∃ ys, Path (s.dequeued l).next a ys c ∧ ys.Sublist xs ∧ ∀ x ∈ xs, x ≠ f → x ∈ ys := by
  by_cases hfl : f = l
  · -- the ring had one node, and no pointer is written
    have hsame : (s.dequeued l).next = s.next := by
      funext x
      simp [Scheduler.next, Scheduler.dequeued, detachNode, hfront, hfl]
    rw [hsame]
    exact ⟨xs, h, List.Sublist.refl xs, fun x hx _ => hx⟩
  · refine h.skip hfc hfl hfront ?_ ?_
    · simp [Scheduler.next, Scheduler.dequeued, detachNode, hfront, Ne.symm hfl]
    · intro x hx
      simp [Scheduler.next, Scheduler.dequeued, detachNode, hfront, Ne.symm hfl, hx]

/-- The removal of the finished nodes at the front, when `c` is not among them. -/
theorem nextProcessRecursive_path {fuel : Nat} {rsp : Addr} (h : RingInv t.sched q)
    (hheap : t.NoHeap q) (hc : c ∈ q.dropWhile t.sched.isFinished)
    (hrec : t.nextProcessRecursive fuel = some (rsp, t')) (hpath : Path t.sched.next a xs c) :
    ∃ ys, Path t'.sched.next a ys c ∧ ys.Sublist xs ∧
      ∀ x ∈ xs, x ∉ q.takeWhile t.sched.isFinished → x ∈ ys := by
  induction q generalizing t fuel xs with
  | nil => simp at hc
  | cons f r ih =>
    cases fuel with
    | zero => simp [Tasks.nextProcessRecursive] at hrec
    | succ fuel =>
      by_cases hfin : t.sched.isFinished f = true
      · obtain ⟨l, hfront, hring, hstep⟩ :=
          Tasks.nextProcessRecursive_finished h hheap hfin fuel
        rw [List.dropWhile_cons_of_pos hfin] at hc
        rw [List.takeWhile_cons_of_pos hfin]
        have hcr : c ∈ r := (List.dropWhile_sublist _).subset hc
        have hfc : f ≠ c := by
          rintro rfl
          exact (List.nodup_cons.mp h.ring.nodup).1 hcr
        rw [hstep, if_neg (List.ne_nil_of_mem hcr)] at hrec
        -- the front goes, then the other finished ones
        obtain ⟨ys, hys, hsub, hkeep⟩ := path_dequeued hfront hfc hpath
        obtain ⟨zs, hzs, hsub', hkeep'⟩ :=
          ih hring (hheap.withoutFront l) (by rwa [Tasks.withoutFront_isFinished]) hrec hys
        refine ⟨zs, hzs, hsub'.trans hsub, fun x hx hstays => ?_⟩
        obtain ⟨hxf, hxr⟩ := not_or.mp (mt List.mem_cons.mpr hstays)
        exact hkeep' x (hkeep x hx hxf) (by rwa [Tasks.withoutFront_isFinished])
      · rw [Tasks.nextProcessRecursive_unfinished h hfin] at hrec
        obtain ⟨-, rfl⟩ := Prod.mk.inj (Option.some.inj hrec)
        exact ⟨xs, hpath, List.Sublist.refl xs, fun x hx _ => hx⟩

theorem nextProcess_path {currentRSP rsp : Addr} (h : TaskInv t (f :: q))
    (hc : c ∈ nextQueue t.sched (f :: q))
    (hnext : t.nextProcess currentRSP = some (rsp, t')) (hpath : Path t.sched.next a xs c) :
    ∃ ys, Path t'.sched.next a ys c ∧ ys.Sublist xs ∧
      ∀ x ∈ xs, x ∈ nextQueue t.sched (f :: q) → x ∈ ys := by
  have hrot := taskInv_rotate h currentRSP
  have hqueue : nextQueue t.sched (f :: q) = (q ++ [f]).dropWhile t.sched.isFinished := by
    simp [nextQueue]
  rw [Tasks.nextProcess, h.ring.current_eq h.running] at hnext
  rw [hqueue] at hc ⊢
  -- moving the tail pointer on writes no node
  have hsame : (t.rotate f currentRSP).sched.next = t.sched.next := by
    funext x
    simp [Scheduler.next]
  obtain ⟨ys, hys, hsub, hkeep⟩ := nextProcessRecursive_path hrot.ring hrot.noHeap_queue
    (by simpa using hc) hnext (hsame ▸ hpath)
  refine ⟨ys, hys, hsub, fun x hx hstays => hkeep x hx ?_⟩
  rw [Tasks.rotate_isFinished]
  intro hleaves
  have hnd := hrot.ring.ring.nodup
  rw [← List.takeWhile_append_dropWhile (p := t.sched.isFinished) (l := q ++ [f])] at hnd
  exact List.disjoint_of_nodup_append hnd hleaves hstays

/-! ### What a walk can rely on -/

/-- A step of the others after which the walk to `c` goes on.  No node gets a pid it did
    not have: the node of a process that is gone reads 0. -/
structure Undisturbed (c : Nat) (t t' : Tasks) : Prop where
  queue : ∀ i ∈ t'.sched.queue, i ∈ t.sched.queue
  pid : ∀ i, t'.pidOf i = t.pidOf i ∨ t'.pidOf i = 0
  pid_of_mem : ∀ i ∈ t'.sched.queue, t'.pidOf i = t.pidOf i
  path : ∀ a xs, Path t.sched.next a xs c → ∃ ys, Path t'.sched.next a ys c ∧
    ys.Sublist xs ∧ ∀ x ∈ xs, x ∈ t'.sched.queue → x ∈ ys

/-- Nothing is taken off the ring, and no pid and no pointer is written. -/
theorem undisturbed_of_same (hqueue : t'.sched.queue = t.sched.queue)
    (hpid : ∀ i, t'.pidOf i = t.pidOf i) (hnext : t'.sched.next = t.sched.next) :
    Undisturbed c t t' where
  queue _ hi := hqueue ▸ hi
  pid i := .inl (hpid i)
  pid_of_mem i _ := hpid i
  path _ xs hpath := ⟨xs, hnext ▸ hpath, List.Sublist.refl xs, fun _ hx _ => hx⟩

theorem finishProcess_undisturbed (h : TaskInv t q) :
    Undisturbed c t t.finishProcess.2 := by
  have hqueue := (taskInv_finishProcess h).queue_eq
  cases q with
  | nil =>
    rw [Tasks.finishProcess_empty h.ring]
    exact undisturbed_of_same rfl (fun _ => rfl) rfl
  | cons f q =>
    refine undisturbed_of_same (hqueue.trans h.queue_eq.symm) ?_ ?_
    all_goals rw [Tasks.finishProcess_eq h.ring h.running]
    · intro i
      by_cases hif : i = f <;> simp [Tasks.pidOf, hif]
    · funext i
      by_cases hif : i = f <;> simp [Scheduler.next, hif]

theorem elsewhere_undisturbed (h : TaskInv t q) (helse : Elsewhere t t') :
    Undisturbed c t t' := by
  obtain ⟨nodes, hs, hnodes⟩ := helse.sched
  have hqueue := (taskInv_elsewhere h helse).queue_eq
  refine undisturbed_of_same (hqueue.trans h.queue_eq.symm) ?_ ?_
  · intro i
    have hbad : ∀ k, t'.pcb.badIndex k = t.pcb.badIndex k := by
      intro k
      simp only [Pcb.badIndex, helse.pcb, helse.maxProcesses]
    simp only [Tasks.pidOf, Pcb.getProcessPID, Pcb.process, hbad, helse.pid, hs,
      (hnodes i).1]
  · funext i
    simp only [Scheduler.next, hs, (hnodes i).2.2.1]

theorem nextProcess_undisturbed {currentRSP rsp : Addr} (h : TaskInv t q)
    (hnext : t.nextProcess currentRSP = some (rsp, t')) (hc : c ∈ t'.sched.queue) :
    Undisturbed c t t' := by
  cases q with
  | nil =>
    rw [Tasks.nextProcess_empty h.ring] at hnext
    obtain ⟨-, rfl⟩ := Prod.mk.inj (Option.some.inj hnext)
    exact undisturbed_of_same rfl (fun _ => rfl) rfl
  | cons f q =>
    have hturn := nextProcess_inv h hnext
    have hent := nextProcess_entries h hnext
    have hqueue := hturn.inv.queue_eq
    rw [hqueue] at hc
    refine ⟨?_, ?_, ?_, ?_⟩
    · intro i hi
      rw [hqueue] at hi
      rw [h.queue_eq]
      exact mem_nextQueue hi
    · intro i
      simp only [Tasks.pidOf, Pcb.getProcessPID, hturn.pcbIndex, hturn.badIndex]
      split
      · exact .inl rfl
      -- the entry is cleared, or keeps its pid
      · by_cases hleaves : t.Leaves (t.sched.nodes i).PCBIndex.toNat
        · exact .inr (by rw [Pcb.process, hent.left _ hleaves]; rfl)
        · obtain ⟨stack, heq⟩ := hent.stays _ hleaves
          exact .inl (by rw [Pcb.process, heq]; rfl)
    · intro i hi
      rw [hqueue] at hi
      simp only [Tasks.pidOf, Pcb.getProcessPID, hturn.pcbIndex, hturn.badIndex]
      split
      · rfl
      next hbad =>
        rw [hturn.process i hi (by simpa using hbad), Pcb.process, Tasks.rotate_pid]
        rfl
    · intro a xs hpath
      rw [hqueue]
      exact nextProcess_path h hc hnext hpath

/-- The others do not disturb a walk unless they add a process. -/
theorem undisturbed_step (action : TaskAction) (h : TaskInv t t.sched.queue)
    (hadd : ∀ a, action ≠ .addProcess a) (hstep : scheduling.step t action t')
    (hc : c ∈ t'.sched.queue) : Undisturbed c t t' := by
  cases action with
  | addProcess a => exact absurd rfl (hadd a)
  | finishProcess =>
    obtain rfl := hstep
    exact finishProcess_undisturbed h
  | nextProcess currentRSP =>
    obtain ⟨rsp, hnext⟩ := hstep
    exact nextProcess_undisturbed h hnext hc
  | other => exact elsewhere_undisturbed h hstep

end TP2Kernel
