import TP2Kernel.MessageQueue.Company
import TP2Kernel.MessageQueue.Transfer

/-! # Every byte arrives, once and in order

    No transfer is refused, whoever ran between the test and the transfer; and as long as
    there is room, or a byte, the two processes can go on.
-/

namespace TP2Kernel

open Transition Scheduler Kernel

/-! ### The begin of a call -/

/-- A process with the turn and a descriptor comes to its loop. -/
theorem Kernel.EndAt.begins {k : Kernel} {fd : UInt64} {i : Nat}
    (h : k.EndAt k.sched.getCurrentPCBIndex fd i) (hcur : k.sched.current ≠ none) :
    ∃ call sched, k.waitForIO fd = some (call, { k with sched := sched }) ∧
      call.Through k.sched.getCurrentPCBIndex fd ∧
      sched.getCurrentPCBIndex = k.sched.getCurrentPCBIndex := by
  obtain ⟨current, heq⟩ := Option.ne_none_iff_exists'.mp hcur
  have hindex : k.sched.getCurrentPCBIndex = (k.sched.nodes current).PCBIndex := by
    unfold Scheduler.getCurrentPCBIndex
    rw [heq]
  have hopen := h.openEntry
  rw [hindex] at hopen
  exact ⟨_, _, hopen.waitForIO heq, ⟨hindex.symm, rfl⟩,
    setState_getCurrentPCBIndex k.sched _ .SLEPT⟩

namespace Channel

variable {c : Channel} {s : Transfer}

/-- With room in the queue, a byte is sent in three steps. -/
theorem sends (h : c.transfer.Reachable s) (hidle : s.sending = .idle)
    (hturn : s.kernel.sched.getCurrentPCBIndex = c.writerIndex)
    (hcur : s.kernel.sched.current ≠ none)
    (hroom : s.sent.length < s.received.length + (PAGE_SIZE.toNat - 1)) (a : UInt8) :
    ∃ s', c.transfer.Reachable s' ∧ s'.sent = s.sent ++ [a] ∧ s'.received = s.received ∧
      s'.receiving = s.receiving := by
  obtain ⟨l, hsent, hcarries, -, -⟩ := transferInv h
  have hlen : l.length + 1 < PAGE_SIZE.toNat := by
    rw [hsent, List.length_append] at hroom
    omega
  obtain ⟨call, sched, hwait, hcall, hsame⟩ :=
    (hturn ▸ hcarries.isOpen.writer :
      s.kernel.EndAt s.kernel.sched.getCurrentPCBIndex c.writerFd c.slot).begins hcur
  rw [hturn] at hcall hsame
  -- the call begins
  have h₁ : c.transfer.Reachable { s with
      kernel := { s.kernel with sched := sched }, sending := .test call [a] 0 } :=
    .step (.write [a]) h (step_write hturn hidle hwait)
  -- the test finds room
  have htest := (hcarries.withSched sched).outputStep_test hlen hcall
    (List.length_pos_of_ne_nil (List.cons_ne_nil a []))
  have h₂ : c.transfer.Reachable { s with
      kernel := { s.kernel with sched := sched }, sending := .write call [a] 0 } := by
    apply System.Reachable.step .writer h₁
    refine ⟨hsame, ?_⟩
    simp [htest]
  -- the byte goes into the queue
  obtain ⟨k', hwrite, -⟩ := (hcarries.withSched sched).write hsame hlen hcall [a] 0
  refine ⟨_, .step .writer h₂ ⟨hsame, rfl⟩, ?_, rfl, rfl⟩
  show s.sent ++ (Kernel.outputStep _ (.write call [a] 0)).2.2.toList = s.sent ++ [a]
  rw [hwrite]
  rfl

/-- With a byte in the queue, one is received in three steps. -/
theorem receives (h : c.transfer.Reachable s) (hidle : s.receiving = .idle)
    (hturn : s.kernel.sched.getCurrentPCBIndex = c.readerIndex)
    (hcur : s.kernel.sched.current ≠ none) (hwaiting : s.received ≠ s.sent) :
    ∃ s' a, c.transfer.Reachable s' ∧ s'.received = s.received ++ [a] ∧ s'.sent = s.sent := by
  obtain ⟨l, hsent, hcarries, -, -⟩ := transferInv h
  have hne : l ≠ [] := by
    rintro rfl
    exact hwaiting (by rw [hsent, List.append_nil])
  obtain ⟨a, l', rfl⟩ := List.exists_cons_of_ne_nil hne
  obtain ⟨call, sched, hwait, hcall, hsame⟩ :=
    (hturn ▸ hcarries.isOpen.reader :
      s.kernel.EndAt s.kernel.sched.getCurrentPCBIndex c.readerFd c.slot).begins hcur
  rw [hturn] at hcall hsame
  have h₁ : c.transfer.Reachable { s with
      kernel := { s.kernel with sched := sched }, receiving := .test call 1 0 } :=
    .step (.read 1) h (step_read hturn hidle hwait)
  -- the test finds the queue not empty
  have htest := (hcarries.withSched sched).inputStep_test hne hcall Nat.one_pos
  have h₂ : c.transfer.Reachable { s with
      kernel := { s.kernel with sched := sched }, receiving := .read call 1 0 } := by
    apply System.Reachable.step .reader h₁
    refine ⟨hsame, ?_⟩
    simp [htest]
  -- the front of the queue is handed out
  obtain ⟨k', p, hread, -, -⟩ := (hcarries.withSched sched).read hsame hcall 1 0
  refine ⟨_, a, .step .reader h₂ ⟨hsame, rfl⟩, ?_, rfl⟩
  show s.received ++ (Kernel.inputStep _ (.read call 1 0)).2.2.toList = s.received ++ [a]
  rw [hread]
  rfl

/-! ### The two processes -/

/-- A descriptor of a queue, as `MQopen` makes it. -/
theorem endAt_of_entry {k : Kernel} {e : UInt64} {fd i : Nat} {flags : UInt32}
    (hgood : k.pcb.badIndex e = false) (hfd : fd < MAX_FILES) (hi : i < MAX_MQS)
    (hentry : (k.pcb.process e).fileDescriptors.entries fd =
      ⟨1, UInt32.ofNat i, FileType.MESSAGE_QUEUE.code, flags⟩) :
    k.EndAt e (UInt64.ofNat fd) i ∧ (k.descriptor e (UInt64.ofNat fd)).flags = flags := by
  have hword : (UInt64.ofNat fd).toNat = fd := by
    apply UInt64.toNat_ofNat_of_lt'
    unfold MAX_FILES at hfd
    show fd < 2 ^ 64
    omega
  have hdesc : k.descriptor e (UInt64.ofNat fd) =
      ⟨1, UInt32.ofNat i, FileType.MESSAGE_QUEUE.code, flags⟩ := by
    unfold Kernel.descriptor
    rw [hword, hentry]
  refine ⟨⟨hgood, by rw [hword]; exact hfd, ?_, ?_, ?_, hi⟩, by rw [hdesc]⟩
  · rw [hdesc]
    show (1 : UInt32) ≠ 0
    decide
  · rw [hdesc]
  · rw [hdesc]
    exact toNat_ofNat_slot hi

/-- Process `w` has opened queue `i` for writing, with descriptor `fd`. -/
structure Opened (k k' : Kernel) (w : UInt64) (i : Nat) (flags : UInt32) (fd : UInt64) :
    Prop where
  endAt : k'.EndAt w fd i
  flags : (k'.descriptor w fd).flags = flags
  badIndex : ∀ e, k'.pcb.badIndex e = k.pcb.badIndex e
  others : ∀ e : UInt64, e.toNat ≠ w.toNat →
    (k'.pcb.process e).fileDescriptors = (k.pcb.process e).fileDescriptors
  pids : ∀ e, k'.pcb.getProcessPID e = k.pcb.getProcessPID e
  slot : k'.mqs i =
    { k.mqs i with writePID := k.getCurrentPID, links := (k.mqs i).links + 1 }
  files : k'.files = k.files
  sched : k'.sched = k.sched

/-- The second process opens the queue of the first one. -/
theorem opened_of_company {k : Kernel} {r w : UInt64} {i : Nat} (h : Company k r w i)
    {flags : UInt32} (hread : flags &&& F_READ = 0) (hwrite : flags &&& F_WRITE ≠ 0) :
    ∃ fd, Opened k (k.MQopen (some (queueName 0)) flags).2 w i flags fd := by
  obtain ⟨hinv, -⟩ := ledger h.reachable
  have hindex := (hinv.slots.indexOfMQ_iff (queueName 0) i).mpr ⟨h.lt, h.live, h.name⟩
  have hflags : ¬ (flags &&& F_READ = 0 ∧ flags &&& F_WRITE = 0) := fun hno => hwrite hno.2
  have havailable : (k.mqs i).Available flags := by
    unfold MessageQueue.Available
    rw [if_neg (not_not.mpr hread)]
    exact ⟨hwrite, h.writePID⟩
  obtain ⟨-, hlt, hroom⟩ := hinv.room h.room
  obtain ⟨hfd, -⟩ := (hinv.tables _ hlt).1.lowestFree hroom
  rw [MQopen_shared hflags hindex havailable h.room]
  obtain ⟨k', hk'⟩ : ∃ k', k' = (k.setMQ i ((k.mqs i).marked k.getCurrentPID
    flags)).withDescriptor i flags := ⟨_, rfl⟩
  rw [← hk']
  have hentries : ∀ e : UInt64, (k'.pcb.process e).fileDescriptors =
      if e.toNat = w.toNat then (k.pcb.process w).fileDescriptors.insert
        ⟨1, UInt32.ofNat i, FileType.MESSAGE_QUEUE.code, flags⟩
      else (k.pcb.process e).fileDescriptors := by
    intro e
    rw [hk', ← h.turn]
    exact setFds_fileDescriptors e.toNat
  obtain ⟨fd, hends, hfdflags⟩ : ∃ fd, k'.EndAt w fd i ∧ (k'.descriptor w fd).flags = flags := by
    rw [h.turn] at hfd
    refine ⟨_, endAt_of_entry (hk' ▸ h.goodW) hfd h.lt ?_⟩
    rw [hentries, if_pos rfl, FileDescriptorsMap.insert_entries]
    exact if_pos rfl
  refine ⟨fd, hends, hfdflags, fun e => hk' ▸ rfl, ?_, ?_, ?_, ?_, ?_⟩
  · intro e hne
    rw [hentries, if_neg hne]
  · intro e
    rw [hk']
    show (if k.pcb.badIndex e then _ else (setFds k.pcb.entries _ _ e.toNat).pid) = _
    rw [setFds_pid]
    rfl
  -- the mark goes beside the one that is there
  · rw [hk']
    simp only [withDescriptor, setMQ_mqs, Function.update_self, Function.update_idem,
      MessageQueue.marked, if_neg (not_not.mpr hread)]
  · rw [hk']
    rfl
  · rw [hk']
    rfl

theorem channel_of_company {k : Kernel} {r w : UInt64} {i : Nat} (h : Company k r w i) :
    ∃ c : Channel, c.Start ⟨(k.MQopen (some (queueName 0)) F_WRITE).2, .idle, .idle, [], []⟩ ∧
      c.writerIndex = w ∧ c.readerIndex = r ∧
      ((k.MQopen (some (queueName 0)) F_WRITE).2.descriptor c.writerIndex c.writerFd).flags =
        F_WRITE ∧
      ((k.MQopen (some (queueName 0)) F_WRITE).2.descriptor c.readerIndex c.readerFd).flags =
        F_READ := by
  obtain ⟨fd, hfdr, hreads⟩ := h.descriptor
  obtain ⟨f, stream, hfile, hf, hnew⟩ := h.file
  have hne : r.toNat ≠ w.toNat := by
    intro heq
    exact h.pids (congrArg k.pcb.getProcessPID (UInt64.toNat_inj.mp heq).symm)
  obtain ⟨writerFd, hopened⟩ :=
    opened_of_company h (show F_WRITE &&& F_READ = 0 by decide) (by decide)
  obtain ⟨k', hk'⟩ : ∃ k', k' = (k.MQopen (some (queueName 0)) F_WRITE).2 := ⟨_, rfl⟩
  rw [← hk'] at hopened ⊢
  have hgood : k'.pcb.badIndex r = false := (hopened.badIndex r).trans h.goodR
  obtain ⟨readerFd, hreader, hrflags⟩ : ∃ readerFd, k'.EndAt r readerFd i ∧
      (k'.descriptor r readerFd).flags = F_READ := by
    refine ⟨_, endAt_of_entry hgood hfdr h.lt ?_⟩
    rw [hopened.others r hne]
    exact hreads
  have hends : Open ⟨i, w, writerFd, r, readerFd⟩ k' := by
    refine ⟨hopened.endAt, hreader, ?_, ?_, ?_, ?_⟩
    · show (k'.descriptor w writerFd).flags &&& F_WRITE ≠ 0
      rw [hopened.flags]
      decide
    · show (k'.descriptor r readerFd).flags &&& F_READ ≠ 0
      rw [hrflags]
      decide
    · show (k'.mqs i).writePID = k'.pcb.getProcessPID w
      rw [hopened.slot, hopened.pids, ← h.turn]
      rfl
    · show (k'.mqs i).readPID = k'.pcb.getProcessPID r
      rw [hopened.slot, hopened.pids]
      exact h.readPID
  have hfile' : (k'.mqs i).file = some f := by
    rw [hopened.slot]
    exact hfile
  exact ⟨_, ⟨rfl, rfl, rfl, hends, f, hfile',
    FilesTable.contents_newEntry hf (hopened.files ▸ hnew)⟩, rfl, rfl, hopened.flags, hrflags⟩

theorem start_of_company {k : Kernel} {r w : UInt64} {i : Nat} (h : Company k r w i) :
    ∃ c : Channel, c.Start ⟨(k.MQopen (some (queueName 0)) F_WRITE).2, .idle, .idle, [], []⟩ ∧
      c.writerIndex = w ∧ c.readerIndex = r := by
  obtain ⟨c, hstart, hw, hr, -, -⟩ := channel_of_company h
  exact ⟨c, hstart, hw, hr⟩

/-- At any time what was received is a prefix of what was sent, and the rest fits into the
    queue. -/
theorem received_prefix_sent {s : Transfer} (h : c.transfer.Reachable s) :
    s.received <+: s.sent ∧
    s.sent.length ≤ s.received.length + (PAGE_SIZE.toNat - 1) := by
  obtain ⟨l, hsent, hcarries, -, -⟩ := transferInv h
  obtain ⟨f, -, hl⟩ := hcarries.file
  have hroom := hl.holds.room
  refine ⟨⟨l, hsent.symm⟩, ?_⟩
  rw [hsent, List.length_append]
  omega

/-- A byte is written and read. -/
theorem received_prefix_sent_one_byte : ∃ (c : Channel) (s : Transfer),
    c.transfer.Reachable s ∧ s.sent = [65] ∧ s.received = [65] ∧ s.received <+: s.sent ∧
      s.sent.length ≤ s.received.length + (PAGE_SIZE.toNat - 1) := by
  obtain ⟨k, r, w, i, h⟩ := company
  obtain ⟨hinv, -⟩ := ledger h.reachable
  obtain ⟨c, hstart, hw, hr⟩ := start_of_company h
  obtain ⟨sched, hother⟩ := h.otherTurn
  have hsched := MQopen_sched k (some (queueName 0)) F_WRITE
  have hturn : k.sched.getCurrentPCBIndex = c.writerIndex := h.turn.trans hw.symm
  have hgood : k.pcb.badIndex k.sched.getCurrentPCBIndex = false := by
    rw [h.turn]
    exact h.goodW
  have hgood' : k.pcb.badIndex sched.getCurrentPCBIndex = false := by
    rw [hother]
    exact h.goodR
  obtain ⟨s₁, h₁, hsent, hreceived, hidle⟩ := sends (.init hstart) rfl
    (by rw [hsched]; exact hturn) (by rw [hsched]; exact hinv.tasks.current_of_good hgood)
    (show 0 < 0 + (PAGE_SIZE.toNat - 1) by decide) 65
  -- the other process gets the turn
  have h₂ : c.transfer.Reachable { s₁ with kernel := { s₁.kernel with sched := sched } } :=
    .step .preempt h₁ ⟨{ s₁.kernel.toTasks with sched := sched },
      ⟨rfl, rfl, rfl, rfl, rfl, fun _ => ⟨_, rfl⟩⟩, rfl⟩
  have hwaiting : s₁.received ≠ s₁.sent := by
    rw [hsent, hreceived]
    exact (List.cons_ne_nil 65 []).symm
  obtain ⟨s₃, a, h₃, hreceived₃, hsent₃⟩ := receives h₂ hidle (hother.trans hr.symm)
    (hinv.tasks.current_of_good hgood') hwaiting
  have hfinal := received_prefix_sent h₃
  have hsixtyFive : s₃.sent = [65] := hsent₃.trans hsent
  have hone : s₃.received = [a] := by
    rw [hreceived₃]
    show s₁.received ++ [a] = [a]
    rw [hreceived]
    rfl
  refine ⟨c, s₃, h₃, hsixtyFive, ?_, hfinal⟩
  rw [hone]
  have hprefix := hfinal.1
  rw [hone, hsixtyFive] at hprefix
  simpa using hprefix

end Channel

end TP2Kernel
