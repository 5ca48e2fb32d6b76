import TP2Kernel.FileManager.Calls
import TP2Kernel.MessageQueue.Delivery

/-! # Byte by byte and in bulk (`Userland/c/mq.c`)

    `MQreceive` and `MQsend` make one system call for each byte, `read` and `write` one for all.
    Through a descriptor with `F_NOBLOCK` both transfer what the queue has, or has room for.
-/

namespace TP2Kernel

namespace FilesTable

/-- The table after `n` calls of `basicFileReadChar`. -/
def afterReads (mem : Memory) (file : BasicFile) : Nat → FilesTable → FilesTable
  | 0, t => t
  | n + 1, t => afterReads mem file n (t.basicFileReadChar mem file).2

/-- Table and memory after the characters have been written one by one. -/
def afterWrites (file : BasicFile) : List UInt8 → FilesTable → Memory → FilesTable × Memory
  | [], t, mem => (t, mem)
  | c :: cs, t, mem =>
    afterWrites file cs (t.basicFileWriteChar mem c file).2.1 (t.basicFileWriteChar mem c file).2.2

end FilesTable

namespace Kernel

/-! ### The calls of a process -/

/-- `MQ_RECEIVE`: the result of `read` goes into an `int8_t`. -/
def MQreceiveChar (s : Kernel) (descriptor : UInt64) (buff : Buffer) (dest fuel : Nat) :
    Option (Returned × Buffer) :=
  (s.read descriptor buff dest 1 fuel).map fun (r, buff) =>
    ({ r with result := (Int8.ofInt r.result).toInt }, buff)

/-- The loop of `MQreceive` from `result` on, with `left` rounds to the end of the buffer; each
    system call may take `fuel` steps. -/
def MQreceiveFrom (descriptor : UInt64) (fuel : Nat) :
    Nat → Kernel → Nat → Nat → Buffer → Option (Returned × Buffer)
  | 0, s, result, yields, buff => some (⟨result, yields, s⟩, buff)
  | left + 1, s, result, yields, buff =>
    match s.MQreceiveChar descriptor buff result fuel with
    | none => none
    | some (recv, buff) =>
      if recv.result = 0 then some (⟨result, yields + recv.yields, recv.kernel⟩, buff)
      else if recv.result = -1 then
        some (⟨if result = 0 then -1 else result, yields + recv.yields, recv.kernel⟩, buff)
      else MQreceiveFrom descriptor fuel left recv.kernel (result + 1) (yields + recv.yields) buff

def MQreceive (s : Kernel) (descriptor : UInt64) (buff : Buffer) (buffLen fuel : Nat) :
    Option (Returned × Buffer) :=
  MQreceiveFrom descriptor fuel buffLen s 0 0 buff

/-- `MQ_SEND`. -/
def MQsendChar (s : Kernel) (descriptor : UInt64) (src : UInt8) (fuel : Nat) : Option Returned :=
  (s.write descriptor [src] fuel).map fun r =>
    { r with result := (Int8.ofInt r.result).toInt }

/-- The loop of `MQsend` from `result` on, with the rest of the message. -/
def MQsendFrom (descriptor : UInt64) (fuel : Nat) :
    List UInt8 → Kernel → Nat → Nat → Option Returned
  | [], s, result, yields => some ⟨result, yields, s⟩
  | c :: msg, s, result, yields =>
    match s.MQsendChar descriptor c fuel with
    | none => none
    | some send =>
      if send.result = 0 then some ⟨result, yields + send.yields, send.kernel⟩
      else if send.result = -1 then
        some ⟨if result = 0 then -1 else result, yields + send.yields, send.kernel⟩
      else MQsendFrom descriptor fuel msg send.kernel (result + 1) (yields + send.yields)

def MQsend (s : Kernel) (descriptor : UInt64) (msg : List UInt8) (fuel : Nat) : Option Returned :=
  MQsendFrom descriptor fuel msg s 0 0

/-! ### A queue that does not block -/

/-- Process `current` has the turn, and its descriptor `fd`, which does not block, is of a queue
    of `n` bytes that holds `l`. -/
structure NoBlockEnd (s : Kernel) (current : Nat) (fd : UInt64) (i f n : Nat) (l : List UInt8) :
    Prop where
  turn : s.sched.current = some current
  endAt : s.EndAt (s.sched.nodes current).PCBIndex fd i
  noBlock : (s.descriptor (s.sched.nodes current).PCBIndex fd).flags &&& F_NOBLOCK ≠ 0
  file : (s.mqs i).file = some f
  contents : s.files.Contents s.mem f n l

def withFiles (s : Kernel) (files : FilesTable) (mem : Memory) : Kernel :=
  { s with files := files, mem := mem }

def withState (s : Kernel) (current : Nat) (state : State) : Kernel :=
  { s with sched := s.sched.setState current state }

variable {s : Kernel} {current : Nat} {fd : UInt64} {i f n : Nat} {l l' : List UInt8}

/-- Only the last state of the caller is left. -/
theorem withState_again (state state' : State) (files : FilesTable) (mem : Memory) :
    ((s.withState current state).withFiles files mem).withState current state' =
      (s.withFiles files mem).withState current state' := by
  simp [Kernel.withState, Kernel.withFiles]

/-- After calls one by one, the last of which may change nothing, the caller is `RUNNING` once. -/
theorem running_once (s : Kernel) (current : Nat) {p : Prop} [Decidable p]
    {files files' : FilesTable} {mem mem' : Memory} (hlast : p → files' = files ∧ mem' = mem) :
    (if p then (s.withFiles files mem).withState current .RUNNING else
      (((s.withFiles files mem).withState current .RUNNING).withFiles files' mem').withState
        current .RUNNING) = (s.withFiles files' mem').withState current .RUNNING := by
  split
  · next hp =>
    obtain ⟨rfl, rfl⟩ := hlast hp
    rfl
  · rw [withState_again]
    rfl

theorem NoBlockEnd.withFiles (h : s.NoBlockEnd current fd i f n l) {files : FilesTable}
    {mem : Memory} (hl' : files.Contents mem f n l') :
    (s.withFiles files mem).NoBlockEnd current fd i f n l' :=
  ⟨h.turn, h.endAt.congr rfl rfl, h.noBlock, h.file, hl'⟩

theorem NoBlockEnd.withState (h : s.NoBlockEnd current fd i f n l) (state : State) :
    (s.withState current state).NoBlockEnd current fd i f n l := by
  have hindex := s.sched.setState_PCBIndex current state current
  refine ⟨?_, ?_, ?_, h.file, h.contents⟩
  · rw [← h.turn]
    exact s.sched.setState_current current state
  · show Kernel.EndAt _ ((s.sched.setState current state).nodes current).PCBIndex fd i
    rw [hindex]
    exact h.endAt.congr rfl rfl
  · show (s.descriptor ((s.sched.setState current state).nodes current).PCBIndex fd).flags
      &&& F_NOBLOCK ≠ 0
    rw [hindex]
    exact h.noBlock

/-- The caller's descriptor and the slot allow it to read. -/
def CallerReads (s : Kernel) (current : Nat) (fd : UInt64) (i : Nat) : Prop :=
  s.MayRead (s.sched.nodes current).PCBIndex fd i

def CallerWrites (s : Kernel) (current : Nat) (fd : UInt64) (i : Nat) : Prop :=
  s.MayWrite (s.sched.nodes current).PCBIndex fd i

theorem getCurrentPID_withState (state : State) :
    (s.withState current state).getCurrentPID = s.getCurrentPID := by
  show s.pcb.getProcessPID (s.sched.setState current state).getCurrentPCBIndex = _
  rw [Scheduler.setState_getCurrentPCBIndex]
  rfl

theorem CallerReads.withState (h : s.CallerReads current fd i) (state : State) :
    (s.withState current state).CallerReads current fd i := by
  constructor
  · show s.pcb.hasPermissions ((s.sched.setState current state).nodes current).PCBIndex fd _ ≠ 0
    rw [Scheduler.setState_PCBIndex]
    exact h.1
  · rw [getCurrentPID_withState]
    exact h.2

theorem CallerWrites.withState (h : s.CallerWrites current fd i) (state : State) :
    (s.withState current state).CallerWrites current fd i := by
  constructor
  · show s.pcb.hasPermissions ((s.sched.setState current state).nodes current).PCBIndex fd _ ≠ 0
    rw [Scheduler.setState_PCBIndex]
    exact h.1
  · rw [getCurrentPID_withState]
    exact h.2

/-- The call finds its descriptor, and does not block. -/
theorem NoBlockEnd.waitForIO (h : s.NoBlockEnd current fd i f n l) : s.waitForIO fd =
    some (⟨current, (s.sched.nodes current).PCBIndex, fd, false⟩, s.withState current .SLEPT) := by
  rw [h.endAt.openEntry.waitForIO h.turn]
  simp only [ioCall, decide_eq_false h.noBlock]
  rfl

/-! ### The loop of `read` -/

/-- The call through descriptor `fd`. -/
def noBlockCall (s : Kernel) (current : Nat) (fd : UInt64) : IOCall :=
  ⟨current, (s.sched.nodes current).PCBIndex, fd, false⟩

theorem noBlockCall_withState (state : State) :
    (s.withState current state).noBlockCall current fd = s.noBlockCall current fd := by
  simp [noBlockCall, Kernel.withState]

/-- An empty queue ends the call, and so do enough bytes. -/
theorem NoBlockEnd.inputStep_last (h : s.NoBlockEnd current fd i f n l) {maxBytes readData : Nat}
    (hlast : maxBytes ≤ readData ∨ l = []) :
    s.inputStep (.test (s.noBlockCall current fd) maxBytes readData) =
      (s.withState current .RUNNING, .idle, none) := by
  by_cases hlt : readData < maxBytes
  · have hempty : l = [] := hlast.resolve_left (Nat.not_le.mpr hlt)
    have htest := operateFile_isEmpty (c := 0) h.endAt h.file
    rw [if_pos (h.contents.isEmpty_iff.mpr hempty)] at htest
    simp [Kernel.inputStep, hlt, noBlockCall, htest, endWait, Kernel.withState]
  · simp [Kernel.inputStep, hlt, noBlockCall, endWait, Kernel.withState]

/-- A byte that waits passes the test. -/
theorem NoBlockEnd.inputStep_test {a : UInt8} (h : s.NoBlockEnd current fd i f n (a :: l))
    {maxBytes readData : Nat} (hlt : readData < maxBytes) :
    s.inputStep (.test (s.noBlockCall current fd) maxBytes readData) =
      (s, .read (s.noBlockCall current fd) maxBytes readData, none) := by
  have htest := operateFile_isEmpty (c := 0) h.endAt h.file
  rw [if_neg (by rw [h.contents.isEmpty_iff]; exact List.cons_ne_nil a l)] at htest
  simp [Kernel.inputStep, hlt, noBlockCall, htest]

/-- The first byte is taken, whichever it is: only a line of the terminal ends a call. -/
theorem NoBlockEnd.inputStep_read {a : UInt8} (h : s.NoBlockEnd current fd i f n (a :: l))
    (hmay : s.CallerReads current fd i) (maxBytes readData : Nat) :
    s.inputStep (.read (s.noBlockCall current fd) maxBytes readData) =
      (s.withFiles (s.files.basicFileReadChar s.mem (some f)).2 s.mem,
        .test (s.noBlockCall current fd) maxBytes (readData + 1), some a) := by
  obtain ⟨files, hread, -⟩ := h.contents.read
  have htransfer := operateFile_read (c := 0) h.endAt h.file hread
  rw [if_pos (show s.MayRead _ fd i from hmay), toChar_toInt] at htransfer
  have htype : s.pcb.getFileType (s.sched.nodes current).PCBIndex fd ≠ FileType.STDIN_.code := by
    have heq : s.pcb.getFileType (s.sched.nodes current).PCBIndex fd =
        FileType.MESSAGE_QUEUE.code := by
      simp only [Pcb.getFileType, h.endAt.good]
      exact h.endAt.fileType
    rw [heq]
    decide
  simp [Kernel.inputStep, noBlockCall, htransfer, htype, hread, Kernel.withFiles]

/-- **One call of `read`**: it takes the bytes from the front, as many as were asked for. -/
theorem NoBlockEnd.waitForInput (h : s.NoBlockEnd current fd i f n l)
    (hmay : s.CallerReads current fd i) (m start readData yields : Nat) (buffer : Buffer)
    {fuel : Nat} (hfuel : 2 * min m l.length + 2 ≤ fuel) :
    waitForInput start s buffer readData yields fuel
        (.test (s.noBlockCall current fd) (readData + m) readData) =
      some (⟨(readData + min m l.length : Nat), yields,
          (s.withFiles (FilesTable.afterReads s.mem (some f) (min m l.length) s.files)
            s.mem).withState current .RUNNING⟩,
        buffer.stored (start + readData) (l.take m)) := by
  induction m generalizing s l readData buffer fuel with
  | zero =>
    obtain ⟨fuel, rfl⟩ := Nat.exists_eq_add_of_le' (Nat.le_of_add_left_le hfuel)
    have hlast := h.inputStep_last (.inl (show readData + 0 ≤ readData from Nat.le_refl _))
    rw [waitForInput_none (by simp) hlast]
    simp [Kernel.waitForInput, Receiving.yields, FilesTable.afterReads, Buffer.stored,
      Kernel.withFiles]
  | succ m ih =>
    obtain ⟨fuel, rfl⟩ := Nat.exists_eq_add_of_le' (Nat.le_of_add_left_le hfuel)
    cases l with
    | nil =>
      rw [waitForInput_none (by simp) (h.inputStep_last (.inr rfl))]
      simp [Kernel.waitForInput, Receiving.yields, FilesTable.afterReads, Buffer.stored,
        Kernel.withFiles]
    | cons a l =>
      obtain ⟨files, hread, hafter⟩ := h.contents.read
      have hmin : min (m + 1) (a :: l).length = min m l.length + 1 := Nat.succ_min_succ _ _
      rw [hmin] at hfuel ⊢
      have hnext := ih (h.withFiles hafter) hmay (readData + 1)
        (Function.update buffer (start + readData) a)
        (show 2 * min m l.length + 2 ≤ fuel by omega)
      -- the test, and then the transfer
      rw [waitForInput_none (by simp) (h.inputStep_test (by omega)),
        waitForInput_some (by simp) (h.inputStep_read hmay _ _), hread]
      have hcount : readData + (m + 1) = readData + 1 + m := by omega
      have hresult : readData + 1 + min m l.length = readData + (min m l.length + 1) := by omega
      have hfiles : FilesTable.afterReads s.mem (some f) (min m l.length + 1) s.files =
          FilesTable.afterReads s.mem (some f) (min m l.length) files := by
        simp only [FilesTable.afterReads, hread]
      rw [hcount, hfiles, ← hresult]
      exact hnext

theorem afterReads_contents {files : FilesTable} {mem : Memory} (h : files.Contents mem f n l)
    {m : Nat} (hm : m ≤ l.length) :
    (FilesTable.afterReads mem (some f) m files).Contents mem f n (l.drop m) := by
  induction m generalizing files l with
  | zero => exact h
  | succ m ih =>
    cases l with
    | nil => exact absurd hm (Nat.not_succ_le_zero m)
    | cons a l =>
      obtain ⟨files', hread, hafter⟩ := h.read
      show (FilesTable.afterReads mem (some f) m (files.basicFileReadChar mem (some f)).2).Contents
        mem f n (l.drop m)
      rw [hread]
      exact ih hafter (Nat.le_of_succ_le_succ hm)

theorem NoBlockEnd.read (h : s.NoBlockEnd current fd i f n l)
    (hmay : s.CallerReads current fd i) (buffer : Buffer) (start m : Nat) {fuel : Nat}
    (hfuel : 2 * min m l.length + 2 ≤ fuel) : s.read fd buffer start m fuel =
      some (⟨(min m l.length : Nat), 0,
          (s.withFiles (FilesTable.afterReads s.mem (some f) (min m l.length) s.files)
            s.mem).withState current .RUNNING⟩,
        buffer.stored start (l.take m)) := by
  have hloop := (h.withState .SLEPT).waitForInput (hmay.withState .SLEPT) m start 0 0 buffer hfuel
  rw [noBlockCall_withState, Nat.zero_add, Nat.zero_add, Nat.add_zero] at hloop
  unfold Kernel.read
  rw [h.waitForIO]
  refine hloop.trans ?_
  rw [withState_again]
  rfl

/-! ### The loop of `MQreceive` -/

/-- A call for one byte gets the first one, or none. -/
theorem NoBlockEnd.MQreceiveChar (h : s.NoBlockEnd current fd i f n l)
    (hmay : s.CallerReads current fd i) (buff : Buffer) (dest : Nat) {fuel : Nat}
    (hfuel : 4 ≤ fuel) : s.MQreceiveChar fd buff dest fuel =
      some (⟨(min 1 l.length : Nat), 0,
          (s.withFiles (FilesTable.afterReads s.mem (some f) (min 1 l.length) s.files)
            s.mem).withState current .RUNNING⟩,
        buff.stored dest (l.take 1)) := by
  have hle : min 1 l.length ≤ 1 := Nat.min_le_left 1 l.length
  unfold Kernel.MQreceiveChar
  rw [h.read hmay buff dest 1 (by omega)]
  -- 0 and 1 fit into an `int8_t`
  have hfits : ∀ k : Nat, k ≤ 1 → (Int8.ofInt k).toInt = k := by decide
  simp only [Option.map_some, hfits _ hle]

/-- Call after call, the bytes come as in one call of `read`. -/
theorem NoBlockEnd.MQreceiveFrom (h : s.NoBlockEnd current fd i f n l)
    (hmay : s.CallerReads current fd i) (left result yields : Nat) (buff : Buffer) {fuel : Nat}
    (hfuel : 4 ≤ fuel) : MQreceiveFrom fd fuel left s result yields buff =
      some (⟨(result + min left l.length : Nat), yields, if left = 0 then s else
          (s.withFiles (FilesTable.afterReads s.mem (some f) (min left l.length) s.files)
            s.mem).withState current .RUNNING⟩,
        buff.stored result (l.take left)) := by
  induction left generalizing s l result buff with
  | zero => simp [Kernel.MQreceiveFrom, Buffer.stored]
  | succ left ih =>
    have hone := h.MQreceiveChar hmay buff result hfuel
    cases l with
    | nil =>
      unfold Kernel.MQreceiveFrom
      rw [hone]
      simp [Buffer.stored]
    | cons a l =>
      obtain ⟨files, hread, hafter⟩ := h.contents.read
      have hfiles : ∀ k, FilesTable.afterReads s.mem (some f) (k + 1) s.files =
          FilesTable.afterReads s.mem (some f) k files := by
        intro k
        simp only [FilesTable.afterReads, hread]
      have hmin : ∀ k, min (k + 1) (a :: l).length = min k l.length + 1 :=
        fun k => Nat.succ_min_succ _ _
      rw [hmin, hfiles, Nat.zero_min, Nat.zero_add] at hone
      have hnext := ih ((h.withFiles hafter).withState .RUNNING)
        (CallerReads.withState (s := s.withFiles files s.mem) hmay .RUNNING) (result + 1)
        (Function.update buff result a)
      unfold Kernel.MQreceiveFrom
      rw [hone, hmin, hfiles]
      simp only [FilesTable.afterReads, Nat.cast_one]
      rw [if_neg (by decide), if_neg (by decide), Nat.add_zero, if_neg (Nat.succ_ne_zero left)]
      refine hnext.trans ?_
      -- the state of the caller is `RUNNING` after every call
      have hlast : left = 0 →
          FilesTable.afterReads s.mem (some f) (min left l.length) files = files ∧
            s.mem = s.mem := by
        rintro rfl
        simp [FilesTable.afterReads]
      have hcount : result + 1 + min left l.length = result + (min left l.length + 1) := by omega
      rw [← hcount, ← running_once s current hlast]
      rfl

/-! ### The loop of `write` -/

/-- A full queue ends the call, and so does the end of the buffer. -/
theorem NoBlockEnd.outputStep_last (h : s.NoBlockEnd current fd i f n l) {buffer : List UInt8}
    {writtenData : Nat} (hlast : buffer.length ≤ writtenData ∨ l.length + 1 = n) :
    s.outputStep (.test (s.noBlockCall current fd) buffer writtenData) =
      (s.withState current .RUNNING, .idle, none) := by
  by_cases hlt : writtenData < buffer.length
  · have hfull := hlast.resolve_left (Nat.not_le.mpr hlt)
    have htest := operateFile_isFull (c := 0) h.endAt h.file
    rw [if_pos (h.contents.isFull_iff.mpr hfull)] at htest
    simp [Kernel.outputStep, hlt, noBlockCall, htest, endWait, Kernel.withState]
  · simp [Kernel.outputStep, hlt, noBlockCall, endWait, Kernel.withState]

theorem NoBlockEnd.outputStep_test (h : s.NoBlockEnd current fd i f n l) {buffer : List UInt8}
    {writtenData : Nat} (hlt : writtenData < buffer.length) (hroom : l.length + 1 < n) :
    s.outputStep (.test (s.noBlockCall current fd) buffer writtenData) =
      (s, .write (s.noBlockCall current fd) buffer writtenData, none) := by
  have htest := operateFile_isFull (c := 0) h.endAt h.file
  rw [if_neg (by rw [h.contents.isFull_iff]; exact Nat.ne_of_lt hroom)] at htest
  simp [Kernel.outputStep, hlt, noBlockCall, htest]

/-- The next byte of the buffer goes to the end of the queue. -/
theorem NoBlockEnd.outputStep_write (h : s.NoBlockEnd current fd i f n l)
    (hmay : s.CallerWrites current fd i) (hroom : l.length + 1 < n) (buffer : List UInt8)
    (writtenData : Nat) :
    s.outputStep (.write (s.noBlockCall current fd) buffer writtenData) =
      (s.withFiles
          (s.files.basicFileWriteChar s.mem (buffer.getD writtenData 0) (some f)).2.1
          (s.files.basicFileWriteChar s.mem (buffer.getD writtenData 0) (some f)).2.2,
        .test (s.noBlockCall current fd) buffer (writtenData + 1),
        some (buffer.getD writtenData 0)) := by
  obtain ⟨files, mem, hwrite, -⟩ := h.contents.write hroom (buffer.getD writtenData 0)
  have htransfer := operateFile_write h.endAt h.file hwrite
  rw [if_pos (show s.MayWrite _ fd i from hmay)] at htransfer
  simp only [Kernel.outputStep, noBlockCall, htransfer, hwrite, Kernel.withFiles]
  rfl

theorem afterWrites_contents {files : FilesTable} {mem : Memory} (h : files.Contents mem f n l)
    {cs : List UInt8} (hroom : l.length + cs.length < n) :
    (FilesTable.afterWrites (some f) cs files mem).1.Contents
      (FilesTable.afterWrites (some f) cs files mem).2 f n (l ++ cs) := by
  induction cs generalizing files mem l with
  | nil => simpa [FilesTable.afterWrites] using h
  | cons c cs ih =>
    rw [List.length_cons] at hroom
    obtain ⟨files', mem', hwrite, hafter⟩ := h.write (by omega) c
    have hrest := ih hafter (by rw [List.length_append, List.length_singleton]; omega)
    rw [List.append_assoc, List.singleton_append] at hrest
    simpa only [FilesTable.afterWrites, hwrite] using hrest

/-- Of the bytes that fit, each that is written takes one away. -/
theorem NoBlockEnd.room_succ (h : s.NoBlockEnd current fd i f n l) (hfull : ¬ l.length + 1 = n) :
    ∃ room, n - 1 - l.length = room + 1 ∧ ∀ c, n - 1 - (l ++ [c]).length = room := by
  have hcapacity := h.contents.holds.room
  refine ⟨n - 1 - l.length - 1, by omega, ?_⟩
  intro c
  rw [List.length_append, List.length_singleton]
  omega

/-- **One call of `write`**: it puts bytes at the end, as many as fit. -/
theorem NoBlockEnd.waitForOutput (h : s.NoBlockEnd current fd i f n l)
    (hmay : s.CallerWrites current fd i) (done cs : List UInt8) (yields : Nat) {fuel : Nat}
    (hfuel : 2 * min cs.length (n - 1 - l.length) + 2 ≤ fuel) :
    waitForOutput s done.length yields fuel
        (.test (s.noBlockCall current fd) (done ++ cs) done.length) =
      some ⟨(done.length + min cs.length (n - 1 - l.length) : Nat), yields,
        (s.withFiles
          (FilesTable.afterWrites (some f) (cs.take (n - 1 - l.length)) s.files s.mem).1
          (FilesTable.afterWrites (some f) (cs.take (n - 1 - l.length)) s.files s.mem).2).withState
            current .RUNNING⟩ := by
  have hcapacity := h.contents.holds.room
  induction cs generalizing s l done fuel with
  | nil =>
    obtain ⟨fuel, rfl⟩ := Nat.exists_eq_add_of_le' (Nat.le_of_add_left_le hfuel)
    have hlast := h.outputStep_last (.inl (show (done ++ []).length ≤ done.length by simp))
    rw [waitForOutput_none (by simp) hlast]
    simp [Kernel.waitForOutput, Sending.yields, FilesTable.afterWrites, Kernel.withFiles]
  | cons c cs ih =>
    obtain ⟨fuel, rfl⟩ := Nat.exists_eq_add_of_le' (Nat.le_of_add_left_le hfuel)
    by_cases hfull : l.length + 1 = n
    · have hzero : n - 1 - l.length = 0 := by omega
      rw [waitForOutput_none (by simp) (h.outputStep_last (.inr hfull)), hzero]
      simp [Kernel.waitForOutput, Sending.yields, FilesTable.afterWrites, Kernel.withFiles]
    · have hroom : l.length + 1 < n := by omega
      obtain ⟨room, hleft, hrest⟩ := h.room_succ hfull
      obtain ⟨files, mem, hwrite, hafter⟩ := h.contents.write hroom c
      have hlt : done.length < (done ++ c :: cs).length := by simp
      have hget : (done ++ c :: cs).getD done.length 0 = c := by simp
      have hmin : min (c :: cs).length (room + 1) = min cs.length room + 1 :=
        Nat.succ_min_succ _ _
      rw [hleft, hmin] at hfuel ⊢
      have hnext := ih (h.withFiles hafter) hmay (done ++ [c])
        (show 2 * min cs.length (n - 1 - (l ++ [c]).length) + 2 ≤ fuel by rw [hrest]; omega)
        hafter.holds.room
      rw [waitForOutput_none (by simp) (h.outputStep_test hlt hroom),
        waitForOutput_some (by simp) (h.outputStep_write hmay hroom _ _), hget, hwrite]
      rw [hrest, List.append_assoc, List.singleton_append, List.length_append,
        List.length_singleton] at hnext
      have hcount : done.length + 1 + min cs.length room =
          done.length + (min cs.length room + 1) := by omega
      rw [← hcount, List.take_succ_cons]
      simp only [FilesTable.afterWrites, hwrite]
      exact hnext

theorem NoBlockEnd.write (h : s.NoBlockEnd current fd i f n l)
    (hmay : s.CallerWrites current fd i) (cs : List UInt8) {fuel : Nat}
    (hfuel : 2 * min cs.length (n - 1 - l.length) + 2 ≤ fuel) : s.write fd cs fuel =
      some ⟨(min cs.length (n - 1 - l.length) : Nat), 0,
        (s.withFiles
          (FilesTable.afterWrites (some f) (cs.take (n - 1 - l.length)) s.files s.mem).1
          (FilesTable.afterWrites (some f) (cs.take (n - 1 - l.length)) s.files s.mem).2).withState
            current .RUNNING⟩ := by
  have hloop := (h.withState .SLEPT).waitForOutput (hmay.withState .SLEPT) [] cs 0 hfuel
  rw [noBlockCall_withState, List.nil_append, List.length_nil, Nat.zero_add] at hloop
  unfold Kernel.write
  rw [h.waitForIO]
  refine hloop.trans ?_
  rw [withState_again]
  rfl

/-! ### The loop of `MQsend` -/

theorem NoBlockEnd.MQsendChar (h : s.NoBlockEnd current fd i f n l)
    (hmay : s.CallerWrites current fd i) (c : UInt8) {fuel : Nat} (hfuel : 4 ≤ fuel) :
    s.MQsendChar fd c fuel = some ⟨(min 1 (n - 1 - l.length) : Nat), 0,
      (s.withFiles
        (FilesTable.afterWrites (some f) ([c].take (n - 1 - l.length)) s.files s.mem).1
        (FilesTable.afterWrites (some f) ([c].take (n - 1 - l.length)) s.files s.mem).2).withState
          current .RUNNING⟩ := by
  have hle : min 1 (n - 1 - l.length) ≤ 1 := Nat.min_le_left 1 _
  unfold Kernel.MQsendChar
  rw [h.write hmay [c] (by rw [List.length_singleton]; omega)]
  have hfits : ∀ k : Nat, k ≤ 1 → (Int8.ofInt k).toInt = k := by decide
  simp only [Option.map_some, List.length_singleton, hfits _ hle]

/-- Call after call, the bytes go out as in one call of `write`. -/
theorem NoBlockEnd.MQsendFrom (h : s.NoBlockEnd current fd i f n l)
    (hmay : s.CallerWrites current fd i) (cs : List UInt8) (result yields : Nat) {fuel : Nat}
    (hfuel : 4 ≤ fuel) : MQsendFrom fd fuel cs s result yields =
      some ⟨(result + min cs.length (n - 1 - l.length) : Nat), yields, if cs = [] then s else
        (s.withFiles
          (FilesTable.afterWrites (some f) (cs.take (n - 1 - l.length)) s.files s.mem).1
          (FilesTable.afterWrites (some f) (cs.take (n - 1 - l.length)) s.files s.mem).2).withState
            current .RUNNING⟩ := by
  have hcapacity := h.contents.holds.room
  induction cs generalizing s l result with
  | nil => simp [Kernel.MQsendFrom]
  | cons c cs ih =>
    have hone := h.MQsendChar hmay c hfuel
    by_cases hfull : l.length + 1 = n
    · have hzero : n - 1 - l.length = 0 := by omega
      rw [hzero] at hone ⊢
      unfold Kernel.MQsendFrom
      rw [hone]
      simp
    · have hroom : l.length + 1 < n := by omega
      obtain ⟨room, hleft, hrest⟩ := h.room_succ hfull
      obtain ⟨files, mem, hwrite, hafter⟩ := h.contents.write hroom c
      have hmin : min (c :: cs).length (room + 1) = min cs.length room + 1 :=
        Nat.succ_min_succ _ _
      have hbyte : min 1 (room + 1) = 1 := by omega
      have hnext := ih ((h.withFiles hafter).withState .RUNNING)
        (CallerWrites.withState (s := s.withFiles files mem) hmay .RUNNING) (result + 1)
        hafter.holds.room
      rw [hleft, hbyte] at hone
      rw [hleft, hmin]
      unfold Kernel.MQsendFrom
      rw [hone]
      simp only [List.take_succ_cons, List.take_nil, FilesTable.afterWrites, hwrite, Nat.cast_one]
      rw [if_neg (by decide), if_neg (by decide), Nat.add_zero, if_neg (List.cons_ne_nil c cs)]
      refine hnext.trans ?_
      have hlast : cs = [] →
          (FilesTable.afterWrites (some f) (cs.take room) files mem).1 = files ∧
            (FilesTable.afterWrites (some f) (cs.take room) files mem).2 = mem := by
        rintro rfl
        simp [FilesTable.afterWrites]
      have hcount : result + 1 + min cs.length room = result + (min cs.length room + 1) := by omega
      rw [hrest, ← hcount, ← running_once s current hlast]
      rfl

/-! ### Both give the same -/

/-- **Character-wise and bulk transfers agree.**  With the same rights both return the number of
    bytes that are there, or that fit, and leave the same kernel and the same buffer; no call
    yields. -/
theorem MQreceive_read_MQsend_write (h : s.NoBlockEnd current fd i f n l) :
    ((s.descriptor (s.sched.nodes current).PCBIndex fd).flags &&& F_READ ≠ 0 →
      (s.mqs i).readPID = s.getCurrentPID → ∀ (buffer : Buffer) (m : Nat), 1 ≤ m →
      ∃ s', s'.files.Contents s'.mem f n (l.drop m) ∧ ∀ fuel, 2 * m + 2 ≤ fuel →
        s.read fd buffer 0 m fuel =
          some (⟨(min m l.length : Nat), 0, s'⟩, buffer.stored 0 (l.take m)) ∧
        s.MQreceive fd buffer m fuel = s.read fd buffer 0 m fuel) ∧
    ((s.descriptor (s.sched.nodes current).PCBIndex fd).flags &&& F_WRITE ≠ 0 →
      (s.mqs i).writePID = s.getCurrentPID → ∀ cs : List UInt8, 1 ≤ cs.length →
      ∃ s', s'.files.Contents s'.mem f n (l ++ cs.take (n - 1 - l.length)) ∧
        ∀ fuel, 2 * cs.length + 2 ≤ fuel →
        s.write fd cs fuel = some ⟨(min cs.length (n - 1 - l.length) : Nat), 0, s'⟩ ∧
        s.MQsend fd cs fuel = s.write fd cs fuel) := by
  have hperm := h.endAt.openEntry.hasPermissions_iff
  constructor
  · intro hflag hpid buffer m hm
    have hmay : s.CallerReads current fd i := ⟨hperm.2.mpr hflag, hpid⟩
    have hdrop : l.drop (min m l.length) = l.drop m := by
      rcases Nat.le_total m l.length with hle | hle
      · rw [Nat.min_eq_left hle]
      · rw [Nat.min_eq_right hle, List.drop_length, List.drop_of_length_le hle]
    refine ⟨(s.withFiles (FilesTable.afterReads s.mem (some f) (min m l.length) s.files)
      s.mem).withState current .RUNNING, ?_, ?_⟩
    · rw [← hdrop]
      exact afterReads_contents h.contents (Nat.min_le_right m l.length)
    intro fuel hfuel
    have hread := h.read hmay buffer 0 m (show 2 * min m l.length + 2 ≤ fuel by omega)
    have hreceive := h.MQreceiveFrom hmay m 0 0 buffer (show 4 ≤ fuel by omega)
    rw [if_neg (Nat.ne_of_gt hm), Nat.zero_add] at hreceive
    exact ⟨hread, hreceive.trans hread.symm⟩
  · intro hflag hpid cs hcs
    have hmay : s.CallerWrites current fd i := ⟨hperm.1.mpr hflag, hpid⟩
    have hroom := h.contents.holds.room
    have hfits : l.length + (cs.take (n - 1 - l.length)).length < n := by
      rw [List.length_take]
      omega
    refine ⟨(s.withFiles
      (FilesTable.afterWrites (some f) (cs.take (n - 1 - l.length)) s.files s.mem).1
      (FilesTable.afterWrites (some f) (cs.take (n - 1 - l.length)) s.files s.mem).2).withState
        current .RUNNING, afterWrites_contents h.contents hfits, ?_⟩
    intro fuel hfuel
    have hwrite := h.write hmay cs
      (show 2 * min cs.length (n - 1 - l.length) + 2 ≤ fuel by omega)
    have hsend := h.MQsendFrom hmay cs 0 0 (show 4 ≤ fuel by omega)
    rw [if_neg (List.ne_nil_of_length_pos hcs), Nat.zero_add] at hsend
    exact ⟨hwrite, hsend.trans hwrite.symm⟩

/-- Two bytes go into an empty queue. -/
theorem MQreceive_read_MQsend_write_two : ∃ (s s' : Kernel) (current : Nat) (fd : UInt64)
    (i f : Nat), s.NoBlockEnd current fd i f PAGE_SIZE.toNat [] ∧
    s'.files.Contents s'.mem f PAGE_SIZE.toNat [104, 105] ∧
    s.write fd [104, 105] 6 = some ⟨2, 0, s'⟩ ∧ s.MQsend fd [104, 105] 6 = some ⟨2, 0, s'⟩ := by
  obtain ⟨k, r, w, i, h⟩ := company
  obtain ⟨f, stream, hfile, hf, hnew⟩ := h.file
  obtain ⟨fd, hopened⟩ := Channel.opened_of_company h
    (show (F_WRITE ||| F_NOBLOCK) &&& F_READ = 0 by decide) (by decide)
  obtain ⟨s, hs⟩ : ∃ s, s = (k.MQopen (some (queueName 0)) (F_WRITE ||| F_NOBLOCK)).2 := ⟨_, rfl⟩
  rw [← hs] at hopened
  obtain ⟨current, hcurrent, hturn⟩ := h.current
  have hw : (s.sched.nodes current).PCBIndex = w := by
    rw [hopened.sched]
    exact hturn
  have hpid : (s.mqs i).writePID = s.getCurrentPID := by
    show _ = s.pcb.getProcessPID s.sched.getCurrentPCBIndex
    rw [hopened.slot, hopened.pids, hopened.sched]
    rfl
  have hend : s.NoBlockEnd current fd i f PAGE_SIZE.toNat [] := by
    refine ⟨hopened.sched ▸ hcurrent, ?_, ?_, ?_, ?_⟩
    · rw [hw]
      exact hopened.endAt
    · rw [hw, hopened.flags]
      decide
    · rw [hopened.slot]
      exact hfile
    · exact FilesTable.contents_newEntry hf (hopened.files ▸ hnew)
  have hflag : (s.descriptor (s.sched.nodes current).PCBIndex fd).flags &&& F_WRITE ≠ 0 := by
    rw [hw, hopened.flags]
    decide
  obtain ⟨s', hcontents, hcalls⟩ :=
    (MQreceive_read_MQsend_write hend).2 hflag hpid [104, 105] (by decide)
  obtain ⟨hwrite, hsend⟩ := hcalls 6 (by decide)
  exact ⟨s, s', current, fd, i, f, hend, hcontents, hwrite, hsend.trans hwrite⟩

end Kernel

end TP2Kernel
