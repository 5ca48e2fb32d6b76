import TP2Kernel.FileManager.Calls
import TP2Kernel.FileManager.DescriptorTables
import TP2Kernel.Framework.Framing
import TP2Kernel.Memory.Bytes
import TP2Kernel.MessageQueue.Delivery

/-! # Messages from one process to another (`MQsend` and `MQreceive` in `Userland/c/mq.c`)

    The game, the input receiver and the song player send each other values of `int64_t`.
    `MQsend` and `MQreceive` make a system call for each byte, so that the timer, and the other
    process, can come in between any two of them, and in the middle of each.

    While neither descriptor has `F_NOBLOCK`, a call that has begun goes on to its last byte,
    and no message is torn.
-/

namespace TP2Kernel

open Framing Transition Kernel

/-! ### A message as bytes -/

/-- `(char *) &msg`, with `sizeof(int64_t)` bytes. -/
def longs : Code Int64 UInt8 where
  size := 8
  encode msg := encodeLong msg.toUInt64
  decode bytes := ((imageAt 0 bytes).readWord 0).toInt64
  length_encode _ := length_encodeLong _
  decode_encode msg := by
    have hlies : LiesAt (imageAt 0 (encodeLong msg.toUInt64)) 0 (encodeLong msg.toUInt64) := by
      apply liesAt_imageAt
      rw [length_encodeLong]
      omega
    rw [readWord_encodeLong hlies]
    rfl

/-- The first `n` bytes at `buff`. -/
def Buffer.bytes (buff : Buffer) (n : Nat) : List UInt8 := (List.range n).map buff

/-- A byte that comes in goes to `buff[i]`. -/
def Buffer.put (buff : Buffer) (i : Nat) : Option UInt8 → Buffer
  | none => buff
  | some a => Function.update buff i a

/-- The variable at `buff`, an `int64_t`. -/
def Buffer.long (buff : Buffer) : Int64 := longs.decode (buff.bytes longs.size)

/-! ### The two calls -/

/-- Where a call of `MQsend` is, if there is one: in its loop or inside `MQsendChar`. -/
inductive Sender where
  | idle
  | loop (msg : List UInt8) (result : Nat)
  | call (msg : List UInt8) (result : Nat)

/-- Where a call of `MQreceive` is, if there is one: in its loop or inside `MQreceiveChar`. -/
inductive Receiver where
  | idle
  | loop (buff : Buffer) (result : Nat)
  | call (buff : Buffer) (result : Nat)

/-- The system call is over. -/
def Sending.returned : Sending → Bool
  | .idle => true
  | _ => false

def Receiving.returned : Receiving → Bool
  | .idle => true
  | _ => false

/-- What a system call returns that has no more to do. -/
def Sending.writtenData : Sending → Nat
  | .idle => 0
  | .test _ _ writtenData | .write _ _ writtenData => writtenData

def Receiving.readData : Receiving → Nat
  | .idle => 0
  | .test _ _ readData | .read _ _ readData => readData

/-- The two processes.  `messages` are those whose `MQsend` has begun; of each call that has
    returned, `sent` and `received` have the result, and `received` what is in the variable. -/
structure Exchange where
  transfer : Transfer
  sender : Sender
  receiver : Receiver
  messages : List Int64
  sent : List Int
  received : List (Int × Int64)

namespace Exchange

/-- What was in the variable after each call of `MQreceive`. -/
def delivered (s : Exchange) : List Int64 := s.received.map Prod.snd

def sendReturns (s : Exchange) (result : Int) : Exchange :=
  { s with sender := .idle, sent := s.sent ++ [result] }

/-- `MQsendChar` has returned `sendResult`, an `int8_t`. -/
def sentChar (s : Exchange) (msg : List UInt8) (result : Nat) (sendResult : Int) : Exchange :=
  if sendResult = 0 then s.sendReturns result
  else if sendResult = -1 then s.sendReturns (if result = 0 then -1 else result)
  else { s with sender := .loop msg (result + 1) }

def receiveReturns (s : Exchange) (buff : Buffer) (result : Int) : Exchange :=
  { s with receiver := .idle, received := s.received ++ [(result, buff.long)] }

/-- `MQreceiveChar` has returned `recvResult`. -/
def receivedChar (s : Exchange) (buff : Buffer) (result : Nat) (recvResult : Int) : Exchange :=
  if recvResult = 0 then s.receiveReturns buff result
  else if recvResult = -1 then s.receiveReturns buff (if result = 0 then -1 else result)
  else { s with receiver := .loop buff (result + 1) }

end Exchange

inductive MessageAction where
  | send (msg : Int64)
  | sender
  | receive (msg : Buffer)
  | receiver
  | preempt

namespace Channel

variable (c : Channel)

/-- Neither descriptor has `F_NOBLOCK`. -/
structure Blocking (k : Kernel) : Prop where
  writer : (k.descriptor c.writerIndex c.writerFd).flags &&& F_NOBLOCK = 0
  reader : (k.descriptor c.readerIndex c.readerFd).flags &&& F_NOBLOCK = 0

/-- No call is in progress, and there are only whole messages in the queue. -/
structure Begin (s : Exchange) : Prop where
  start : c.Start s.transfer
  blocking : c.Blocking s.transfer.kernel
  writerIndex : c.writerIndex ≠ -1
  readerIndex : c.readerIndex ≠ -1
  sender : s.sender = .idle
  receiver : s.receiver = .idle
  stream : s.transfer.sent = longs.stream s.messages
  sent : s.sent = []
  received : s.received = []

/-- The loops of `MQsend` and `MQreceive` around the steps of the system calls. -/
def exchange : System Exchange MessageAction where
  init := c.Begin
  step := fun s action s' =>
    match action with
    | .send msg => s.transfer.kernel.sched.getCurrentPCBIndex = c.writerIndex ∧
        s.sender = .idle ∧
        s' = { s with
          sender := .loop (longs.encode msg) 0
          messages := s.messages ++ [msg] }
    | .sender =>
      match s.sender with
      | .idle => False
      | .loop msg result =>
        if result < msg.length then
          ∃ t, c.transfer.step s.transfer (.write [msg.getD result 0]) t ∧
            s' = if t.sending.returned then { s with transfer := t }.sentChar msg result (-1)
              else { s with transfer := t, sender := .call msg result }
        else s.transfer.kernel.sched.getCurrentPCBIndex = c.writerIndex ∧
          s' = s.sendReturns result
      | .call msg result =>
        ∃ t, c.transfer.step s.transfer .writer t ∧
          s' = if t.sending.returned then
              { s with transfer := t }.sentChar msg result
                (Int8.ofInt s.transfer.sending.writtenData).toInt
            else { s with transfer := t }
    | .receive buff => s.transfer.kernel.sched.getCurrentPCBIndex = c.readerIndex ∧
        s.receiver = .idle ∧ s' = { s with receiver := .loop buff 0 }
    | .receiver =>
      match s.receiver with
      | .idle => False
      | .loop buff result =>
        if result < longs.size then
          ∃ t, c.transfer.step s.transfer (.read 1) t ∧
            s' = if t.receiving.returned then
                { s with transfer := t }.receivedChar buff result (-1)
              else { s with transfer := t, receiver := .call buff result }
        else s.transfer.kernel.sched.getCurrentPCBIndex = c.readerIndex ∧
          s' = s.receiveReturns buff result
      | .call buff result =>
        let got := (s.transfer.kernel.inputStep s.transfer.receiving).2.2
        let readData := s.transfer.receiving.readData
        let buff := Buffer.put buff (result + readData) got
        ∃ t, c.transfer.step s.transfer .reader t ∧
          s' = if t.receiving.returned then
              { s with transfer := t }.receivedChar buff result
                (Int8.ofInt (readData + got.toList.length : Nat)).toInt
            else { s with transfer := t, receiver := .call buff result }
    | .preempt => ∃ t, c.transfer.step s.transfer .preempt t ∧ s' = { s with transfer := t }

end Channel

/-! ### The descriptors stay -/

theorem Kernel.outputStep_pcb (k : Kernel) (p : Sending) : (k.outputStep p).1.pcb = k.pcb := by
  cases p with
  | idle => rfl
  | test call buffer writtenData =>
    have hpcb := @Kernel.operateFile_pcb_eq k call.PCBIndex call.fileDescriptor .IS_FULL 0
      (by decide)
    simp only [Kernel.outputStep]
    split
    · split
      · split <;> exact hpcb
      · exact hpcb
    · rfl
  | write call buffer writtenData =>
    have hpcb := @Kernel.operateFile_pcb_eq k call.PCBIndex call.fileDescriptor .WRITE
      (buffer.getD writtenData 0) (by decide)
    simp only [Kernel.outputStep]
    split <;> exact hpcb

theorem Kernel.inputStep_pcb (k : Kernel) (p : Receiving) : (k.inputStep p).1.pcb = k.pcb := by
  cases p with
  | idle => rfl
  | test call maxBytes readData =>
    have hpcb := @Kernel.operateFile_pcb_eq k call.PCBIndex call.fileDescriptor .IS_EMPTY 0
      (by decide)
    simp only [Kernel.inputStep]
    split
    · split
      · split <;> exact hpcb
      · exact hpcb
    · rfl
  | read call maxBytes readData =>
    have hpcb := @Kernel.operateFile_pcb_eq k call.PCBIndex call.fileDescriptor .READ 0
      (by decide)
    simp only [Kernel.inputStep]
    split
    · exact hpcb
    · split <;> exact hpcb

namespace Channel

variable {c : Channel}

theorem transfer_descriptor {s s' : Transfer} {action : TransferAction}
    (h : c.transfer.step s action s') (e fd : UInt64) :
    s'.kernel.descriptor e fd = s.kernel.descriptor e fd := by
  cases action with
  | write buffer =>
    obtain ⟨-, -, hcall⟩ := h
    split at hcall
    · rw [hcall]
    · next call k heq =>
      obtain ⟨-, sched, rfl⟩ := waitForIO_eq heq
      rw [hcall]
      rfl
  | read maxBytes =>
    obtain ⟨-, -, hcall⟩ := h
    split at hcall
    · rw [hcall]
    · next call k heq =>
      obtain ⟨-, sched, rfl⟩ := waitForIO_eq heq
      rw [hcall]
      rfl
  | writer =>
    obtain ⟨-, rfl⟩ := h
    unfold Kernel.descriptor
    rw [Kernel.outputStep_pcb]
  | reader =>
    obtain ⟨-, rfl⟩ := h
    unfold Kernel.descriptor
    rw [Kernel.inputStep_pcb]
  | preempt =>
    obtain ⟨t, hpre, rfl⟩ := h
    show (t.pcb.entries e.toNat).fileDescriptors.entries fd.toNat = _
    rw [hpre.fileDescriptors]
    rfl

theorem Blocking.transferred {s s' : Transfer} {action : TransferAction}
    (h : c.Blocking s.kernel) (hstep : c.transfer.step s action s') : c.Blocking s'.kernel := by
  constructor
  · rw [transfer_descriptor hstep]
    exact h.writer
  · rw [transfer_descriptor hstep]
    exact h.reader

end Channel

/-! ### A system call for one byte -/

/-- A call of `write` with the byte `a` that waits for room and has written `n` bytes. -/
inductive Sending.Posts (a : UInt8) : Nat → Sending → Prop
  | test {call : IOCall} : call.blocking = true → Posts a 0 (.test call [a] 0)
  | write {call : IOCall} : call.blocking = true → Posts a 0 (.write call [a] 0)
  | last {call : IOCall} : call.blocking = true → Posts a 1 (.test call [a] 1)

/-- A call of `read` for one byte that waits for it and has read `n` bytes. -/
inductive Receiving.Fetches : Nat → Receiving → Prop
  | test {call : IOCall} : call.blocking = true → Fetches 0 (.test call 1 0)
  | read {call : IOCall} : call.blocking = true → Fetches 0 (.read call 1 0)
  | last {call : IOCall} : call.blocking = true → Fetches 1 (.test call 1 1)

theorem Sending.returned_of_eq {p : Sending} (h : p = .idle) : p.returned = true := by
  rw [h]
  rfl

theorem Receiving.returned_of_eq {p : Receiving} (h : p = .idle) : p.returned = true := by
  rw [h]
  rfl

/-- A system call that has transferred its byte lets the loop go on. -/
theorem Exchange.sentChar_one (s : Exchange) (msg : List UInt8) (result : Nat) :
    s.sentChar msg result (Int8.ofInt (1 : Nat)).toInt =
      { s with sender := .loop msg (result + 1) } := rfl

theorem Exchange.receivedChar_one (s : Exchange) (buff : Buffer) (result : Nat) :
    s.receivedChar buff result (Int8.ofInt (1 : Nat)).toInt =
      { s with receiver := .loop buff (result + 1) } := rfl

theorem Sending.Posts.not_returned {a : UInt8} {n : Nat} {p : Sending} (h : p.Posts a n) :
    p.returned = false := by
  cases h <;> rfl

theorem Receiving.Fetches.not_returned {n : Nat} {p : Receiving} (h : p.Fetches n) :
    p.returned = false := by
  cases h <;> rfl

/-- A process with the turn comes to the loop, and will wait there. -/
theorem Kernel.EndAt.waits {k : Kernel} {e fd : UInt64} {i : Nat} (h : k.EndAt e fd i)
    (hturn : k.sched.getCurrentPCBIndex = e) (hcur : e ≠ -1)
    (hblock : (k.descriptor e fd).flags &&& F_NOBLOCK = 0) :
    ∃ call sched, k.waitForIO fd = some (call, { k with sched := sched }) ∧
      call.blocking = true := by
  obtain ⟨call, sched, hwait, -, -, hblocking, -⟩ := h.openEntry.waits hturn hcur
  exact ⟨call, sched, hwait, hblocking.trans (decide_eq_true hblock)⟩

namespace Channel

variable {c : Channel} {k : Kernel} {l : List UInt8}

/-- The call writes its byte before it returns. -/
theorem Carries.posts {p : Sending} {a : UInt8} {n : Nat} (h : c.Carries k l)
    (hp : c.SendingInv l p) (hturn : k.sched.getCurrentPCBIndex = c.writerIndex)
    (hposts : p.Posts a n) :
    (∃ n', (k.outputStep p).2.1.Posts a n' ∧
      [a].take n' = [a].take n ++ (k.outputStep p).2.2.toList) ∨
    ((k.outputStep p).2.1 = .idle ∧ (k.outputStep p).2.2 = none ∧ n = 1 ∧
      p.writtenData = 1) := by
  cases hposts with
  | @test call hblock =>
    left
    have htest := h.isFull
    rw [← hp.1, ← hp.2] at htest
    refine ⟨0, ?_⟩
    -- it yields as long as the queue is full
    by_cases hfull : l.length + 1 = PAGE_SIZE.toNat
    · rw [if_pos hfull] at htest
      simpa [Kernel.outputStep, htest, hblock] using Sending.Posts.test hblock
    · rw [if_neg hfull] at htest
      simpa [Kernel.outputStep, htest] using Sending.Posts.write hblock
  | @write call hblock =>
    left
    obtain ⟨k', hstep, -⟩ := h.write hturn hp.2 hp.1 [a] 0
    rw [hstep]
    exact ⟨1, .last hblock, rfl⟩
  | @last call hblock =>
    right
    simp [Kernel.outputStep, Sending.writtenData]

/-- The call reads a byte before it returns. -/
theorem Carries.fetches {p : Receiving} {n : Nat} (h : c.Carries k l)
    (hp : c.ReceivingInv l p) (hturn : k.sched.getCurrentPCBIndex = c.readerIndex)
    (hfetches : p.Fetches n) :
    p.readData = n ∧
    ((k.inputStep p).2.1.Fetches (n + (k.inputStep p).2.2.toList.length) ∨
      ((k.inputStep p).2.1 = .idle ∧ n + (k.inputStep p).2.2.toList.length = 1)) := by
  cases hfetches with
  | @test call hblock =>
    have htest := h.isEmpty
    rw [← hp.1, ← hp.2] at htest
    refine ⟨rfl, .inl ?_⟩
    by_cases hempty : l = []
    · rw [if_pos hempty] at htest
      simpa [Kernel.inputStep, htest, hblock] using Receiving.Fetches.test hblock
    · rw [if_neg hempty] at htest
      simpa [Kernel.inputStep, htest] using Receiving.Fetches.read hblock
  | @read call hblock =>
    obtain ⟨a, l', rfl⟩ := List.exists_cons_of_ne_nil hp.2
    obtain ⟨k', p', hstep, hp', -⟩ := h.read hturn hp.1 1 0
    rw [hstep]
    refine ⟨rfl, ?_⟩
    rcases hp' with rfl | rfl
    · exact .inr ⟨rfl, rfl⟩
    · exact .inl (.last hblock)
  | @last call hblock =>
    refine ⟨rfl, .inr ?_⟩
    simp [Kernel.inputStep]

/-! ### The invariant -/

/-- Of the last message, `part` has gone out; of the others, everything. -/
def Underway (msg part sent : List UInt8) (messages : List Int64) : Prop :=
  ∃ ms m, messages = ms ++ [m] ∧ msg = longs.encode m ∧ sent = longs.stream ms ++ part

def SenderInv (sending : Sending) (sent : List UInt8) (messages : List Int64) : Sender → Prop
  | .idle => sending = .idle ∧ sent = longs.stream messages
  | .loop msg result => sending = .idle ∧ result ≤ msg.length ∧
      Underway msg (msg.take result) sent messages
  | .call msg result => result < msg.length ∧ ∃ n, sending.Posts (msg.getD result 0) n ∧
      Underway msg (msg.take result ++ [msg.getD result 0].take n) sent messages

/-- What has come in are the messages received and the begin of the next one. -/
def ReceiverInv (receiving : Receiving) (received : List UInt8) (ds : List Int64) :
    Receiver → Prop
  | .idle => receiving = .idle ∧ received = longs.stream ds
  | .loop buff result => receiving = .idle ∧ result ≤ longs.size ∧
      received = longs.stream ds ++ buff.bytes result
  | .call buff result => result < longs.size ∧ ∃ n, receiving.Fetches n ∧
      received = longs.stream ds ++ buff.bytes (result + n)

structure MessageInv (c : Channel) (s : Exchange) : Prop where
  transfer : c.TransferInv s.transfer
  blocking : c.Blocking s.transfer.kernel
  writerIndex : c.writerIndex ≠ -1
  readerIndex : c.readerIndex ≠ -1
  sender : SenderInv s.transfer.sending s.transfer.sent s.messages s.sender
  receiver : ReceiverInv s.transfer.receiving s.transfer.received s.delivered s.receiver
  sent : ∀ r ∈ s.sent, r = longs.size
  received : ∀ r ∈ s.received, r.1 = longs.size

/-! ### The steps -/

theorem take_getD {msg : List UInt8} {result : Nat} (h : result < msg.length) :
    msg.take result ++ [msg.getD result 0] = msg.take (result + 1) := by
  rw [List.take_succ_eq_append_getElem h, List.getD_eq_getElem _ _ h]

theorem bytes_succ (buff : Buffer) (n : Nat) : buff.bytes (n + 1) = buff.bytes n ++ [buff n] := by
  simp [Buffer.bytes, List.range_succ]

/-- Bytes from `n` on do not matter for the first `n`. -/
theorem bytes_update (buff : Buffer) {n : Nat} (a : UInt8) :
    Buffer.bytes (Function.update buff n a) n = buff.bytes n := by
  apply List.map_congr_left
  intro i hi
  rw [Function.update_of_ne (Nat.ne_of_lt (List.mem_range.mp hi))]

/-- Of a byte that comes in, or none, the variable gets what the stream gets. -/
theorem bytes_put (buff : Buffer) (n : Nat) (got : Option UInt8) :
    Buffer.bytes (buff.put n got) (n + got.toList.length) = buff.bytes n ++ got.toList := by
  cases got with
  | none => simp [Buffer.put]
  | some a =>
    show Buffer.bytes (Function.update buff n a) (n + 1) = _
    rw [bytes_succ, bytes_update, Function.update_self]
    rfl

/-- What has gone out is the begin of the messages. -/
theorem sent_isPrefixOf {sending : Sending} {sent : List UInt8} {messages : List Int64}
    {sender : Sender} (h : SenderInv sending sent messages sender) :
    sent <+: longs.stream messages := by
  cases sender with
  | idle => rw [h.2]
  | loop msg result =>
    obtain ⟨-, -, ms, m, rfl, rfl, rfl⟩ := h
    rw [Code.stream_snoc]
    exact (List.prefix_append_right_inj _).mpr (List.take_prefix _ _)
  | call msg result =>
    obtain ⟨hlt, n, -, ms, m, rfl, rfl, rfl⟩ := h
    rw [Code.stream_snoc]
    apply (List.prefix_append_right_inj _).mpr
    calc (longs.encode m).take result ++ [(longs.encode m).getD result 0].take n
        <+: (longs.encode m).take result ++ [(longs.encode m).getD result 0] :=
          (List.prefix_append_right_inj _).mpr (List.take_prefix _ _)
      _ <+: longs.encode m := by
          rw [take_getD hlt]
          exact List.take_prefix _ _

variable {s s' : Exchange}

theorem messageInv_send (h : c.MessageInv s) {msg : Int64}
    (hstep : c.exchange.step s (.send msg) s') : c.MessageInv s' := by
  obtain ⟨-, hidle, rfl⟩ := hstep
  have hsender := h.sender
  rw [hidle] at hsender
  have hloop : SenderInv s.transfer.sending s.transfer.sent (s.messages ++ [msg])
      (.loop (longs.encode msg) 0) := by
    refine ⟨hsender.1, Nat.zero_le _, s.messages, msg, rfl, rfl, ?_⟩
    rw [hsender.2]
    simp
  exact { h with sender := hloop }

theorem messageInv_sender (h : c.MessageInv s) (hstep : c.exchange.step s .sender s') :
    c.MessageInv s' := by
  have hsender := h.sender
  cases hs : s.sender with
  | idle =>
    simp only [exchange, hs] at hstep
  | loop msg result =>
    rw [hs] at hsender
    obtain ⟨hidle, hle, hway⟩ := hsender
    simp only [exchange, hs] at hstep
    by_cases hlt : result < msg.length
    -- `MQsendChar` is called, and comes to its loop
    · rw [if_pos hlt] at hstep
      obtain ⟨t, ht, rfl⟩ := hstep
      have htransfer := transferInv_step _ h.transfer ht
      have hblocking := h.blocking.transferred ht
      obtain ⟨hturn, -, hcall⟩ := ht
      obtain ⟨l, -, hcarries, -, -⟩ := h.transfer
      obtain ⟨call, sched, hwait, hblock⟩ :=
        hcarries.isOpen.writer.waits hturn h.writerIndex h.blocking.writer
      rw [hwait] at hcall
      obtain rfl := hcall
      have hposts := Sending.Posts.test (a := msg.getD result 0) hblock
      rw [hposts.not_returned]
      exact { h with
        transfer := htransfer
        blocking := hblocking
        sender := ⟨hlt, 0, hposts, by simpa using hway⟩ }
    -- the whole message has gone out
    · rw [if_neg hlt] at hstep
      obtain ⟨-, rfl⟩ := hstep
      obtain ⟨ms, m, hms, rfl, hsent⟩ := hway
      have hall : result = (longs.encode m).length := by omega
      have hlen : result = longs.size := hall.trans (longs.length_encode m)
      rw [hall, List.take_length, ← Code.stream_snoc, ← hms] at hsent
      exact { h with
        sender := ⟨hidle, hsent⟩
        sent := by
          intro r hr
          rcases List.mem_append.mp hr with hr | hr
          · exact h.sent r hr
          · rw [List.mem_singleton.mp hr, hlen] }
  | call msg result =>
    rw [hs] at hsender
    obtain ⟨hlt, n, hposts, hway⟩ := hsender
    simp only [exchange, hs] at hstep
    obtain ⟨t, ht, rfl⟩ := hstep
    have htransfer := transferInv_step _ h.transfer ht
    have hblocking := h.blocking.transferred ht
    obtain ⟨hturn, rfl⟩ := ht
    obtain ⟨l, -, hcarries, hsending, -⟩ := h.transfer
    rcases hcarries.posts hsending hturn hposts with
      ⟨n', hposts', hout⟩ | ⟨hidle, hnone, rfl, hwritten⟩
    -- the byte may have gone out, but the call goes on
    · rw [hposts'.not_returned, if_neg Bool.false_ne_true]
      have hway' : Underway msg (msg.take result ++ [msg.getD result 0].take n')
          (s.transfer.sent ++ (s.transfer.kernel.outputStep s.transfer.sending).2.2.toList)
          s.messages := by
        obtain ⟨ms, m, hms, hmsg, hsent⟩ := hway
        refine ⟨ms, m, hms, hmsg, ?_⟩
        rw [hsent, hout, List.append_assoc, List.append_assoc]
      exact { h with
        transfer := htransfer
        blocking := hblocking
        sender := ⟨hlt, n', hposts', hway'⟩ }
    -- `MQsendChar` returns 1
    · have hway' : Underway msg (msg.take (result + 1))
          (s.transfer.sent ++ (s.transfer.kernel.outputStep s.transfer.sending).2.2.toList)
          s.messages := by
        obtain ⟨ms, m, hms, hmsg, hsent⟩ := hway
        refine ⟨ms, m, hms, hmsg, ?_⟩
        rw [hsent, hnone, ← take_getD hlt]
        simp
      rw [if_pos (Sending.returned_of_eq hidle), hwritten, Exchange.sentChar_one]
      exact { h with
        transfer := htransfer
        blocking := hblocking
        sender := ⟨hidle, hlt, hway'⟩ }

theorem messageInv_receive (h : c.MessageInv s) {buff : Buffer}
    (hstep : c.exchange.step s (.receive buff) s') : c.MessageInv s' := by
  obtain ⟨-, hidle, rfl⟩ := hstep
  have hreceiver := h.receiver
  rw [hidle] at hreceiver
  have hloop : ReceiverInv s.transfer.receiving s.transfer.received s.delivered
      (.loop buff 0) := by
    refine ⟨hreceiver.1, Nat.zero_le _, ?_⟩
    rw [hreceiver.2]
    simp [Buffer.bytes]
  exact { h with receiver := hloop }

/-- What `MQreceive` has put into the variable is the next of the messages. -/
theorem delivered_snoc (h : c.MessageInv s) {buff : Buffer}
    (hreceived : s.transfer.received = longs.stream s.delivered ++ buff.bytes longs.size) :
    s.transfer.received = longs.stream (s.delivered ++ [buff.long]) := by
  have hsize : 0 < longs.size := by decide
  obtain ⟨l, hsent, -⟩ := h.transfer
  have hprefix : longs.stream s.delivered ++ buff.bytes longs.size <+: longs.stream s.messages := by
    rw [← hreceived]
    exact List.IsPrefix.trans ⟨l, hsent.symm⟩ (sent_isPrefixOf h.sender)
  obtain ⟨rest, -, hgot⟩ := Code.stream_isPrefixOf hsize hprefix
  obtain ⟨m, -, -, hm⟩ := Code.decode_isPrefixOf hsize hgot (by simp [Buffer.bytes])
  rw [hreceived, Code.stream_snoc, Buffer.long, hm, longs.decode_encode]

theorem messageInv_receiver (h : c.MessageInv s) (hstep : c.exchange.step s .receiver s') :
    c.MessageInv s' := by
  have hreceiver := h.receiver
  cases hs : s.receiver with
  | idle =>
    simp only [exchange, hs] at hstep
  | loop buff result =>
    rw [hs] at hreceiver
    obtain ⟨hidle, hle, hreceived⟩ := hreceiver
    simp only [exchange, hs] at hstep
    by_cases hlt : result < longs.size
    · rw [if_pos hlt] at hstep
      obtain ⟨t, ht, rfl⟩ := hstep
      have htransfer := transferInv_step _ h.transfer ht
      have hblocking := h.blocking.transferred ht
      obtain ⟨hturn, -, hcall⟩ := ht
      obtain ⟨l, -, hcarries, -, -⟩ := h.transfer
      obtain ⟨call, sched, hwait, hblock⟩ :=
        hcarries.isOpen.reader.waits hturn h.readerIndex h.blocking.reader
      rw [hwait] at hcall
      obtain rfl := hcall
      have hfetches := Receiving.Fetches.test hblock
      rw [hfetches.not_returned]
      exact { h with
        transfer := htransfer
        blocking := hblocking
        receiver := ⟨hlt, 0, hfetches, hreceived⟩ }
    -- the variable is full
    · rw [if_neg hlt] at hstep
      obtain ⟨-, rfl⟩ := hstep
      obtain rfl : result = longs.size := by omega
      have hsnoc := delivered_snoc h hreceived
      exact { h with
        receiver := ⟨hidle, by
          show _ = longs.stream ((s.received ++ [_]).map Prod.snd)
          rw [List.map_append]
          exact hsnoc⟩
        received := by
          intro r hr
          rcases List.mem_append.mp hr with hr | hr
          · exact h.received r hr
          · rw [List.mem_singleton.mp hr] }
  | call buff result =>
    rw [hs] at hreceiver
    obtain ⟨hlt, n, hfetches, hreceived⟩ := hreceiver
    simp only [exchange, hs] at hstep
    obtain ⟨t, ht, rfl⟩ := hstep
    have htransfer := transferInv_step _ h.transfer ht
    have hblocking := h.blocking.transferred ht
    obtain ⟨hturn, rfl⟩ := ht
    obtain ⟨l, -, hcarries, -, hreceiving⟩ := h.transfer
    obtain ⟨hreadData, hnext⟩ := hcarries.fetches hreceiving hturn hfetches
    have hreceived' : s.transfer.received ++
        (s.transfer.kernel.inputStep s.transfer.receiving).2.2.toList = longs.stream s.delivered ++
          Buffer.bytes (Buffer.put buff (result + n)
            (s.transfer.kernel.inputStep s.transfer.receiving).2.2) (result + n +
              (s.transfer.kernel.inputStep s.transfer.receiving).2.2.toList.length) := by
      rw [bytes_put, hreceived, List.append_assoc]
    rw [hreadData]
    rcases hnext with hfetches' | ⟨hidle, hone⟩
    -- the byte may have come in, but the call goes on
    · rw [hfetches'.not_returned, if_neg Bool.false_ne_true]
      rw [Nat.add_assoc] at hreceived'
      exact { h with
        transfer := htransfer
        blocking := hblocking
        receiver := ⟨hlt, _, hfetches', hreceived'⟩ }
    -- `MQreceiveChar` returns 1
    · rw [if_pos (Receiving.returned_of_eq hidle), hone, Exchange.receivedChar_one]
      rw [Nat.add_assoc, hone] at hreceived'
      exact { h with
        transfer := htransfer
        blocking := hblocking
        receiver := ⟨hidle, hlt, hreceived'⟩ }

theorem messageInv_step (action : MessageAction) (h : c.MessageInv s)
    (hstep : c.exchange.step s action s') : c.MessageInv s' := by
  cases action with
  | send msg => exact messageInv_send h hstep
  | sender => exact messageInv_sender h hstep
  | receive buff => exact messageInv_receive h hstep
  | receiver => exact messageInv_receiver h hstep
  | preempt =>
    obtain ⟨t, ht, rfl⟩ := hstep
    have htransfer := transferInv_step _ h.transfer ht
    have hblocking := h.blocking.transferred ht
    obtain ⟨k, -, rfl⟩ := ht
    exact { h with transfer := htransfer, blocking := hblocking }

theorem messageInv_begin (h : c.Begin s) : c.MessageInv s where
  transfer := transferInv_start h.start
  blocking := h.blocking
  writerIndex := h.writerIndex
  readerIndex := h.readerIndex
  sender := by
    rw [h.sender]
    exact ⟨h.start.sending, h.stream⟩
  receiver := by
    rw [h.receiver]
    refine ⟨h.start.receiving, ?_⟩
    rw [h.start.received, Exchange.delivered, h.received]
    rfl
  sent := by
    rw [h.sent]
    exact List.forall_mem_nil _
  received := by
    rw [h.received]
    exact List.forall_mem_nil _

theorem messageInv (h : c.exchange.Reachable s) : c.MessageInv s := by
  apply h.invariant c.MessageInv
  · exact fun s hbegin => messageInv_begin hbegin
  · exact fun s action s' hinv hstep => messageInv_step action hinv hstep

/-! ### Every message arrives, once and in order -/

/-- All messages but the last have gone out. -/
theorem sent_length {sending : Sending} {sent : List UInt8} {messages : List Int64}
    {sender : Sender} (h : SenderInv sending sent messages sender) :
    messages.length * longs.size ≤ sent.length + longs.size := by
  have hunderway : ∀ msg part, Underway msg part sent messages →
      messages.length * longs.size ≤ sent.length + longs.size := by
    rintro msg part ⟨ms, m, rfl, -, rfl⟩
    simp only [List.length_append, Code.length_stream, List.length_singleton, Nat.succ_mul]
    omega
  cases sender with
  | idle =>
    rw [h.2, Code.length_stream]
    omega
  | loop msg result => exact hunderway _ _ h.2.2
  | call msg result =>
    obtain ⟨-, n, -, hway⟩ := h
    exact hunderway _ _ hway

/-- What has come in is at most one message more than those received. -/
theorem received_length {receiving : Receiving} {received : List UInt8} {ds : List Int64}
    {receiver : Receiver} (h : ReceiverInv receiving received ds receiver) :
    received.length ≤ ds.length * longs.size + longs.size := by
  cases receiver with
  | idle =>
    rw [h.2, Code.length_stream]
    omega
  | loop buff result =>
    obtain ⟨-, hle, rfl⟩ := h
    simp only [List.length_append, Code.length_stream, Buffer.bytes, List.length_map,
      List.length_range]
    omega
  | call buff result =>
    obtain ⟨hlt, n, hfetches, rfl⟩ := h
    have hn : n ≤ 1 := by cases hfetches <;> omega
    simp only [List.length_append, Code.length_stream, Buffer.bytes, List.length_map,
      List.length_range]
    omega

theorem MessageInv.delivered_isPrefixOf (h : c.MessageInv s) : s.delivered <+: s.messages := by
  have hsize : 0 < longs.size := by decide
  obtain ⟨l, hsent, -⟩ := h.transfer
  have hthrough : s.transfer.received <+: longs.stream s.messages :=
    List.IsPrefix.trans ⟨l, hsent.symm⟩ (sent_isPrefixOf h.sender)
  have hds : longs.stream s.delivered ++ [] <+: s.transfer.received := by
    have hreceiver := h.receiver
    cases hs : s.receiver with
    | idle =>
      rw [hs] at hreceiver
      rw [hreceiver.2, List.append_nil]
    | loop buff result =>
      rw [hs] at hreceiver
      rw [hreceiver.2.2, List.append_nil]
      exact List.prefix_append _ _
    | call buff result =>
      rw [hs] at hreceiver
      obtain ⟨-, n, -, hreceived⟩ := hreceiver
      rw [hreceived, List.append_nil]
      exact List.prefix_append _ _
  obtain ⟨rest, hrest, -⟩ := Code.stream_isPrefixOf hsize (hds.trans hthrough)
  exact ⟨rest, hrest.symm⟩

/-- The queue and the two calls in progress have room for so much. -/
theorem MessageInv.underway_length (h : c.MessageInv s) : s.messages.length * longs.size ≤
    s.delivered.length * longs.size + (PAGE_SIZE.toNat - 1) + 2 * longs.size := by
  obtain ⟨l, hsent, hcarries, -⟩ := h.transfer
  obtain ⟨f, -, hl⟩ := hcarries.file
  have hroom := hl.holds.room
  have hout := sent_length h.sender
  have hin := received_length h.receiver
  have hlen := congrArg List.length hsent
  rw [List.length_append] at hlen
  omega

/-- When both calls are over and `MQisEmpty` says so, nothing is left. -/
theorem MessageInv.all_delivered (h : c.MessageInv s) (hsender : s.sender = .idle)
    (hreceiver : s.receiver = .idle)
    (hempty : (s.transfer.kernel.operateFile c.readerIndex c.readerFd .IS_EMPTY 0).1 = 0) :
    s.delivered = s.messages := by
  have hsize : 0 < longs.size := by decide
  obtain ⟨l, hsent, hcarries, -⟩ := h.transfer
  have hall := h.sender
  have hcame := h.receiver
  rw [hsender] at hall
  rw [hreceiver] at hcame
  have hnil : l = [] := by
    rw [hcarries.isEmpty] at hempty
    by_contra hne
    simp [hne] at hempty
  have hstream : longs.stream s.delivered ++ [] <+: longs.stream s.messages := by
    rw [← hall.2, ← hcame.2, hsent, hnil]
  obtain ⟨rest, hrest, -⟩ := Code.stream_isPrefixOf hsize hstream
  have hlen := congrArg List.length hsent
  rw [hnil, List.append_nil, hall.2, hcame.2, Code.length_stream, Code.length_stream, hrest,
    List.length_append, Nat.add_mul] at hlen
  have hzero : rest.length = 0 := by
    rcases Nat.eq_zero_or_pos rest.length with h0 | hpos
    · exact h0
    · have := Nat.mul_pos hpos hsize
      omega
  rw [hrest, List.eq_nil_of_length_eq_zero hzero, List.append_nil]

/-- Each call of `MQsend` and of `MQreceive` that has returned has transferred a whole message.
    The messages received are the first of those sent, so that none is torn, lost or received
    twice, wherever the processes are preempted, and the others fit into the queue but for
    those of the calls in progress.  When both calls are over and `MQisEmpty` says so, all of
    them have been received. -/
theorem messages_arrive (h : c.exchange.Reachable s) :
    (∀ r ∈ s.sent, r = longs.size) ∧ (∀ r ∈ s.received, r.1 = longs.size) ∧
    s.delivered <+: s.messages ∧
    s.messages.length * longs.size ≤
      s.delivered.length * longs.size + (PAGE_SIZE.toNat - 1) + 2 * longs.size ∧
    (s.sender = .idle → s.receiver = .idle →
      (s.transfer.kernel.operateFile c.readerIndex c.readerFd .IS_EMPTY 0).1 = 0 →
      s.delivered = s.messages) := by
  have hinv := messageInv h
  exact ⟨hinv.sent, hinv.received, hinv.delivered_isPrefixOf, hinv.underway_length,
    hinv.all_delivered⟩

/-! ### A message is sent and received -/

/-- The sender goes on with its call, and others come in between. -/
def Sends (s : Exchange) (action : MessageAction) : Prop :=
  s.sender ≠ .idle ∧ (action = .sender ∨ action = .preempt)

/-- The receiver goes on with its call. -/
def Receives (_ : Exchange) (action : MessageAction) : Prop :=
  action = .receiver ∨ action = .preempt

/-- The scheduler hands out the processor. -/
def turn (s : Exchange) (sched : Scheduler) : Exchange :=
  { s with transfer := { s.transfer with kernel := { s.transfer.kernel with sched := sched } } }

theorem turn_step (c : Channel) (s : Exchange) (sched : Scheduler) :
    c.exchange.step s .preempt (turn s sched) :=
  ⟨_, ⟨{ s.transfer.kernel.toTasks with sched := sched },
    ⟨rfl, rfl, rfl, rfl, rfl, fun _ => ⟨_, rfl⟩⟩, rfl⟩, rfl⟩

/-- A step of the sender, when it gets the turn. -/
theorem sends_step {sched : Scheduler} (hsender : s.sender ≠ .idle)
    (hstep : c.exchange.step (turn s sched) .sender s') :
    (c.exchange.restrict Sends).StepsFrom s [.preempt, .sender] s' :=
  .cons _ _ ⟨⟨hsender, .inr rfl⟩, turn_step c s sched⟩
    (.cons _ _ ⟨⟨hsender, .inl rfl⟩, hstep⟩ (.nil _))

theorem receives_step {sched : Scheduler}
    (hstep : c.exchange.step (turn s sched) .receiver s') :
    (c.exchange.restrict Receives).StepsFrom s [.preempt, .receiver] s' :=
  .cons _ _ ⟨.inr rfl, turn_step c s sched⟩ (.cons _ _ ⟨.inl rfl, hstep⟩ (.nil _))

/-- `bytes` have gone out, and the receiver is where it was. -/
structure Posted (s s' : Exchange) (bytes : List UInt8) : Prop where
  sent : s'.transfer.sent = s.transfer.sent ++ bytes
  transferred : s'.transfer.received = s.transfer.received
  receiving : s'.transfer.receiving = s.transfer.receiving
  receiver : s'.receiver = s.receiver
  messages : s'.messages = s.messages
  received : s'.received = s.received

theorem Posted.trans {s s' s'' : Exchange} {bytes bytes' : List UInt8} (h : Posted s s' bytes)
    (h' : Posted s' s'' bytes') : Posted s s'' (bytes ++ bytes') where
  sent := by rw [h'.sent, h.sent, List.append_assoc]
  transferred := h'.transferred.trans h.transferred
  receiving := h'.receiving.trans h.receiving
  receiver := h'.receiver.trans h.receiver
  messages := h'.messages.trans h.messages
  received := h'.received.trans h.received

/-- With room in the queue, the next byte of the message goes out. -/
theorem sends_byte (h : c.MessageInv s) {msg : List UInt8} {result : Nat}
    (hsender : s.sender = .loop msg result) (hlt : result < msg.length)
    (hroom : s.transfer.sent.length < s.transfer.received.length + (PAGE_SIZE.toNat - 1))
    {sched : Scheduler} (hturn : sched.getCurrentPCBIndex = c.writerIndex) :
    ∃ actions s', (c.exchange.restrict Sends).StepsFrom s actions s' ∧
      s'.sender = .loop msg (result + 1) ∧ Posted s s' [msg.getD result 0] := by
  obtain ⟨l, hsent, hcarries, -, -⟩ := h.transfer
  have hlen : l.length + 1 < PAGE_SIZE.toNat := by
    rw [hsent, List.length_append] at hroom
    omega
  let k : Kernel := { s.transfer.kernel with sched := sched }
  let a : UInt8 := msg.getD result 0
  have hcarries' : c.Carries k l := hcarries.withSched sched
  -- `MQsendChar` begins
  obtain ⟨call, sched₁, hwait, -⟩ :=
    hcarries'.isOpen.writer.waits hturn h.writerIndex h.blocking.writer
  have hcall := (waitForIO_eq hwait).1
  rw [show k.sched.getCurrentPCBIndex = c.writerIndex from hturn] at hcall
  let s₁ : Exchange := { s with
    transfer := { s.transfer with
      kernel := { k with sched := sched₁ }, sending := .test call [a] 0 }
    sender := .call msg result }
  have h₁ : c.exchange.step (turn s sched) .sender s₁ := by
    have hloop : (turn s sched).sender = .loop msg result := hsender
    have hidle := h.sender
    rw [hsender] at hidle
    simp only [exchange, hloop, if_pos hlt]
    exact ⟨s₁.transfer, step_write hturn hidle.1 hwait, rfl⟩
  -- the test finds room
  let s₂ : Exchange := { s₁ with
    transfer := { s₁.transfer with kernel := k, sending := .write call [a] 0 } }
  have h₂ : c.exchange.step (turn s₁ sched) .sender s₂ := by
    have htest : k.outputStep (.test call [a] 0) = (k, .write call [a] 0, none) :=
      hcarries'.outputStep_test hlen hcall (Nat.lt_succ_self 0)
    refine ⟨s₂.transfer, ⟨hturn, ?_⟩, rfl⟩
    show s₂.transfer = { s₁.transfer with
      kernel := (k.outputStep (.test call [a] 0)).1
      sending := (k.outputStep (.test call [a] 0)).2.1
      sent := s.transfer.sent ++ (k.outputStep (.test call [a] 0)).2.2.toList }
    rw [htest]
    simp [s₁, s₂]
  -- the byte goes into the queue
  obtain ⟨k₃, hwrite, -⟩ := hcarries'.write hturn hlen hcall [a] 0
  let s₃ : Exchange := { s₂ with
    transfer := { s₂.transfer with
      kernel := k₃, sending := .test call [a] 1, sent := s.transfer.sent ++ [a] } }
  have h₃ : c.exchange.step (turn s₂ sched) .sender s₃ := by
    refine ⟨s₃.transfer, ⟨hturn, ?_⟩, rfl⟩
    show s₃.transfer = { s₂.transfer with
      kernel := (k.outputStep (.write call [a] 0)).1
      sending := (k.outputStep (.write call [a] 0)).2.1
      sent := s.transfer.sent ++ (k.outputStep (.write call [a] 0)).2.2.toList }
    rw [hwrite]
    rfl
  -- and the call is over
  let s₄ : Exchange := { s₃ with
    transfer := { s₃.transfer with
      kernel := ({ k₃ with sched := sched } : Kernel).endWait call, sending := .idle }
    sender := .loop msg (result + 1) }
  have h₄ : c.exchange.step (turn s₃ sched) .sender s₄ := by
    refine ⟨s₄.transfer, ⟨hturn, ?_⟩, rfl⟩
    show s₄.transfer = { s₃.transfer with
      kernel := ({ k₃ with sched := sched } : Kernel).endWait call
      sending := .idle
      sent := s₃.transfer.sent ++ [] }
    rw [List.append_nil]
  refine ⟨_, s₄, (((sends_step ?_ h₁).append (sends_step ?_ h₂)).append
    (sends_step ?_ h₃)).append (sends_step ?_ h₄), rfl, ⟨rfl, rfl, rfl, rfl, rfl, rfl⟩⟩
  · rw [hsender]
    simp
  all_goals simp [s₁, s₂, s₃]

theorem messageInv_run (h : c.MessageInv s) {actions : List MessageAction}
    (hrun : c.exchange.StepsFrom s actions s') : c.MessageInv s' :=
  hrun.invariant c.MessageInv (fun _ action _ hinv hstep => messageInv_step action hinv hstep) h

/-- With room for the rest of the message, it goes out. -/
theorem sends_bytes (h : c.MessageInv s) {msg : List UInt8} {result n : Nat}
    (hsender : s.sender = .loop msg result) (hn : result + n = msg.length)
    (hroom : s.transfer.sent.length + n ≤ s.transfer.received.length + (PAGE_SIZE.toNat - 1))
    {sched : Scheduler} (hturn : sched.getCurrentPCBIndex = c.writerIndex) :
    ∃ actions s', (c.exchange.restrict Sends).StepsFrom s actions s' ∧
      s'.sender = .loop msg msg.length ∧ Posted s s' (msg.drop result) := by
  induction n generalizing s result with
  | zero =>
    obtain rfl : result = msg.length := hn
    refine ⟨[], s, .nil s, hsender, ?_⟩
    rw [List.drop_length]
    exact ⟨(List.append_nil _).symm, rfl, rfl, rfl, rfl, rfl⟩
  | succ n ih =>
    have hlt : result < msg.length := by omega
    obtain ⟨actions₁, s₁, hrun₁, hsender₁, hposted₁⟩ := sends_byte h hsender hlt (by omega) hturn
    have hsent : s₁.transfer.sent.length = s.transfer.sent.length + 1 := by
      rw [hposted₁.sent, List.length_append, List.length_singleton]
    obtain ⟨actions₂, s₂, hrun₂, hsender₂, hposted₂⟩ :=
      ih (messageInv_run h hrun₁.of_restrict) hsender₁ (by omega)
        (by rw [hsent, hposted₁.transferred]; omega)
    refine ⟨_, s₂, hrun₁.append hrun₂, hsender₂, ?_⟩
    have hdrop : msg.drop result = [msg.getD result 0] ++ msg.drop (result + 1) := by
      rw [List.drop_eq_getElem_cons hlt, List.getD_eq_getElem _ _ hlt]
      rfl
    rw [hdrop]
    exact hposted₁.trans hposted₂

/-- With room for it, a message is sent. -/
theorem sends_message (h : c.MessageInv s) {msg : List UInt8} (hsender : s.sender = .loop msg 0)
    (hroom : s.transfer.sent.length + msg.length ≤
      s.transfer.received.length + (PAGE_SIZE.toNat - 1))
    {sched : Scheduler} (hturn : sched.getCurrentPCBIndex = c.writerIndex) :
    ∃ actions s', (c.exchange.restrict Sends).StepsFrom s actions s' ∧ s'.sender = .idle ∧
      Posted s s' msg := by
  obtain ⟨actions, s₁, hrun, hsender₁, hposted⟩ :=
    sends_bytes h hsender (Nat.zero_add _) hroom hturn
  have hstep :
      c.exchange.step (turn s₁ sched) .sender ((turn s₁ sched).sendReturns msg.length) := by
    have hloop : (turn s₁ sched).sender = .loop msg msg.length := hsender₁
    simp only [exchange, hloop, if_neg (Nat.lt_irrefl _)]
    exact ⟨hturn, trivial⟩
  refine ⟨_, _, hrun.append (sends_step ?_ hstep), rfl, ?_⟩
  · rw [hsender₁]
    simp
  · exact ⟨hposted.sent, hposted.transferred, hposted.receiving, hposted.receiver,
      hposted.messages, hposted.received⟩

/-- `n` bytes have come in, and the sender is where it was. -/
structure Fetched (s s' : Exchange) (n : Nat) : Prop where
  transferred : s'.transfer.received.length = s.transfer.received.length + n
  sent : s'.transfer.sent = s.transfer.sent
  sending : s'.transfer.sending = s.transfer.sending
  sender : s'.sender = s.sender
  messages : s'.messages = s.messages

theorem Fetched.trans {s s' s'' : Exchange} {m n : Nat} (h : Fetched s s' m)
    (h' : Fetched s' s'' n) : Fetched s s'' (m + n) where
  transferred := by rw [h'.transferred, h.transferred, Nat.add_assoc]
  sent := h'.sent.trans h.sent
  sending := h'.sending.trans h.sending
  sender := h'.sender.trans h.sender
  messages := h'.messages.trans h.messages

/-- With a byte in the queue, the next one of the message comes in. -/
theorem receives_byte (h : c.MessageInv s) {buff : Buffer} {result : Nat}
    (hreceiver : s.receiver = .loop buff result) (hlt : result < longs.size)
    (hwaiting : s.transfer.received.length < s.transfer.sent.length)
    {sched : Scheduler} (hturn : sched.getCurrentPCBIndex = c.readerIndex) :
    ∃ actions s' buff', (c.exchange.restrict Receives).StepsFrom s actions s' ∧
      s'.receiver = .loop buff' (result + 1) ∧ s'.received = s.received ∧ Fetched s s' 1 := by
  obtain ⟨l, hsent, hcarries, -, -⟩ := h.transfer
  have hne : l ≠ [] := by
    rintro rfl
    rw [hsent, List.append_nil] at hwaiting
    omega
  obtain ⟨a, l', rfl⟩ := List.exists_cons_of_ne_nil hne
  let k : Kernel := { s.transfer.kernel with sched := sched }
  have hcarries' : c.Carries k (a :: l') := hcarries.withSched sched
  -- `MQreceiveChar` begins
  obtain ⟨call, sched₁, hwait, -⟩ :=
    hcarries'.isOpen.reader.waits hturn h.readerIndex h.blocking.reader
  have hcall := (waitForIO_eq hwait).1
  rw [show k.sched.getCurrentPCBIndex = c.readerIndex from hturn] at hcall
  let s₁ : Exchange := { s with
    transfer := { s.transfer with
      kernel := { k with sched := sched₁ }, receiving := .test call 1 0 }
    receiver := .call buff result }
  have h₁ : c.exchange.step (turn s sched) .receiver s₁ := by
    have hloop : (turn s sched).receiver = .loop buff result := hreceiver
    have hidle := h.receiver
    rw [hreceiver] at hidle
    simp only [exchange, hloop, if_pos hlt]
    exact ⟨s₁.transfer, step_read hturn hidle.1 hwait, rfl⟩
  -- the test finds the queue not empty
  let s₂ : Exchange := { s₁ with
    transfer := { s₁.transfer with kernel := k, receiving := .read call 1 0 } }
  have h₂ : c.exchange.step (turn s₁ sched) .receiver s₂ := by
    have htest : k.inputStep (.test call 1 0) = (k, .read call 1 0, none) :=
      hcarries'.inputStep_test hne hcall Nat.one_pos
    have hstep : (turn s₁ sched).transfer.kernel.inputStep (turn s₁ sched).transfer.receiving =
        (k, .read call 1 0, none) := htest
    refine ⟨s₂.transfer, ⟨hturn, ?_⟩, ?_⟩
    · rw [hstep]
      simp [s₁, s₂, turn]
    · rw [hstep]
      rfl
  -- the front of the queue is handed out
  obtain ⟨k₃, p, hread, hp, -⟩ := hcarries'.read hturn hcall 1 0
  have hstep : (turn s₂ sched).transfer.kernel.inputStep (turn s₂ sched).transfer.receiving =
      (k₃, p, some a) := hread
  let s₃ : Exchange := { s₂ with
    transfer := { s₂.transfer with
      kernel := k₃, receiving := p, received := s.transfer.received ++ [a] } }
  have hfront : c.transfer.step (turn s₂ sched).transfer .reader s₃.transfer := by
    refine ⟨hturn, ?_⟩
    rw [hstep]
    rfl
  rcases hp with rfl | rfl
  · have h₃ : c.exchange.step (turn s₂ sched) .receiver
        { s₃ with receiver := .loop (Buffer.put buff result a) (result + 1) } := by
      refine ⟨s₃.transfer, hfront, ?_⟩
      rw [hstep]
      rfl
    exact ⟨_, _, _, ((receives_step h₁).append (receives_step h₂)).append (receives_step h₃), rfl,
      rfl, ⟨List.length_append, rfl, rfl, rfl, rfl⟩⟩
  · have h₃ : c.exchange.step (turn s₂ sched) .receiver
        { s₃ with receiver := .call (Buffer.put buff result a) result } := by
      refine ⟨s₃.transfer, hfront, ?_⟩
      rw [hstep]
      rfl
    -- and the call is over
    let s₄ : Exchange := { s₃ with
      transfer := { s₃.transfer with
        kernel := ({ k₃ with sched := sched } : Kernel).endWait call, receiving := .idle }
      receiver := .loop (Buffer.put buff result a) (result + 1) }
    have h₄ : c.exchange.step (turn { s₃ with
        receiver := .call (Buffer.put buff result a) result } sched) .receiver s₄ := by
      refine ⟨s₄.transfer, ⟨hturn, ?_⟩, rfl⟩
      show s₄.transfer = { s₃.transfer with
        kernel := ({ k₃ with sched := sched } : Kernel).endWait call
        receiving := .idle
        received := s₃.transfer.received ++ [] }
      rw [List.append_nil]
    exact ⟨_, _, _, (((receives_step h₁).append (receives_step h₂)).append
      (receives_step h₃)).append (receives_step h₄), rfl, rfl,
      ⟨List.length_append, rfl, rfl, rfl, rfl⟩⟩

/-- With the rest of the message in the queue, it comes in. -/
theorem receives_bytes (h : c.MessageInv s) {buff : Buffer} {result n : Nat}
    (hreceiver : s.receiver = .loop buff result) (hn : result + n = longs.size)
    (hwaiting : s.transfer.received.length + n ≤ s.transfer.sent.length)
    {sched : Scheduler} (hturn : sched.getCurrentPCBIndex = c.readerIndex) :
    ∃ actions s' buff', (c.exchange.restrict Receives).StepsFrom s actions s' ∧
      s'.receiver = .loop buff' longs.size ∧ s'.received = s.received ∧ Fetched s s' n := by
  induction n generalizing s buff result with
  | zero =>
    obtain rfl : result = longs.size := hn
    exact ⟨[], s, buff, .nil s, hreceiver, rfl, ⟨rfl, rfl, rfl, rfl, rfl⟩⟩
  | succ n ih =>
    obtain ⟨actions₁, s₁, buff₁, hrun₁, hreceiver₁, hreceived₁, hfetched₁⟩ :=
      receives_byte h hreceiver (by omega) (by omega) hturn
    have hlength := hfetched₁.transferred
    obtain ⟨actions₂, s₂, buff₂, hrun₂, hreceiver₂, hreceived₂, hfetched₂⟩ :=
      ih (messageInv_run h hrun₁.of_restrict) hreceiver₁ (by omega)
        (by rw [hfetched₁.sent]; omega)
    refine ⟨_, s₂, buff₂, hrun₁.append hrun₂, hreceiver₂, hreceived₂.trans hreceived₁, ?_⟩
    rw [Nat.add_comm n 1]
    exact hfetched₁.trans hfetched₂

/-- With a message in the queue, it is received. -/
theorem receives_message (h : c.MessageInv s) {buff : Buffer}
    (hreceiver : s.receiver = .loop buff 0)
    (hwaiting : s.transfer.received.length + longs.size ≤ s.transfer.sent.length)
    {sched : Scheduler} (hturn : sched.getCurrentPCBIndex = c.readerIndex) :
    ∃ actions s', (c.exchange.restrict Receives).StepsFrom s actions s' ∧
      s'.receiver = .idle ∧ s'.delivered.length = s.delivered.length + 1 ∧
      Fetched s s' longs.size := by
  obtain ⟨actions, s₁, buff', hrun, hreceiver₁, hreceived, hfetched⟩ :=
    receives_bytes h hreceiver (Nat.zero_add _) hwaiting hturn
  have hstep : c.exchange.step (turn s₁ sched) .receiver
      ((turn s₁ sched).receiveReturns buff' longs.size) := by
    have hloop : (turn s₁ sched).receiver = .loop buff' longs.size := hreceiver₁
    simp only [exchange, hloop, if_neg (Nat.lt_irrefl _)]
    exact ⟨hturn, trivial⟩
  refine ⟨_, _, hrun.append (receives_step hstep), rfl, ?_,
    ⟨hfetched.transferred, hfetched.sent, hfetched.sending, hfetched.sender, hfetched.messages⟩⟩
  show ((s₁.received ++ [_]).map Prod.snd).length = (s.received.map Prod.snd).length + 1
  rw [hreceived]
  simp

/-- The game asks the song player for a song, and the song player gets the message. -/
theorem messages_arrive_song : ∃ (c : Channel) (s : Exchange), c.exchange.Reachable s ∧
    s.messages = [2] ∧ s.delivered = [2] := by
  obtain ⟨k, r, w, i, h⟩ := company
  obtain ⟨hinv, -⟩ := ledger h.reachable
  obtain ⟨c, hstart, hw, hr, hwrites, hreads⟩ := channel_of_company h
  obtain ⟨sched, hother⟩ := h.otherTurn
  have hindex : ∀ e, k.pcb.badIndex e = false → e ≠ -1 := by
    rintro e hgood rfl
    rw [hinv.tasks.badIndex_error (by decide)] at hgood
    cases hgood
  have hbegin : c.Begin ⟨⟨(k.MQopen (some (queueName 0)) F_WRITE).2, .idle, .idle, [], []⟩,
      .idle, .idle, [], [], []⟩ := by
    refine ⟨hstart, ⟨?_, ?_⟩, hw ▸ hindex w h.goodW, hr ▸ hindex r h.goodR, rfl, rfl, rfl, rfl,
      rfl⟩
    · rw [hwrites]
      decide
    · rw [hreads]
      decide
  have hwriter : k.sched.getCurrentPCBIndex = c.writerIndex := h.turn.trans hw.symm
  have hreader : sched.getCurrentPCBIndex = c.readerIndex := hother.trans hr.symm
  have hturn : (k.MQopen (some (queueName 0)) F_WRITE).2.sched.getCurrentPCBIndex =
      c.writerIndex := by
    rw [MQopen_sched]
    exact hwriter
  have hsize : (longs.encode 2).length = longs.size := longs.length_encode 2
  -- the game sends
  have hreach₁ : c.exchange.Reachable _ := .step (.send 2) (.init hbegin) ⟨hturn, rfl, rfl⟩
  have hroom : 0 + (longs.encode 2).length ≤ 0 + (PAGE_SIZE.toNat - 1) := by
    rw [hsize]
    decide
  obtain ⟨_, s₂, hrun₂, -, hposted⟩ := sends_message (messageInv hreach₁) rfl hroom hwriter
  -- the song player gets the turn and receives
  have hreach₃ : c.exchange.Reachable (turn s₂ sched) :=
    .step .preempt (hreach₁.run hrun₂.of_restrict) (turn_step c s₂ sched)
  have hreach₄ : c.exchange.Reachable _ :=
    .step (.receive fun _ => 0) hreach₃ ⟨hreader, hposted.receiver, rfl⟩
  have hwaiting : s₂.transfer.received.length + longs.size ≤ s₂.transfer.sent.length := by
    rw [hposted.sent, hposted.transferred, List.length_append, hsize]
  obtain ⟨_, s₅, hrun₅, -, hdelivered, hfetched⟩ :=
    receives_message (messageInv hreach₄) rfl hwaiting hreader
  have hreach := hreach₄.run hrun₅.of_restrict
  have hmessages : s₅.messages = [2] := hfetched.messages.trans hposted.messages
  refine ⟨c, s₅, hreach, hmessages, ?_⟩
  -- one message was received, and it is the first of those sent
  have hprefix := (messages_arrive hreach).2.2.1
  rw [hmessages] at hprefix
  apply hprefix.eq_of_length
  rw [hdelivered]
  show (s₂.received.map Prod.snd).length + 1 = 1
  rw [hposted.received]
  rfl

end Channel

end TP2Kernel
