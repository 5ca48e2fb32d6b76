import TP2Kernel.MessageQueue.Messages
import TP2Kernel.Terminal.RawKeys

/-! # From the keys to the game (`Userland/c/inputReceiver.c`)

    While the game runs, the keyboard's interrupt puts scan codes into the raw buffer.  The
    input receiver takes them from there, a system call each, and sends the game a message
    for those that mean something to it.  The game receives the messages when it updates.

    The interrupt and the other process can come in between any two steps.  The queue with
    which the game ends the input receiver is left out: `checkEnd` may answer anything.
-/

namespace TP2Kernel

open Transition Kernel

/-! ### Scan codes -/

/-- What `init` puts into the table; other scan codes are mapped to 0. -/
def scanCodes : List (UInt8 × UInt8) :=
  -- the letters
  [(0x1E, 97), (0x30, 98), (0x2E, 99), (0x20, 100), (0x12, 101), (0x21, 102), (0x22, 103),
    (0x23, 104), (0x17, 105), (0x24, 106), (0x25, 107), (0x26, 108), (0x32, 109), (0x31, 110),
    (0x18, 111), (0x19, 112), (0x10, 113), (0x13, 114), (0x1F, 115), (0x14, 116), (0x16, 117),
    (0x2F, 118), (0x11, 119), (0x2D, 120), (0x15, 121), (0x2C, 122), (0x39, 32),
    -- the digits and the symbols
    (0x02, 49), (0x03, 50), (0x04, 51), (0x05, 52), (0x06, 53), (0x07, 54), (0x08, 55),
    (0x09, 56), (0x0A, 57), (0x0B, 48), (0x0C, 45), (0x0D, 61), (0x1A, 91), (0x1B, 93),
    (0x2B, 92), (0x27, 59), (0x28, 39), (0x29, 96), (0x33, 44), (0x34, 46), (0x35, 47),
    -- the keypad
    (0x37, 42), (0x4A, 45), (0x4E, 43), (0x4F, 49), (0x50, 50), (0x51, 51), (0x4B, 52),
    (0x4C, 53), (0x4D, 54), (0x47, 55), (0x48, 56), (0x49, 57), (0x52, 48), (0x53, 46),
    -- the backspace, the end of line and the escape
    (0x0E, 8), (0x1C, 10), (0x01, 27)]

def decodeScanCode (scanCode : UInt8) : UInt8 := (scanCodes.lookup scanCode).getD 0

/-- The space bar and `w`, the escape, `e`, and the digits from 1 to 3. -/
def processInput (input : UInt8) : Int64 :=
  let decodedInput := decodeScanCode input
  if decodedInput = 32 ∨ decodedInput = 119 then 1
  else if decodedInput = 27 then 2
  else if decodedInput = 101 then 3
  else if decodedInput = 49 ∨ decodedInput = 50 ∨ decodedInput = 51 then
    3 + (decodedInput - 48).toInt8.toInt64
  else 0

def validInput (inputProcessed : Int64) : Bool := inputProcessed ≠ 0

/-- What the game is sent for a scan code, if anything. -/
def gameInput (scanCode : UInt8) : Option Int64 :=
  if validInput (processInput scanCode) then some (processInput scanCode) else none

/-! ### Runs -/

/-- Where the loop of `inputReceiver_main` is: at its test, in `getScanCode` or in
    `sendInput`. -/
inductive InputLoop where
  | checkEnd
  | getScanCode
  | sendInput
  | ended

/-- The input receiver, which is the sender of the messages.  `result` is the variable of
    `getScanCode`, and `keys` are the scan codes that the raw buffer took. -/
structure InputReceiver where
  exchange : Exchange
  loop : InputLoop
  receiving : Receiving
  result : UInt8
  keys : List UInt8

namespace InputReceiver

def kernel (s : InputReceiver) : Kernel := s.exchange.transfer.kernel

def withKernel (s : InputReceiver) (kernel : Kernel) : InputReceiver :=
  { s with exchange := { s.exchange with
      transfer := { s.exchange.transfer with kernel := kernel } } }

/-- The keyboard's interrupt, in the mode for raw keys. -/
def key (s : InputReceiver) (scanCode : UInt8) : InputReceiver :=
  { s.withKernel { s.kernel with rawKeys := (s.kernel.rawKeys.rawAddElement scanCode).2 } with
    keys :=
      if CharBuffer.isFull s.kernel.rawKeys RAW_BUFFER_SIZE then s.keys
      else s.keys ++ [scanCode] }

/-- `getScanCode` has returned. -/
def gotScanCode (s : InputReceiver) : InputReceiver :=
  let input := processInput s.result
  if validInput input then
    { s with
      exchange := { s.exchange with
        sender := .loop (longs.encode input) 0
        messages := s.exchange.messages ++ [input] }
      loop := .sendInput }
  else { s with loop := .checkEnd }

/-- The next step of the system call; when it returns, so does `getScanCode`. -/
def receive (s : InputReceiver) : InputReceiver :=
  let (kernel, receiving, got) := s.kernel.inputStep s.receiving
  let s := { s.withKernel kernel with result := got.getD s.result, receiving := receiving }
  match receiving with
  | .idle => s.gotScanCode
  | _ => s

/-- `MQsend` has taken a step. -/
def sent (s : InputReceiver) (exchange : Exchange) : InputReceiver :=
  { s with
    exchange := exchange
    loop :=
      match exchange.sender with
      | .idle => .checkEnd
      | _ => .sendInput }

end InputReceiver

inductive InputAction where
  /-- The keyboard's interrupt. -/
  | key (scanCode : UInt8)
  | checkEnd (ends : Bool)
  /-- The next step of `getScanCode`. -/
  | getScanCode
  /-- The next step of `MQsend`. -/
  | sendInput
  /-- The game calls `MQreceive`, and goes on with it. -/
  | receive (msg : Buffer)
  | receiver
  | preempt
  /-- Others use the terminal. -/
  | terminal (tty : Tty)

/-- Nothing has been pressed and sent. -/
structure InputReceiver.Start (c : Channel) (rawFd : UInt64) (s : InputReceiver) : Prop where
  exchange : c.Begin s.exchange
  messages : s.exchange.messages = []
  rawEnd : s.kernel.TypedEntry c.writerIndex rawFd .RAW_KEYS F_READ
  blocking : (s.kernel.descriptor c.writerIndex rawFd).flags &&& F_NOBLOCK = 0
  rawKeys : s.kernel.rawKeys = CharBuffer.empty
  loop : s.loop = .checkEnd
  receiving : s.receiving = .idle
  keys : s.keys = []

/-- Keys, the input receiver and the game. -/
def gameInputs (c : Channel) (rawFd : UInt64) : System InputReceiver InputAction where
  init := InputReceiver.Start c rawFd
  step := fun s action s' =>
    match action with
    | .key scanCode => s' = s.key scanCode
    | .checkEnd ends => s.kernel.sched.getCurrentPCBIndex = c.writerIndex ∧
        s.loop = .checkEnd ∧ s' = { s with loop := if ends then .ended else .getScanCode }
    | .getScanCode => s.kernel.sched.getCurrentPCBIndex = c.writerIndex ∧
        s.loop = .getScanCode ∧
        match s.receiving with
        | .idle =>
          -- the variable of `getScanCode` is not initialised
          ∃ junk, match s.kernel.waitForIO rawFd with
            | none => s' = { s with result := junk }.gotScanCode
            | some (call, k) =>
              s' = { s.withKernel k with result := junk, receiving := .test call 1 0 }
        | _ => s' = s.receive
    | .sendInput => s.loop = .sendInput ∧
        ∃ e, c.exchange.step s.exchange .sender e ∧ s' = s.sent e
    | .receive msg =>
      ∃ e, c.exchange.step s.exchange (.receive msg) e ∧ s' = { s with exchange := e }
    | .receiver => ∃ e, c.exchange.step s.exchange .receiver e ∧ s' = { s with exchange := e }
    | .preempt => ∃ e, c.exchange.step s.exchange .preempt e ∧ s' = { s with exchange := e }
    | .terminal tty => s' = s.withKernel { s.kernel with tty := tty }

/-- No key has the scan code that reads as an error. -/
def PlainKeys (_ : InputReceiver) : InputAction → Prop
  | .key scanCode => scanCode ≠ 255
  | _ => True

/-! ### What the exchange leaves alone -/

namespace Kernel

variable {k : Kernel} {e fd : UInt64} {c : UInt8}

/-- The raw buffer is a file of its own. -/
theorem operate_messageQueue_rawKeys {operation : FileOperation} (hop : operation ≠ .CLOSE)
    (index : Int64) : (k.operate operation FileType.MESSAGE_QUEUE.code index c).2.2.rawKeys =
      k.rawKeys := by
  unfold operate
  rw [FileType.ofCode_code]
  cases operation with
  | READ =>
    simp only [readChar, MQreadChar]
    split <;> rfl
  | WRITE =>
    simp only [writeChar, MQwriteChar]
    split <;> rfl
  | IS_EMPTY => rfl
  | IS_FULL => rfl
  | CLOSE => exact absurd rfl hop
  | OPEN => rfl

theorem EndAt.operateFile_rawKeys {i : Nat} (h : k.EndAt e fd i) (operation : FileOperation)
    (hop : operation ≠ .CLOSE) (c : UInt8) :
    (k.operateFile e fd operation c).2.2.rawKeys = k.rawKeys := by
  rw [h.operateFile hop]
  split
  · rfl
  · exact operate_messageQueue_rawKeys hop _

theorem EndAt.outputStep_rawKeys {i : Nat} (h : k.EndAt e fd i) {p : Sending}
    (hp : ∀ call buffer n, p = .test call buffer n ∨ p = .write call buffer n →
      call.Through e fd) : (k.outputStep p).1.rawKeys = k.rawKeys := by
  cases p with
  | idle => rfl
  | test call buffer writtenData =>
    obtain ⟨hk, hfd⟩ := hp call buffer writtenData (.inl rfl)
    have hfile := h.operateFile_rawKeys .IS_FULL (by decide) 0
    rw [← hk, ← hfd] at hfile
    simp only [outputStep]
    split
    · split
      · split
        · exact hfile
        · exact hfile
      · exact hfile
    · rfl
  | write call buffer writtenData =>
    obtain ⟨hk, hfd⟩ := hp call buffer writtenData (.inr rfl)
    have hfile := h.operateFile_rawKeys .WRITE (by decide) (buffer.getD writtenData 0)
    rw [← hk, ← hfd] at hfile
    simp only [outputStep]
    split
    · exact hfile
    · exact hfile

theorem EndAt.inputStep_rawKeys {i : Nat} (h : k.EndAt e fd i) {p : Receiving}
    (hp : ∀ call m n, p = .test call m n ∨ p = .read call m n → call.Through e fd) :
    (k.inputStep p).1.rawKeys = k.rawKeys := by
  cases p with
  | idle => rfl
  | test call maxBytes readData =>
    obtain ⟨hk, hfd⟩ := hp call maxBytes readData (.inl rfl)
    have hfile := h.operateFile_rawKeys .IS_EMPTY (by decide) 0
    rw [← hk, ← hfd] at hfile
    simp only [inputStep]
    split
    · split
      · split
        · exact hfile
        · exact hfile
      · exact hfile
    · rfl
  | read call maxBytes readData =>
    obtain ⟨hk, hfd⟩ := hp call maxBytes readData (.inr rfl)
    have hfile := h.operateFile_rawKeys .READ (by decide) 0
    rw [← hk, ← hfd] at hfile
    simp only [inputStep]
    split
    · exact hfile
    · split
      · exact hfile
      · exact hfile

end Kernel

namespace Channel

variable {c : Channel} {k : Kernel}

/-- The raw buffer and who may read it. -/
structure SameRaw (k k' : Kernel) : Prop where
  rawKeys : k'.rawKeys = k.rawKeys
  badIndex : ∀ e, k'.pcb.badIndex e = k.pcb.badIndex e
  descriptor : ∀ e fd, k'.descriptor e fd = k.descriptor e fd

theorem SameRaw.typedEntry {k' : Kernel} (h : SameRaw k k') {e fd : UInt64} {fileType : FileType}
    {flag : UInt32} (hentry : k.TypedEntry e fd fileType flag) :
    k'.TypedEntry e fd fileType flag := by
  refine ⟨⟨(h.badIndex e).trans hentry.good, hentry.lt, ?_⟩, ?_, ?_⟩ <;> rw [h.descriptor]
  · exact hentry.occupied
  · exact hentry.fileType
  · exact hentry.flag

theorem transfer_sameRaw {s s' : Transfer} {action : TransferAction} (h : c.TransferInv s)
    (hstep : c.transfer.step s action s') : SameRaw s.kernel s'.kernel := by
  have hdescriptor := transfer_descriptor hstep
  obtain ⟨l, -, hcarries, hsending, hreceiving⟩ := h
  cases action with
  | write buffer =>
    obtain ⟨-, -, hcall⟩ := hstep
    split at hcall
    · obtain rfl := hcall
      exact ⟨rfl, fun _ => rfl, hdescriptor⟩
    · next call k heq =>
      obtain ⟨-, sched, rfl⟩ := waitForIO_eq heq
      obtain rfl := hcall
      exact ⟨rfl, fun _ => rfl, hdescriptor⟩
  | read maxBytes =>
    obtain ⟨-, -, hcall⟩ := hstep
    split at hcall
    · obtain rfl := hcall
      exact ⟨rfl, fun _ => rfl, hdescriptor⟩
    · next call k heq =>
      obtain ⟨-, sched, rfl⟩ := waitForIO_eq heq
      obtain rfl := hcall
      exact ⟨rfl, fun _ => rfl, hdescriptor⟩
  | writer =>
    obtain ⟨-, rfl⟩ := hstep
    refine ⟨hcarries.isOpen.writer.outputStep_rawKeys ?_, ?_, hdescriptor⟩
    · intro call buffer n hp
      rcases hp with heq | heq <;> rw [heq] at hsending
      · exact hsending
      · exact hsending.1
    · intro e
      rw [Kernel.outputStep_pcb]
  | reader =>
    obtain ⟨-, rfl⟩ := hstep
    refine ⟨hcarries.isOpen.reader.inputStep_rawKeys ?_, ?_, hdescriptor⟩
    · intro call m n hp
      rcases hp with heq | heq <;> rw [heq] at hreceiving
      · exact hreceiving
      · exact hreceiving.1
    · intro e
      rw [Kernel.inputStep_pcb]
  | preempt =>
    obtain ⟨t, hpre, rfl⟩ := hstep
    exact ⟨rfl, hpre.badIndex, hdescriptor⟩

/-- A step of `MQsend` or `MQreceive` is one of the transfer, or only of the loop around it; the
    messages are those that `MQsend` was called with. -/
structure Within (c : Channel) (s s' : Exchange) : Prop where
  transfer : s'.transfer = s.transfer ∨ ∃ a, c.transfer.step s.transfer a s'.transfer
  messages : s'.messages = s.messages

theorem Within.sentChar {s : Exchange} {t : Transfer} {a : TransferAction}
    (h : c.transfer.step s.transfer a t) (msg : List UInt8) (result : Nat) (sendResult : Int) :
    Within c s ({ s with transfer := t }.sentChar msg result sendResult) := by
  unfold Exchange.sentChar
  split
  · exact ⟨.inr ⟨a, h⟩, rfl⟩
  · split <;> exact ⟨.inr ⟨a, h⟩, rfl⟩

theorem Within.receivedChar {s : Exchange} {t : Transfer} {a : TransferAction}
    (h : c.transfer.step s.transfer a t) (buff : Buffer) (result : Nat) (recvResult : Int) :
    Within c s ({ s with transfer := t }.receivedChar buff result recvResult) ∧
    ({ s with transfer := t }.receivedChar buff result recvResult).sender = s.sender := by
  unfold Exchange.receivedChar
  split
  · exact ⟨⟨.inr ⟨a, h⟩, rfl⟩, rfl⟩
  · split <;> exact ⟨⟨.inr ⟨a, h⟩, rfl⟩, rfl⟩

theorem within_sender {s s' : Exchange} (hstep : c.exchange.step s .sender s') :
    Within c s s' := by
  cases hs : s.sender with
  | idle =>
    simp only [exchange, hs] at hstep
  | loop msg result =>
    simp only [exchange, hs] at hstep
    split at hstep
    · obtain ⟨t, ht, rfl⟩ := hstep
      split
      · exact .sentChar ht ..
      · exact ⟨.inr ⟨_, ht⟩, rfl⟩
    · obtain ⟨-, rfl⟩ := hstep
      exact ⟨.inl rfl, rfl⟩
  | call msg result =>
    simp only [exchange, hs] at hstep
    obtain ⟨t, ht, rfl⟩ := hstep
    split
    · exact .sentChar ht ..
    · exact ⟨.inr ⟨_, ht⟩, rfl⟩

/-- The game's steps leave the sender where it is. -/
theorem within_receiver {s s' : Exchange} (hstep : c.exchange.step s .receiver s') :
    Within c s s' ∧ s'.sender = s.sender := by
  cases hs : s.receiver with
  | idle =>
    simp only [exchange, hs] at hstep
  | loop buff result =>
    simp only [exchange, hs] at hstep
    split at hstep
    · obtain ⟨t, ht, rfl⟩ := hstep
      split
      · exact Within.receivedChar ht ..
      · exact ⟨⟨.inr ⟨_, ht⟩, rfl⟩, rfl⟩
    · obtain ⟨-, rfl⟩ := hstep
      exact ⟨⟨.inl rfl, rfl⟩, rfl⟩
  | call buff result =>
    simp only [exchange, hs] at hstep
    obtain ⟨t, ht, rfl⟩ := hstep
    split
    · exact Within.receivedChar ht ..
    · exact ⟨⟨.inr ⟨_, ht⟩, rfl⟩, rfl⟩

theorem Within.sameRaw {s s' : Exchange} (h : Within c s s') (hinv : c.MessageInv s) :
    SameRaw s.transfer.kernel s'.transfer.kernel := by
  rcases h.transfer with heq | ⟨a, ha⟩
  · rw [heq]
    exact ⟨rfl, fun _ => rfl, fun _ _ => rfl⟩
  · exact transfer_sameRaw hinv.transfer ha

/-- The queue does not see the raw buffer, nor the terminal. -/
theorem Carries.withRaw {l : List UInt8} (h : c.Carries k l) (sched : Scheduler)
    (rawKeys : RawKeys) (tty : Tty) :
    c.Carries { k with sched := sched, rawKeys := rawKeys, tty := tty } l :=
  ⟨h.isOpen.congr (fun _ => rfl) (fun _ _ => rfl) (fun _ => rfl) rfl, h.file⟩

theorem MessageInv.withRaw {s : Exchange} (h : c.MessageInv s) (sched : Scheduler)
    (rawKeys : RawKeys) (tty : Tty) :
    c.MessageInv { s with transfer := { s.transfer with
      kernel := { s.transfer.kernel with sched := sched, rawKeys := rawKeys, tty := tty } } } := by
  obtain ⟨l, hsent, hcarries, hsending, hreceiving⟩ := h.transfer
  exact { h with
    transfer := ⟨l, hsent, hcarries.withRaw sched rawKeys tty, hsending, hreceiving⟩
    blocking := ⟨h.blocking.writer, h.blocking.reader⟩ }

end Channel

/-! ### `getScanCode` -/

/-- The system call of `getScanCode`, when the raw buffer holds `l`, has taken `pending`. -/
inductive Receiving.GetsKey (e fd : UInt64) (l : List UInt8) (result : UInt8) :
    Receiving → List UInt8 → Prop
  | idle : GetsKey e fd l result .idle []
  | test {call : IOCall} : call.Through e fd → call.blocking = true →
      GetsKey e fd l result (.test call 1 0) []
  | read {call : IOCall} : call.Through e fd → l ≠ [] →
      GetsKey e fd l result (.read call 1 0) []
  | last {call : IOCall} : call.Through e fd → GetsKey e fd l result (.test call 1 1) [result]

/-- Keys come in while the call is there. -/
theorem Receiving.GetsKey.append {e fd : UInt64} {l pending : List UInt8} {result : UInt8}
    {p : Receiving} (h : p.GetsKey e fd l result pending) (l' : List UInt8) :
    p.GetsKey e fd (l ++ l') result pending := by
  cases h with
  | idle => exact .idle
  | test hthrough hblock => exact .test hthrough hblock
  | read hthrough hne => exact .read hthrough (List.append_ne_nil_of_left_ne_nil hne _)
  | last hthrough => exact .last hthrough

theorem Receiving.GetsKey.length_le {e fd : UInt64} {l pending : List UInt8} {result : UInt8}
    {p : Receiving} (h : p.GetsKey e fd l result pending) : pending.length ≤ 1 := by
  cases h <;> simp

namespace Kernel

/-- Descriptor `fd` of process `e` is the raw buffer, open for reading. -/
abbrev RawEnd (k : Kernel) (e fd : UInt64) : Prop := k.TypedEntry e fd .RAW_KEYS F_READ

variable {k : Kernel} {e fd : UInt64} {c : UInt8} {l : List UInt8}

theorem RawEnd.operateFile_isEmpty (h : k.RawEnd e fd) :
    k.operateFile e fd .IS_EMPTY c = (if k.rawKeys.rawIsEmpty = true then 0 else -1, c, k) := by
  have hperm : ¬ k.pcb.hasPermissions e fd .IS_EMPTY = 0 := by
    show ¬ (1 : UInt64) = 0
    decide
  rw [h.toOpenEntry.operateFile (by decide), if_neg hperm, h.fileType]
  simp only [operate, FileType.ofCode_code, isEmpty, ofBool]
  by_cases hempty : k.rawKeys.rawIsEmpty = true <;> simp [hempty]

/-- The oldest scan code is read. -/
theorem RawEnd.operateFile_read {a : UInt8} (h : k.RawEnd e fd) (hl : k.rawKeys.Holds (a :: l))
    (hplain : a ≠ 255) : k.operateFile e fd .READ c =
      (0, a, { k with rawKeys := k.rawKeys.rawReadChar.2.2 }) := by
  have hperm : ¬ k.pcb.hasPermissions e fd .READ = 0 :=
    h.toOpenEntry.hasPermissions_iff.2.mpr h.flag
  obtain ⟨hresult, hdest⟩ := hl.rawReadChar_cons
  rw [if_neg hplain] at hresult hdest
  rw [h.toOpenEntry.operateFile (by decide), if_neg hperm, h.fileType]
  simp only [operate, FileType.ofCode_code, readChar, hresult, hdest]
  rfl

theorem RawEnd.getFileType_ne (h : k.RawEnd e fd) :
    k.pcb.getFileType e fd ≠ FileType.STDIN_.code := by
  have htype : k.pcb.getFileType e fd = FileType.RAW_KEYS.code := by
    simp only [Pcb.getFileType, h.good]
    exact h.fileType
  rw [htype]
  decide

/-- With a scan code in the buffer the test lets the call go on. -/
theorem RawEnd.inputStep_test {call : IOCall} (h : k.RawEnd call.PCBIndex call.fileDescriptor)
    (hl : k.rawKeys.Holds l) (hne : l ≠ []) :
    k.inputStep (.test call 1 0) = (k, .read call 1 0, none) := by
  have hdata : ¬ k.rawKeys.rawIsEmpty = true := fun htrue =>
    hne ((CharBuffer.Contents.isEmpty_iff hl).mp htrue)
  simp [Kernel.inputStep, h.operateFile_isEmpty, hdata]

/-- Past its test it takes the oldest one. -/
theorem RawEnd.inputStep_read {call : IOCall} {a : UInt8}
    (h : k.RawEnd call.PCBIndex call.fileDescriptor) (hl : k.rawKeys.Holds (a :: l))
    (hplain : a ≠ 255) : k.inputStep (.read call 1 0) =
      ({ k with rawKeys := k.rawKeys.rawReadChar.2.2 }, .test call 1 1, some a) := by
  have htype := h.getFileType_ne
  simp [Kernel.inputStep, h.operateFile_read hl hplain, htype]

/-- A step of the system call: it goes on, or it returns the oldest scan code. -/
theorem RawEnd.getScanCode_step {pending : List UInt8} {result : UInt8} {p : Receiving}
    (h : k.RawEnd e fd) (hl : k.rawKeys.Holds l) (hplain : 255 ∉ l)
    (hp : p.GetsKey e fd l result pending) (hne : p ≠ .idle) :
    ∃ sched rawKeys p' got l', k.inputStep p =
        ({ k with sched := sched, rawKeys := rawKeys }, p', got) ∧
      sched.getCurrentPCBIndex = k.sched.getCurrentPCBIndex ∧ rawKeys.Holds l' ∧ 255 ∉ l' ∧
      ((p' ≠ .idle ∧ ∃ pending', p'.GetsKey e fd l' (got.getD result) pending' ∧
          pending ++ l = pending' ++ l') ∨
        (p' = .idle ∧ pending ++ l = got.getD result :: l')) := by
  have hend : ∀ {call : IOCall}, call.Through e fd →
      k.RawEnd call.PCBIndex call.fileDescriptor := by
    intro call hthrough
    rw [hthrough.1, hthrough.2]
    exact h
  cases hp with
  | idle => exact absurd rfl hne
  | @test call hthrough hblock =>
    have hempty : k.rawKeys.rawIsEmpty = true ↔ l = [] := CharBuffer.Contents.isEmpty_iff hl
    by_cases hnil : l = []
    -- it yields and tests again
    · have hstep : k.inputStep (.test call 1 0) = (k, .test call 1 0, none) := by
        simp [Kernel.inputStep, (hend hthrough).operateFile_isEmpty, hempty.mpr hnil, hblock]
      exact ⟨_, _, _, _, l, hstep, rfl, hl, hplain,
        .inl ⟨by simp, [], .test hthrough hblock, rfl⟩⟩
    · exact ⟨_, _, _, _, l, (hend hthrough).inputStep_test hl hnil, rfl, hl, hplain,
        .inl ⟨by simp, [], .read hthrough hnil, rfl⟩⟩
  | @read call hthrough hnil =>
    obtain ⟨a, l, rfl⟩ := List.exists_cons_of_ne_nil hnil
    rw [List.mem_cons, not_or] at hplain
    have hstep := (hend hthrough).inputStep_read hl (Ne.symm hplain.1)
    exact ⟨_, _, _, _, l, hstep, rfl, hl.rawReadChar, hplain.2,
      .inl ⟨by simp, [a], .last hthrough, rfl⟩⟩
  | @last call hthrough =>
    have hstep : k.inputStep (.test call 1 1) = (k.endWait call, .idle, none) := by
      simp [Kernel.inputStep]
    refine ⟨_, _, _, _, l, hstep, ?_, hl, hplain, .inr ⟨rfl, rfl⟩⟩
    exact Scheduler.setState_getCurrentPCBIndex ..

end Kernel

namespace InputReceiver

variable {s : InputReceiver} {k : Kernel} {got : Option UInt8}

theorem receive_call {p' : Receiving} (h : s.kernel.inputStep s.receiving = (k, p', got))
    (hp' : p' ≠ .idle) :
    s.receive = { s.withKernel k with result := got.getD s.result, receiving := p' } := by
  unfold receive
  rw [h]
  cases p' with
  | idle => exact absurd rfl hp'
  | test call maxBytes readData => rfl
  | read call maxBytes readData => rfl

theorem receive_returned (h : s.kernel.inputStep s.receiving = (k, .idle, got)) :
    s.receive = InputReceiver.gotScanCode
      { s.withKernel k with result := got.getD s.result, receiving := .idle } := by
  unfold receive
  rw [h]

end InputReceiver

/-! ### The invariant -/

/-- The scan codes are those that were decoded, the one that `getScanCode` has, and those in
    the raw buffer; the messages are what the first mean. -/
structure InputInv (c : Channel) (rawFd : UInt64) (s : InputReceiver)
    (taken pending l : List UInt8) : Prop where
  exchange : c.MessageInv s.exchange
  rawEnd : s.kernel.RawEnd c.writerIndex rawFd
  blocking : (s.kernel.descriptor c.writerIndex rawFd).flags &&& F_NOBLOCK = 0
  holds : s.kernel.rawKeys.Holds l
  plain : 255 ∉ l
  keys : s.keys = taken ++ pending ++ l
  messages : s.exchange.messages = taken.filterMap gameInput
  receiving : s.receiving.GetsKey c.writerIndex rawFd l s.result pending
  between : s.loop ≠ .getScanCode → s.receiving = .idle
  sender : s.loop ≠ .sendInput → s.exchange.sender = .idle

namespace InputInv

variable {c : Channel} {rawFd : UInt64} {s s' : InputReceiver} {taken pending l : List UInt8}

theorem key (h : InputInv c rawFd s taken pending l) {scanCode : UInt8} (hplain : scanCode ≠ 255) :
    ∃ more, InputInv c rawFd (s.key scanCode) taken pending (l ++ more) := by
  have hadded := h.holds.rawAddElement scanCode
  have hfull : CharBuffer.isFull s.kernel.rawKeys RAW_BUFFER_SIZE = true ↔
      l.length = RAW_BUFFER_SIZE.toNat := CharBuffer.Contents.isFull_iff h.holds
  have hraw : ∀ more keys, RawKeys.Holds (s.kernel.rawKeys.rawAddElement scanCode).2 (l ++ more) →
      255 ∉ l ++ more → keys = s.keys ++ more →
      InputInv c rawFd { s.withKernel { s.kernel with
        rawKeys := (s.kernel.rawKeys.rawAddElement scanCode).2 } with keys := keys }
        taken pending (l ++ more) := by
    rintro more keys hholds hno rfl
    refine { h with
      exchange := h.exchange.withRaw _ _ _
      rawEnd := h.rawEnd.congr rfl
      blocking := h.blocking
      holds := hholds
      plain := hno
      keys := ?_
      receiving := h.receiving.append more }
    rw [h.keys, List.append_assoc _ l]
  unfold InputReceiver.key
  by_cases hroom : l.length < RAW_BUFFER_SIZE.toNat
  · refine ⟨[scanCode], hraw _ _ ?_ ?_ ?_⟩
    · simpa [BoundedQueue.afterCall, BoundedQueue.enqueue_of_lt hroom] using hadded
    · rw [List.mem_append, List.mem_singleton, not_or]
      exact ⟨h.plain, hplain.symm⟩
    · rw [if_neg fun htrue => absurd (hfull.mp htrue) (Nat.ne_of_lt hroom)]
  · have hlen := Nat.le_antisymm h.holds.fills.fits (Nat.le_of_not_lt hroom)
    refine ⟨[], hraw _ _ ?_ ?_ ?_⟩
    · rw [List.append_nil]
      simpa [BoundedQueue.afterCall,
        BoundedQueue.enqueue_eq_none_iff.mpr (Nat.le_of_not_lt hroom)] using hadded
    · rw [List.append_nil]
      exact h.plain
    · rw [if_pos (hfull.mpr hlen), List.append_nil]

/-- `getScanCode` has begun and not returned yet. -/
theorem withCall (h : InputInv c rawFd s taken pending l) (hloop : s.loop = .getScanCode)
    {sched : Scheduler} {rawKeys : RawKeys} {result : UInt8} {p : Receiving}
    {pending' l' : List UInt8} (hl' : rawKeys.Holds l') (hplain : 255 ∉ l')
    (hp : p.GetsKey c.writerIndex rawFd l' result pending')
    (hsame : pending ++ l = pending' ++ l') :
    InputInv c rawFd { s.withKernel { s.kernel with sched := sched, rawKeys := rawKeys } with
      result := result, receiving := p } taken pending' l' := by
  refine { h with
    exchange := h.exchange.withRaw _ _ _
    rawEnd := h.rawEnd.congr rfl
    blocking := h.blocking
    holds := hl'
    plain := hplain
    keys := ?_
    receiving := hp
    between := fun hno => absurd hloop hno }
  show s.keys = _
  rw [h.keys, List.append_assoc, hsame, ← List.append_assoc]

/-- `getScanCode` returns the next key. -/
theorem gotScanCode (h : InputInv c rawFd s taken pending l) (hloop : s.loop = .getScanCode)
    (hturn : s.kernel.sched.getCurrentPCBIndex = c.writerIndex) {sched : Scheduler}
    (hsched : sched.getCurrentPCBIndex = s.kernel.sched.getCurrentPCBIndex)
    {rawKeys : RawKeys} {a : UInt8} {l' : List UInt8} (hl' : rawKeys.Holds l')
    (hplain : 255 ∉ l') (hsame : pending ++ l = a :: l') :
    InputInv c rawFd ({ s.withKernel { s.kernel with sched := sched, rawKeys := rawKeys } with
      result := a, receiving := .idle } : InputReceiver).gotScanCode (taken ++ [a]) [] l' := by
  have hsender : s.exchange.sender = .idle := by
    apply h.sender
    rw [hloop]
    exact nofun
  have hkeys : s.keys = (taken ++ [a]) ++ [] ++ l' := by
    rw [h.keys, List.append_assoc, hsame, List.append_nil, List.append_cons]
  have hmessages : s.exchange.messages ++ (gameInput a).toList =
      (taken ++ [a]).filterMap gameInput := by
    rw [h.messages, List.filterMap_append, List.filterMap_cons]
    cases gameInput a <;> rfl
  unfold InputReceiver.gotScanCode
  by_cases hvalid : validInput (processInput a) = true
  · have hinput : gameInput a = some (processInput a) := if_pos hvalid
    rw [hinput] at hmessages
    simp only [if_pos hvalid]
    -- `MQsend` is called
    have hsend : c.exchange.step { s.exchange with transfer := { s.exchange.transfer with
        kernel := { s.kernel with sched := sched, rawKeys := rawKeys } } }
        (.send (processInput a)) _ := ⟨hsched.trans hturn, hsender, rfl⟩
    exact { h with
      exchange := Channel.messageInv_send (h.exchange.withRaw sched rawKeys s.kernel.tty) hsend
      rawEnd := h.rawEnd.congr rfl
      blocking := h.blocking
      holds := hl'
      plain := hplain
      keys := hkeys
      messages := hmessages
      receiving := .idle
      between := fun _ => rfl
      sender := fun hno => absurd rfl hno }
  · have hinput : gameInput a = none := if_neg hvalid
    rw [hinput] at hmessages
    simp only [if_neg hvalid]
    exact { h with
      exchange := h.exchange.withRaw _ _ _
      rawEnd := h.rawEnd.congr rfl
      blocking := h.blocking
      holds := hl'
      plain := hplain
      keys := hkeys
      messages := (List.append_nil _).symm.trans hmessages
      receiving := .idle
      between := fun _ => rfl
      sender := fun _ => hsender }

/-- A step of the exchange that does not begin a message. -/
theorem exchanged (h : InputInv c rawFd s taken pending l) {e : Exchange} {loop : InputLoop}
    (hexchange : c.MessageInv e) (hwithin : Channel.Within c s.exchange e)
    (hbetween : loop ≠ .getScanCode → s.receiving = .idle)
    (hsender : loop ≠ .sendInput → e.sender = .idle) :
    InputInv c rawFd { s with exchange := e, loop := loop } taken pending l := by
  have hsame := hwithin.sameRaw h.exchange
  refine { h with
    exchange := hexchange
    rawEnd := hsame.typedEntry h.rawEnd
    blocking := ?_
    holds := ?_
    messages := hwithin.messages.trans h.messages
    between := hbetween
    sender := hsender }
  · show (e.transfer.kernel.descriptor c.writerIndex rawFd).flags &&& F_NOBLOCK = 0
    rw [hsame.descriptor]
    exact h.blocking
  · show RawKeys.Holds e.transfer.kernel.rawKeys l
    rw [hsame.rawKeys]
    exact h.holds

/-- The game's steps and the scheduler's. -/
theorem exchanged_other (h : InputInv c rawFd s taken pending l) {e : Exchange}
    {action : MessageAction} (hstep : c.exchange.step s.exchange action e)
    (hwithin : Channel.Within c s.exchange e) (hsender : e.sender = s.exchange.sender) :
    InputInv c rawFd { s with exchange := e } taken pending l := by
  apply h.exchanged (Channel.messageInv_step action h.exchange hstep) hwithin h.between
  intro hno
  rw [hsender]
  exact h.sender hno

theorem sendInput (h : InputInv c rawFd s taken pending l) (hloop : s.loop = .sendInput)
    {e : Exchange} (hstep : c.exchange.step s.exchange .sender e) :
    InputInv c rawFd (s.sent e) taken pending l := by
  have hreceiving : s.receiving = .idle := by
    apply h.between
    rw [hloop]
    exact nofun
  apply h.exchanged (Channel.messageInv_step .sender h.exchange hstep)
    (Channel.within_sender hstep) fun _ => hreceiving
  intro hno
  cases hs : e.sender with
  | idle => rfl
  | loop msg result =>
    rw [hs] at hno
    exact absurd rfl hno
  | call msg result =>
    rw [hs] at hno
    exact absurd rfl hno

/-- A step of `getScanCode`. -/
theorem getScanCode (h : InputInv c rawFd s taken pending l)
    (hstep : (gameInputs c rawFd).step s .getScanCode s') :
    ∃ taken' pending' l', InputInv c rawFd s' taken' pending' l' := by
  obtain ⟨hturn, hloop, hstep⟩ := hstep
  by_cases hidle : s.receiving = .idle
  · rw [hidle] at hstep
    obtain ⟨junk, hstep⟩ := hstep
    obtain ⟨call, sched, hwait, hk, hfd, hblock, -⟩ :=
      h.rawEnd.toOpenEntry.waits hturn h.exchange.writerIndex
    rw [hwait] at hstep
    have hcall := h.receiving
    rw [hidle] at hcall
    cases hcall
    have htest : Receiving.GetsKey c.writerIndex rawFd l junk (.test call 1 0) [] :=
      .test ⟨hk, hfd⟩ (hblock.trans (decide_eq_true h.blocking))
    obtain rfl := hstep
    exact ⟨taken, [], l, h.withCall hloop h.holds h.plain htest rfl⟩
  · split at hstep
    · next heq => exact absurd heq hidle
    · obtain ⟨sched, rawKeys, p', got, l', hinput, hsched, hl', hplain, hcase⟩ :=
        h.rawEnd.getScanCode_step h.holds h.plain h.receiving hidle
      obtain rfl := hstep
      rcases hcase with ⟨hgoes, pending', hp, hsame⟩ | ⟨rfl, hsame⟩
      · rw [InputReceiver.receive_call hinput hgoes]
        exact ⟨taken, pending', l', h.withCall hloop hl' hplain hp hsame⟩
      · rw [InputReceiver.receive_returned hinput]
        exact ⟨taken ++ [got.getD s.result], [], l',
          h.gotScanCode hloop hturn hsched hl' hplain hsame⟩

theorem step {action : InputAction} (h : InputInv c rawFd s taken pending l)
    (hok : PlainKeys s action) (hstep : (gameInputs c rawFd).step s action s') :
    ∃ taken' pending' l', InputInv c rawFd s' taken' pending' l' := by
  cases action with
  | key scanCode =>
    obtain rfl := hstep
    obtain ⟨more, hmore⟩ := h.key hok
    exact ⟨taken, pending, _, hmore⟩
  | checkEnd ends =>
    obtain ⟨-, hloop, rfl⟩ := hstep
    refine ⟨taken, pending, l, { h with between := fun _ => ?_, sender := fun _ => ?_ }⟩
    · apply h.between
      rw [hloop]
      exact nofun
    · apply h.sender
      rw [hloop]
      exact nofun
  | getScanCode => exact h.getScanCode hstep
  | sendInput =>
    obtain ⟨hloop, e, he, rfl⟩ := hstep
    exact ⟨taken, pending, l, h.sendInput hloop he⟩
  | receive msg =>
    obtain ⟨e, he, rfl⟩ := hstep
    have hcall := he
    obtain ⟨-, -, rfl⟩ := hcall
    exact ⟨taken, pending, l, h.exchanged_other he ⟨.inl rfl, rfl⟩ rfl⟩
  | receiver =>
    obtain ⟨e, he, rfl⟩ := hstep
    obtain ⟨hwithin, hsender⟩ := Channel.within_receiver he
    exact ⟨taken, pending, l, h.exchanged_other he hwithin hsender⟩
  | preempt =>
    obtain ⟨e, he, rfl⟩ := hstep
    have hpreempt := he
    obtain ⟨t, ht, rfl⟩ := hpreempt
    exact ⟨taken, pending, l, h.exchanged_other he ⟨.inr ⟨_, ht⟩, rfl⟩ rfl⟩
  | terminal tty =>
    obtain rfl := hstep
    exact ⟨taken, pending, l, { h with
      exchange := h.exchange.withRaw _ _ _
      rawEnd := h.rawEnd.congr rfl
      blocking := h.blocking }⟩

theorem start (h : s.Start c rawFd) : InputInv c rawFd s [] [] [] := by
  refine ⟨Channel.messageInv_begin h.exchange, h.rawEnd, h.blocking, ?_, List.not_mem_nil,
    h.keys, h.messages, ?_, fun _ => h.receiving, fun _ => h.exchange.sender⟩
  · rw [h.rawKeys]
    exact CharBuffer.contents_empty (by decide)
  · rw [h.receiving]
    exact .idle

end InputInv

/-! ### The result -/

theorem inputInv_reachable {c : Channel} {rawFd : UInt64} {s : InputReceiver}
    (h : ((gameInputs c rawFd).restrict PlainKeys).Reachable s) :
    ∃ taken pending l, InputInv c rawFd s taken pending l := by
  apply h.invariant fun s => ∃ taken pending l, InputInv c rawFd s taken pending l
  · exact fun s hstart => ⟨[], [], [], .start hstart⟩
  · intro s action s' hinv hstep
    obtain ⟨taken, pending, l, hinv⟩ := hinv
    exact hinv.step hstep.1 hstep.2

/-- **Each key acts once.**  As long as no scan code is 255, wherever the processes are
    interrupted: of the scan codes that the raw buffer took, the input receiver has decoded the
    first ones, it has one more at most, and the others are in the buffer.  It has sent the
    game a message for each one that means something, and the game has received the first of
    the messages, as many as do not fit into the queue and the calls in progress.  When all
    calls are over and both buffers are empty, the game has received what the keys mean. -/
theorem keys_reach_game {c : Channel} {rawFd : UInt64} {s : InputReceiver}
    (h : ((gameInputs c rawFd).restrict PlainKeys).Reachable s) :
    (∃ taken pending, s.keys = taken ++ pending ++ s.kernel.rawKeys.scanCodes ∧
      pending.length ≤ 1 ∧ s.exchange.messages = taken.filterMap gameInput ∧
      s.exchange.delivered <+: s.exchange.messages ∧
      s.exchange.messages.length * longs.size ≤
        s.exchange.delivered.length * longs.size + (PAGE_SIZE.toNat - 1) + 2 * longs.size) ∧
    (s.receiving = .idle → s.kernel.rawKeys.rawIsEmpty = true →
      s.exchange.sender = .idle → s.exchange.receiver = .idle →
      (s.kernel.operateFile c.readerIndex c.readerFd .IS_EMPTY 0).1 = 0 →
      s.exchange.delivered = s.keys.filterMap gameInput) := by
  obtain ⟨taken, pending, l, hinv⟩ := inputInv_reachable h
  constructor
  · refine ⟨taken, pending, ?_, hinv.receiving.length_le, hinv.messages,
      hinv.exchange.delivered_isPrefixOf, hinv.exchange.underway_length⟩
    rw [hinv.holds.scanCodes_eq]
    exact hinv.keys
  · intro hidle hraw hsender hreceiver hempty
    have hnil : l = [] := (CharBuffer.Contents.isEmpty_iff hinv.holds).mp hraw
    have hpending := hinv.receiving
    rw [hidle] at hpending
    cases hpending
    rw [hinv.exchange.all_delivered hsender hreceiver hempty, hinv.messages, hinv.keys, hnil,
      List.append_nil, List.append_nil]

/-- The process that has opened the queue can still read the raw buffer. -/
theorem rawEnd_of_company {k : Kernel} {r w : UInt64} {i : Nat} (h : Company k r w i) :
    (k.MQopen (some (queueName 0)) F_WRITE).2.RawEnd w 3 ∧
    ((k.MQopen (some (queueName 0)) F_WRITE).2.descriptor w 3).flags &&& F_NOBLOCK = 0 := by
  obtain ⟨hinv, -⟩ := ledger h.reachable
  have hindex := (hinv.slots.indexOfMQ_iff (queueName 0) i).mpr ⟨h.lt, h.live, h.name⟩
  rw [MQopen_shared (by decide) hindex h.available h.room]
  obtain ⟨k', hk'⟩ : ∃ k', k' = (k.setMQ i ((k.mqs i).marked k.getCurrentPID
    F_WRITE)).withDescriptor i F_WRITE := ⟨_, rfl⟩
  have hentry : k'.descriptor w 3 = standardFiles.entries 3 := by
    have hfds : (k'.pcb.process w).fileDescriptors = (k.pcb.process w).fileDescriptors.insert
        ⟨1, UInt32.ofNat i, FileType.MESSAGE_QUEUE.code, F_WRITE⟩ := by
      rw [hk', ← h.turn]
      exact (setFds_fileDescriptors _).trans (if_pos rfl)
    unfold descriptor
    rw [hfds, h.fileDescriptors, FileDescriptorsMap.insert_entries]
    exact if_neg (by decide)
  rw [← hk']
  refine ⟨⟨⟨?_, by decide, ?_⟩, ?_, ?_⟩, ?_⟩
  · exact hk' ▸ h.goodW
  · rw [hentry]
    decide
  · rw [hentry]
    decide
  · rw [hentry]
    decide
  · rw [hentry]
    decide

/-! ### A key goes its way -/

section
variable {c : Channel} {rawFd : UInt64} {s : InputReceiver} {taken l : List UInt8}

/-- `getScanCode` takes the oldest scan code in four steps, when nobody comes in between. -/
theorem InputInv.decodes {a : UInt8}
    (hreach : ((gameInputs c rawFd).restrict PlainKeys).Reachable s)
    (h : InputInv c rawFd s taken [] (a :: l)) (hloop : s.loop = .getScanCode)
    (hidle : s.receiving = .idle)
    (hturn : s.kernel.sched.getCurrentPCBIndex = c.writerIndex) :
    ∃ sched rawKeys, sched.getCurrentPCBIndex = c.writerIndex ∧
      ((gameInputs c rawFd).restrict PlainKeys).Reachable
        ({ s.withKernel { s.kernel with sched := sched, rawKeys := rawKeys } with
          result := a, receiving := .idle } : InputReceiver).gotScanCode := by
  obtain ⟨call, sched, hwait, hk, hfd, hblock, hsched⟩ :=
    h.rawEnd.toOpenEntry.waits hturn h.exchange.writerIndex
  have hplain := h.plain
  rw [List.mem_cons, not_or] at hplain
  let k : Kernel := { s.kernel with sched := sched }
  have hend : k.RawEnd call.PCBIndex call.fileDescriptor := by
    rw [hk, hfd]
    exact h.rawEnd.congr rfl
  let s₁ : InputReceiver := { s.withKernel k with result := 0, receiving := .test call 1 0 }
  have h₁ : ((gameInputs c rawFd).restrict PlainKeys).Reachable s₁ := by
    refine .step .getScanCode hreach ⟨trivial, hturn, hloop, ?_⟩
    rw [hidle]
    refine ⟨0, ?_⟩
    rw [hwait]
  let s₂ : InputReceiver := { s.withKernel k with result := 0, receiving := .read call 1 0 }
  have h₂ : ((gameInputs c rawFd).restrict PlainKeys).Reachable s₂ := by
    refine .step .getScanCode h₁ ⟨trivial, hsched, hloop, ?_⟩
    have hinput : s₁.kernel.inputStep s₁.receiving = (k, .read call 1 0, none) :=
      hend.inputStep_test h.holds (List.cons_ne_nil a l)
    exact (InputReceiver.receive_call hinput nofun).symm
  let k₃ : Kernel := { k with rawKeys := k.rawKeys.rawReadChar.2.2 }
  let s₃ : InputReceiver := { s.withKernel k₃ with result := a, receiving := .test call 1 1 }
  have h₃ : ((gameInputs c rawFd).restrict PlainKeys).Reachable s₃ := by
    refine .step .getScanCode h₂ ⟨trivial, hsched, hloop, ?_⟩
    have hinput : s₂.kernel.inputStep s₂.receiving = (k₃, .test call 1 1, some a) :=
      hend.inputStep_read h.holds (Ne.symm hplain.1)
    exact (InputReceiver.receive_call hinput nofun).symm
  refine ⟨(k₃.endWait call).sched, k₃.rawKeys, ?_, .step .getScanCode h₃
    ⟨trivial, hsched, hloop, ?_⟩⟩
  · exact (Scheduler.setState_getCurrentPCBIndex ..).trans hsched
  · have hinput : s₃.kernel.inputStep s₃.receiving = (k₃.endWait call, .idle, none) := by
      show k₃.inputStep (.test call 1 1) = _
      simp [Kernel.inputStep]
    exact (InputReceiver.receive_returned hinput).symm

/-- What a step of the sender, or of the scheduler, is for the input receiver. -/
def sendAction : MessageAction → InputAction
  | .sender => .sendInput
  | _ => .preempt

/-- A call of `MQsend` goes on as the sender does. -/
theorem InputReceiver.sends {e : Exchange} {actions : List MessageAction}
    (hreach : ((gameInputs c rawFd).restrict PlainKeys).Reachable s) (hloop : s.loop = .sendInput)
    (hsender : s.exchange.sender ≠ .idle)
    (hrun : (c.exchange.restrict Channel.Sends).StepsFrom s.exchange actions e) :
    ((gameInputs c rawFd).restrict PlainKeys).Reachable (s.sent e) := by
  have hsending : ∀ e : Exchange, e.sender ≠ .idle → (s.sent e).loop = .sendInput := by
    intro e he
    unfold InputReceiver.sent
    split
    · next heq => exact absurd heq he
    · rfl
  have hstart : s.sent s.exchange = s := by
    have hsame : s.sent s.exchange = { s with loop := (s.sent s.exchange).loop } := rfl
    rw [hsame, hsending _ hsender, ← hloop]
  have hrun' : ((gameInputs c rawFd).restrict PlainKeys).StepsFrom (s.sent s.exchange)
      (actions.map sendAction) (s.sent e) := by
    apply hrun.map
    · exact fun _ _ _ (_ : True) _ => trivial
    · intro e action e' _ hstep
      obtain ⟨⟨hne, haction⟩, hstep⟩ := hstep
      rcases haction with rfl | rfl
      · exact ⟨trivial, hsending e hne, e', hstep, rfl⟩
      · refine ⟨trivial, e', hstep, ?_⟩
        obtain ⟨t, -, rfl⟩ := hstep
        rfl
    · trivial
  rw [hstart] at hrun'
  exact hreach.run hrun'

/-- What a step of the receiver, or of the scheduler, is for the game. -/
def receiveAction : MessageAction → InputAction
  | .receiver => .receiver
  | _ => .preempt

def InputReceiver.withExchange (s : InputReceiver) (exchange : Exchange) : InputReceiver :=
  { s with exchange := exchange }

/-- A call of `MQreceive` goes on as the receiver does. -/
theorem InputReceiver.receives {e : Exchange} {actions : List MessageAction}
    (hreach : ((gameInputs c rawFd).restrict PlainKeys).Reachable s)
    (hrun : (c.exchange.restrict Channel.Receives).StepsFrom s.exchange actions e) :
    ((gameInputs c rawFd).restrict PlainKeys).Reachable (s.withExchange e) := by
  have hrun' : ((gameInputs c rawFd).restrict PlainKeys).StepsFrom (s.withExchange s.exchange)
      (actions.map receiveAction) (s.withExchange e) := by
    apply hrun.map
    · exact fun _ _ _ (_ : True) _ => trivial
    · intro e action e' _ hstep
      obtain ⟨haction, hstep⟩ := hstep
      rcases haction with rfl | rfl
      · exact ⟨trivial, e', hstep, rfl⟩
      · exact ⟨trivial, e', hstep, rfl⟩
    · trivial
  exact hreach.run hrun'

end

/-- The space bar is pressed, decoded and sent, and the game receives the message. -/
theorem keys_reach_game_space : ∃ (c : Channel) (rawFd : UInt64) (s : InputReceiver),
    ((gameInputs c rawFd).restrict PlainKeys).Reachable s ∧ s.keys = [0x39] ∧
    s.exchange.delivered = [1] := by
  obtain ⟨k, r, w, i, h⟩ := company
  obtain ⟨hinv, -⟩ := ledger h.reachable
  obtain ⟨c, hstart, hw, hr, hwrites, hreads⟩ := Channel.channel_of_company h
  obtain ⟨hraw, hblocking⟩ := rawEnd_of_company h
  obtain ⟨sched, hother⟩ := h.otherTurn
  have hindex : ∀ e, k.pcb.badIndex e = false → e ≠ -1 := by
    rintro e hgood rfl
    rw [hinv.tasks.badIndex_error (by decide)] at hgood
    cases hgood
  have hwriter : (k.MQopen (some (queueName 0)) F_WRITE).2.sched.getCurrentPCBIndex =
      c.writerIndex := by
    rw [MQopen_sched, h.turn, hw]
  have hreader : sched.getCurrentPCBIndex = c.readerIndex := hother.trans hr.symm
  obtain ⟨k', hk'⟩ : ∃ k', k' = (k.MQopen (some (queueName 0)) F_WRITE).2 := ⟨_, rfl⟩
  rw [← hk'] at hstart hwrites hreads hraw hblocking hwriter
  let s : InputReceiver := ⟨⟨⟨{ k' with rawKeys := CharBuffer.empty }, .idle, .idle, [], []⟩,
    .idle, .idle, [], [], []⟩, .checkEnd, .idle, 0, []⟩
  have hbegin : c.Begin s.exchange := by
    refine ⟨⟨rfl, rfl, rfl, hstart.carries.withRaw _ _ _⟩, ⟨?_, ?_⟩, hw ▸ hindex w h.goodW,
      hr ▸ hindex r h.goodR, rfl, rfl, rfl, rfl, rfl⟩
    · show (k'.descriptor c.writerIndex c.writerFd).flags &&& F_NOBLOCK = 0
      rw [hwrites]
      decide
    · show (k'.descriptor c.readerIndex c.readerFd).flags &&& F_NOBLOCK = 0
      rw [hreads]
      decide
  have hready : s.Start c 3 :=
    ⟨hbegin, rfl, hw ▸ hraw.congr rfl, hw ▸ hblocking, rfl, rfl, rfl, rfl⟩
  -- the key goes into the raw buffer
  have hplain : (0x39 : UInt8) ≠ 255 := by decide
  have hreach₁ : ((gameInputs c 3).restrict PlainKeys).Reachable (s.key 0x39) :=
    .step (.key 0x39) (.init hready) ⟨hplain, rfl⟩
  obtain ⟨more, h₁⟩ := (InputInv.start hready).key hplain
  obtain rfl : more = [0x39] := h₁.keys.symm
  -- the input receiver takes it
  let s₂ : InputReceiver := { s.key 0x39 with loop := .getScanCode }
  have hreach₂ : ((gameInputs c 3).restrict PlainKeys).Reachable s₂ :=
    .step (.checkEnd false) hreach₁ ⟨trivial, hwriter, rfl, rfl⟩
  have h₂ : InputInv c 3 s₂ [] [] [0x39] :=
    { h₁ with between := fun _ => rfl, sender := fun _ => rfl }
  obtain ⟨sched₃, rawKeys, -, hreach₃⟩ := h₂.decodes hreach₂ rfl rfl hwriter
  have hmessage : processInput 0x39 = 1 := by decide
  have hvalid : validInput 1 = true := by decide
  simp only [InputReceiver.gotScanCode, hmessage, hvalid, if_true] at hreach₃
  obtain ⟨_, _, _, h₃⟩ := inputInv_reachable hreach₃
  -- and sends what it means
  have hsize : (longs.encode 1).length = longs.size := longs.length_encode 1
  have hroom : 0 + (longs.encode 1).length ≤ 0 + (PAGE_SIZE.toNat - 1) := by
    rw [hsize]
    decide
  obtain ⟨_, e₄, hrun₄, -, hposted⟩ := Channel.sends_message h₃.exchange rfl hroom hwriter
  have hreach₄ := InputReceiver.sends hreach₃ rfl (by simp) hrun₄
  -- the game gets the turn and receives it
  obtain ⟨s₄, hs₄⟩ : ∃ s₄ : InputReceiver, s₄.exchange = e₄ ∧ s₄.keys = [0x39] ∧
      ((gameInputs c 3).restrict PlainKeys).Reachable s₄ := ⟨_, rfl, rfl, hreach₄⟩
  obtain ⟨rfl, hkeys, hreach₄⟩ := hs₄
  have hreach₅ : ((gameInputs c 3).restrict PlainKeys).Reachable
      (s₄.withExchange (Channel.turn s₄.exchange sched)) :=
    .step .preempt hreach₄ ⟨trivial, _, Channel.turn_step c s₄.exchange sched, rfl⟩
  let s₆ := s₄.withExchange
    { Channel.turn s₄.exchange sched with receiver := .loop (fun _ => 0) 0 }
  have hreach₆ : ((gameInputs c 3).restrict PlainKeys).Reachable s₆ :=
    .step (.receive fun _ => 0) hreach₅
      ⟨trivial, _, ⟨hreader, hposted.receiver, rfl⟩, rfl⟩
  obtain ⟨_, _, _, h₆⟩ := inputInv_reachable hreach₆
  have hwaiting : s₄.exchange.transfer.received.length + longs.size ≤
      s₄.exchange.transfer.sent.length := by
    rw [hposted.sent, hposted.transferred, List.length_append, hsize]
    exact Nat.le_refl _
  obtain ⟨_, e₇, hrun₇, -, hdelivered, hfetched⟩ :=
    Channel.receives_message h₆.exchange rfl hwaiting hreader
  have hreach := InputReceiver.receives hreach₆ hrun₇
  have hmessages : e₇.messages = [1] := hfetched.messages.trans hposted.messages
  refine ⟨c, 3, _, hreach, hkeys, ?_⟩
  -- one message was received, and it is the first of those sent
  obtain ⟨_, _, -, -, -, hprefix, -⟩ := (keys_reach_game hreach).1
  show e₇.delivered = [1]
  rw [← hmessages]
  apply hprefix.eq_of_length
  rw [show (s₆.withExchange e₇).exchange.delivered.length = _ from hdelivered,
    show (s₆.withExchange e₇).exchange.messages = [1] from hmessages]
  show (s₄.exchange.received.map Prod.snd).length + 1 = 1
  rw [hposted.received]
  rfl

end TP2Kernel
