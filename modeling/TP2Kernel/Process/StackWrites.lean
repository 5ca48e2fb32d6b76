import TP2Kernel.Framework.Recorded
import TP2Kernel.Process.Context

/-! # What is written through the stack pointer

    `initializeStack` goes down from the end of the new page and never looks where it is.
    Its writes are recorded here, each one with the address and the number of its bytes;
    without the record they are those of `Process.Lifecycle`.
-/

namespace TP2Kernel

/-- `size` bytes from `addr` on. -/
structure Write where
  addr : Addr
  size : UInt64

namespace Write

/-- A byte of the write. -/
def Covers (w : Write) (x : Addr) : Prop := (x - w.addr).toNat < w.size.toNat

/-- The number of bytes written. -/
def total (ws : List Write) : Nat := (ws.map fun w => w.size.toNat).sum

@[simp] theorem total_nil : total [] = 0 := rfl

@[simp] theorem total_cons (w : Write) (ws : List Write) :
    total (w :: ws) = w.size.toNat + total ws := rfl

@[simp] theorem total_append (ws ws' : List Write) :
    total (ws ++ ws') = total ws + total ws' := by
  simp [total]

/-- From the stack pointer `sp` down to `bottom`, one write below the other. -/
def Descends (sp : Addr) : List Write → Addr → Prop
  | [], bottom => bottom = sp
  | w :: ws, bottom => w.addr = sp - w.size ∧ Descends w.addr ws bottom

theorem Descends.append {sp mid bottom : Addr} {ws ws' : List Write} (h : Descends sp ws mid)
    (h' : Descends mid ws' bottom) : Descends sp (ws ++ ws') bottom := by
  induction ws generalizing sp with
  | nil =>
    obtain rfl : mid = sp := h
    exact h'
  | cons w ws ih => exact ⟨h.1, ih h.2⟩

/-- The stack pointer goes down by what is written. -/
theorem Descends.bottom_eq {sp bottom : Addr} {ws : List Write} (h : Descends sp ws bottom) :
    bottom = sp - UInt64.ofNat (total ws) := by
  induction ws generalizing sp with
  | nil =>
    obtain rfl : bottom = sp := h
    simp
  | cons w ws ih =>
    obtain ⟨hw, hrest⟩ := h
    rw [ih hrest, hw, total_cons, UInt64.ofNat_add, UInt64.ofNat_toNat, sub_sub]

/-! ### The page -/

/-- The bytes `page .. page + PAGE_SIZE - 1`. -/
def InPage (page x : Addr) : Prop := (x - page).toNat < PAGE_SIZE.toNat

/-- A write that begins in the page. -/
theorem inPage_iff {sp page : Addr} (hsp : (sp - page).toNat ≤ PAGE_SIZE.toNat) (w : Write)
    (hw : w.addr = sp - w.size) :
    (∀ x, w.Covers x → InPage page x) ↔ w.size.toNat ≤ (sp - page).toNat := by
  have hsize : PAGE_SIZE.toNat = 0x2000 := rfl
  have hlt := w.size.toNat_lt
  constructor
  · -- a write that is too large covers the byte below the page
    intro hin
    by_contra hlarge
    have hcovers : w.Covers (page - 1) := by
      have hdistance : page - 1 - w.addr = w.size - (sp - page) - 1 := by
        rw [hw]
        grind
      rw [Covers, hdistance]
      rw [UInt64.toNat_sub, UInt64.toNat_sub]
      simp
      omega
    have hbelow := hin _ hcovers
    have hdistance : page - 1 - page = -1 := by grind
    rw [InPage, hdistance] at hbelow
    exact absurd hbelow (by decide)
  · intro hfits x hx
    have hdistance : x - page = x - w.addr + (sp - page - w.size) := by
      rw [hw]
      grind
    have hbegin : (sp - page - w.size).toNat = (sp - page).toNat - w.size.toNat := by
      rw [UInt64.toNat_sub]
      omega
    rw [Covers] at hx
    rw [InPage, hdistance, UInt64.toNat_add, hbegin]
    omega

/-- Writes one below the other stay in the page when all of them fit together. -/
theorem Descends.inPage_iff {sp page bottom : Addr} {ws : List Write}
    (h : Descends sp ws bottom) (hsp : (sp - page).toNat ≤ PAGE_SIZE.toNat) :
    (∀ w ∈ ws, ∀ x, w.Covers x → InPage page x) ↔ total ws ≤ (sp - page).toNat := by
  induction ws generalizing sp with
  | nil => simp
  | cons w ws ih =>
    obtain ⟨hw, hrest⟩ := h
    have hfirst := Write.inPage_iff hsp w hw
    rw [List.forall_mem_cons, hfirst, total_cons]
    by_cases hfits : w.size.toNat ≤ (sp - page).toNat
    · have hbegin : (w.addr - page).toNat = (sp - page).toNat - w.size.toNat := by
        have hdistance : w.addr - page = sp - page - w.size := by
          rw [hw]
          grind
        have hlt := (sp - page).toNat_lt
        rw [hdistance, UInt64.toNat_sub]
        omega
      rw [ih hrest (by omega), hbegin]
      omega
    · omega

end Write

namespace Machine

open Recorded

/-! ### The writes of `initializeStack` -/

/-- `pushZeros`, recorded. -/
def pushZerosRecorded (mem : Memory) (sp : Addr) (size : Nat) : Recorded Write (Memory × Addr) := do
  emit ⟨sp - UInt64.ofNat size, UInt64.ofNat size⟩
  pure (pushZeros mem sp size)

/-- `pushWord`, recorded. -/
def pushWordRecorded (mem : Memory) (sp : Addr) (v : UInt64) : Recorded Write (Memory × Addr) := do
  emit ⟨sp - 8, 8⟩
  pure (pushWord mem sp v)

/-- `pushArguments`, recorded.  The store to `argv[count]` does not go through the stack
    pointer. -/
def pushArgumentsRecorded (mem : Memory) (sp : Addr) (argv : Addr) :
    Nat → Recorded Write (Memory × Addr)
  | 0 => pure (mem, sp)
  | count + 1 =>
    let slot := argv + UInt64.ofNat (8 * count)
    let arg := mem.readWord slot
    match strlen mem arg with
    | none => never
    | some len => do
      let length := (alignedLength len).toInt64.toUInt64
      let sp := sp - (length / 8) * 8
      emit ⟨sp, length⟩
      let mem := memcpy mem sp arg length
      let mem := mem.writeWord slot sp
      pushArgumentsRecorded mem sp argv count

/-- `pushPointers`, recorded. -/
def pushPointersRecorded (mem : Memory) (sp : Addr) (argv : Addr) :
    Nat → Recorded Write (Memory × Addr)
  | 0 => pure (mem, sp)
  | count + 1 => do
    let (mem, sp) ← pushWordRecorded mem sp (mem.readWord (argv + UInt64.ofNat (8 * count)))
    pushPointersRecorded mem sp argv count

/-- `initializeStack` with at least one argument, recorded. -/
def initializeStackRecorded (mem : Memory) (userStackTop mainFunction : Addr) (argc : UInt64)
    (argv : Addr) : Recorded Write (Memory × Addr) := do
  -- stack base
  let (mem, sp) ← pushZerosRecorded mem userStackTop 8
  let (mem, sp) ← pushArgumentsRecorded mem sp argv (loopCount argc)
  -- end of argv
  let (mem, sp) ← pushZerosRecorded mem sp 8
  let (mem, sp) ← pushPointersRecorded mem sp argv (loopCount argc)
  let newArgv := sp
  -- return address of main, fake RBP
  let (mem, sp) ← pushZerosRecorded mem sp 8
  let (mem, sp) ← pushZerosRecorded mem sp 8
  let processRSP := sp
  -- SS, RSP, RFLAGS, CS, RIP
  let (mem, sp) ← pushWordRecorded mem sp 0
  let (mem, sp) ← pushWordRecorded mem sp processRSP
  let (mem, sp) ← pushWordRecorded mem sp 0x202
  let (mem, sp) ← pushWordRecorded mem sp 0x008
  let (mem, sp) ← pushWordRecorded mem sp mainFunction
  -- registers
  let (mem, sp) ← pushZerosRecorded mem sp (5 * 8)
  let (mem, sp) ← pushWordRecorded mem sp argc
  let (mem, sp) ← pushWordRecorded mem sp newArgv
  pushZerosRecorded mem sp (10 * 8)

@[simp] theorem result_pushZerosRecorded (mem : Memory) (sp : Addr) (size : Nat) :
    (pushZerosRecorded mem sp size).result = some (pushZeros mem sp size) := rfl

@[simp] theorem result_pushWordRecorded (mem : Memory) (sp : Addr) (v : UInt64) :
    (pushWordRecorded mem sp v).result = some (pushWord mem sp v) := rfl

@[simp] theorem result_pushArgumentsRecorded (mem : Memory) (sp argv : Addr) (n : Nat) :
    (pushArgumentsRecorded mem sp argv n).result = pushArguments mem sp argv n := by
  induction n generalizing mem sp with
  | zero => rfl
  | succ n ih =>
    rw [pushArgumentsRecorded, pushArguments]
    cases strlen mem (mem.readWord (argv + UInt64.ofNat (8 * n))) with
    | none => rfl
    | some len => exact (result_bind _ _).trans (ih _ _)

@[simp] theorem result_pushPointersRecorded (mem : Memory) (sp argv : Addr) (n : Nat) :
    (pushPointersRecorded mem sp argv n).result = some (pushPointers mem sp argv n) := by
  induction n generalizing mem sp with
  | zero => rfl
  | succ n ih => exact (result_bind _ _).trans (ih _ _)

/-- The record changes nothing. -/
theorem initializeStack_eq_recorded {mem : Memory} {userStackTop mainFunction argv : Addr}
    {argc : UInt64} (hargc : argc ≠ 0) :
    initializeStack mem userStackTop mainFunction argc argv =
      (initializeStackRecorded mem userStackTop mainFunction argc argv).result.map
        fun p => (0, p) := by
  unfold initializeStack initializeStackRecorded
  rw [if_neg (by simpa using hargc), result_bind, result_pushZerosRecorded, Option.bind_some]
  generalize pushZeros mem userStackTop 8 = base
  rw [result_bind, result_pushArgumentsRecorded]
  cases hpush : pushArguments base.1 base.2 argv (loopCount argc) with
  | none =>
    simp only [hpush]
    rfl
  | some strings =>
    simp only [hpush]
    rw [Option.bind_some]
    -- from here on every push has a result; one after the other they get names
    rw [result_bind, result_pushZerosRecorded, Option.bind_some]
    generalize pushZeros strings.1 strings.2 8 = null
    rw [result_bind, result_pushPointersRecorded, Option.bind_some]
    generalize pushPointers null.1 null.2 argv (loopCount argc) = newArgv
    rw [result_bind, result_pushZerosRecorded, Option.bind_some]
    generalize pushZeros newArgv.1 newArgv.2 8 = main
    rw [result_bind, result_pushZerosRecorded, Option.bind_some]
    generalize pushZeros main.1 main.2 8 = process
    rw [result_bind, result_pushWordRecorded, Option.bind_some]
    generalize pushWord process.1 process.2 0 = ss
    rw [result_bind, result_pushWordRecorded, Option.bind_some]
    generalize pushWord ss.1 ss.2 process.2 = rsp
    rw [result_bind, result_pushWordRecorded, Option.bind_some]
    generalize pushWord rsp.1 rsp.2 0x202 = rflags
    rw [result_bind, result_pushWordRecorded, Option.bind_some]
    generalize pushWord rflags.1 rflags.2 0x008 = cs
    rw [result_bind, result_pushWordRecorded, Option.bind_some]
    generalize pushWord cs.1 cs.2 mainFunction = rip
    rw [result_bind, result_pushZerosRecorded, Option.bind_some]
    generalize pushZeros rip.1 rip.2 (5 * 8) = registers
    rw [result_bind, result_pushWordRecorded, Option.bind_some]
    generalize pushWord registers.1 registers.2 argc = rdi
    rw [result_bind, result_pushWordRecorded, Option.bind_some]
    generalize pushWord rdi.1 rdi.2 newArgv.2 = rsi
    rw [result_pushZerosRecorded, Option.map_some]

/-! ### Where they go -/

/-- The writes lead down from the stack pointer to the one after them, and change nothing
    else but the first `n` slots of `argv`.  They make up `k` bytes. -/
structure Pushes (argv : Addr) (n : Nat) (p : Memory × Addr) (t : Recorded Write (Memory × Addr))
    (k : Nat) : Prop where
  descends : ∃ bottom, Write.Descends p.2 t.trace bottom ∧ ∀ q, t.result = some q → q.2 = bottom
  frame : ∀ q, t.result = some q → ∀ x, (∀ i < n, ¬ SlotByte argv i x) →
    (∀ w ∈ t.trace, ¬ w.Covers x) → q.1 x = p.1 x
  size : ∀ q, t.result = some q → Write.total t.trace = k

section
variable {argv : Addr} {n : Nat}

namespace Pushes

variable {p : Memory × Addr} {t : Recorded Write (Memory × Addr)} {k k' : Nat}

theorem refl (argv : Addr) (n : Nat) (p : Memory × Addr) : Pushes argv n p (pure p) 0 := by
  constructor
  · refine ⟨p.2, rfl, ?_⟩
    intro q hq
    rw [Option.some.inj hq]
  · intro q hq x _ _
    rw [Option.some.inj hq]
  · intro q _
    rfl

/-- Without a result only the writes so far count. -/
theorem of_stuck {bottom : Addr} (hnone : t.result = none)
    (hdescends : Write.Descends p.2 t.trace bottom) : Pushes argv n p t k := by
  constructor
  · refine ⟨bottom, hdescends, ?_⟩
    intro q hq
    rw [hnone] at hq
    cases hq
  · intro q hq
    rw [hnone] at hq
    cases hq
  · intro q hq
    rw [hnone] at hq
    cases hq

theorem bind {f : Memory × Addr → Recorded Write (Memory × Addr)} (h : Pushes argv n p t k)
    (h' : ∀ q, t.result = some q → Pushes argv n q (f q) k') :
    Pushes argv n p (t >>= f) (k + k') := by
  obtain ⟨mid, hdescends, hmid⟩ := h.descends
  cases ht : t.result with
  | none =>
    -- nothing follows
    have hnone : (t >>= f).result = none := by rw [result_bind, ht, Option.bind_none]
    apply of_stuck hnone
    rw [trace_bind_of_none ht]
    exact hdescends
  | some r =>
    have hrest := h' r ht
    have hresult : (t >>= f).result = (f r).result := by rw [result_bind, ht, Option.bind_some]
    rw [← hmid r ht] at hdescends
    obtain ⟨bottom, hdown, hbottom⟩ := hrest.descends
    constructor
    · rw [trace_bind_of_some ht, hresult]
      exact ⟨bottom, hdescends.append hdown, hbottom⟩
    · intro q hq x hslot hx
      rw [hresult] at hq
      rw [trace_bind_of_some ht] at hx
      rw [hrest.frame q hq x hslot, h.frame r ht x hslot]
      · intro w hw
        exact hx w (List.mem_append_left _ hw)
      · intro w hw
        exact hx w (List.mem_append_right _ hw)
    · intro q hq
      rw [hresult] at hq
      rw [trace_bind_of_some ht, Write.total_append, h.size r ht, hrest.size q hq]

end Pushes

/-- One write right below the stack pointer. -/
theorem write_pushes {m m' : Memory} {sp : Addr} {size : UInt64}
    (hframe : ∀ x, (∀ i < n, ¬ SlotByte argv i x) → ¬ (x - (sp - size)).toNat < size.toNat →
      m' x = m x) :
    Pushes argv n (m, sp) ⟨[⟨sp - size, size⟩], some (m', sp - size)⟩ size.toNat := by
  constructor
  · refine ⟨sp - size, ⟨rfl, rfl⟩, ?_⟩
    intro q hq
    rw [← Option.some.inj hq]
  · intro q hq x hslot hx
    rw [← Option.some.inj hq]
    exact hframe x hslot (hx ⟨sp - size, size⟩ List.mem_cons_self)
  · intro q _
    rfl

theorem pushZerosRecorded_pushes (m : Memory) (sp : Addr) {size : Nat} (hsize : size < 2 ^ 64) :
    Pushes argv n (m, sp) (pushZerosRecorded m sp size) size := by
  have hbytes : (UInt64.ofNat size).toNat = size := UInt64.toNat_ofNat_of_lt' hsize
  have hwrite : Pushes argv n (m, sp) (pushZerosRecorded m sp size) (UInt64.ofNat size).toNat := by
    apply write_pushes
    intro x _ hx
    rw [hbytes] at hx
    rw [memset_apply hsize.le, if_neg hx]
  rwa [hbytes] at hwrite

theorem pushWordRecorded_pushes (m : Memory) (sp : Addr) (v : UInt64) :
    Pushes argv n (m, sp) (pushWordRecorded m sp v) 8 := by
  apply @write_pushes argv n m _ sp 8
  intro x _ hx
  have hout : ¬ (x - (sp - 8)).toNat < 8 := hx
  rw [Memory.writeWord_apply, if_neg hout]

/-- Each round writes one copy, and redirects its slot. -/
theorem pushArgumentsRecorded_pushes (m : Memory) (sp : Addr) {count : Nat} (hcount : count ≤ n) :
    Pushes argv n (m, sp) (pushArgumentsRecorded m sp argv count)
      (Write.total (pushArgumentsRecorded m sp argv count).trace) := by
  induction count generalizing m sp with
  | zero => exact .refl argv n (m, sp)
  | succ count ih =>
    rw [pushArgumentsRecorded]
    cases strlen m (m.readWord (argvSlot argv count)) with
    | none =>
      apply Pushes.of_stuck rfl
      rfl
    | some len =>
      have hwords := alignedLength_words len
      simp only [hwords]
      generalize (alignedLength len).toInt64.toUInt64 = length
      generalize hcopy : memcpy m (sp - length) (m.readWord (argvSlot argv count)) length = copied
      have hround : Pushes argv n (m, sp) ⟨[⟨sp - length, length⟩],
          some (copied.writeWord (argvSlot argv count) (sp - length), sp - length)⟩
          length.toNat := by
        apply write_pushes
        intro x hslot hx
        rw [writeWord_argvSlot (hslot count hcount), ← hcopy]
        exact memcpy_frame hx
      exact hround.bind (fun q hq => Option.some.inj hq ▸ ih _ _ (Nat.le_of_succ_le hcount))

theorem pushPointersRecorded_pushes (m : Memory) (sp : Addr) (count : Nat) :
    Pushes argv n (m, sp) (pushPointersRecorded m sp argv count) (8 * count) := by
  induction count generalizing m sp with
  | zero => exact .refl argv n (m, sp)
  | succ count ih =>
    have hpush := (@pushWordRecorded_pushes argv n m sp (m.readWord (argvSlot argv count))).bind
      fun q _ => ih q.1 q.2
    have hsize : 8 * (count + 1) = 8 + 8 * count := by omega
    rw [hsize]
    exact hpush

/-- The bytes that the copies of the strings take, as the loop finds the strings. -/
def copiedBytes (m : Memory) (userStackTop argv : Addr) (argc : UInt64) : Nat :=
  Write.total (pushArgumentsRecorded (pushZeros m userStackTop 8).1 (pushZeros m userStackTop 8).2
    argv (loopCount argc)).trace

theorem initializeStackRecorded_pushes (m : Memory) (userStackTop mainFunction : Addr)
    (argc : UInt64) :
    Pushes argv (loopCount argc) (m, userStackTop)
      (initializeStackRecorded m userStackTop mainFunction argc argv)
      (208 + 8 * loopCount argc + copiedBytes m userStackTop argv argc) := by
  have hpushes : Pushes argv (loopCount argc) (m, userStackTop)
      (initializeStackRecorded m userStackTop mainFunction argc argv)
      (8 + (copiedBytes m userStackTop argv argc + (8 + (8 * loopCount argc + (8 + (8 + (8 + (8 +
        (8 + (8 + (8 + (5 * 8 + (8 + (8 + 10 * 8)))))))))))))) := by
    apply (pushZerosRecorded_pushes m userStackTop (by decide)).bind
    intro base hbase
    obtain rfl : pushZeros m userStackTop 8 = base := Option.some.inj hbase
    apply (pushArgumentsRecorded_pushes _ _ (Nat.le_refl _)).bind
    intro strings _
    apply (pushZerosRecorded_pushes _ _ (by decide)).bind
    intro null _
    apply (pushPointersRecorded_pushes _ _ _).bind
    intro newArgv _
    apply (pushZerosRecorded_pushes _ _ (by decide)).bind
    intro main _
    apply (pushZerosRecorded_pushes _ _ (by decide)).bind
    intro process _
    apply (pushWordRecorded_pushes _ _ _).bind
    intro ss _
    apply (pushWordRecorded_pushes _ _ _).bind
    intro rsp _
    apply (pushWordRecorded_pushes _ _ _).bind
    intro rflags _
    apply (pushWordRecorded_pushes _ _ _).bind
    intro cs _
    apply (pushWordRecorded_pushes _ _ _).bind
    intro rip _
    apply (pushZerosRecorded_pushes _ _ (by decide)).bind
    intro registers _
    apply (pushWordRecorded_pushes _ _ _).bind
    intro rdi _
    apply (pushWordRecorded_pushes _ _ _).bind
    intro rsi _
    exact pushZerosRecorded_pushes _ _ (by decide)
  have hsum : 208 + 8 * loopCount argc + copiedBytes m userStackTop argv argc =
      8 + (copiedBytes m userStackTop argv argc + (8 + (8 * loopCount argc + (8 + (8 + (8 + (8 +
        (8 + (8 + (8 + (5 * 8 + (8 + (8 + 10 * 8))))))))))))) := by
    omega
  rw [hsum]
  exact hpushes

/-! ### Arguments that fit -/

/-- The copies of strings that lie apart take what the strings take. -/
theorem total_pushArgumentsRecorded {m : Memory} {sp : Addr} {lo hi : Nat} {args : Nat → CString}
    (h : Arguments m argv lo hi args n) (hhi : sp.toNat ≤ hi)
    (hroom : lo + stringsSize args n ≤ sp.toNat) (hsmall : stringsSize args n + 8 < 2 ^ 31) :
    Write.total (pushArgumentsRecorded m sp argv n).trace = stringsSize args n := by
  induction n generalizing m sp with
  | zero => rfl
  | succ n ih =>
    have hn := mul_le_stringsSize args (n + 1)
    have hlength := length_lt_alignedSize (args n)
    have hsize : stringsSize args (n + 1) = stringsSize args n + alignedSize (args n) := rfl
    have hsp : (sp - UInt64.ofNat (alignedSize (args n))).toNat =
        sp.toNat - alignedSize (args n) := addr_sub_toNat (by omega)
    have hbytes : (UInt64.ofNat (alignedSize (args n))).toNat = alignedSize (args n) :=
      UInt64.toNat_ofNat_of_lt' (by show _ < 2 ^ 64; omega)
    have hrest := h.round hhi hroom (by omega)
    have htotal := @ih _ (sp - UInt64.ofNat (alignedSize (args n))) hrest (by omega) (by omega)
      (by omega)
    have hlen : strlen m (m.readWord (argvSlot argv n)) = some (UInt64.ofNat (args n).length) :=
      strlen_holds (h.holds n (Nat.lt_succ_self n)) (by show _ < 2 ^ 64; omega)
    have hwords := alignedLength_words (UInt64.ofNat (args n).length)
    rw [alignedLength_ofNat (by omega)] at hwords
    rw [pushArgumentsRecorded]
    simp only [hlen, alignedLength_ofNat (show (args n).length + 8 < 2 ^ 31 by omega), hwords]
    show (UInt64.ofNat (alignedSize (args n))).toNat + _ = _
    rw [hbytes, hsize, Nat.add_comm]
    exact congrArg (· + _) htotal

end

section
variable {m m' : Machine} {a : ProcessParams} {args : Nat → CString} {held : List Addr}

/-- The stack page of the next process. -/
def nextStackPage (m : Machine) : Addr := (m.stackPageFor (freeEntry m.pcb)).2

instance (m : Machine) (a : ProcessParams) : Decidable (CanCreate m a) :=
  inferInstanceAs (Decidable (_ ∧ _))

/-- What `createProcess` writes through the stack pointer: nothing when it stops before. -/
def stackWrites (m : Machine) (a : ProcessParams) : List Write :=
  if CanCreate m a then
    (initializeStackRecorded m.mem m.nextStackTop a.entryPoint a.argc a.argv).trace
  else []

/-- The pushes of a creation that lays out a stack. -/
theorem stackWrites_pushes (hcan : CanCreate m a) :
    m.stackWrites a =
      (initializeStackRecorded m.mem m.nextStackTop a.entryPoint a.argc a.argv).trace ∧
    Pushes a.argv (loopCount a.argc) (m.mem, m.nextStackTop)
      (initializeStackRecorded m.mem m.nextStackTop a.entryPoint a.argc a.argv)
      (208 + 8 * loopCount a.argc + copiedBytes m.mem m.nextStackTop a.argv a.argc) :=
  ⟨if_pos hcan, initializeStackRecorded_pushes _ _ _ _⟩

/-- The writes stay in the page as long as they make up no more bytes than it has. -/
theorem stackWrites_inPage_iff (m : Machine) (a : ProcessParams) :
    (∀ w ∈ m.stackWrites a, ∀ x, w.Covers x → Write.InPage m.nextStackPage x) ↔
      Write.total (m.stackWrites a) ≤ PAGE_SIZE.toNat := by
  by_cases hcan : CanCreate m a
  · obtain ⟨hwrites, hpushes⟩ := stackWrites_pushes hcan
    obtain ⟨bottom, hdescends, -⟩ := hpushes.descends
    have hsize : m.nextStackTop - m.nextStackPage = PAGE_SIZE := by
      rw [nextStackTop, nextStackPage, add_sub_cancel_left]
    have hiff := @Write.Descends.inPage_iff _ m.nextStackPage _ _ hdescends (by rw [hsize])
    rw [hsize] at hiff
    rw [hwrites]
    exact hiff
  · rw [stackWrites, if_neg hcan]
    simp

/-- The frame of the new process fits in its page: what is written through the stack
    pointer makes up no more bytes than the page has.  Nothing in the code checks it, and a
    frame that does not fit runs down into the pages of others. -/
def Fits (m : Machine) (a : ProcessParams) : Prop :=
  Write.total (m.stackWrites a) ≤ PAGE_SIZE.toNat

/-- Where no stack is laid out, nothing is written. -/
theorem fits_of_not_canCreate (hcan : ¬ CanCreate m a) : m.Fits a := by
  rw [Fits, stackWrites, if_neg hcan]
  exact Nat.zero_le _

/-- `NULL` for the only argument has no characters to copy. -/
theorem copiedBytes_nullArgument {mem : Memory} {top argv : Addr}
    (hslot : ∀ k < 8, mem (argv + UInt64.ofNat k) = 0) : copiedBytes mem top argv 1 = 0 := by
  have hcount : loopCount 1 = 0 + 1 := by decide
  -- the base pushed first changes no zero
  have hnull : (pushZeros mem top 8).1.readWord (argvSlot argv 0) = NULL := by
    apply Memory.readWord_eq
    intro k hk
    have hzero : argvSlot argv 0 + UInt64.ofNat k = argv + UInt64.ofNat k := by
      simp [argvSlot]
    have hshift : NULL >>> UInt64.ofNat (8 * k) = 0 := UInt64.zero_shiftRight
    have hbyte : memset mem (top - UInt64.ofNat 8) 0 8 (argv + UInt64.ofNat k) = 0 := by
      rw [memset_apply (by decide), hslot k hk, ite_self]
    rw [hzero, hshift]
    exact hbyte
  have hlen : strlen (pushZeros mem top 8).1 NULL = some (-1) := rfl
  have hlength : (alignedLength (-1)).toInt64.toUInt64 = 0 := by decide
  rw [copiedBytes, hcount, pushArgumentsRecorded]
  simp only [hnull, hlen, hlength]
  rfl

/-- So a process with `NULL` for its only argument has a frame that fits. -/
theorem fits_of_nullArgument (hargc : a.argc = 1)
    (hslot : ∀ k < 8, m.mem (a.argv + UInt64.ofNat k) = 0) : m.Fits a := by
  by_cases hcan : CanCreate m a
  · obtain ⟨hwrites, hpushes⟩ := stackWrites_pushes hcan
    obtain ⟨r, hinit⟩ := initializeStack_isSome m.mem m.nextStackTop a.entryPoint a.argv
    rw [← hargc, initializeStack_eq_recorded hcan.2.2.2] at hinit
    obtain ⟨q, hq, -⟩ := Option.map_eq_some_iff.mp hinit
    rw [Fits, hwrites, hpushes.size q hq, hargc, copiedBytes_nullArgument hslot]
    decide
  · exact fits_of_not_canCreate hcan

/-- What a creation that stays in the new page writes: bytes of this page and the slots of
    `argv`.  The stack pointer that it saves lies in the page, below the whole frame. -/
theorem initializeStack_inPage {mem : Memory} {sp : Addr} (hcan : CanCreate m a)
    (hpages : PAGE_SIZE.toNat < m.nextStackTop.toNat) (hfits : m.Fits a)
    (hinit : initializeStack m.mem m.nextStackTop a.entryPoint a.argc a.argv =
      some (0, mem, sp)) :
    (∀ x, (∀ i < loopCount a.argc, ¬ SlotByte a.argv i x) → ¬ Write.InPage m.nextStackPage x →
      mem x = m.mem x) ∧
    m.nextStackTop.toNat ≤ sp.toNat + PAGE_SIZE.toNat ∧
    sp.toNat + 208 ≤ m.nextStackTop.toNat := by
  obtain ⟨hwrites, hpushes⟩ := stackWrites_pushes hcan
  rw [initializeStack_eq_recorded hcan.2.2.2] at hinit
  obtain ⟨q, hq, hq'⟩ := Option.map_eq_some_iff.mp hinit
  obtain rfl : q = (mem, sp) := by simpa using hq'
  have hin := (stackWrites_inPage_iff m a).mpr hfits
  constructor
  · intro x hslot hx
    apply hpushes.frame _ hq x hslot
    intro w hw hcovers
    rw [← hwrites] at hw
    exact hx (hin w hw x hcovers)
  · obtain ⟨bottom, hdescends, hbottom⟩ := hpushes.descends
    have hsp : sp = bottom := hbottom _ hq
    have hsize := hpushes.size _ hq
    rw [hdescends.bottom_eq, ← hwrites] at hsp
    rw [← hwrites] at hsize
    unfold Fits at hfits
    have hle : Write.total (m.stackWrites a) ≤ m.nextStackTop.toNat := by omega
    have hsub : sp.toNat = m.nextStackTop.toNat - Write.total (m.stackWrites a) := by
      rw [hsp]
      exact addr_sub_toNat hle
    omega

/-- The initial stack for arguments that lie apart, and the caller's `argv` after it. -/
theorem initializeStack_copies {mem : Memory} {top mainFunction argv : Addr} {argc : UInt64}
    (hargc : argc ≠ 0)
    (hargs : Arguments mem argv (top.toNat - layoutSize args argc.toNat) top.toNat args
      argc.toNat)
    (hroom : layoutSize args argc.toNat < top.toNat)
    (hsmall : layoutSize args argc.toNat < 2 ^ 31) :
    ∃ final, initializeStack mem top mainFunction argc argv = some (0, final) ∧
      ∀ i < argc.toNat, StringWithin final.1 (top.toNat - layoutSize args argc.toNat) top.toNat
        (final.1.readWord (argvSlot argv i)) (args i) := by
  have hlayout : layoutSize args argc.toNat =
      208 + 8 * argc.toNat + stringsSize args argc.toNat := rfl
  rw [hlayout] at hargs
  have hlt := top.toNat_lt
  obtain ⟨after, hpush, hafter, hcopies⟩ :=
    pushArguments_base hargs (by omega) (by omega) (by omega)
  obtain ⟨final, hinit, hpushed⟩ := @initializeStack_pushed mem top mainFunction argv argc after
    hargc (by omega) hpush (by omega) (by
      intro i hi x hx
      rcases hargs.slots i hi x hx with hx | hx
      · left
        omega
      · right
        omega)
  have hdown := hpushed.sp
  simp [frameWords] at hdown
  refine ⟨final, hinit, ?_⟩
  intro i hi
  -- the slots lie outside of the frame
  have hslot : final.1.readWord (argvSlot argv i) = after.1.readWord (argvSlot argv i) := by
    apply readWord_argvSlot
    intro x hx
    apply hpushed.frame
    rcases hargs.slots i hi x hx with hx | hx
    · left
      omega
    · right
      omega
  rw [hslot]
  apply (hcopies i hi).mono
  · omega
  · exact Nat.le_refl _
  · exact hlt
  · intro x hlo _
    exact hpushed.frame x (.inr hlo)

/-- The bytes written for arguments that lie apart, whether these fit in the page or not. -/
theorem total_stackWrites (hcan : CanCreate m a)
    (hargs : Arguments m.mem a.argv
      (m.nextStackTop.toNat - layoutSize args a.argc.toNat) m.nextStackTop.toNat args a.argc.toNat)
    (hroom : layoutSize args a.argc.toNat < m.nextStackTop.toNat)
    (hsmall : layoutSize args a.argc.toNat < 2 ^ 31) :
    Write.total (m.stackWrites a) = layoutSize args a.argc.toNat := by
  obtain ⟨hwrites, hpushes⟩ := stackWrites_pushes hcan
  -- the loops end, so the frame is written as well
  obtain ⟨final, hinit, -⟩ :=
    @initializeStack_copies args m.mem m.nextStackTop a.entryPoint a.argv a.argc hcan.2.2.2 hargs
      hroom hsmall
  rw [initializeStack_eq_recorded hcan.2.2.2] at hinit
  obtain ⟨q, hq, -⟩ := Option.map_eq_some_iff.mp hinit
  have hlayout : layoutSize args a.argc.toNat =
      208 + 8 * a.argc.toNat + stringsSize args a.argc.toNat := rfl
  rw [hlayout] at hargs
  have hcount : loopCount a.argc = a.argc.toNat := loopCount_eq hcan.2.2.2 (by omega)
  obtain ⟨hbase, hsp⟩ := hargs.base (by omega) (by omega)
  have hcopied : copiedBytes m.mem m.nextStackTop a.argv a.argc =
      stringsSize args a.argc.toNat := by
    rw [copiedBytes, hcount]
    exact total_pushArgumentsRecorded hbase (by omega) (by omega) (by omega)
  rw [hwrites, hpushes.size q hq, hcopied, hcount, hlayout]

/-- A creation for which something is lacking returns an error. -/
theorem createProcess_refuses (h : ¬ CanCreate m a)
    (hmax : m.pcb.maxProcesses ≤ UInt64.ofNat pcbEntries) :
    ∃ r m', m.createProcess a = some (r, m') ∧ 2 ^ 63 ≤ r.toNat := by
  obtain ⟨r, m', hcreate⟩ : ∃ r m', m.createProcess a = some (r, m') := by
    unfold createProcess
    split
    · exact ⟨_, _, rfl⟩
    next hnull =>
    simp only
    split
    · exact ⟨_, _, rfl⟩
    next hfull =>
    rw [createStack_eq m _ (claimedEntry m (m.pcb.entries _) a) rfl]
    split
    · exact ⟨_, _, rfl⟩
    next hpage =>
    -- only the arguments can be lacking
    have hargc : a.argc = 0 := by
      by_contra hargc
      have hle := freeEntry_le m.pcb
      exact h ⟨hnull, by omega, hpage, hargc⟩
    simp only [hargc]
    exact ⟨_, _, rfl⟩
  exact ⟨r, m', hcreate, ((createProcess_created hcreate).failed_iff hmax).mpr h⟩

/-- Every byte written through the stack pointer lies in the new page, and arguments that
    do not fit in it make the creation fail. -/
structure StaysInPage (m : Machine) (a : ProcessParams) (args : Nat → CString) : Prop where
  inPage : ∀ w ∈ m.stackWrites a, ∀ x, w.Covers x → Write.InPage m.nextStackPage x
  refuses : ¬ layoutSize args a.argc.toNat ≤ PAGE_SIZE.toNat →
    ∃ r m', m.createProcess a = some (r, m') ∧ 2 ^ 63 ≤ r.toNat

/-- No creation that lacks nothing is refused. -/
theorem refuses_iff (hmax : m.pcb.maxProcesses ≤ UInt64.ofNat pcbEntries) :
    (¬ layoutSize args a.argc.toNat ≤ PAGE_SIZE.toNat →
      ∃ r m', m.createProcess a = some (r, m') ∧ 2 ^ 63 ≤ r.toNat) ↔
    (CanCreate m a → layoutSize args a.argc.toNat ≤ PAGE_SIZE.toNat) := by
  constructor
  · intro hrefuses hcan
    by_contra hfits
    obtain ⟨r, m', hcreate, hr⟩ := hrefuses hfits
    exact ((createProcess_created hcreate).failed_iff hmax).mp hr hcan
  · intro hfits hlarge
    exact createProcess_refuses (fun hcan => hlarge (hfits hcan)) hmax

/-- **A creation stays in the new page** exactly when it lays out no stack or the layout
    fits; there is no check.  Strings that overlap the slots of later arguments or the new
    stack may have become longer when they are copied, so that the bytes written are what
    counts. -/
theorem staysInPage_iff (hmax : m.pcb.maxProcesses ≤ UInt64.ofNat pcbEntries)
    (hholds : ∀ i < a.argc.toNat,
      HoldsString m.mem (m.mem.readWord (argvSlot a.argv i)) (args i)) :
    (StaysInPage m a args ↔
      (CanCreate m a → layoutSize args a.argc.toNat ≤ PAGE_SIZE.toNat) ∧
      Write.total (m.stackWrites a) ≤ PAGE_SIZE.toNat) ∧
    ((∃ held, pageOwnership.Reachable ⟨m.pages, held⟩) → Apart m a args →
      (StaysInPage m a args ↔
        (CanCreate m a → layoutSize args a.argc.toNat ≤ PAGE_SIZE.toNat))) := by
  have hboth : StaysInPage m a args ↔
      (CanCreate m a → layoutSize args a.argc.toNat ≤ PAGE_SIZE.toNat) ∧
      Write.total (m.stackWrites a) ≤ PAGE_SIZE.toNat := by
    rw [← refuses_iff hmax, ← stackWrites_inPage_iff]
    exact ⟨fun h => ⟨h.refuses, h.inPage⟩, fun h => ⟨h.2, h.1⟩⟩
  refine ⟨hboth, ?_⟩
  intro h happart
  obtain ⟨held, hpages⟩ := h
  rw [hboth, and_iff_left_of_imp]
  intro hfits
  by_cases hcan : CanCreate m a
  · obtain ⟨htop, -⟩ := nextStackTop_bounds hpages hcan.2.2.1
    have hsize : PAGE_SIZE.toNat = 0x2000 := rfl
    have hfits := hfits hcan
    rw [total_stackWrites hcan ⟨hholds, happart.slots, happart.strings, happart.apart⟩
      (by omega) (by omega)]
    exact hfits
  · exact fits_of_not_canCreate hcan

theorem staysInPage_iff_separate :
    separate.StaysInPage (callWith 2) separateArgs ∧
      CanCreate separate (callWith 2) ∧ layoutSize separateArgs 2 ≤ PAGE_SIZE.toNat := by
  obtain ⟨-, hiff⟩ := @staysInPage_iff separate (callWith 2) separateArgs (by decide)
    separate_good.holds
  refine ⟨?_, separate_good.canCreate, separate_good.fits⟩
  rw [hiff separate_good.pages separate_apart]
  intro _
  exact separate_good.fits

/-! ### An argument that does not fit -/

/-- The character `A`, `n` times. -/
def letters (n : Nat) : CString where
  bytes := List.replicate n 0x41
  noNul := by
    intro b hb
    rw [List.eq_of_mem_replicate hb]
    decide

theorem letters_length (n : Nat) : (letters n).length = n := List.length_replicate

/-- `argv[0]` points to 8192, where `n` letters lie. -/
def withLetters (n : Nat) : Machine :=
  { fresh with mem := fun x =>
      if x = 0x1001 then 0x20 else if (x - 0x2000).toNat < n then 0x41 else 0 }

/-- The machine has the letters in its memory and what it takes to create a process, and the
    frame reaches no further down than the pages of the pool. -/
structure HasLetters (m : Machine) (n : Nat) : Prop where
  can : CanCreate m (callWith 1)
  few : n ≤ 0x8000
  mem : ∀ x : Addr, 0x1000 ≤ x.toNat → x.toNat ≤ 0x2000 + n → m.mem x = (withLetters n).mem x
  stack : 0x10000000 + (216 + (n + 8) / 8 * 8) ≤ m.nextStackTop.toNat

theorem layoutSize_letters (n : Nat) :
    layoutSize (fun _ => letters n) (callWith 1).argc.toNat = 216 + (n + 8) / 8 * 8 := by
  show 208 + 8 * 1 + (0 + ((letters n).length + 8) / 8 * 8) = _
  rw [letters_length]
  omega

namespace HasLetters

variable {n : Nat}

theorem argv (h : HasLetters m n) : m.mem.readWord (argvSlot 0x1000 0) = 0x2000 := by
  apply Memory.readWord_eq
  have hslot : ∀ k < 8, (argvSlot 0x1000 0 + UInt64.ofNat k).toNat = 0x1000 + k := by
    decide
  have hlow : ∀ k < 8, ¬ (argvSlot 0x1000 0 + UInt64.ofNat k - 0x2000).toNat < 0x8000 := by
    decide
  have hbytes : ∀ k < 8, (if argvSlot 0x1000 0 + UInt64.ofNat k = 0x1001 then 0x20 else 0) =
      ((0x2000 : UInt64) >>> UInt64.ofNat (8 * k)).toUInt8 := by
    decide
  intro k hk
  have hfew := h.few
  have hat := hslot k hk
  have hnot := hlow k hk
  rw [← hbytes k hk, h.mem _ (by omega) (by omega)]
  show (if _ then _ else if _ then _ else _) = _
  rw [if_neg (show ¬ (argvSlot 0x1000 0 + UInt64.ofNat k - 0x2000).toNat < n by omega)]

theorem holds (h : HasLetters m n) (i : Nat) (hi : i < 1) :
    HoldsString m.mem (m.mem.readWord (argvSlot 0x1000 i)) (letters n) := by
  obtain rfl : i = 0 := Nat.lt_one_iff.mp hi
  rw [h.argv]
  refine ⟨by decide, ?_⟩
  intro j hj
  have hfew := h.few
  rw [letters_length] at hj
  have hoffset : (0x2000 + UInt64.ofNat j - 0x2000 : UInt64).toNat = j :=
    (addr_sub_toNat_eq_iff (by omega)).mpr rfl
  have hat : (0x2000 + UInt64.ofNat j : UInt64).toNat = 0x2000 + j :=
    addr_add_toNat (show 0x2000 + j < 2 ^ 64 by omega)
  have hne : (0x2000 + UInt64.ofNat j : UInt64) ≠ 0x1001 := by
    intro heq
    rw [heq] at hat
    have hslot : (0x1001 : UInt64).toNat = 0x1001 := rfl
    omega
  rw [h.mem _ (by omega) (by omega)]
  show (if _ then _ else if _ then _ else _) = (List.replicate n (0x41 : UInt8)).getD j 0
  rw [if_neg hne, hoffset, List.getD_eq_getElem?_getD, List.getElem?_replicate]
  split <;> rfl

theorem apart (h : HasLetters m n) : Apart m (callWith 1) fun _ => letters n := by
  have hargc : (callWith 1).argc.toNat = 1 := rfl
  have hfew := h.few
  apply Apart.of_below
  · decide
  · intro i hi j hj
    obtain rfl : i = 0 := Nat.lt_one_iff.mp hi
    rw [letters_length] at hj
    have hx : (0x2000 + UInt64.ofNat j : UInt64).toNat = 0x2000 + j :=
      addr_add_toNat (show 0x2000 + j < 2 ^ 64 by omega)
    show (m.mem.readWord (argvSlot 0x1000 0) + UInt64.ofNat j).toNat < _
    rw [h.argv, hx]
    omega
  · rw [layoutSize_letters]
    exact h.stack
  · intro i hi j hj k hik hk
    rw [hargc] at hk
    omega

theorem arguments (h : HasLetters m n) : Arguments m.mem (callWith 1).argv
    (m.nextStackTop.toNat - layoutSize (fun _ => letters n) (callWith 1).argc.toNat)
    m.nextStackTop.toNat (fun _ => letters n) (callWith 1).argc.toNat :=
  ⟨h.holds, h.apart.slots, h.apart.strings, h.apart.apart⟩

theorem layoutSize_lt (h : HasLetters m n) :
    layoutSize (fun _ => letters n) (callWith 1).argc.toNat < m.nextStackTop.toNat ∧
    layoutSize (fun _ => letters n) (callWith 1).argc.toNat < 2 ^ 31 := by
  have hfew := h.few
  have hstack := h.stack
  rw [layoutSize_letters]
  omega

/-- What the creation with `n` letters writes. -/
theorem total (h : HasLetters m n) :
    Write.total (m.stackWrites (callWith 1)) = 216 + (n + 8) / 8 * 8 := by
  rw [← layoutSize_letters]
  exact total_stackWrites h.can h.arguments h.layoutSize_lt.1 h.layoutSize_lt.2

end HasLetters

theorem withLetters_hasLetters {n : Nat} (hn : n ≤ 0x3F00) : HasLetters (withLetters n) n := by
  have hcan : CanCreate fresh (callWith 1) := ⟨by decide, by decide, by decide, by decide⟩
  have htop : (withLetters n).nextStackTop.toNat = 0x10004000 := by
    show fresh.nextStackTop.toNat = _
    decide
  refine ⟨hcan, by omega, fun _ _ _ => rfl, ?_⟩
  rw [htop]
  omega

/-- The words in the middle of letters. -/
theorem letters_readWord {m : Memory} {lo hi n : Nat} {p x : Addr}
    (h : StringWithin m lo hi p (letters n)) (hlow : hi ≤ x.toNat + n + 1)
    (hhigh : x.toNat + 8 ≤ lo + n) : m.readWord x = 0x4141414141414141 := by
  have hlower := h.lower
  have hupper := h.upper
  rw [letters_length] at hupper
  have hbytes : ∀ k < 8,
      ((0x4141414141414141 : UInt64) >>> UInt64.ofNat (8 * k)).toUInt8 = 0x41 := by
    decide
  apply Memory.readWord_eq
  intro k hk
  have hx := x.toNat_lt
  have hp : p.toNat ≤ x.toNat := by omega
  -- the byte is the letter at its distance from the beginning
  have hoffset : p + UInt64.ofNat (x.toNat - p.toNat + k) = x + UInt64.ofNat k := by
    have hdistance : x = p + UInt64.ofNat (x.toNat - p.toNat) := by
      apply UInt64.toNat_inj.mp
      rw [addr_add_toNat (by omega)]
      omega
    rw [UInt64.ofNat_add, ← add_assoc, ← hdistance]
  have hletter := h.holds.2 (x.toNat - p.toNat + k) (by rw [letters_length]; omega)
  rw [hoffset] at hletter
  have hlt : x.toNat - p.toNat + k < n := by omega
  rw [hbytes k hk, hletter]
  show (List.replicate n (0x41 : UInt8)).getD _ 0 = 0x41
  rw [List.getD_eq_getElem?_getD, List.getElem?_replicate, if_pos hlt]
  rfl

/-- The creation with `n` letters succeeds, and the letters are in memory from the top of the
    stack page downwards, however far this is. -/
theorem HasLetters.createProcess {n : Nat} (h : HasLetters m n) :
    ∃ m', m.createProcess (callWith 1) = some (UInt64.ofNat (freeEntry m.pcb), m') ∧
      ∀ x : Addr, m.nextStackTop.toNat ≤ x.toNat + n + 1 →
        x.toNat + (216 + (n + 8) / 8 * 8) + 8 ≤ m.nextStackTop.toNat + n →
        m'.mem.readWord x = 0x4141414141414141 := by
  obtain ⟨final, hinit, hcopies⟩ := @initializeStack_copies (fun _ => letters n) m.mem
    m.nextStackTop (callWith 1).entryPoint (callWith 1).argv (callWith 1).argc h.can.2.2.2
    h.arguments h.layoutSize_lt.1 h.layoutSize_lt.2
  obtain ⟨r, m', hcreate⟩ := createProcess_isSome_of_stack m ⟨_, hinit⟩
  obtain ⟨mem, sp, rfl, hinit', hm'⟩ := (createProcess_created hcreate).of_canCreate h.can
  have hmem : m'.mem = final.1 := by
    rw [hm']
    exact congrArg (fun r => r.2.1) (Option.some.inj (hinit'.symm.trans hinit))
  refine ⟨m', hcreate, ?_⟩
  intro x hlow hhigh
  have hcopy := hcopies 0 Nat.one_pos
  have hstack := h.stack
  rw [layoutSize_letters] at hcopy
  rw [hmem]
  exact letters_readWord hcopy hlow (by omega)

/-! ### The PCB in its page

    The PCB is kept apart from memory.  Where a frame runs into its page, these are the
    fields as the code finds them afterwards. -/

/-- `pcb[i].occupied`, as memory has it. -/
def storedOccupied (m : Machine) (i : Nat) : UInt64 :=
  m.mem.readWord (m.pcb.pcb + UInt64.ofNat (512 * i))

/-- `pcb[i].fileDescriptors.size`, as memory has it. -/
def storedSize (m : Machine) (i : Nat) : UInt64 :=
  m.mem.readWord (m.pcb.pcb + UInt64.ofNat (512 * i + 64))

/-- The creation with 8000 letters writes below its page, and is not refused. -/
theorem letters_leavePage :
    CanCreate (withLetters 8000) (callWith 1) ∧
    (∀ i < 1, HoldsString (withLetters 8000).mem
      ((withLetters 8000).mem.readWord (argvSlot 0x1000 i)) (letters 8000)) ∧
    ¬ layoutSize (fun _ => letters 8000) 1 ≤ PAGE_SIZE.toNat ∧
    (∃ w ∈ (withLetters 8000).stackWrites (callWith 1), ∃ x, w.Covers x ∧
      ¬ Write.InPage (withLetters 8000).nextStackPage x) ∧
    (∀ r m', (withLetters 8000).createProcess (callWith 1) = some (r, m') →
      ¬ 2 ^ 63 ≤ r.toNat) ∧
    ¬ StaysInPage (withLetters 8000) (callWith 1) (fun _ => letters 8000) := by
  have hhas : HasLetters (withLetters 8000) 8000 := withLetters_hasLetters (by decide)
  have hsize : PAGE_SIZE.toNat = 0x2000 := rfl
  have hlarge : ¬ ∀ w ∈ (withLetters 8000).stackWrites (callWith 1), ∀ x, w.Covers x →
      Write.InPage (withLetters 8000).nextStackPage x := by
    rw [stackWrites_inPage_iff, hhas.total, hsize]
    omega
  constructor
  · exact hhas.can
  constructor
  · exact hhas.holds
  constructor
  · show ¬ layoutSize (fun _ => letters 8000) (callWith 1).argc.toNat ≤ _
    rw [layoutSize_letters, hsize]
    omega
  constructor
  · simp only [not_forall] at hlarge
    obtain ⟨w, hw, x, hx, hout⟩ := hlarge
    exact ⟨w, hw, x, hx, hout⟩
  constructor
  · intro r m' hcreate hr
    have hmax : (withLetters 8000).pcb.maxProcesses ≤ UInt64.ofNat pcbEntries := by
      show fresh.pcb.maxProcesses ≤ _
      decide
    exact ((createProcess_created hcreate).failed_iff hmax).mp hr hhas.can
  · intro h
    exact hlarge h.inPage

end

end Machine

end TP2Kernel
