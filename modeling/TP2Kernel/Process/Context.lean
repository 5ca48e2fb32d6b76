import TP2Kernel.Memory.Ownership
import TP2Kernel.Process.Arguments
import TP2Kernel.Process.Failure

/-! # Starting a process (`Kernel/asm/interrupts.asm`)

    An interrupt handler ends with `loadState` and `iretq`: the saved registers are popped
    in their order, and then what the processor itself saves.  A new process is started
    in the same way, from the stack that `initializeStack` lays out.
-/

namespace TP2Kernel

/-! ### The end of an interrupt -/

/-- What `loadState` and `iretq` load. -/
structure Cpu where
  gs : UInt16
  fs : UInt16
  r15 : UInt64
  r14 : UInt64
  r13 : UInt64
  r12 : UInt64
  r11 : UInt64
  r10 : UInt64
  r9 : UInt64
  r8 : UInt64
  rsi : UInt64
  rdi : UInt64
  rbp : UInt64
  rdx : UInt64
  rcx : UInt64
  rbx : UInt64
  rax : UInt64
  rip : UInt64
  cs : UInt16
  rflags : UInt64
  rsp : Addr
  ss : UInt16

namespace Cpu

def zero : Cpu := ⟨0, 0, 0, 0, 0, 0, 0, 0, 0, 0, 0, 0, 0, 0, 0, 0, 0, 0, 0, 0, 0, 0⟩

/-- `pop`: the word on top of the stack, and the stack pointer after it. -/
def pop (mem : Memory) (rsp : Addr) : UInt64 × Addr := (mem.readWord rsp, rsp + 8)

/-- `loadState`. -/
def loadState (mem : Memory) (cpu : Cpu) : Cpu :=
  let (gs, rsp) := pop mem cpu.rsp
  let (fs, rsp) := pop mem rsp
  let (r15, rsp) := pop mem rsp
  let (r14, rsp) := pop mem rsp
  let (r13, rsp) := pop mem rsp
  let (r12, rsp) := pop mem rsp
  let (r11, rsp) := pop mem rsp
  let (r10, rsp) := pop mem rsp
  let (r9, rsp) := pop mem rsp
  let (r8, rsp) := pop mem rsp
  let (rsi, rsp) := pop mem rsp
  let (rdi, rsp) := pop mem rsp
  let (rbp, rsp) := pop mem rsp
  let (rdx, rsp) := pop mem rsp
  let (rcx, rsp) := pop mem rsp
  let (rbx, rsp) := pop mem rsp
  let (rax, rsp) := pop mem rsp
  { cpu with
    gs := gs.toUInt16, fs := fs.toUInt16, r15 := r15, r14 := r14, r13 := r13, r12 := r12,
    r11 := r11, r10 := r10, r9 := r9, r8 := r8, rsi := rsi, rdi := rdi, rbp := rbp,
    rdx := rdx, rcx := rcx, rbx := rbx, rax := rax, rsp := rsp }

/-- `iretq`: `RIP`, `CS`, `RFLAGS`, `RSP` and `SS` are popped together. -/
def iretq (mem : Memory) (cpu : Cpu) : Cpu :=
  let (rip, rsp) := pop mem cpu.rsp
  let (cs, rsp) := pop mem rsp
  let (rflags, rsp) := pop mem rsp
  let (newRsp, rsp) := pop mem rsp
  let (ss, _) := pop mem rsp
  { cpu with
    rip := rip, cs := cs.toUInt16, rflags := rflags, rsp := newRsp, ss := ss.toUInt16 }

/-- `mov rsp, rax`, `loadState` and `iretq`. -/
def switchTo (mem : Memory) (cpu : Cpu) (stack : Addr) : Cpu :=
  iretq mem (loadState mem { cpu with rsp := stack })

end Cpu

namespace Machine

/-! ### The frame -/

/-- The words that `initializeStack` pushes last, from the top of the stack on: ten
    registers, `rsi` and `rdi`, five more registers, and what `iretq` pops. -/
def frameWords (mainFunction : Addr) (argc : UInt64) (processRSP : Addr) : List UInt64 :=
  [0, 0, 0, 0, 0, 0, 0, 0, 0, 0, processRSP + 16, argc, 0, 0, 0, 0, 0,
    mainFunction, 0x008, 0x202, processRSP, 0]

/-- The bytes of the whole initial stack. -/
def layoutSize (args : Nat → CString) (n : Nat) : Nat := 208 + 8 * n + stringsSize args n

theorem switchTo_frame {mem : Memory} {stack mainFunction processRSP : Addr} {argc : UInt64}
    {ws : List UInt64}
    (h : Stacked mem stack (frameWords mainFunction argc processRSP ++ ws)) (cpu : Cpu) :
    cpu.switchTo mem stack =
      { gs := 0, fs := 0, r15 := 0, r14 := 0, r13 := 0, r12 := 0, r11 := 0, r10 := 0,
        r9 := 0, r8 := 0, rsi := processRSP + 16, rdi := argc, rbp := 0, rdx := 0, rcx := 0,
        rbx := 0, rax := 0, rip := mainFunction, cs := 0x008, rflags := 0x202,
        rsp := processRSP, ss := 0 } := by
  obtain ⟨hgs, hfs, h15, h14, h13, h12, h11, h10, h9, h8, hrsi, hrdi, hrbp, hrdx, hrcx, hrbx,
    hrax, hrip, hcs, hrflags, hrsp, hss, -⟩ := h
  simp only [Cpu.switchTo, Cpu.loadState, Cpu.iretq, Cpu.pop, hgs, hfs, h15, h14, h13, h12, h11,
    h10, h9, h8, hrsi, hrdi, hrbp, hrdx, hrcx, hrbx, hrax, hrip, hcs, hrflags, hrsp, hss]
  rfl

theorem loopCount_eq {argc : UInt64} (hpos : argc ≠ 0) (hsmall : argc.toNat < 2 ^ 63) :
    loopCount argc = argc.toNat := by
  have hne : argc.toNat ≠ 0 := fun h => hpos (UInt64.toNat_inj.mp h)
  have hpred : (argc - 1).toNat = argc.toNat - 1 := addr_sub_toNat (k := 1) (by omega)
  have hint : (argc - 1).toInt64.toInt = (argc.toNat - 1 : Nat) := by
    rw [← hpred]
    show (argc - 1).toBitVec.toInt = _
    rw [BitVec.toInt_eq_toNat_of_lt]
    · rfl
    · show 2 * (argc - 1).toNat < 2 ^ 64
      omega
  rw [loopCount, hint]
  omega

section
variable {m : Memory} {userStackTop mainFunction argv : Addr} {argc : UInt64}

/-- What is pushed behind the strings. -/
theorem initializeStack_pushed {after : Memory × Addr} (hpos : argc ≠ 0)
    (hsmall : argc.toNat < 2 ^ 63)
    (hpush : pushArguments (pushZeros m userStackTop 8).1 (pushZeros m userStackTop 8).2 argv
      argc.toNat = some after)
    (hroom : 200 + 8 * argc.toNat ≤ after.2.toNat)
    (hslots : ∀ i < argc.toNat, ∀ x, SlotByte argv i x →
      Outside (after.2.toNat - 8 * (1 + argc.toNat)) after.2.toNat x) :
    ∃ final, initializeStack m userStackTop mainFunction argc argv = some (0, final) ∧
      Pushed after final (frameWords mainFunction argc (final.2 + 176) ++
        ([0, 0] ++ ((List.range argc.toNat).map
          (fun i => after.1.readWord (argvSlot argv i)) ++ [0]))) := by
  have hcount := loopCount_eq hpos hsmall
  -- end of argv and the pointers
  have hnull := (Pushed.refl after).pushZeros 1 (by simp; omega)
  have hpointers := @Pushed.pushPointers _ _ _ hnull argv argc.toNat (by simp; omega)
    (fun i hi k hk => by simpa using hslots i hi _ (slotByte_offset argv i hk))
  generalize hq : pushPointers _ _ argv argc.toNat = q at hpointers
  -- the return address of main and the fake RBP
  have hmain := (hpointers.pushZeros 1 (by simp; omega)).pushZeros 1 (by simp; omega)
  generalize hp : pushZeros _ _ (8 * 1) = p at hmain
  have hrsp : 176 ≤ p.2.toNat := by
    have hsp := hmain.sp
    simp at hsp
    omega
  -- what `iretq` pops
  have hiretq := (((((Pushed.refl p).pushWord 0 (by simp; omega)).pushWord p.2
    (by simp; omega)).pushWord 0x202 (by simp; omega)).pushWord 0x008 (by simp; omega)).pushWord
    mainFunction (by simp; omega)
  -- what `loadState` pops
  have hloadState := (((hiretq.pushZeros 5 (by simp; omega)).pushWord argc
    (by simp; omega)).pushWord q.2 (by simp; omega)).pushZeros 10 (by simp; omega)
  generalize hf : pushZeros _ _ (8 * 10) = final at hloadState
  refine ⟨final, ?_, ?_⟩
  · unfold initializeStack
    rw [if_neg (by simpa using hpos), hcount]
    simp only [hpush]
    rw [← hf, ← hp, ← hq]
  · have hprocessRSP : final.2 + 176 = p.2 := hloadState.sp_add
    have hnewArgv : q.2 = p.2 + 16 := by
      have hdown : p.2 = q.2 - 8 - 8 := by
        rw [← hp]
        rfl
      rw [hdown, sub_sub, show (8 : UInt64) + 8 = 16 from rfl, sub_add_cancel]
    rw [hprocessRSP]
    rw [hnewArgv] at hloadState
    exact hmain.trans hloadState

/-- The process is about to run its entry point with the arguments `args`, which lie
    behind its stack pointer, up to `top`. -/
structure Starts (mem : Memory) (cpu : Cpu) (top : Nat) (entryPoint : Addr) (argc : UInt64)
    (args : Nat → CString) : Prop where
  rip : cpu.rip = entryPoint
  cs : cpu.cs = 0x008
  rflags : cpu.rflags = 0x202
  rdi : cpu.rdi = argc
  lower : cpu.rsp.toNat ≤ cpu.rsi.toNat
  upper : cpu.rsi.toNat + 8 * (argc.toNat + 1) ≤ top
  strings : ∀ i < argc.toNat, StringWithin mem cpu.rsp.toNat top
    (mem.readWord (argvSlot cpu.rsi i)) (args i)
  null : mem.readWord (argvSlot cpu.rsi argc.toNat) = NULL

/-- The switch to the new stack starts the process with the strings that were copied, and
    these stay while nothing is written behind the stack pointer. -/
theorem initializeStack_starts {after : Memory × Addr} {args : Nat → CString} {top : Nat}
    (hpos : argc ≠ 0)
    (hpush : pushArguments (pushZeros m userStackTop 8).1 (pushZeros m userStackTop 8).2 argv
      argc.toNat = some after)
    (hroom : 200 + 8 * argc.toNat ≤ after.2.toNat) (htop : after.2.toNat ≤ top)
    (hbound : top < 2 ^ 64)
    (hslots : ∀ i < argc.toNat, ∀ x, SlotByte argv i x →
      Outside (after.2.toNat - 8 * (1 + argc.toNat)) after.2.toNat x)
    (hcopies : ∀ i < argc.toNat, StringWithin after.1 after.2.toNat top
      (after.1.readWord (argvSlot argv i)) (args i)) :
    ∃ mem sp, initializeStack m userStackTop mainFunction argc argv = some (0, mem, sp) ∧
      ∀ (cpu : Cpu) (mem' : Memory),
        (∀ x : Addr, (cpu.switchTo mem sp).rsp.toNat ≤ x.toNat → x.toNat < top →
          mem' x = mem x) →
        Starts mem' (cpu.switchTo mem sp) top mainFunction argc args := by
  have hlt := after.2.toNat_lt
  obtain ⟨⟨mem, sp⟩, hinit, hpushed⟩ :=
    @initializeStack_pushed m userStackTop mainFunction argv argc after hpos (by omega) hpush
      hroom hslots
  refine ⟨mem, sp, hinit, ?_⟩
  intro cpu mem'
  rw [switchTo_frame hpushed.words cpu]
  intro hsame
  have hsp : sp.toNat + (200 + 8 * argc.toNat) = after.2.toNat := by
    have hsp := hpushed.sp
    simp [frameWords] at hsp
    omega
  have hrsp : (sp + 176).toNat = sp.toNat + 176 := addr_add_toNat (k := 176) (by omega)
  have hrsi : (sp + 176 + 16).toNat = (sp + 176).toNat + 16 :=
    addr_add_toNat (k := 16) (by omega)
  -- the array
  have hwords : Stacked mem' (sp + 176 + 16) ((List.range argc.toNat).map
      (fun i => after.1.readWord (argvSlot argv i)) ++ [0]) := by
    have hall : Stacked mem (sp + 176 + 16) _ := hpushed.words.right.right
    apply hall.congr
    · simp
      omega
    · intro x hlo hhi
      simp at hhi
      apply hsame
      · show (sp + 176).toNat ≤ x.toNat
        omega
      · omega
  have hpointer : ∀ i < argc.toNat, mem'.readWord (argvSlot (sp + 176 + 16) i) =
      after.1.readWord (argvSlot argv i) := by
    intro i hi
    have hget : ((List.range argc.toNat).map
        (fun i => after.1.readWord (argvSlot argv i)) ++ [0])[i]? =
          some (after.1.readWord (argvSlot argv i)) := by
      rw [List.getElem?_append_left (by simpa using hi), List.getElem?_map,
        List.getElem?_range hi]
      rfl
    exact hwords.readWord hget
  constructor
  · rfl
  · rfl
  · rfl
  · rfl
  · show (sp + 176).toNat ≤ (sp + 176 + 16).toNat
    omega
  · show (sp + 176 + 16).toNat + _ ≤ top
    omega
  · intro i hi
    rw [hpointer i hi]
    apply (hcopies i hi).mono
    · show (sp + 176).toNat ≤ after.2.toNat
      omega
    · exact Nat.le_refl top
    · exact hbound
    · intro x hlo hhi
      have hkept : mem x = after.1 x := hpushed.frame x (.inr hlo)
      rw [← hkept]
      apply hsame
      · show (sp + 176).toNat ≤ x.toNat
        omega
      · exact hhi
  · apply hwords.readWord
    simp
    rfl

end

/-! ### Created processes -/

section
variable {m : Machine} {held : List Addr} {a : ProcessParams} {args : Nat → CString}

/-- The end of the page that the stack of the next process gets. -/
def nextStackTop (m : Machine) : Addr := (m.stackPageFor (freeEntry m.pcb)).2 + PAGE_SIZE

/-- It is the end of a page of the pool. -/
theorem nextStackTop_pool (hpages : pageOwnership.Reachable ⟨m.pages, held⟩)
    (hpage : (m.stackPageFor (freeEntry m.pcb)).2 ≠ NULL) :
    ∃ i < STACK_SIZE, (m.stackPageFor (freeEntry m.pcb)).2 = PageStack.pageAddress i ∧
      m.nextStackTop.toNat = 0x10000000 + i * 0x2000 + 0x2000 := by
  have hexclusive := exclusive_reachable hpages
  have hmem : (m.stackPageFor (freeEntry m.pcb)).2 ∈ PageStack.initialPages := by
    apply hexclusive.fromPool
    apply List.mem_append_right
    rw [hexclusive.pop_answer hpage]
    exact List.mem_cons_self
  obtain ⟨i, hi, hi'⟩ := List.mem_map.mp hmem
  have hlt : i < STACK_SIZE := List.mem_range.mp hi
  have hpage' := PageStack.pageAddress_toNat hlt
  refine ⟨i, hlt, hi'.symm, ?_⟩
  unfold STACK_SIZE at hlt
  rw [nextStackTop, ← hi', ← hpage']
  apply addr_add_toNat (k := 0x2000)
  omega

theorem nextStackTop_bounds (hpages : pageOwnership.Reachable ⟨m.pages, held⟩)
    (hpage : (m.stackPageFor (freeEntry m.pcb)).2 ≠ NULL) :
    PAGE_SIZE.toNat < m.nextStackTop.toNat ∧ m.nextStackTop.toNat < 2 ^ 63 := by
  obtain ⟨i, hi, -, htop⟩ := nextStackTop_pool hpages hpage
  have hsize : PAGE_SIZE.toNat = 0x2000 := rfl
  unfold STACK_SIZE at hi
  omega

/-- The creation succeeds, and a switch to the stack that it saved starts the process with
    the arguments `args`.  These stay in every memory that is the same from the stack
    pointer to the end of the page. -/
def StartsWith (m : Machine) (a : ProcessParams) (args : Nat → CString) : Prop :=
  ∃ m', m.createProcess a = some (UInt64.ofNat (freeEntry m.pcb), m') ∧
    ∀ (cpu : Cpu) (mem : Memory),
      (∀ x : Addr,
        (cpu.switchTo m'.mem (m'.pcb.entries (freeEntry m.pcb)).stack).rsp.toNat ≤ x.toNat →
        x.toNat < m.nextStackTop.toNat → mem x = m'.mem x) →
      Starts mem (cpu.switchTo m'.mem (m'.pcb.entries (freeEntry m.pcb)).stack)
        m.nextStackTop.toNat a.entryPoint a.argc args

/-- The strings that the loop leaves are those that the process starts with. -/
theorem startsWith_of_copies {after : Memory × Addr} (hcan : CanCreate m a)
    (hpush : pushArguments (pushZeros m.mem m.nextStackTop 8).1
      (pushZeros m.mem m.nextStackTop 8).2 a.argv a.argc.toNat = some after)
    (hroom : 200 + 8 * a.argc.toNat ≤ after.2.toNat)
    (htop : after.2.toNat ≤ m.nextStackTop.toNat)
    (hslots : ∀ i < a.argc.toNat, ∀ x, SlotByte a.argv i x →
      Outside (after.2.toNat - 8 * (1 + a.argc.toNat)) after.2.toNat x)
    (hcopies : ∀ i < a.argc.toNat, StringWithin after.1 after.2.toNat m.nextStackTop.toNat
      (after.1.readWord (argvSlot a.argv i)) (args i)) :
    StartsWith m a args := by
  obtain ⟨mem, sp, hinit, hstarts⟩ := @initializeStack_starts m.mem m.nextStackTop a.entryPoint
    a.argv a.argc after args m.nextStackTop.toNat hcan.2.2.2 hpush hroom htop
    m.nextStackTop.toNat_lt hslots hcopies
  obtain ⟨r, m', hcreate⟩ := createProcess_isSome_of_stack m ⟨_, hinit⟩
  obtain ⟨mem', sp', rfl, hinit', rfl⟩ := (createProcess_created hcreate).of_canCreate hcan
  -- the stack laid out is the one that `createProcess` saved
  obtain ⟨rfl, rfl⟩ : mem = mem' ∧ sp = sp' := by
    have heq : some ((0 : UInt64), mem, sp) = some (0, mem', sp') := hinit.symm.trans hinit'
    simpa using heq
  refine ⟨_, hcreate, ?_⟩
  simp only [withNewProcess_entries_self]
  exact hstarts

/-- The machine lacks nothing for a new process, and `argv` has `argc` strings whose layout
    fits in a page. -/
structure GoodCall (m : Machine) (a : ProcessParams) (args : Nat → CString) : Prop where
  pages : ∃ held, pageOwnership.Reachable ⟨m.pages, held⟩
  canCreate : CanCreate m a
  holds : ∀ i < a.argc.toNat, HoldsString m.mem (m.mem.readWord (argvSlot a.argv i)) (args i)
  fits : layoutSize args a.argc.toNat ≤ PAGE_SIZE.toNat

/-- The part of the new stack page that the initial stack takes. -/
def OutsideFrame (m : Machine) (a : ProcessParams) (args : Nat → CString) (x : Addr) : Prop :=
  Outside (m.nextStackTop.toNat - layoutSize args a.argc.toNat) m.nextStackTop.toNat x

/-- `argv` and its strings lie outside of the initial stack, and no string overlaps the slots
    of later arguments. -/
structure Apart (m : Machine) (a : ProcessParams) (args : Nat → CString) : Prop where
  slots : ∀ i < a.argc.toNat, ∀ x, SlotByte a.argv i x → m.OutsideFrame a args x
  strings : ∀ i < a.argc.toNat, ∀ j ≤ (args i).length,
    m.OutsideFrame a args (m.mem.readWord (argvSlot a.argv i) + UInt64.ofNat j)
  apart : ∀ i < a.argc.toNat, ∀ j ≤ (args i).length, ∀ k, i < k → k < a.argc.toNat →
    ¬ SlotByte a.argv k (m.mem.readWord (argvSlot a.argv i) + UInt64.ofNat j)

/-- The machine after `initializePCB`, with some bytes of memory set. -/
def withBytes (bytes : List (Addr × UInt8)) : Machine :=
  { fresh with mem := fun x => (bytes.lookup x).getD 0 }

theorem withBytes_pages (bytes : List (Addr × UInt8)) :
    ∃ held, pageOwnership.Reachable ⟨(withBytes bytes).pages, held⟩ := by
  have hinit : pageOwnership.Reachable ⟨PageStack.bss.initializePageStack, []⟩ := .init ⟨rfl, rfl⟩
  exact ⟨_, .step .pop hinit ⟨NULL, rfl⟩⟩

/-- **The frame and the interrupt return agree.**  A new process starts with the arguments
    of the call, unless these lie where its initial stack goes or a string overlaps the
    slots of later arguments, which are redirected before it is copied. -/
theorem createProcess_starts (h : GoodCall m a args)
    (hslots : ∀ i < a.argc.toNat, ∀ x, SlotByte a.argv i x → m.OutsideFrame a args x)
    (hstrings : ∀ i < a.argc.toNat, ∀ j ≤ (args i).length,
      m.OutsideFrame a args (m.mem.readWord (argvSlot a.argv i) + UInt64.ofNat j))
    (hapart : ∀ i < a.argc.toNat, ∀ j ≤ (args i).length, ∀ k, i < k → k < a.argc.toNat →
      ¬ SlotByte a.argv k (m.mem.readWord (argvSlot a.argv i) + UInt64.ofNat j)) :
    StartsWith m a args := by
  obtain ⟨⟨held, hpages⟩, hcan, hholds, hfits⟩ := h
  have hargs : Arguments m.mem a.argv
      (m.nextStackTop.toNat - layoutSize args a.argc.toNat) m.nextStackTop.toNat args
      a.argc.toNat := ⟨hholds, hslots, hstrings, hapart⟩
  obtain ⟨hpage, htop⟩ := nextStackTop_bounds hpages hcan.2.2.1
  have hsize : PAGE_SIZE.toNat = 0x2000 := rfl
  unfold layoutSize at hfits hargs
  obtain ⟨after, hpush, hsp, hcopies⟩ :=
    pushArguments_base hargs (by omega) (by omega) (by omega)
  apply startsWith_of_copies hcan hpush
  · omega
  · omega
  · intro i hi x hx
    rcases hargs.slots i hi x hx with hx | hx
    · left
      omega
    · right
      omega
  · exact hcopies

/-- A call with `argc` arguments whose `argv` lies at 4096. -/
def callWith (argc : UInt64) : ProcessParams := ⟨0, NULL, 0x400000, argc, 0x1000⟩

/-- The pointers of `argv` lead to 8192 and 8193, where `"A"` and `""` lie. -/
def separate : Machine :=
  withBytes [(0x1001, 0x20), (0x1008, 0x01), (0x1009, 0x20), (0x2000, 0x41)]

def separateArgs (i : Nat) : CString := if i = 0 then ⟨[0x41], by simp⟩ else .empty

/-- What lies below the pages lies outside of every initial stack. -/
theorem Apart.of_below (hslots : a.argv.toNat + 8 * a.argc.toNat ≤ 0x10000000)
    (hstrings : ∀ i < a.argc.toNat, ∀ j ≤ (args i).length,
      (m.mem.readWord (argvSlot a.argv i) + UInt64.ofNat j).toNat < 0x10000000)
    (hstack : 0x10000000 + layoutSize args a.argc.toNat ≤ m.nextStackTop.toNat)
    (hapart : ∀ i < a.argc.toNat, ∀ j ≤ (args i).length, ∀ k, i < k → k < a.argc.toNat →
      ¬ SlotByte a.argv k (m.mem.readWord (argvSlot a.argv i) + UInt64.ofNat j)) :
    Apart m a args := by
  have hout : ∀ x : Addr, x.toNat < 0x10000000 → m.OutsideFrame a args x := by
    intro x hx
    left
    omega
  constructor
  · intro i hi x hx
    have hslot : (argvSlot a.argv i).toNat = a.argv.toNat + 8 * i := addr_add_toNat (by omega)
    rw [SlotByte, addr_sub_toNat_lt_iff (by omega)] at hx
    apply hout
    omega
  · intro i hi j hj
    exact hout _ (hstrings i hi j hj)
  · exact hapart

theorem separate_good : separate.GoodCall (callWith 2) separateArgs := by
  refine ⟨withBytes_pages _, ?_, ?_, ?_⟩
  · refine ⟨by decide, by decide, by decide, by decide⟩
  · decide +kernel
  · decide +kernel

theorem separate_apart : Apart separate (callWith 2) separateArgs := by
  have hbytes : ∀ i < 2, ∀ j ≤ (separateArgs i).length, ∀ k < 2, i < k →
      ¬ (separate.mem.readWord (argvSlot 0x1000 i) + UInt64.ofNat j -
        argvSlot 0x1000 k).toNat < 8 := by
    decide +kernel
  apply Apart.of_below
  · decide
  · show ∀ i < 2, ∀ j ≤ (separateArgs i).length,
      (separate.mem.readWord (argvSlot 0x1000 i) + UInt64.ofNat j).toNat < 0x10000000
    decide +kernel
  · decide
  · intro i hi j hj k hik hk
    exact hbytes i hi j hj k hk hik

theorem createProcess_starts_separate : separate.StartsWith (callWith 2) separateArgs :=
  createProcess_starts separate_good separate_apart.slots separate_apart.strings
    separate_apart.apart

/-! ### Arguments that overlap -/

/-- The first character of the `i`-th argument, as the process finds it. -/
def firstCharacter (m : Machine) (a : ProcessParams) (i : Nat) : Option UInt8 :=
  (m.createProcess a).map fun (index, m') =>
    let cpu := Cpu.zero.switchTo m'.mem (m'.pcb.process index).stack
    m'.mem (m'.mem.readWord (argvSlot cpu.rsi i))

theorem StartsWith.firstCharacter (h : StartsWith m a args) (hlt : freeEntry m.pcb < 2 ^ 64)
    {i : Nat} (hi : i < a.argc.toNat) :
    m.firstCharacter a i = some ((args i).bytes.getD 0 0) := by
  obtain ⟨m', hcreate, hstarts⟩ := h
  have hindex : (UInt64.ofNat (freeEntry m.pcb)).toNat = freeEntry m.pcb :=
    UInt64.toNat_ofNat_of_lt' hlt
  have hstring := ((hstarts .zero m'.mem (fun _ _ _ => rfl)).strings i hi).holds
  have hfirst := hstring.2 0 (Nat.zero_le _)
  simp only [Machine.firstCharacter, hcreate, Option.map_some, Pcb.process, hindex]
  rw [← hfirst]
  simp

/-- `argv[0]` points to `argv[1]`, which points to 8193: the strings `"\x01 "` and `""`. -/
def redirected : Machine :=
  withBytes [(0x1000, 0x08), (0x1001, 0x10), (0x1008, 0x01), (0x1009, 0x20)]

def redirectedArgs (i : Nat) : CString := if i = 0 then ⟨[0x01, 0x20], by simp⟩ else .empty

/-- `argv[0]` points to the last word of the page that the stack will get, an `"A"`. -/
def inFrame : Machine :=
  withBytes [(0x1000, 0xF8), (0x1001, 0x3F), (0x1003, 0x10), (0x10003FF8, 0x41)]

def inFrameArgs (_ : Nat) : CString := ⟨[0x41], by simp⟩

/-- A good call may start the process with other strings: once because the slot of a later
    argument was redirected, once because the stack base was pushed. -/
theorem createProcess_starts_overlap :
    (redirected.GoodCall (callWith 2) redirectedArgs ∧
      ¬ redirected.StartsWith (callWith 2) redirectedArgs) ∧
    inFrame.GoodCall (callWith 1) inFrameArgs ∧
      ¬ inFrame.StartsWith (callWith 1) inFrameArgs := by
  constructor
  · refine ⟨⟨withBytes_pages _, ?_, ?_, ?_⟩, ?_⟩
    · refine ⟨by decide, by decide, by decide, by decide⟩
    · decide +kernel
    · decide +kernel
    · intro h
      have hfirst := h.firstCharacter (by decide) (show 0 < 2 by decide)
      exact absurd hfirst (by decide +kernel)
  · refine ⟨⟨withBytes_pages _, ?_, ?_, ?_⟩, ?_⟩
    · refine ⟨by decide, by decide, by decide, by decide⟩
    · decide +kernel
    · decide +kernel
    · intro h
      have hfirst := h.firstCharacter (by decide) (show 0 < 1 by decide)
      exact absurd hfirst (by decide +kernel)

end

end Machine

end TP2Kernel
