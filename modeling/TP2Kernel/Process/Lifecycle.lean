import TP2Kernel.Process.Pcb

/-! # Creating and destroying processes (`Kernel/c/process.c`)

    `createProcess` takes a free PCB entry, a page for the stack and lays out the frame
    the process starts from; `destroyProcess` gives the stack page and the heap pages
    back and clears the entry.
-/

namespace TP2Kernel

/-- What `process.c` works on: memory, the page allocator and the PCB. -/
structure Machine where
  mem : Memory
  pages : PageStack
  pcb : Pcb

/-- The arguments of `createProcess` (and of `addProcess`, which passes them on). -/
structure ProcessParams where
  parentPid : UInt64
  name : Addr
  entryPoint : Addr
  argc : UInt64
  argv : Addr

namespace Machine

def modifyProcess (m : Machine) (i : Nat) (f : PcbEntry → PcbEntry) : Machine :=
  { m with pcb := m.pcb.modifyProcess i f }

/-- `sizeof(struct pcbEntry_s)`. -/
def pcbEntrySize : UInt64 := 512

/-- `initializePCB`: the page of the entries is cleared; what lies behind it stays. -/
def initializePCB (m : Machine) : UInt64 × Machine :=
  let (pages, page) := m.pages.pageManager .POP_PAGE m.pcb.pcb
  if page = NULL then (-1, { m with pages := pages, pcb.pcb := page })
  else
    let maxProcesses := PAGE_SIZE / pcbEntrySize
    (0, { m with
      pages := pages
      pcb.pcb := page
      pcb.maxProcesses := maxProcesses
      pcb.entries := fun i => if i < maxProcesses.toNat then .zero else m.pcb.entries i })

/-! ### The initial stack -/

/-- `createStack`: the page goes to `stackPage`, its end to `stackTop`. -/
def createStack (m : Machine) (index : Nat) : UInt64 × Machine :=
  let (pages, page) := m.pages.pageManager .POP_PAGE (m.pcb.entries index).stackPage
  let m := { m with pages := pages }
  let m := m.modifyProcess index fun e => { e with stackPage := page }
  if page = NULL then (-1, m)
  else (0, m.modifyProcess index fun e => { e with stack := page + PAGE_SIZE })

/-- `*userStackTop -= size` and a `memset` to zero of what was gained. -/
def pushZeros (mem : Memory) (sp : Addr) (size : Nat) : Memory × Addr :=
  (memset mem (sp - UInt64.ofNat size) 0 size, sp - UInt64.ofNat size)

/-- `*userStackTop -= 8` and a copy of one word. -/
def pushWord (mem : Memory) (sp : Addr) (v : UInt64) : Memory × Addr :=
  (mem.writeWord (sp - 8) v, sp - 8)

/-- `strlen(argv[count]) + 1` as an `int`, rounded up to a whole number of words. -/
def alignedLength (len : UInt64) : Int32 :=
  let length : Int32 := (len + 1).toInt64.toInt32
  let aux : Int32 := (length.toInt64.toUInt64 % 8).toInt64.toInt32
  if aux ≠ 0 then length + (8 - aux) else length

/-- The loop that copies the strings of `argv`, the last one first, and lets `argv[count]`
    point to the copy.  The argument counts the strings still to copy. -/
def pushArguments (mem : Memory) (sp : Addr) (argv : Addr) : Nat → Option (Memory × Addr)
  | 0 => some (mem, sp)
  | count + 1 =>
    let slot := argv + UInt64.ofNat (8 * count)
    let arg := mem.readWord slot
    match strlen mem arg with
    | none => none
    | some len =>
      let length := (alignedLength len).toInt64.toUInt64
      let sp := sp - (length / 8) * 8
      let mem := memcpy mem sp arg length
      let mem := mem.writeWord slot sp
      pushArguments mem sp argv count

/-- The loop that pushes the pointers of `argv`, the last one first. -/
def pushPointers (mem : Memory) (sp : Addr) (argv : Addr) : Nat → Memory × Addr
  | 0 => (mem, sp)
  | count + 1 =>
    let (mem, sp) := pushWord mem sp (mem.readWord (argv + UInt64.ofNat (8 * count)))
    pushPointers mem sp argv count

/-- How many times a loop from `count = argc - 1` down to `0` runs, `count` being signed. -/
def loopCount (argc : UInt64) : Nat := ((argc - 1).toInt64.toInt + 1).toNat

/-- `initializeStack`, from the memory and the stack pointer before: the result code, the
    memory and the stack pointer after.  `none` when `strlen` of an argument never ends. -/
def initializeStack (mem : Memory) (userStackTop mainFunction : Addr) (argc : UInt64)
    (argv : Addr) : Option (UInt64 × Memory × Addr) :=
  if argc ≤ 0 then some (-1, mem, userStackTop)
  else
    -- stack base
    let (mem, sp) := pushZeros mem userStackTop 8
    match pushArguments mem sp argv (loopCount argc) with
    | none => none
    | some (mem, sp) =>
      -- end of argv
      let (mem, sp) := pushZeros mem sp 8
      let (mem, sp) := pushPointers mem sp argv (loopCount argc)
      let newArgv := sp
      -- return address of main, fake RBP
      let (mem, sp) := pushZeros mem sp 8
      let (mem, sp) := pushZeros mem sp 8
      let processRSP := sp
      -- SS, RSP, RFLAGS, CS, RIP
      let (mem, sp) := pushWord mem sp 0
      let (mem, sp) := pushWord mem sp processRSP
      let (mem, sp) := pushWord mem sp 0x202
      let (mem, sp) := pushWord mem sp 0x008
      let (mem, sp) := pushWord mem sp mainFunction
      -- registers
      let (mem, sp) := pushZeros mem sp (5 * 8)
      let (mem, sp) := pushWord mem sp argc
      let (mem, sp) := pushWord mem sp newArgv
      let (mem, sp) := pushZeros mem sp (10 * 8)
      some (0, mem, sp)

/-! ### createProcess -/

def openSTDIOFiles (p : Pcb) (PCBIndex : UInt64) : Int × Pcb :=
  match p.addFile PCBIndex 0 .STDIN_ F_READ with
  | (none, p) => (-1, p)
  | (some _, p) =>
    match p.addFile PCBIndex 0 .STDOUT_ F_WRITE with
    | (none, p) => (-1, p)
    | (some _, p) =>
      match p.addFile PCBIndex 0 .STDERR_ F_WRITE with
      | (none, p) => (-1, p)
      | (some _, p) => (0, p)

def openRawKeys (p : Pcb) (PCBIndex : UInt64) : Int × Pcb :=
  match p.addFile PCBIndex 0 .RAW_KEYS F_READ with
  | (none, p) => (-1, p)
  | (some _, p) => (0, p)

/-- The index of the entry the next process gets, `maxProcesses` when there is none. -/
def freeEntry (p : Pcb) : Nat :=
  Scan.scan (fun i => (p.entries i).occupied = 0) p.maxProcesses.toNat

/-- The entry as it is filled in before the stack is created. -/
def claimedEntry (m : Machine) (e : PcbEntry) (a : ProcessParams) : PcbEntry :=
  { e with
    occupied := 1
    pid := m.pcb.nextPid
    parentPid := a.parentPid
    name := (List.range MAX_NAME_LENGTH).map (fun k => m.mem (a.name + UInt64.ofNat k)) }

/-- The PCB with entry `index` filled in; the new process got the next pid. -/
def withNewProcess (m : Machine) (index : Nat) (e : PcbEntry) : Pcb :=
  { m.pcb.setProcess index e with nextPid := m.pcb.nextPid + 1 }

/-- The end of `createProcess`: the descriptor table is set up and the heap is empty. -/
def openFiles (m : Machine) (index : Nat) : UInt64 × Machine :=
  let pcb := m.pcb.modifyProcess index fun e => { e with fileDescriptors := .zero }
  match openSTDIOFiles pcb (UInt64.ofNat index) with
  | (code, pcb) =>
    if code ≠ 0 then (-5, { m with pcb := pcb })
    else
      match openRawKeys pcb (UInt64.ofNat index) with
      | (code, pcb) =>
        if code ≠ 0 then (-6, { m with pcb := pcb })
        else
          (UInt64.ofNat index,
            { m with pcb := pcb.modifyProcess index fun e => { e with heapPage := NULL } })

def createProcess (m : Machine) (a : ProcessParams) : Option (UInt64 × Machine) :=
  if m.pcb.pcb = NULL then some (-1, m)
  else
    let index := freeEntry m.pcb
    if index = m.pcb.maxProcesses.toNat then some (-2, m)
    else
      let entry := claimedEntry m (m.pcb.entries index) a
      match createStack { m with pcb := m.withNewProcess index entry } index with
      | (code, m) =>
        if code ≠ 0 then some (-3, m)
        else
          match initializeStack m.mem (m.pcb.entries index).stack a.entryPoint a.argc a.argv with
          | none => none
          | some (code, mem, sp) =>
            let m := { m with mem := mem }
            let m := m.modifyProcess index fun e => { e with stack := sp }
            if code ≠ 0 then some (-4, m) else some (m.openFiles index)

/-! ### destroyProcess -/

/-- `freePages`: pushes `current` and follows the pointer in its first word.  `none` when
    the chain never ends. -/
def freePages (mem : Memory) (pages : PageStack) (current : Addr) : Nat → Option PageStack
  | 0 => none
  | fuel + 1 =>
    if current = NULL then some pages
    else freePages mem (pages.pageManager .PUSH_PAGE current).1 (mem.readWord current) fuel

def destroyProcess (m : Machine) (PCBIndex : UInt64) : Option (UInt64 × Machine) :=
  if m.pcb.badIndex PCBIndex then some (-1, m)
  else
    let e := m.pcb.process PCBIndex
    let pages := (m.pages.pageManager .PUSH_PAGE e.stackPage).1
    match freePages m.mem pages e.heapPage (walkBound + 1) with
    | none => none
    | some pages =>
      some (0, { m with pages := pages, pcb := m.pcb.setProcess PCBIndex.toNat .zero })

end Machine

end TP2Kernel
