import TP2Kernel.Process.Heap
import TP2Kernel.Process.Names
import TP2Kernel.Scheduler.Recycling
import TP2Kernel.Stdlib.IntToStr

/-! # The list of processes (`printPS`)

    `printPS` prints a row for each node in use and pads its columns to a fixed width.  The
    width less the length of what was printed is computed without a sign, so a string that
    is too long is followed by nearly `2 ^ 64` spaces.  Numbers always fit; a name fits as
    long as it has its NUL.
-/

namespace TP2Kernel

open Transition Scheduler

/-! ### Printing -/

/-- The characters of a text. -/
def chars (text : String) : List UInt8 := text.toList.map fun c => UInt8.ofNat c.toNat

/-- `pad` of `kernel-lib.c`: that many spaces. -/
def pad (spaces : UInt64) : List UInt8 := List.replicate spaces.toNat 32

def State.staticChar : State → UInt8
  | .RUNNING => 82
  | .SLEPT => 83
  | .FINISHED => 70

/-- `strlen` of a name; `none` is `NULL`. -/
def nameLength : Option (List UInt8) → UInt64
  | none => -1
  | some bytes => UInt64.ofNat (stringOf bytes).length

/-- `ncPrint` of a name: for `NULL` it prints what lies at address 0, and does not return
    when no NUL follows. -/
def printName (mem : Memory) : Option (List UInt8) → Option (List UInt8)
  | none => (strlenFrom mem NULL 0 walkBound).map fun length =>
      (List.range length.toNat).map fun k => mem (UInt64.ofNat k)
  | some bytes => some (stringOf bytes)

namespace Tasks

/-- The row of node `i`. -/
def psRow (t : Tasks) (i : Nat) : Option (List UInt8) :=
  let newPCBIndex := (t.sched.nodes i).PCBIndex
  let pid := intToStr (t.pcb.getProcessPID newPCBIndex)
  let name := t.pcb.getProcessName newPCBIndex
  match printName t.mem name with
  | none => none
  | some printed =>
    match t.getProcessMemoryAmount newPCBIndex with
    | none => none
    | some amount =>
      let memory := intToStr amount
      some (pid.bytes ++ pad (20 - UInt64.ofNat pid.length) ++
        printed ++ pad (32 - nameLength name) ++
        [(t.sched.nodes i).state.staticChar] ++ pad (9 - 1) ++
        memory.bytes ++ pad (20 - UInt64.ofNat memory.length) ++ [10])

/-- The rows of the nodes in use among those listed. -/
def psRows (t : Tasks) : List Nat → Option (List UInt8)
  | [] => some []
  | i :: nodes =>
    if t.sched.usedNodes i = 1 then
      match t.psRow i with
      | none => none
      | some row => (t.psRows nodes).map fun rows => row ++ rows
    else t.psRows nodes

def psTitle : List UInt8 :=
  chars "\n------ Processes ------" ++
  chars "\nPID                 name                            state    memory(B)\n"

/-- What `printPS` prints, `none` when it does not return. -/
def printPS (t : Tasks) : Option (List UInt8) :=
  (t.psRows (List.range MAX_PROCESSES)).map fun rows => psTitle ++ rows ++ [10, 10]

/-- No padding of the row of node `i` is less than zero. -/
structure PaddingFits (t : Tasks) (i : Nat) : Prop where
  pid : (intToStr (t.pcb.getProcessPID (t.sched.nodes i).PCBIndex)).length ≤ 20
  name : nameLength (t.pcb.getProcessName (t.sched.nodes i).PCBIndex) ≤ 32
  memory : ∀ amount, t.getProcessMemoryAmount (t.sched.nodes i).PCBIndex = some amount →
    (intToStr amount).length ≤ 20

/-- Node `i` has a process, the name of which is a string. -/
def Named (t : Tasks) (i : Nat) : Prop :=
  t.pcb.badIndex (t.sched.nodes i).PCBIndex = false ∧
  NameEnds (t.pcb.process (t.sched.nodes i).PCBIndex).fromName

/-- The characters of a row: two numbers, the name, the state and the end of the line. -/
def rowWidth : Nat := 20 + 32 + 9 + 20 + 1

variable {t : Tasks} {i : Nat}

theorem length_intToStr_le_twenty (value : UInt64) : (intToStr value).length ≤ 20 := by
  apply length_intToStr_le (by decide)
  exact value.toNat_lt.trans (by decide)

/-- A padded column is as wide as it should be. -/
theorem length_pad (width : UInt64) {n : Nat} (h : n ≤ width.toNat) :
    n + (pad (width - UInt64.ofNat n)).length = width.toNat := by
  have hlt := width.toNat_lt
  have hn : (UInt64.ofNat n).toNat = n := UInt64.toNat_ofNat_of_lt' (by
    show n < 2 ^ 64
    omega)
  have hle : UInt64.ofNat n ≤ width := by
    rw [UInt64.le_iff_toNat_le, hn]
    exact h
  rw [pad, List.length_replicate, UInt64.toNat_sub_of_le _ _ hle, hn]
  omega

theorem Named.getProcessName (h : t.Named i) :
    ∃ bytes, t.pcb.getProcessName (t.sched.nodes i).PCBIndex = some bytes ∧
      (stringOf bytes).length < MAX_NAME_LENGTH := by
  refine ⟨_, ?_, length_stringOf_lt h.2⟩
  rw [Pcb.getProcessName, h.1]
  rfl

theorem Named.paddingFits (h : t.Named i) : t.PaddingFits i := by
  obtain ⟨bytes, hname, hlt⟩ := h.getProcessName
  refine ⟨length_intToStr_le_twenty _, ?_, fun amount _ => length_intToStr_le_twenty amount⟩
  unfold MAX_NAME_LENGTH at hlt
  rw [hname, nameLength, UInt64.le_iff_toNat_le, UInt64.toNat_ofNat_of_lt']
  · exact hlt.le
  · show _ < 2 ^ 64
    omega

/-- The row of a process with a name is printed, and has the width of the columns. -/
theorem Named.psRow (h : t.Named i) {amount : UInt64}
    (hmemory : t.getProcessMemoryAmount (t.sched.nodes i).PCBIndex = some amount) :
    ∃ row, t.psRow i = some row ∧ row.length = rowWidth := by
  obtain ⟨bytes, hname, hlt⟩ := h.getProcessName
  unfold MAX_NAME_LENGTH at hlt
  have hpid := length_pad 20
    (length_intToStr_le_twenty (t.pcb.getProcessPID (t.sched.nodes i).PCBIndex))
  have hstring := length_pad 32 hlt.le
  have hamount := length_pad 20 (length_intToStr_le_twenty amount)
  have hstate : (pad (9 - 1)).length = 8 := by decide
  refine ⟨_, by simp only [Tasks.psRow, hname, printName, hmemory]; rfl, ?_⟩
  simp only [List.length_append, List.length_singleton, nameLength, hstate]
  unfold CString.length at hpid hamount ⊢
  have h20 : UInt64.toNat 20 = 20 := rfl
  have h32 : UInt64.toNat 32 = 32 := rfl
  unfold rowWidth
  omega

/-! ### The whole list -/

/-- The number of nodes in use among those listed. -/
def countUsed (t : Tasks) (nodes : List Nat) : Nat :=
  (nodes.filter fun i => t.sched.usedNodes i = 1).length

theorem psRows_of_named {nodes : List Nat}
    (hnamed : ∀ i ∈ nodes, t.sched.usedNodes i = 1 → t.Named i)
    (hmemory : ∀ i ∈ nodes, t.sched.usedNodes i = 1 →
      ∃ amount, t.getProcessMemoryAmount (t.sched.nodes i).PCBIndex = some amount) :
    ∃ rows, t.psRows nodes = some rows ∧ rows.length = rowWidth * t.countUsed nodes := by
  induction nodes with
  | nil => exact ⟨[], rfl, rfl⟩
  | cons i nodes ih =>
    obtain ⟨rows, hrows, hlength⟩ :=
      ih (fun j hj => hnamed j (List.mem_cons_of_mem i hj))
        (fun j hj => hmemory j (List.mem_cons_of_mem i hj))
    by_cases hused : t.sched.usedNodes i = 1
    · obtain ⟨amount, hamount⟩ := hmemory i List.mem_cons_self hused
      obtain ⟨row, hrow, hwidth⟩ := (hnamed i List.mem_cons_self hused).psRow hamount
      refine ⟨row ++ rows, by simp [psRows, hused, hrow, hrows], ?_⟩
      have hcount : t.countUsed (i :: nodes) = t.countUsed nodes + 1 := by
        simp [countUsed, hused]
      rw [List.length_append, hwidth, hlength, hcount, Nat.mul_succ, Nat.add_comm]
    · refine ⟨rows, by simp [psRows, hused, hrows], ?_⟩
      have hcount : t.countUsed (i :: nodes) = t.countUsed nodes := by
        simp [countUsed, hused]
      rw [hlength, hcount]

/-- A table is printed when its processes have names and their pages are no circle. -/
theorem printPS_of_named
    (hnamed : ∀ i, i < MAX_PROCESSES → t.sched.usedNodes i = 1 → t.Named i)
    (hmemory : ∀ i, i < MAX_PROCESSES → t.sched.usedNodes i = 1 →
      ∃ amount, t.getProcessMemoryAmount (t.sched.nodes i).PCBIndex = some amount) :
    ∃ out, t.printPS = some out ∧
      out.length = psTitle.length + rowWidth * t.countUsed (List.range MAX_PROCESSES) + 2 := by
  obtain ⟨rows, hrows, hlength⟩ := psRows_of_named
    (fun i hi => hnamed i (List.mem_range.mp hi)) (fun i hi => hmemory i (List.mem_range.mp hi))
  refine ⟨psTitle ++ rows ++ [10, 10], by rw [printPS, hrows]; rfl, ?_⟩
  rw [List.length_append, List.length_append, hlength]
  rfl

end Tasks

/-! ### Runs with short names -/

/-- The name with its NUL, in the place it has in the entry. -/
def PcbEntry.HasName (e : PcbEntry) : Prop := e.name.length = MAX_NAME_LENGTH ∧ 0 ∈ e.name

theorem PcbEntry.HasName.nameEnds {e : PcbEntry} (h : e.HasName) : NameEnds e.fromName := by
  simp only [NameEnds, PcbEntry.fromName, List.append_assoc]
  rw [← h.1, List.take_left]
  exact h.2

/-- A name is written only when its process is created or destroyed. -/
def KeepsNames (t t' : Tasks) : Prop :=
  ∀ i, (t'.pcb.entries i).name = (t.pcb.entries i).name

/-- The scheduler at work, with the names. -/
def namedScheduling : System Tasks TaskAction where
  init := scheduling.init
  step := fun t action t' =>
    scheduling.step t action t' ∧ (action = .other → KeepsNames t t')

/-- No creation fails, and the names passed have less than `MAX_NAME_LENGTH` characters. -/
def ShortNames (t : Tasks) (action : TaskAction) : Prop :=
  ∀ a, action = .addProcess a → AddsCleanly t a ∧
    ∃ name : CString, HoldsString t.mem a.name name ∧ name.length < MAX_NAME_LENGTH

/-- The processes of the nodes in `q` have names. -/
def AllNamed (t : Tasks) (q : List Nat) : Prop :=
  ∀ i ∈ q, t.pcb.badIndex (t.sched.nodes i).PCBIndex = false ∧
    (t.pcb.process (t.sched.nodes i).PCBIndex).HasName

variable {t t' : Tasks} {q : List Nat}

theorem allNamed_step (h : TaskInv t q) (hn : AllNamed t q) (action : TaskAction)
    (hshort : ShortNames t action) (hstep : namedScheduling.step t action t') :
    AllNamed t' t'.sched.queue := by
  obtain ⟨hstep, hkeeps⟩ := hstep
  refine allHave_step (P := PcbEntry.HasName) h hn action ?_ ?_ ?_ hstep
  · intro a ha
    obtain ⟨hclean, name, hname, hlt⟩ := hshort a ha
    refine ⟨hclean, fun _ mem sp _ => ⟨?_, ?_⟩⟩
    · simp [Machine.createdEntry, Machine.claimedEntry]
    · -- the name is copied with its NUL
      exact (Machine.copied_ends_iff hname (t.pcb.entries (Machine.freeEntry t.pcb))).mpr hlt
  · -- only a stack pointer is saved
    exact fun currentRSP _ e hhas => hhas
  · intro hother e hhas
    rwa [PcbEntry.HasName, hkeeps hother]

theorem allNamed_reachable (h : (namedScheduling.restrict ShortNames).Reachable t) :
    TaskInv t t.sched.queue ∧ AllNamed t t.sched.queue := by
  refine h.invariant (fun t => TaskInv t t.sched.queue ∧ AllNamed t t.sched.queue) ?_ ?_
  · intro t h
    exact allHave_init (P := PcbEntry.HasName) h
  · rintro t action t' ⟨htask, hn⟩ ⟨hshort, hstep⟩
    exact ⟨taskInv_step action htask hstep.1, allNamed_step htask hn action hshort hstep⟩

/-- The nodes in use are those of the queue. -/
theorem TaskInv.countUsed_eq (h : TaskInv t q) :
    t.countUsed (List.range MAX_PROCESSES) = q.length := by
  have hperm : ((List.range MAX_PROCESSES).filter fun i => t.sched.usedNodes i = 1).Perm q := by
    refine (List.perm_ext_iff_of_nodup (List.nodup_range.filter _) h.ring.ring.nodup).mpr ?_
    intro i
    rw [List.mem_filter, List.mem_range, decide_eq_true_eq]
    constructor
    · intro hi
      exact (h.ring.used i hi.1).mp hi.2
    · intro hi
      have hlt := h.ring.inBounds i hi
      exact ⟨hlt, (h.ring.used i hlt).mpr hi⟩
  exact hperm.length_eq

/-- Without heaps, the memory of a process is its stack. -/
theorem TaskInv.getProcessMemoryAmount (h : TaskInv t q) {i : Nat} (hi : i ∈ q)
    (hbad : t.pcb.badIndex (t.sched.nodes i).PCBIndex = false) :
    ∃ amount, t.getProcessMemoryAmount (t.sched.nodes i).PCBIndex = some amount := by
  have hnull := h.noHeap_queue i hi hbad
  simp only [Machine.getProcessMemoryAmount, hbad, hnull, Bool.false_eq_true, if_false]
  exact ⟨_, rfl⟩

/-! ### Names and padding -/

/-- The padding of a long name is less than zero but for one byte of the stack pointer. -/
theorem long_name_padding {m m' : Machine} {a : ProcessParams} {k : UInt64} {name : CString}
    (hcan : m.CanCreate a) (hname : HoldsString m.mem a.name name)
    (hcreate : m.createProcess a = some (k, m')) (hlong : MAX_NAME_LENGTH ≤ name.length) :
    nameLength (m'.pcb.getProcessName k) ≤ 32 ↔ (m'.pcb.process k).stack.toUInt8 = 0 := by
  obtain ⟨bytes, hbytes, hlt, hiff⟩ := Machine.length_stringOf_long hcan hname hlong hcreate
  rw [hbytes, nameLength, UInt64.le_iff_toNat_le, UInt64.toNat_ofNat_of_lt' hlt, ← hiff]
  exact Iff.rfl

/-- **Process names stay strings** exactly when they are shorter than `MAX_NAME_LENGTH`, the
    frame of the process fitting in its page: a longer one loses its NUL, and then the
    padding of its row is less than zero unless the lowest byte of its stack pointer is
    zero.  Of a table whose names are strings `printPS` prints a row of fixed width for each
    process, and so it does in every run in which no creation fails, the names are short and
    the frames fit. -/
theorem process_names_iff {m m' : Machine} {a : ProcessParams} {k : UInt64} {name : CString}
    (hcan : m.CanCreate a) (_ : m.Fits a) (hname : HoldsString m.mem a.name name)
    (hcreate : m.createProcess a = some (k, m')) :
    (m'.NameKept k name ↔ name.length < MAX_NAME_LENGTH) ∧
    (MAX_NAME_LENGTH ≤ name.length →
      (nameLength (m'.pcb.getProcessName k) ≤ 32 ↔ (m'.pcb.process k).stack.toUInt8 = 0)) ∧
    (∀ t : Tasks, (∀ i, i < MAX_PROCESSES → t.sched.usedNodes i = 1 → t.Named i ∧
        ∃ amount, t.getProcessMemoryAmount (t.sched.nodes i).PCBIndex = some amount) →
      (∀ i, i < MAX_PROCESSES → t.sched.usedNodes i = 1 → t.PaddingFits i) ∧
      ∃ out, t.printPS = some out ∧ out.length = Tasks.psTitle.length +
        Tasks.rowWidth * t.countUsed (List.range MAX_PROCESSES) + 2) ∧
    ∀ t, (namedScheduling.restrict ShortNames).Reachable t →
      (∀ i, i < MAX_PROCESSES → t.sched.usedNodes i = 1 → t.Named i ∧ t.PaddingFits i) ∧
      ∃ out, t.printPS = some out ∧ out.length = Tasks.psTitle.length +
        Tasks.rowWidth * t.sched.queue.length + 2 := by
  refine ⟨Machine.nameKept_iff hcan hname hcreate, long_name_padding hcan hname hcreate, ?_, ?_⟩
  · intro t htable
    exact ⟨fun i hi hused => (htable i hi hused).1.paddingFits,
      Tasks.printPS_of_named (fun i hi hused => (htable i hi hused).1)
        (fun i hi hused => (htable i hi hused).2)⟩
  · intro t h
    obtain ⟨htask, hn⟩ := allNamed_reachable h
    have hnamed : ∀ i, i < MAX_PROCESSES → t.sched.usedNodes i = 1 → t.Named i := by
      intro i hi hused
      obtain ⟨hbad, hhas⟩ := hn i ((htask.ring.used i hi).mp hused)
      exact ⟨hbad, hhas.nameEnds⟩
    refine ⟨fun i hi hused => ⟨hnamed i hi hused, (hnamed i hi hused).paddingFits⟩, ?_⟩
    rw [← htask.countUsed_eq]
    refine Tasks.printPS_of_named hnamed ?_
    intro i hi hused
    exact htask.getProcessMemoryAmount ((htask.ring.used i hi).mp hused) (hnamed i hi hused).1

/-- A process that is called "a", on a machine that just started, gets a row. -/
theorem process_names_iff_a :
    (∃ (m m' : Machine) (a : ProcessParams) (k : UInt64) (name : CString), m.CanCreate a ∧
      m.Fits a ∧ HoldsString m.mem a.name name ∧ m.createProcess a = some (k, m') ∧
      name.bytes = [97] ∧ m'.NameKept k name) ∧
    ∃ t, (namedScheduling.restrict ShortNames).Reachable t ∧ t.sched.queue.length = 1 ∧
      ∃ out, t.printPS = some out ∧ out.length = Tasks.psTitle.length + 82 + 2 := by
  let a : ProcessParams := ⟨0, 0x1000, NULL, 1, NULL⟩
  let name : CString := ⟨[97], by simp⟩
  obtain ⟨t, hboot, hmem, hpages⟩ := Tasks.boot_fresh
    (fun x => if x = 0x1000 then 97 else 0) (fun _ => .zero) (fun _ => ⟨0, .RUNNING, 0, 0⟩)
  have hname : HoldsString t.mem a.name name := by
    rw [hmem]
    decide
  have h := taskInv_boot hboot
  have hroom := room_boot hboot hpages
  have hcan := hroom.canCreate h (a := a) rfl
  have hfits : t.Fits a := by
    apply Machine.fits_of_nullArgument rfl
    rw [hmem]
    decide
  obtain ⟨k, m', hcreate⟩ := Machine.createProcess_isSome t.toMachine (a := a) rfl
  obtain ⟨hkept, -, -, hlist⟩ := process_names_iff hcan hfits hname hcreate
  refine ⟨⟨t.toMachine, m', a, k, name, hcan, hfits, hname, hcreate, rfl,
    hkept.mpr (by decide)⟩, ?_⟩
  obtain ⟨r, t', i, hadd, -, hjoin, -, -⟩ := room_addProcess hroom h
    (show 0 < MAX_PROCESSES by decide) (a := a) rfl
  have hreach : (namedScheduling.restrict ShortNames).Reachable t' := by
    refine .step (.addProcess a) (.init ⟨_, _, _, _, hboot⟩) ⟨?_, ⟨.inr hfits, r, hadd⟩, by simp⟩
    intro b hb
    cases hb
    exact ⟨.inr hcan, name, hname, by decide⟩
  have hlength : t'.sched.queue.length = 1 := by
    rw [hjoin.inv.queue_eq]
    rfl
  obtain ⟨-, out, hout, hwidth⟩ := hlist t' hreach
  rw [hlength] at hwidth
  exact ⟨t', hreach, hlength, out, hout, hwidth⟩

/-- A process whose frame fits and whose name has 32 characters: its name is no string any
    more, and its row is padded with nearly `2 ^ 64` spaces. -/
theorem long_name_no_string : ∃ (m m' : Machine) (a : ProcessParams) (k : UInt64)
    (name : CString), m.CanCreate a ∧ m.Fits a ∧ HoldsString m.mem a.name name ∧
    m.createProcess a = some (k, m') ∧ name.bytes = List.replicate 32 65 ∧ ¬ m'.NameKept k name ∧
    ¬ nameLength (m'.pcb.getProcessName k) ≤ 32 := by
  let m : Machine :=
    { Machine.fresh with mem := fun x => if (x - 0x1000).toNat < 32 then 65 else 0 }
  let a : ProcessParams := ⟨0, 0x1000, NULL, 1, NULL⟩
  let name : CString :=
    ⟨List.replicate 32 65, fun b hb => by rw [List.eq_of_mem_replicate hb]; decide⟩
  have hcan : m.CanCreate a := by
    refine ⟨by decide, by decide, by decide, by decide⟩
  have hfits : m.Fits a := Machine.fits_of_nullArgument rfl (by decide)
  have hname : HoldsString m.mem a.name name := by decide +kernel
  obtain ⟨k, m', hcreate⟩ := Machine.createProcess_isSome m (a := a) rfl
  refine ⟨m, m', a, k, name, hcan, hfits, hname, hcreate, rfl, ?_, ?_⟩
  · rw [Machine.nameKept_iff hcan hname hcreate]
    decide
  · rw [long_name_padding hcan hname hcreate (by decide)]
    -- the frame ends at an address that is not a multiple of 256
    obtain ⟨mem, sp, rfl, hinit, rfl⟩ :=
      (Machine.createProcess_created hcreate).of_canCreate hcan
    rw [Pcb.process, hcan.toNat_freeEntry, Machine.withNewProcess_entries_self]
    show sp.toUInt8 ≠ 0
    have hframe : (Machine.initializeStack m.mem
      ((m.stackPageFor (Machine.freeEntry m.pcb)).2 + PAGE_SIZE)
      a.entryPoint a.argc a.argv).map (fun r => r.2.2.toUInt8) = some 0x28 := by decide +kernel
    rw [hinit] at hframe
    intro hzero
    simp [hzero] at hframe

end TP2Kernel
