import TP2Kernel.Framework.Multiplexing
import TP2Kernel.Process.Interrupts
import TP2Kernel.Scheduler.Housed
import TP2Kernel.Scheduler.Recycling

/-! # Sharing the processor (`Kernel/asm/interrupts.asm`)

    The kernel from `startScheduler` on, with the registers and the stacks.  Between
    interrupts the process in front executes what it wants; there is no memory protection,
    so it is assumed to leave the stacks of the others and the headers of the heaps alone.

    Each process has the processor to itself: the system simulates `Multiplexing.system`
    with the registers as contexts.
-/

namespace TP2Kernel

open Transition Scheduler PageStack

/-- The scheduler, what it schedules, and the registers. -/
structure Computer extends Tasks where
  cpu : Cpu

namespace Computer

/-- Whose instructions are executed: those of the process in front.  Before its first turn,
    and when nobody is left, they are the kernel's. -/
def executing (c : Computer) : Option Nat :=
  if c.sched.firstIteration then none else c.sched.queue.head?

/-- The registers of the process of node `i`: those of the processor while it executes,
    else what the end of an interrupt would load from its stack. -/
def registers (c : Computer) (i : Nat) : Cpu :=
  if c.executing = some i then c.cpu else Cpu.zero.switchTo c.mem (c.stack i)

/-- A byte that the process that executes leaves alone. -/
def Foreign (c : Computer) (x : Addr) : Prop :=
  Housed.Header c.toMachine x ∨
    ∃ i ∈ c.sched.queue, c.executing ≠ some i ∧ Write.InPage (c.stackPage i) x

/-- The stack pointer lies in the stack page of the process that executes, and a saved state
    fits below it.  The stack of the kernel lies below the pool of pages. -/
def StackRoom (c : Computer) : Prop :=
  match c.executing with
  | some i => (c.stackPage i).toNat + 192 ≤ c.cpu.rsp.toNat ∧
      c.cpu.rsp.toNat ≤ (c.stackPage i).toNat + PAGE_SIZE.toNat
  | none => 192 ≤ c.cpu.rsp.toNat ∧ c.cpu.rsp.toNat ≤ 0x10000000

/-- The state in which the handler of an interrupt is called. -/
def interrupted (c : Computer) : Tasks :=
  { c.toTasks with mem := (Cpu.saved c.mem c.cpu).1 }

/-- The stack pointer with which the handler is called. -/
def savedRSP (c : Computer) : Addr := (Cpu.saved c.mem c.cpu).2

end Computer

inductive ComputerAction where
  /-- The process of node `i` executes. -/
  | execute (i : Nat) (cpu : Cpu) (mem : Memory)
  /-- The kernel executes before the first turn, or when nobody is left. -/
  | idle (cpu : Cpu) (mem : Memory)
  | addProcess (a : ProcessParams)
  | finishProcess (i : Nat)
  | malloc (PCBIndex : UInt64) (size : Int64)
  /-- Marks for sleeping, names and open files change. -/
  | other
  /-- Another client of the page allocator pops a page. -/
  | pop
  /-- Another client pushes a page. -/
  | push (page : Addr)
  /-- `int21Receiver`: the handler leaves memory `mem`. -/
  | keyboard (mem : Memory)
  /-- `int20Receiver` and `int81Receiver`: the handler runs on the stack of the kernel and
      leaves memory `mem`. -/
  | nextProcess (mem : Memory)

/-- The kernel and its processes. -/
def computer : System Computer ComputerAction where
  init := fun c => ∃ o mem entries nodes, pageOwnership.Reachable o ∧
    Tasks.boot mem o.stack entries nodes = some c.toTasks
  step := fun c action c' =>
    match action with
    | .execute i cpu mem => c.executing = some i ∧ (∀ x, c.Foreign x → mem x = c.mem x) ∧
        c' = { c with mem := mem, cpu := cpu }
    | .idle cpu mem => c.executing = none ∧ (∀ x, c.Foreign x → mem x = c.mem x) ∧
        c' = { c with mem := mem, cpu := cpu }
    | .addProcess a => (c.sched.firstIteration = true ∨ c.sched.queue ≠ []) ∧
        AddsCleanly c.toTasks a ∧ c.Fits a ∧
        (∀ k < Machine.loopCount a.argc, ∀ x, Machine.SlotByte a.argv k x → ¬ c.Foreign x) ∧
        ∃ r t', c.toTasks.addProcess a = some (r, t') ∧ c' = { c with toTasks := t' }
    | .finishProcess i => c.executing = some i ∧
        c' = { c with toTasks := c.toTasks.finishProcess.2 }
    | .malloc PCBIndex size => PCBIndex < c.pcb.maxProcesses ∧
        ∃ p m', c.malloc PCBIndex size = some (p, m') ∧ c' = { c with toMachine := m' }
    | .other => Elsewhere c.toTasks c'.toTasks ∧ c'.mem = c.mem ∧ c'.pages = c.pages ∧
        (∀ i, (c'.pcb.entries i).stackPage = (c.pcb.entries i).stackPage) ∧ c'.cpu = c.cpu
    | .pop => c' = { c with pages := (c.pages.pageManager .POP_PAGE NULL).1 }
    | .push page => page ∈ initialPages ∧ page ∉ c.pages.free ∧
        (∀ i < c.pcb.maxProcesses.toNat, (c.pcb.entries i).occupied ≠ 0 →
          page ≠ (c.pcb.entries i).stackPage) ∧
        (∀ i pages, i < c.pcb.maxProcesses.toNat → c.HeapChain i pages → page ∉ pages) ∧
        c' = { c with pages := (c.pages.pageManager .PUSH_PAGE page).1 }
    | .keyboard mem => c.StackRoom ∧
        (∀ x, c.Foreign x ∨ c.savedRSP.toNat ≤ x.toNat ∧ x.toNat < c.cpu.rsp.toNat →
          mem x = c.interrupted.mem x) ∧
        c' = { c with mem := mem, cpu := c.cpu.switchTo mem c.savedRSP }
    | .nextProcess mem => c.StackRoom ∧ ∃ rsp t',
        c.interrupted.nextProcess c.savedRSP = some (rsp, t') ∧
        (∀ x : Addr, 0x10000000 ≤ x.toNat → mem x = t'.mem x) ∧
        c' = { toTasks := { t' with mem := mem }, cpu := c.cpu.switchTo mem rsp }

/-- At least one page is free. -/
def PageLeft (c : Computer) (_ : ComputerAction) : Prop := c.pages.free ≠ []

/-! ### The invariant -/

/-- A saved state lies in the stack page of node `i`, where its stack pointer points. -/
def Tasks.SavedInPage (t : Tasks) (i : Nat) : Prop :=
  (t.stackPage i).toNat ≤ (t.stack i).toNat ∧
  (t.stack i).toNat + 176 ≤ (t.stackPage i).toNat + PAGE_SIZE.toNat

/-- The processes of the queue `q` have their pages, and those that wait a saved state. -/
structure Sharing (c : Computer) (q : List Nat) : Prop where
  housed : Housed c.toTasks q
  saved : ∀ i ∈ q, c.executing ≠ some i → c.SavedInPage i

namespace Sharing

variable {c c' : Computer} {q q' : List Nat} {f i : Nat}

theorem executing_eq (h : Sharing c q) :
    c.executing = if c.sched.firstIteration then none else q.head? := by
  rw [Computer.executing, h.housed.queue_eq]

/-- The bytes of a saved state are those of a page. -/
theorem savedByte (h : Housed c.toTasks q) (hi : i ∈ q) (hsaved : c.SavedInPage i) {x : Addr}
    (hlo : (c.stack i).toNat ≤ x.toNat) (hhi : x.toNat < (c.stack i).toNat + 176) :
    Write.InPage (c.stackPage i) x := by
  have hbounds := initialPages_bounds (h.stackPage_pool hi)
  have hsize : PAGE_SIZE.toNat = 0x2000 := rfl
  have hsaved := hsaved
  unfold Tasks.SavedInPage at hsaved
  rw [Write.InPage, addr_sub_toNat_lt_iff (by omega)]
  omega

/-- The end of an interrupt loads from a stack what it would have loaded before, when the
    page of the stack is the same. -/
theorem switchTo_eq (h : Housed c.toTasks q) (hi : i ∈ q) (hsaved : c.SavedInPage i)
    {mem : Memory} (hsame : ∀ x, Write.InPage (c.stackPage i) x → mem x = c.mem x)
    (cpu : Cpu) : cpu.switchTo mem (c.stack i) = Cpu.zero.switchTo c.mem (c.stack i) := by
  have hbounds := initialPages_bounds (h.stackPage_pool hi)
  have hsize : PAGE_SIZE.toNat = 0x2000 := rfl
  have hinPage := hsaved
  unfold Tasks.SavedInPage at hinPage
  apply Cpu.switchTo_congr
  · omega
  · intro x hlo hhi
    exact hsame x (savedByte h hi hsaved hlo hhi)

theorem registers_waiting (hne : c.executing ≠ some i) :
    c.registers i = Cpu.zero.switchTo c.mem (c.stack i) := if_neg hne

theorem registers_executing (hexec : c.executing = some i) : c.registers i = c.cpu :=
  if_pos hexec

/-- Nobody gets the turn, and the stacks of those who wait stay. -/
theorem advance (h : Sharing c q) (hhoused : Housed c'.toTasks q)
    (hexec : c'.executing = c.executing)
    (hstack : ∀ i ∈ q, c'.stackPage i = c.stackPage i ∧ c'.stack i = c.stack i)
    (hmem : ∀ i ∈ q, c.executing ≠ some i → ∀ x, Write.InPage (c.stackPage i) x →
      c'.mem x = c.mem x) :
    Sharing c' q ∧ ∀ i ∈ q, c.executing ≠ some i → c'.registers i = c.registers i := by
  constructor
  · refine ⟨hhoused, ?_⟩
    intro i hi hne
    rw [hexec] at hne
    rw [Tasks.SavedInPage, (hstack i hi).1, (hstack i hi).2]
    exact h.saved i hi hne
  · intro i hi hne
    rw [registers_waiting hne, registers_waiting (hexec ▸ hne), (hstack i hi).2]
    exact switchTo_eq h.housed hi (h.saved i hi hne) (hmem i hi hne) _

theorem foreign_header (h : Sharing c q) {mem : Memory}
    (hkeep : ∀ x, c.Foreign x → mem x = c.mem x) :
    Housed { c.toTasks with mem := mem } q ∧ ∀ i ∈ q, c.executing ≠ some i →
      ∀ x, Write.InPage (c.stackPage i) x → mem x = c.mem x := by
  refine ⟨h.housed.write fun x hx => hkeep x (.inl hx), ?_⟩
  intro i hi hne x hx
  exact hkeep x (.inr ⟨i, h.housed.queue_eq.symm ▸ hi, hne, hx⟩)

/-- A byte that belongs to somebody else lies in a page of the pool. -/
theorem foreign_pool (h : Sharing c q) {x : Addr} (hx : c.Foreign x) : 0x10000000 ≤ x.toNat := by
  have hsize : PAGE_SIZE.toNat = 0x2000 := rfl
  rcases hx with ⟨k, pages, hk, hchain, page, hpage, hin⟩ | ⟨i, hi, -, hin⟩
  · obtain ⟨held, blocks, chain, hheaps⟩ := h.housed.heaps
    have hlt : k < pcbEntries := by
      rw [← hheaps.toNat_maxProcesses]
      exact hk
    obtain rfl : pages = chain k := LinkedChain.Chain.unique hchain (hheaps.linked k hlt)
    have hbounds := initialPages_bounds (hheaps.pool hlt hpage)
    rw [InHeader, addr_sub_toNat_lt_iff (by omega)] at hin
    omega
  · rw [h.housed.queue_eq] at hi
    have hbounds := initialPages_bounds (h.housed.stackPage_pool hi)
    rw [Write.InPage, addr_sub_toNat_lt_iff (by omega)] at hin
    omega

/-- What the interrupt pushes lies in the stack page of the process that executes, or below
    the pool. -/
theorem interrupted_mem (h : Sharing c q) (hroom : c.StackRoom) {x : Addr} (hx : c.Foreign x) :
    c.interrupted.mem x = c.mem x := by
  have hsize : PAGE_SIZE.toNat = 0x2000 := rfl
  unfold Computer.StackRoom at hroom
  cases hexec : c.executing with
  | none =>
    rw [hexec] at hroom
    obtain ⟨hlo, hhi⟩ := hroom
    have haligned := Cpu.aligned_toNat c.cpu.rsp
    have hpool := h.foreign_pool hx
    have habove : (Cpu.aligned c.cpu.rsp).toNat ≤ x.toNat := by omega
    exact (Cpu.saved_pushed c.mem c.cpu hlo).frame x (.inr habove)
  | some f =>
    rw [hexec] at hroom
    obtain ⟨hlo, hhi⟩ := hroom
    have hf : f ∈ q := by
      have heq := h.executing_eq
      rw [hexec] at heq
      split at heq
      · cases heq
      · exact List.mem_of_mem_head? heq.symm
    have hbounds := initialPages_bounds (h.housed.stackPage_pool hf)
    obtain ⟨hsaved, -⟩ := Cpu.saved_bounds c.mem c.cpu (by omega)
    have haligned := Cpu.aligned_toNat c.cpu.rsp
    -- the byte does not lie in the page of the process that executes
    have hnot : ¬ Write.InPage (c.stackPage f) x := by
      rcases hx with hheader | ⟨i, hi, hne, hin⟩
      · exact h.housed.header_notStack hf hheader
      · rw [h.housed.queue_eq] at hi
        have hif : i ≠ f := by
          rintro rfl
          exact hne hexec
        have hapart := initialPages_apart (h.housed.stackPage_pool hi) (h.housed.stackPage_pool hf)
          (h.housed.stackPage_ne hi hf hif)
        have hbounds' := initialPages_bounds (h.housed.stackPage_pool hi)
        rw [Write.InPage, addr_sub_toNat_lt_iff (by omega)] at hin ⊢
        omega
    rw [Write.InPage, addr_sub_toNat_lt_iff (by omega)] at hnot
    have hout : x.toNat < (Cpu.saved c.mem c.cpu).2.toNat ∨
        (Cpu.aligned c.cpu.rsp).toNat ≤ x.toNat := by
      omega
    exact (Cpu.saved_pushed c.mem c.cpu (by omega)).frame x hout

/-! ### Turns -/

theorem nextQueue_cons (s : Scheduler) (f : Nat) (q : List Nat) :
    nextQueue s (f :: q) = (q ++ [f]).dropWhile s.isFinished := by
  simp [nextQueue]

/-- After a turn each process that is left has the registers that it had. -/
theorem nextProcess (h : Sharing c (f :: q)) (hfree : c.pages.free ≠ []) (hroom : c.StackRoom)
    {rsp : Addr} {t' : Tasks} (hnext : c.interrupted.nextProcess c.savedRSP = some (rsp, t'))
    {mem : Memory} (hmem : ∀ x : Addr, 0x10000000 ≤ x.toNat → mem x = t'.mem x)
    (hc' : c' = { toTasks := { t' with mem := mem }, cpu := c.cpu.switchTo mem rsp }) :
    Sharing c' (nextQueue c.sched (f :: q)) ∧
    (∀ i, c'.sched.isFinished i = c.sched.isFinished i) ∧
    ∀ i ∈ nextQueue c.sched (f :: q), c'.registers i = c.registers i := by
  have hsize : PAGE_SIZE.toNat = 0x2000 := rfl
  obtain ⟨hinterrupted, hforeign⟩ := h.foreign_header fun x hx => h.interrupted_mem hroom hx
  have hinterrupted : Housed c.interrupted (f :: q) := hinterrupted
  obtain ⟨t₁, hnext₁, hleft⟩ := hinterrupted.nextProcess hfree c.savedRSP
  obtain ⟨rfl, rfl⟩ := Prod.mk.inj (Option.some.inj (hnext₁.symm.trans hnext))
  have hqueue : (q ++ [f]).dropWhile c.interrupted.sched.isFinished =
      nextQueue c.sched (f :: q) := (nextQueue_cons c.sched f q).symm
  rw [hqueue] at hleft hc'
  generalize hq' : nextQueue c.sched (f :: q) = q' at hleft hc' ⊢
  have hsub : ∀ i ∈ q', i ∈ f :: q := by
    intro i hi
    exact mem_nextQueue (hq' ▸ hi)
  have hexec : c.executing = if c.sched.firstIteration then none else some f := h.executing_eq
  -- the stacks: only that of the process that executed has another stack pointer
  have hstackPage : ∀ i ∈ q', t₁.stackPage i = c.stackPage i := by
    intro i hi
    rw [hleft.stackPage hi, Housed.rotate_stackPage]
    rfl
  have hstack : ∀ i ∈ q', t₁.stack i =
      if c.executing = some i then c.savedRSP else c.stack i := by
    intro i hi
    rw [hleft.stack hi, hinterrupted.rotate_stack _ (hsub i hi), hexec]
    have hsame : c.interrupted.sched.firstIteration = c.sched.firstIteration := rfl
    have hstack' : c.interrupted.stack i = c.stack i := rfl
    rw [hsame, hstack']
    cases c.sched.firstIteration with
    | true => simp
    | false => simp [eq_comm]
  -- the pages of the pool are as the interrupt left them
  have hmem' : ∀ x : Addr, 0x10000000 ≤ x.toNat → mem x = c.interrupted.mem x := by
    intro x hx
    rw [hmem x hx, hleft.mem, Tasks.rotate_mem]
  have hbounds : ∀ i ∈ q', 0x10000000 ≤ (c.stackPage i).toNat ∧
      (c.stackPage i).toNat + 0x2000 ≤ 0x20000000 := by
    intro i hi
    exact initialPages_bounds (h.housed.stackPage_pool (hsub i hi))
  have hpage : ∀ i ∈ q', c.executing ≠ some i → ∀ x, Write.InPage (c.stackPage i) x →
      mem x = c.mem x := by
    intro i hi hne x hx
    have hb := hbounds i hi
    have hin := hx
    rw [Write.InPage, addr_sub_toNat_lt_iff (by omega)] at hin
    rw [hmem' x (by omega)]
    exact hforeign i (hsub i hi) hne x hx
  have hroomOf : ∀ i, c.executing = some i → (c.stackPage i).toNat + 192 ≤ c.cpu.rsp.toNat ∧
      c.cpu.rsp.toNat ≤ (c.stackPage i).toNat + PAGE_SIZE.toNat := by
    intro i hi
    unfold Computer.StackRoom at hroom
    rwa [hi] at hroom
  -- what a switch to the stack of a process would load
  have hload : ∀ i ∈ q', ∀ cpu : Cpu, cpu.switchTo mem (t₁.stack i) = c.registers i := by
    intro i hi cpu
    rw [hstack i hi]
    by_cases hrun : c.executing = some i
    · obtain ⟨hlo, hhi⟩ := hroomOf i hrun
      have hb := hbounds i hi
      obtain ⟨hsaved, -⟩ := Cpu.saved_bounds c.mem c.cpu (by omega)
      rw [if_pos hrun, registers_executing hrun]
      apply Cpu.switchTo_saved
      · omega
      · intro x hxlo hxhi
        apply hmem'
        omega
    · rw [if_neg hrun, registers_waiting hrun]
      exact switchTo_eq h.housed (hsub i hi) (h.saved i (hsub i hi) hrun) (hpage i hi hrun) cpu
  subst hc'
  have hhoused : Housed { t₁ with mem := mem } q' := by
    apply hleft.housed.write
    intro x hx
    apply hmem
    obtain ⟨k, pages, hk, hchain, page, hpage, hin⟩ := hx
    obtain ⟨held, blocks, chain, hheaps⟩ := hleft.housed.heaps
    have hlt : k < pcbEntries := by
      rw [← hheaps.toNat_maxProcesses]
      exact hk
    obtain rfl : pages = chain k := LinkedChain.Chain.unique hchain (hheaps.linked k hlt)
    have hb := initialPages_bounds (hheaps.pool hlt hpage)
    rw [InHeader, addr_sub_toNat_lt_iff (by omega)] at hin
    omega
  refine ⟨⟨hhoused, ?_⟩, ?_, ?_⟩
  · intro i hi hne
    show (t₁.stackPage i).toNat ≤ (t₁.stack i).toNat ∧
      (t₁.stack i).toNat + 176 ≤ (t₁.stackPage i).toNat + PAGE_SIZE.toNat
    rw [hstackPage i hi, hstack i hi]
    by_cases hrun : c.executing = some i
    · obtain ⟨hlo, hhi⟩ := hroomOf i hrun
      obtain ⟨hsaved, hbelow⟩ := Cpu.saved_bounds c.mem c.cpu (by omega)
      rw [if_pos hrun]
      show (c.stackPage i).toNat ≤ (Cpu.saved c.mem c.cpu).2.toNat ∧
        (Cpu.saved c.mem c.cpu).2.toNat + 176 ≤ _
      omega
    · rw [if_neg hrun]
      exact h.saved i (hsub i hi) hrun
  · intro i
    show t₁.sched.isFinished i = _
    rw [hleft.isFinished, Tasks.rotate_isFinished]
    rfl
  · intro i hi
    rw [Computer.registers]
    split
    next hrun =>
      -- the process in front: its stack pointer was returned
      have hhead : q'.head? = some i := by
        rw [Computer.executing, hhoused.queue_eq] at hrun
        split at hrun
        · cases hrun
        · exact hrun
      cases q' with
      | nil => exact absurd hi List.not_mem_nil
      | cons g r =>
        obtain rfl : g = i := by simpa using hhead
        show c.cpu.switchTo mem (t₁.answer (g :: r)) = _
        rw [hleft.housed.answer]
        exact hload g hi _
    next => exact hload i hi _

end Sharing

/-! ### The simulation -/

/-- The processes that have not finished share the processor. -/
def Computer.processor (c : Computer) : Multiplexing.Processor Nat Cpu where
  present i := i ∈ c.sched.queue ∧ c.sched.isFinished i = false
  turn := c.executing
  context := c.registers

/-- What a step is to the processor. -/
def ComputerAction.use : ComputerAction → Multiplexing.Use Nat Cpu
  | .execute i cpu _ => .run i cpu
  | .addProcess _ => .join
  | .finishProcess i => .leave i
  | _ => .pass

/-- Before the first step the queue is empty. -/
theorem sharing_init {c : Computer} (h : computer.init c) : Sharing c [] := by
  obtain ⟨o, mem, entries, nodes, ho, hboot⟩ := h
  have htask := taskInv_boot hboot
  refine ⟨⟨htask.running, htask.ring, ?_, by simp, by simp⟩, by simp⟩
  -- two pages were popped, that of the PCB and that of the nodes
  unfold Tasks.boot at hboot
  split at hboot
  next code m hpcb =>
  split at hboot
  · cases hboot
  next hcode =>
  obtain rfl : code = 0 := by simpa using hcode
  have hheaps : HeapsInv ⟨m, fun _ => [], []⟩ fun _ => [] :=
    heapsInv_init ⟨o, mem, entries, ho, hpcb, fun _ => rfl, rfl⟩
  split at hboot
  next code t hsched =>
  split at hboot
  · cases hboot
  next hcode =>
  obtain rfl : code = 0 := by simpa using hcode
  rw [← Option.some.inj hboot]
  refine ⟨fun _ => [], [], fun _ => [], ?_⟩
  have hmachine : t.toMachine = { m with pages := (m.pages.pageManager .POP_PAGE NULL).1 } := by
    unfold Tasks.initializeScheduler at hsched
    split at hsched
    next pages page hpop =>
    split at hsched
    · cases hsched
    next =>
    obtain rfl := (Prod.mk.inj hsched).2
    have hpages : pages = (m.pages.pageManager .POP_PAGE NULL).1 := by
      have hfst := congrArg Prod.fst hpop
      exact hfst.symm
    rw [hpages]
  show HeapsInv ⟨t.toMachine, _, _⟩ _
  rw [hmachine]
  exact hheaps.pop

namespace Sharing

open Multiplexing

variable {c c' : Computer} {q : List Nat} {i : Nat}

/-- Nobody gets the turn and the registers of the processor stay: nobody notices. -/
theorem pass (h : Sharing c q) (hhoused : Housed c'.toTasks q)
    (hexec : c'.executing = c.executing) (hcpu : c'.cpu = c.cpu)
    (hfinished : ∀ i ∈ q, c'.sched.isFinished i = c.sched.isFinished i)
    (hstack : ∀ i ∈ q, c'.stackPage i = c.stackPage i ∧ c'.stack i = c.stack i)
    (hmem : ∀ i ∈ q, c.executing ≠ some i → ∀ x, Write.InPage (c.stackPage i) x →
      c'.mem x = c.mem x) :
    Sharing c' q ∧ (system Nat Cpu).step c.processor .pass c'.processor := by
  obtain ⟨hsharing, hwaiting⟩ := h.advance hhoused hexec hstack hmem
  refine ⟨hsharing, ?_, ?_⟩
  · intro p
    show p ∈ c'.sched.queue ∧ _ ↔ p ∈ c.sched.queue ∧ _
    rw [hhoused.queue_eq, h.housed.queue_eq]
    constructor
    · rintro ⟨hp, hfin⟩
      exact ⟨hp, hfinished p hp ▸ hfin⟩
    · rintro ⟨hp, hfin⟩
      exact ⟨hp, (hfinished p hp).trans hfin⟩
  · intro p hp _
    have hp' : p ∈ q := h.housed.queue_eq ▸ hp.1
    show c'.registers p = c.registers p
    by_cases hrun : c.executing = some p
    · rw [registers_executing hrun, registers_executing (hexec.trans hrun), hcpu]
    · exact hwaiting p hp' hrun

theorem execute (h : Sharing c q) {cpu : Cpu} {mem : Memory} (hexec : c.executing = some i)
    (hkeep : ∀ x, c.Foreign x → mem x = c.mem x)
    (hc' : c' = { c with mem := mem, cpu := cpu }) :
    Sharing c' q ∧ (system Nat Cpu).step c.processor (.run i cpu) c'.processor := by
  obtain ⟨hhoused, hmem⟩ := h.foreign_header hkeep
  subst hc'
  obtain ⟨hsharing, hwaiting⟩ := @advance c { c with mem := mem, cpu := cpu } q h hhoused rfl
    (fun _ _ => ⟨rfl, rfl⟩) hmem
  refine ⟨hsharing, hexec, hexec, registers_executing hexec, fun _ => Iff.rfl, ?_⟩
  intro p hp hpi
  apply hwaiting p (h.housed.queue_eq ▸ hp.1)
  rw [hexec]
  exact fun heq => hpi (Option.some.inj heq).symm

/-- Whoever executes is in front. -/
theorem front_of_executing (h : Sharing c q) (hexec : c.executing = some i) :
    ∃ r, q = i :: r := by
  have heq := h.executing_eq
  rw [hexec] at heq
  split at heq
  · cases heq
  · cases q with
    | nil => cases heq
    | cons f r =>
      obtain rfl : i = f := by simpa using heq
      exact ⟨r, rfl⟩

theorem finish (h : Sharing c q) (hexec : c.executing = some i)
    (hc' : c' = { c with toTasks := c.toTasks.finishProcess.2 }) :
    Sharing c' q ∧ (system Nat Cpu).step c.processor (.leave i) c'.processor := by
  obtain ⟨r, rfl⟩ := h.front_of_executing hexec
  obtain ⟨hhoused, hfirst, hkept⟩ := h.housed.finishProcess
  have hexec' : c'.executing = c.executing := by
    rw [hc', Computer.executing, Computer.executing, hhoused.queue_eq, h.housed.queue_eq, hfirst]
  have hmem : c'.mem = c.mem := by
    rw [hc']
    rfl
  obtain ⟨hsharing, hwaiting⟩ := h.advance (hc' ▸ hhoused) hexec'
    (fun p _ => hc' ▸ (hkept p).2) (fun p _ _ x _ => congrFun hmem x)
  refine ⟨hsharing, hexec', ?_, ?_⟩
  · intro p
    show p ∈ c'.sched.queue ∧ c'.sched.isFinished p = false ↔
      (p ∈ c.sched.queue ∧ c.sched.isFinished p = false) ∧ p ≠ i
    rw [hsharing.housed.queue_eq, h.housed.queue_eq, hc']
    show _ ∧ c.toTasks.finishProcess.2.sched.isFinished p = false ↔ _
    rw [(hkept p).1, Bool.or_eq_false_iff, decide_eq_false_iff_not, and_assoc]
  · intro p hp hpi
    apply hwaiting p (h.housed.queue_eq ▸ hp.1)
    rw [hexec]
    exact fun heq => hpi (Option.some.inj heq).symm

theorem join (h : Sharing c q) {a : ProcessParams} {r : Int} {t' : Tasks}
    (hturn : c.sched.firstIteration = true ∨ q ≠ []) (hfree : c.pages.free ≠ [])
    (hclean : AddsCleanly c.toTasks a) (hfits : c.Fits a)
    (hslots : ∀ k < Machine.loopCount a.argc, ∀ x, Machine.SlotByte a.argv k x → ¬ c.Foreign x)
    (hadd : c.toTasks.addProcess a = some (r, t')) (hc' : c' = { c with toTasks := t' }) :
    (∃ q', Sharing c' q') ∧ (system Nat Cpu).step c.processor .join c'.processor := by
  rcases h.housed.addProcess hclean hfree hfits
    (fun k hk x hx hheader => hslots k hk x hx (.inl hheader)) hadd with rfl | ⟨i, hadmitted⟩
  · obtain rfl : c' = c := hc'
    exact ⟨⟨q, h⟩, rfl, ⟨fun _ => False, fun _ hp => hp.elim, fun _ => by simp⟩, fun _ _ _ => rfl⟩
  · have hexec : c'.executing = c.executing := by
      rw [hc', Computer.executing, Computer.executing, h.housed.queue_eq]
      show (if t'.sched.firstIteration then none else t'.sched.queue.head?) = _
      rw [hadmitted.housed.queue_eq, hadmitted.firstIteration]
      rcases hturn with hfirst | hne
      · rw [if_pos hfirst, if_pos hfirst]
      · obtain ⟨f, q, rfl⟩ := List.exists_cons_of_ne_nil hne
        rfl
    -- what the creation writes is not foreign
    have hmem : ∀ j ∈ q, c.executing ≠ some j → ∀ x, Write.InPage (c.stackPage j) x →
        t'.mem x = c.mem x := by
      intro j hj hne x hx
      apply hadmitted.mem
      · intro k hk hslot
        exact hslots k hk x hslot (.inr ⟨j, h.housed.queue_eq.symm ▸ hj, hne, hx⟩)
      · intro hnew
        have hj' : j ∈ q ++ [i] := List.mem_append_left _ hj
        have hi' : i ∈ q ++ [i] := List.mem_append_right _ List.mem_cons_self
        have hji : j ≠ i := by
          rintro rfl
          exact hadmitted.new hj
        have hpj := hadmitted.housed.stackPage_pool hj'
        have hpi := hadmitted.housed.stackPage_pool hi'
        have hapart := initialPages_apart hpj hpi (hadmitted.housed.stackPage_ne hj' hi' hji)
        have hbj := initialPages_bounds hpj
        have hbi := initialPages_bounds hpi
        have hsize : PAGE_SIZE.toNat = 0x2000 := rfl
        rw [← (hadmitted.kept j hj).2.1] at hx
        rw [Write.InPage, addr_sub_toNat_lt_iff (by omega)] at hx hnew
        omega
    subst hc'
    have hwaiting : ∀ j ∈ q, c.executing ≠ some j →
        Computer.registers { c with toTasks := t' } j = c.registers j := by
      intro j hj hne
      rw [registers_waiting hne, registers_waiting (hexec ▸ hne)]
      show Cpu.zero.switchTo t'.mem (t'.stack j) = _
      rw [(hadmitted.kept j hj).2.2]
      exact switchTo_eq h.housed hj (h.saved j hj hne) (hmem j hj hne) _
    refine ⟨⟨q ++ [i], hadmitted.housed, ?_⟩, hexec, ⟨(· = i), ?_, ?_⟩, ?_⟩
    · intro j hj hne
      rw [hexec] at hne
      rcases List.mem_append.mp hj with hj | hj
      · have hkept := hadmitted.kept j hj
        show t'.SavedInPage j
        rw [Tasks.SavedInPage, hkept.2.1, hkept.2.2]
        exact h.saved j hj hne
      · obtain rfl : j = i := List.mem_singleton.mp hj
        obtain ⟨hlow, hhigh⟩ := hadmitted.frame
        refine ⟨hlow, ?_⟩
        show (t'.stack j).toNat + 176 ≤ (t'.stackPage j).toNat + _
        omega
    · rintro p rfl hp
      exact hadmitted.new (h.housed.queue_eq ▸ hp.1)
    · intro p
      show p ∈ t'.sched.queue ∧ t'.sched.isFinished p = false ↔
        (p ∈ c.sched.queue ∧ c.sched.isFinished p = false) ∨ p = i
      rw [hadmitted.housed.queue_eq, h.housed.queue_eq, List.mem_append, List.mem_singleton]
      constructor
      · rintro ⟨hp | hp, hfin⟩
        · rw [(hadmitted.kept p hp).1] at hfin
          exact .inl ⟨hp, hfin⟩
        · exact .inr hp
      · rintro (⟨hp, hfin⟩ | rfl)
        · exact ⟨.inl hp, (hadmitted.kept p hp).1.trans hfin⟩
        · exact ⟨.inr rfl, hadmitted.isFinished⟩
    · intro p hp _
      have hp' : p ∈ q := h.housed.queue_eq ▸ hp.1
      show Computer.registers { c with toTasks := t' } p = c.registers p
      by_cases hrun : c.executing = some p
      · rw [registers_executing hrun, registers_executing (hexec.trans hrun)]
      · exact hwaiting p hp' hrun

/-- A keyboard interrupt is not noticed. -/
theorem keyboard (h : Sharing c q) (hroom : c.StackRoom) {mem : Memory}
    (hkeep : ∀ x, c.Foreign x ∨ c.savedRSP.toNat ≤ x.toNat ∧ x.toNat < c.cpu.rsp.toNat →
      mem x = c.interrupted.mem x)
    (hc' : c' = { c with mem := mem, cpu := c.cpu.switchTo mem c.savedRSP }) :
    Sharing c' q ∧ (system Nat Cpu).step c.processor .pass c'.processor := by
  have hspace : 192 ≤ c.cpu.rsp.toNat := by
    unfold Computer.StackRoom at hroom
    cases hexec : c.executing with
    | none =>
      rw [hexec] at hroom
      exact hroom.1
    | some i =>
      rw [hexec] at hroom
      have hlow := hroom.1
      omega
  have hcpu : c.cpu.switchTo mem c.savedRSP = c.cpu :=
    Cpu.switchTo_saved hspace (fun x hlo hhi => hkeep x (.inr ⟨hlo, hhi⟩)) c.cpu
  obtain ⟨hhoused, hmem⟩ := h.foreign_header fun x hx =>
    (hkeep x (.inl hx)).trans (h.interrupted_mem hroom hx)
  rw [hcpu] at hc'
  subst hc'
  exact @pass c { c with mem := mem } q h hhoused rfl rfl (fun _ _ => rfl)
    (fun _ _ => ⟨rfl, rfl⟩) hmem

/-- A turn: the processes that are left have the registers that they had. -/
theorem turn (h : Sharing c q) (hfree : c.pages.free ≠ []) (hroom : c.StackRoom) {rsp : Addr}
    {t' : Tasks} (hnext : c.interrupted.nextProcess c.savedRSP = some (rsp, t')) {mem : Memory}
    (hmem : ∀ x : Addr, 0x10000000 ≤ x.toNat → mem x = t'.mem x)
    (hc' : c' = { toTasks := { t' with mem := mem }, cpu := c.cpu.switchTo mem rsp }) :
    (∃ q', Sharing c' q') ∧ (system Nat Cpu).step c.processor .pass c'.processor := by
  cases q with
  | nil =>
    have hinterrupted : RingInv c.interrupted.sched [] := h.housed.ring
    rw [Tasks.nextProcess_empty hinterrupted] at hnext
    obtain ⟨-, rfl⟩ := Prod.mk.inj (Option.some.inj hnext)
    have hhoused : Housed c'.toTasks [] := by
      rw [hc']
      apply h.housed.write
      intro x hx
      rw [hmem x (h.foreign_pool (.inl hx))]
      exact h.interrupted_mem hroom (.inl hx)
    refine ⟨⟨[], hhoused, by simp⟩, ?_, ?_⟩
    · intro p
      show p ∈ c'.sched.queue ∧ _ ↔ p ∈ c.sched.queue ∧ _
      rw [hhoused.queue_eq, h.housed.queue_eq]
      simp
    · intro p hp
      have hp' : p ∈ [] := h.housed.queue_eq ▸ hp.1
      exact absurd hp' List.not_mem_nil
  | cons f r =>
    obtain ⟨hsharing, hfinished, hregisters⟩ := h.nextProcess hfree hroom hnext hmem hc'
    refine ⟨⟨_, hsharing⟩, ?_, ?_⟩
    · intro p
      show p ∈ c'.sched.queue ∧ c'.sched.isFinished p = false ↔
        p ∈ c.sched.queue ∧ c.sched.isFinished p = false
      rw [hsharing.housed.queue_eq, h.housed.queue_eq, hfinished]
      constructor
      · rintro ⟨hp, hfin⟩
        exact ⟨mem_nextQueue hp, hfin⟩
      · rintro ⟨hp, hfin⟩
        exact ⟨mem_nextQueue_of_unfinished hp hfin, hfin⟩
    · intro p hp _
      apply hregisters
      exact mem_nextQueue_of_unfinished (h.housed.queue_eq ▸ hp.1) hp.2

/-- Every step is one of the shared processor. -/
theorem step {action : ComputerAction} (h : Sharing c q) (hfree : c.pages.free ≠ [])
    (hstep : computer.step c action c') :
    (∃ q', Sharing c' q') ∧ (system Nat Cpu).step c.processor action.use c'.processor := by
  cases action with
  | execute i cpu mem =>
    obtain ⟨hexec, hkeep, hc'⟩ := hstep
    obtain ⟨hsharing, habs⟩ := h.execute hexec hkeep hc'
    exact ⟨⟨q, hsharing⟩, habs⟩
  | idle cpu mem =>
    obtain ⟨hexec, hkeep, hc'⟩ := hstep
    obtain ⟨hhoused, hmem⟩ := h.foreign_header hkeep
    subst hc'
    obtain ⟨hsharing, hwaiting⟩ := @advance c { c with mem := mem, cpu := cpu } q h hhoused rfl
      (fun _ _ => ⟨rfl, rfl⟩) hmem
    refine ⟨⟨q, hsharing⟩, fun _ => Iff.rfl, ?_⟩
    intro p hp _
    apply hwaiting p (h.housed.queue_eq ▸ hp.1)
    rw [hexec]
    exact Option.some_ne_none p |>.symm
  | addProcess a =>
    obtain ⟨hturn, hclean, hfits, hslots, r, t', hadd, hc'⟩ := hstep
    rw [h.housed.queue_eq] at hturn
    exact h.join hturn hfree hclean hfits hslots hadd hc'
  | finishProcess i =>
    obtain ⟨hexec, hc'⟩ := hstep
    obtain ⟨hsharing, habs⟩ := h.finish hexec hc'
    exact ⟨⟨q, hsharing⟩, habs⟩
  | malloc PCBIndex size =>
    obtain ⟨hindex, p, m', hmalloc, rfl⟩ := hstep
    obtain ⟨hhoused, hkept⟩ := h.housed.malloc hfree hindex hmalloc
    obtain ⟨hsharing, habs⟩ := @pass c { c with toMachine := m' } q h hhoused rfl rfl
      (fun _ _ => rfl) (fun i hi => ⟨(hkept i hi).1, (hkept i hi).2.1⟩)
      (fun i hi _ => (hkept i hi).2.2)
    exact ⟨⟨q, hsharing⟩, habs⟩
  | other =>
    obtain ⟨helse, hmem, hpages, hstackPage, hcpu⟩ := hstep
    obtain ⟨hhoused, hfirst, hkept⟩ := h.housed.elsewhere helse hmem hpages hstackPage
    have hexec : c'.executing = c.executing := by
      rw [Computer.executing, Computer.executing, hhoused.queue_eq, h.housed.queue_eq, hfirst]
    obtain ⟨hsharing, habs⟩ := h.pass hhoused hexec hcpu (fun i _ => (hkept i).1)
      (fun i _ => (hkept i).2) (fun _ _ _ x _ => congrFun hmem x)
    exact ⟨⟨q, hsharing⟩, habs⟩
  | pop =>
    obtain rfl : c' = _ := hstep
    obtain ⟨hsharing, habs⟩ := @pass c
      { c with pages := (c.pages.pageManager .POP_PAGE NULL).1 } q h h.housed.pop rfl rfl
      (fun _ _ => rfl) (fun _ _ => ⟨rfl, rfl⟩) (fun _ _ _ _ _ => rfl)
    exact ⟨⟨q, hsharing⟩, habs⟩
  | push page =>
    obtain ⟨hpage, hnot, hstack, hheap, rfl⟩ := hstep
    obtain ⟨hsharing, habs⟩ := @pass c
      { c with pages := (c.pages.pageManager .PUSH_PAGE page).1 } q h
      (h.housed.push hpage hnot hstack hheap) rfl rfl (fun _ _ => rfl)
      (fun _ _ => ⟨rfl, rfl⟩) (fun _ _ _ _ _ => rfl)
    exact ⟨⟨q, hsharing⟩, habs⟩
  | keyboard mem =>
    obtain ⟨hroom, hkeep, hc'⟩ := hstep
    obtain ⟨hsharing, habs⟩ := h.keyboard hroom hkeep hc'
    exact ⟨⟨q, hsharing⟩, habs⟩
  | nextProcess mem =>
    obtain ⟨hroom, rsp, t', hnext, hmem, hc'⟩ := hstep
    exact h.turn hfree hroom hnext hmem hc'

end Sharing

theorem sharing_step {c c' : Computer} {action : ComputerAction} (h : ∃ q, Sharing c q)
    (hstep : (computer.restrict PageLeft).step c action c') :
    (∃ q', Sharing c' q') ∧
    (Multiplexing.system Nat Cpu).step c.processor action.use c'.processor := by
  obtain ⟨q, hsharing⟩ := h
  obtain ⟨hfree, hstep⟩ := hstep
  exact hsharing.step hfree hstep

theorem sharing_reachable {c : Computer} (h : (computer.restrict PageLeft).Reachable c) :
    Sharing c c.sched.queue := by
  have hinv : ∃ q, Sharing c q := by
    apply h.invariant (fun c => ∃ q, Sharing c q)
    · exact fun c hinit => ⟨[], sharing_init hinit⟩
    · exact fun c action c' hinv hstep => (sharing_step hinv hstep).1
  obtain ⟨q, hsharing⟩ := hinv
  rw [hsharing.housed.queue_eq]
  exact hsharing

/-- The registers at the end of each stretch of execution of node `i`. -/
def executions (i : Nat) (actions : List ComputerAction) : List Cpu :=
  Multiplexing.computed i (actions.map ComputerAction.use)

/-- **A processor of its own.**  In every run a process that does not finish has at the end
    the registers that it had computed last: those of the processor if it executes, else
    those that its next turn loads. -/
theorem processor_of_its_own {c c' : Computer} {actions : List ComputerAction} {i : Nat}
    (hreach : (computer.restrict PageLeft).Reachable c)
    (hrun : (computer.restrict PageLeft).StepsFrom c actions c') (hi : i ∈ c.sched.queue)
    (hfin : c.sched.isFinished i = false) (hstay : .finishProcess i ∉ actions) :
    i ∈ c'.sched.queue ∧ c'.registers i = (executions i actions).getLastD (c.registers i) := by
  have habstract : (Multiplexing.system Nat Cpu).StepsFrom c.processor
      (actions.map ComputerAction.use) c'.processor := by
    apply hrun.map
    · exact fun c action c' hinv hstep => (sharing_step hinv hstep).1
    · exact fun c action c' hinv hstep => (sharing_step hinv hstep).2
    · exact ⟨_, sharing_reachable hreach⟩
  obtain ⟨⟨hpresent, -⟩, hcontext⟩ := Multiplexing.context_of_run habstract ⟨hi, hfin⟩ (by
    intro hmem
    obtain ⟨action, haction, huse⟩ := List.mem_map.mp hmem
    cases action <;> cases huse
    exact hstay haction)
  exact ⟨hpresent, hcontext⟩

/-! ### A run -/

/-- A turn can always be taken while there is room on the stack. -/
theorem Sharing.exists_turn {c : Computer} {f : Nat} {q : List Nat} (h : Sharing c (f :: q))
    (hfree : c.pages.free ≠ []) (hroom : c.StackRoom) :
    ∃ mem c', computer.step c (.nextProcess mem) c' ∧ c'.pages.free ≠ [] ∧
      Sharing c' (nextQueue c.sched (f :: q)) ∧
      c'.executing = (nextQueue c.sched (f :: q)).head? ∧
      ∀ i, c'.sched.isFinished i = c.sched.isFinished i := by
  obtain ⟨hinterrupted, -⟩ := h.foreign_header fun x hx => h.interrupted_mem hroom hx
  have hinterrupted : Housed c.interrupted (f :: q) := hinterrupted
  obtain ⟨t', hnext, hleft⟩ := hinterrupted.nextProcess hfree c.savedRSP
  obtain ⟨hsharing, hfinished, -⟩ := h.nextProcess hfree hroom hnext (fun _ _ => rfl) rfl
  refine ⟨t'.mem, _, ⟨hroom, _, t', hnext, fun _ _ => rfl, rfl⟩, hleft.free, hsharing, ?_,
    hfinished⟩
  rw [hsharing.executing_eq]
  have hfirst : t'.sched.firstIteration = false := by
    rw [hleft.firstIteration, Tasks.rotate_firstIteration]
  show (if t'.sched.firstIteration then none else _) = _
  rw [hfirst]
  rfl

/-- Whoever executes can compute anything, with its stack pointer in the middle of its page. -/
theorem Sharing.computes {c : Computer} {i : Nat} {q : List Nat} (h : Sharing c (i :: q))
    (hexec : c.executing = some i) (cpu : Cpu) :
    ∃ c', computer.step c
        (.execute i { cpu with rsp := c.stackPage i + 0x1000 } c.mem) c' ∧
      c'.toTasks = c.toTasks ∧ Sharing c' (i :: q) ∧ c'.StackRoom := by
  have hbounds := initialPages_bounds (h.housed.stackPage_pool List.mem_cons_self)
  have hrsp : (c.stackPage i + 0x1000).toNat = (c.stackPage i).toNat + 0x1000 := by
    apply addr_add_toNat (k := 0x1000)
    omega
  let c' : Computer := { c with cpu := { cpu with rsp := c.stackPage i + 0x1000 } }
  obtain ⟨hsharing, -⟩ := h.execute hexec (fun _ _ => rfl) (show c' = { c with
    mem := c.mem, cpu := { cpu with rsp := c.stackPage i + 0x1000 } } from rfl)
  refine ⟨c', ⟨hexec, fun _ _ => rfl, rfl⟩, rfl, hsharing, ?_⟩
  have hexec' : c'.executing = some i := hexec
  unfold Computer.StackRoom
  rw [hexec']
  show (c.stackPage i).toNat + 192 ≤ (c.stackPage i + 0x1000).toNat ∧
    (c.stackPage i + 0x1000).toNat ≤ (c.stackPage i).toNat + 0x2000
  omega

/-- The parameters of a process with one argument, which lies at address 0. -/
def oneArgument : ProcessParams := ⟨0, NULL, NULL, 1, NULL⟩

/-- With room for one more process and a stack that fits, it joins. -/
theorem Sharing.joins {c : Computer} {q : List Nat} (h : Sharing c q)
    (hfree : c.pages.free ≠ []) (hfirst : c.sched.firstIteration = true)
    (hclean : AddsCleanly c.toTasks oneArgument)
    (hfits : c.Fits oneArgument) {r : Int} {t' : Tasks}
    (hadd : c.toTasks.addProcess oneArgument = some (r, t')) :
    (computer.restrict PageLeft).step c (.addProcess oneArgument) { c with toTasks := t' } := by
  refine ⟨hfree, .inl hfirst, hclean, hfits, ?_, r, t', hadd, rfl⟩
  intro k hk x hx hforeign
  have hk0 : k = 0 := by
    have hcount : Machine.loopCount 1 = 1 := by decide
    have hk' : k < Machine.loopCount 1 := hk
    omega
  subst hk0
  have hpool := h.foreign_pool hforeign
  have hslot : (x - (NULL + 0)).toNat < 8 := hx
  rw [add_zero, addr_sub_toNat_lt_iff (by decide)] at hslot
  have hzero : NULL.toNat = 0 := rfl
  omega

/-- While pages can be pushed back, one is left. -/
theorem free_of_open {m : PageStack} (h : m.Open) : m.free ≠ [] := by
  obtain ⟨-, -, htop⟩ := h
  intro hnil
  have hlength := congrArg List.length hnil
  simp only [PageStack.free, List.length_map, List.length_range', List.length_nil] at hlength
  omega

/-- Two processes are added before the first turn. -/
theorem computer_twoProcesses : ∃ (c : Computer) (i j : Nat),
    (computer.restrict PageLeft).Reachable c ∧ c.sched.queue = [i, j] ∧ i ≠ j ∧
    c.sched.isFinished i = false ∧ c.sched.isFinished j = false ∧ c.pages.free ≠ [] ∧
    c.StackRoom := by
  obtain ⟨t, r, t₁, i, hboot, -, hadd, hclean, htask, hresident, hguest, hroom⟩ :=
    first_addProcess (fun _ => .zero) (fun _ => ⟨0, .RUNNING, 0, 0⟩)
  have hlen : [i].length < MAX_PROCESSES := by simp [MAX_PROCESSES]
  obtain ⟨r', t₂, j, hadd', -, hjoin, hguest', hresident'⟩ :=
    room_addProcess hroom htask hlen (a := oneArgument) rfl
  let c : Computer := { toTasks := t, cpu := { Cpu.zero with rsp := 0x100000 } }
  have hinit : computer.init c :=
    ⟨⟨.popped 0, []⟩, _, _, _, .init ⟨rfl, rfl⟩, hboot⟩
  obtain ⟨t', hboot', hmem, hpages⟩ := Tasks.boot_fresh (fun _ => 0) (fun _ => .zero)
    (fun _ => ⟨0, .RUNNING, 0, 0⟩)
  obtain rfl := Option.some.inj (hboot.symm.trans hboot')
  have hfree : c.pages.free ≠ [] := by
    show t.pages.free ≠ []
    rw [hpages]
    decide
  -- the stacks of both are shorter than a page
  have hfits : t.Fits oneArgument := Machine.fits_of_nullArgument rfl (fun _ _ => by rw [hmem])
  have hfits' : t₁.Fits oneArgument := by
    have hall : (((Tasks.boot (fun _ => 0) (.popped 0) (fun _ => .zero)
        (fun _ => ⟨0, .RUNNING, 0, 0⟩)).bind fun t =>
          (t.addProcess oneArgument).map Prod.snd).all fun t => decide
            (Write.total (t.stackWrites oneArgument) ≤ PAGE_SIZE.toNat)) = true := by
      decide +kernel
    have hadd₁ : t.addProcess oneArgument = some (r, t₁) := hadd
    rw [hboot, Option.bind_some, hadd₁] at hall
    unfold Machine.Fits
    simpa using hall
  have hfirst : t.sched.firstIteration = true := (Tasks.boot_ok hboot).2.1
  have hfirst₁ : t₁.sched.firstIteration = true := by
    rcases Tasks.addProcess_added hadd with _ | _ <;> exact hfirst
  have hfirst₂ : t₂.sched.firstIteration = true := by
    rcases Tasks.addProcess_added hadd' with _ | _ <;> exact hfirst₁
  have hreach₁ : (computer.restrict PageLeft).Reachable { c with toTasks := t₁ } :=
    .step _ (.init hinit) ((sharing_init hinit).joins hfree hfirst hclean hfits hadd)
  have hreach₂ : (computer.restrict PageLeft).Reachable { c with toTasks := t₂ } :=
    .step _ hreach₁ ((sharing_reachable hreach₁).joins (free_of_open hguest.pages) hfirst₁
      (.inr (hroom.canCreate htask rfl)) hfits' hadd')
  have hij : i ≠ j := by
    rintro rfl
    exact hjoin.new List.mem_cons_self
  refine ⟨_, i, j, hreach₂, hjoin.inv.queue_eq, hij, ?_, hresident'.isFinished,
    free_of_open hguest'.pages, ?_⟩
  · exact ((hjoin.kept i List.mem_cons_self).2).trans hresident.isFinished
  · unfold Computer.StackRoom
    have hexec : ({ c with toTasks := t₂ } : Computer).executing = none := by
      show (if t₂.sched.firstIteration then none else _) = none
      rw [hfirst₂, if_pos rfl]
    rw [hexec]
    show 192 ≤ (0x100000 : UInt64).toNat ∧ (0x100000 : UInt64).toNat ≤ 0x10000000
    decide

/-- One of two processes gets the turn, computes 7 in `rbx` and is interrupted.  While the other
    one executes, its registers wait for it. -/
theorem processor_of_its_own_first : ∃ (c c' : Computer) (i : Nat) (cpu : Cpu)
    (mem mem' : Memory), (computer.restrict PageLeft).Reachable c ∧
    (computer.restrict PageLeft).StepsFrom c
      [.nextProcess mem, .execute i cpu mem, .nextProcess mem'] c' ∧
    cpu.rbx = 7 ∧ c'.executing ≠ some i ∧ i ∈ c'.sched.queue ∧ c'.registers i = cpu := by
  obtain ⟨c, i, j, hreach, hqueue, hij, hfini, hfinj, hfree, hroom⟩ := computer_twoProcesses
  have hsharing := sharing_reachable hreach
  rw [hqueue] at hsharing
  obtain ⟨mem, c₁, hturn₁, hfree₁, hsharing₁, hexec₁, hfin₁⟩ := hsharing.exists_turn hfree hroom
  have hnext : nextQueue c.sched [i, j] = [j, i] := by simp [nextQueue, hfinj]
  rw [hnext] at hsharing₁ hexec₁
  let cpu : Cpu := { Cpu.zero with rsp := c₁.stackPage j + 0x1000, rbx := 7 }
  obtain ⟨c₂, hexecute, htasks, hsharing₂, hroom₂⟩ :=
    hsharing₁.computes hexec₁ { Cpu.zero with rbx := 7 }
  have hfree₂ : c₂.pages.free ≠ [] := htasks ▸ hfree₁
  obtain ⟨mem', c₃, hturn₃, -, -, hexec₃, -⟩ := hsharing₂.exists_turn hfree₂ hroom₂
  have hmem : mem = c₁.mem := by
    obtain ⟨-, _, _, -, -, hc₁⟩ := hturn₁
    rw [hc₁]
  subst hmem
  have hrun : (computer.restrict PageLeft).StepsFrom c
      [.nextProcess c₁.mem, .execute j cpu c₁.mem, .nextProcess mem'] c₃ :=
    .cons _ _ ⟨hfree, hturn₁⟩ (.cons _ _ ⟨hfree₁, hexecute⟩ (.cons _ _ ⟨hfree₂, hturn₃⟩ (.nil _)))
  have hother : c₃.executing ≠ some j := by
    have hnext₂ : nextQueue c₂.sched [j, i] = [i, j] := by
      simp [nextQueue, htasks, hfin₁, hfini]
    rw [hexec₃, hnext₂]
    exact fun heq => hij (Option.some.inj heq)
  obtain ⟨hi, hregisters⟩ := processor_of_its_own hreach hrun
    (by rw [hqueue]; exact List.mem_cons_of_mem i List.mem_cons_self) hfinj (by simp)
  refine ⟨c, c₃, j, cpu, _, mem', hreach, hrun, rfl, hother, hi, hregisters.trans ?_⟩
  simp [executions, Multiplexing.computed, ComputerAction.use]

end TP2Kernel
