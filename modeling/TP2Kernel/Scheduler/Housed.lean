import TP2Kernel.Process.HeapWrites
import TP2Kernel.Process.StackWrites
import TP2Kernel.Scheduler.Failure

/-! # The processes of the queue and their pages

    `Housed t q`: the scheduler runs with the queue `q`, every node refers to a live
    process, no two to one, and the pages of all processes are accounted for.  Here the
    processes may have heaps.

    One lemma for each call of the scheduler.  That of `nextProcess` says what is left when
    the finished nodes in front are gone.
-/

namespace TP2Kernel

open Scheduler PageStack Machine

/-- The page of the stack of node `i`. -/
def Tasks.stackPage (t : Tasks) (i : Nat) : Addr :=
  (t.pcb.process (t.sched.nodes i).PCBIndex).stackPage

/-- The stack pointer that is saved for node `i`. -/
def Tasks.stack (t : Tasks) (i : Nat) : Addr :=
  (t.pcb.process (t.sched.nodes i).PCBIndex).stack

structure Housed (t : Tasks) (q : List Nat) : Prop where
  running : t.sched.running = true
  ring : RingInv t.sched q
  heaps : ∃ held blocks chain, HeapsInv ⟨t.toMachine, held, blocks⟩ chain
  live : ∀ i ∈ q, t.Live (t.sched.nodes i).PCBIndex
  apart : ∀ i ∈ q, ∀ j ∈ q, (t.sched.nodes i).PCBIndex = (t.sched.nodes j).PCBIndex → i = j

namespace Housed

variable {t t' : Tasks} {q : List Nat} {f i j : Nat}

theorem queue_eq (h : Housed t q) : t.sched.queue = q := h.ring.queue_eq

theorem badIndex (h : Housed t q) (hi : i ∈ q) :
    t.pcb.badIndex (t.sched.nodes i).PCBIndex = false := by
  obtain ⟨held, blocks, chain, hheaps⟩ := h.heaps
  exact hheaps.badIndex_eq (h.live i hi).1

theorem getProcessStack (h : Housed t q) (hi : i ∈ q) :
    t.pcb.getProcessStack (t.sched.nodes i).PCBIndex = t.stack i := by
  rw [Pcb.getProcessStack, h.badIndex hi]
  rfl

/-- Other nodes have other entries. -/
theorem toNat_ne (h : Housed t q) (hi : i ∈ q) (hj : j ∈ q) (hij : i ≠ j) :
    (t.sched.nodes i).PCBIndex.toNat ≠ (t.sched.nodes j).PCBIndex.toNat := by
  intro heq
  exact hij (h.apart i hi j hj (UInt64.toNat_inj.mp heq))

/-- The stack page of a node is one of the pool, and held by its process alone. -/
theorem stackPage_held (h : Housed t q) (hi : i ∈ q) {held : Nat → List Addr}
    {blocks : List Block} {chain : Nat → List Addr}
    (hheaps : HeapsInv ⟨t.toMachine, held, blocks⟩ chain) :
    (t.sched.nodes i).PCBIndex.toNat < pcbEntries ∧
    t.stackPage i ∈ held (t.sched.nodes i).PCBIndex.toNat ∧
    t.stackPage i ∉ chain (t.sched.nodes i).PCBIndex.toNat := by
  have hlive := h.live i hi
  have hlt := hheaps.toNat_lt hlive.1
  have hheld : (held (t.sched.nodes i).PCBIndex.toNat).Perm
      (t.stackPage i :: chain (t.sched.nodes i).PCBIndex.toNat) := hheaps.held_of_live hlive
  refine ⟨hlt, hheld.mem_iff.mpr List.mem_cons_self, ?_⟩
  have hnodup := (List.nodup_append.mp (hheaps.exclusive _ hlt).distinct).1
  exact (List.nodup_cons.mp (hheld.nodup_iff.mp hnodup)).1

theorem stackPage_pool (h : Housed t q) (hi : i ∈ q) : t.stackPage i ∈ initialPages := by
  obtain ⟨held, blocks, chain, hheaps⟩ := h.heaps
  obtain ⟨hlt, hmem, -⟩ := h.stackPage_held hi hheaps
  exact (hheaps.exclusive _ hlt).fromPool _ (List.mem_append_left _ hmem)

theorem stackPage_ne (h : Housed t q) (hi : i ∈ q) (hj : j ∈ q) (hij : i ≠ j) :
    t.stackPage i ≠ t.stackPage j := by
  obtain ⟨held, blocks, chain, hheaps⟩ := h.heaps
  obtain ⟨hlti, hmemi, -⟩ := h.stackPage_held hi hheaps
  obtain ⟨hltj, hmemj, -⟩ := h.stackPage_held hj hheaps
  intro heq
  exact hheaps.apart _ _ hlti hltj (h.toNat_ne hi hj hij) hmemi (heq ▸ hmemj)

/-- The page of a stack is not free. -/
theorem stackPage_notFree (h : Housed t q) (hi : i ∈ q) : t.stackPage i ∉ t.pages.free := by
  obtain ⟨held, blocks, chain, hheaps⟩ := h.heaps
  obtain ⟨hlt, hmem, -⟩ := h.stackPage_held hi hheaps
  exact List.disjoint_of_nodup_append (hheaps.exclusive _ hlt).distinct hmem

/-- A page of a heap is nobody's stack page. -/
theorem heapPage_ne (h : Housed t q) (hi : i ∈ q) {k : Nat} {pages : List Addr}
    (hk : k < t.pcb.maxProcesses.toNat) (hchain : t.HeapChain k pages) {page : Addr}
    (hpage : page ∈ pages) : page ∈ initialPages ∧ page ≠ t.stackPage i := by
  obtain ⟨held, blocks, chain, hheaps⟩ := h.heaps
  have hlt : k < pcbEntries := by
    rw [← hheaps.toNat_maxProcesses]
    exact hk
  obtain rfl : pages = chain k := LinkedChain.Chain.unique hchain (hheaps.linked k hlt)
  obtain ⟨hlti, hmem, hnot⟩ := h.stackPage_held hi hheaps
  refine ⟨hheaps.pool hlt hpage, ?_⟩
  rintro rfl
  by_cases hki : k = (t.sched.nodes i).PCBIndex.toNat
  · exact hnot (hki ▸ hpage)
  · exact hheaps.apart k _ hlt hlti hki (hheaps.mem_held hlt hpage) hmem

end Housed

/-! ### The removal of the finished nodes -/

/-- From `t` to `t'` some processes went; those of `q` are left as they were. -/
structure Left (t : Tasks) (q : List Nat) (t' : Tasks) : Prop where
  housed : Housed t' q
  free : t'.pages.free ≠ []
  mem : t'.mem = t.mem
  pcbIndex : ∀ i, (t'.sched.nodes i).PCBIndex = (t.sched.nodes i).PCBIndex
  state : ∀ i, (t'.sched.nodes i).state = (t.sched.nodes i).state
  firstIteration : t'.sched.firstIteration = t.sched.firstIteration
  process : ∀ i ∈ q, t'.pcb.process (t.sched.nodes i).PCBIndex =
    t.pcb.process (t.sched.nodes i).PCBIndex

namespace Left

variable {t t' t'' : Tasks} {q q' : List Nat} {i : Nat}

theorem isFinished (h : Left t q t') : t'.sched.isFinished = t.sched.isFinished := by
  funext i
  simp only [Scheduler.isFinished, h.state]

theorem stackPage (h : Left t q t') (hi : i ∈ q) : t'.stackPage i = t.stackPage i := by
  rw [Tasks.stackPage, h.pcbIndex, h.process i hi]
  rfl

theorem stack (h : Left t q t') (hi : i ∈ q) : t'.stack i = t.stack i := by
  rw [Tasks.stack, h.pcbIndex, h.process i hi]
  rfl

theorem trans (h : Left t q t') (h' : Left t' q' t'') (hsub : ∀ i ∈ q', i ∈ q) :
    Left t q' t'' where
  housed := h'.housed
  free := h'.free
  mem := h'.mem.trans h.mem
  pcbIndex i := (h'.pcbIndex i).trans (h.pcbIndex i)
  state i := (h'.state i).trans (h.state i)
  firstIteration := h'.firstIteration.trans h.firstIteration
  process i hi := by
    have hlater := h'.process i hi
    rw [h.pcbIndex] at hlater
    rw [hlater, h.process i (hsub i hi)]

end Left

namespace Housed

variable {t t' : Tasks} {q r : List Nat} {f i j : Nat}

/-- What the destruction of a live process leaves. -/
theorem destroyProcess (h : Housed t q) (hi : i ∈ q) (hfree : t.pages.free ≠ []) :
    ∃ m', t.toMachine.destroyProcess (t.sched.nodes i).PCBIndex = some (0, m') ∧
      m'.mem = t.mem ∧ m'.pages.free ≠ [] ∧
      m'.pcb = t.pcb.setProcess (t.sched.nodes i).PCBIndex.toNat .zero ∧
      ∃ held blocks chain, HeapsInv ⟨m', held, blocks⟩ chain := by
  obtain ⟨held, blocks, chain, hheaps⟩ := h.heaps
  have hlive := h.live i hi
  have hdestroy := hheaps.destroyProcess_eq hlive.1
  obtain ⟨hback, hheaps'⟩ := hheaps.destroyProcess hlive hfree hdestroy
  refine ⟨_, hdestroy, rfl, ?_, rfl, _, _, _, hheaps'⟩
  rw [hback]
  simp

/-- The front goes, and its process with its pages. -/
theorem dequeueProcess (h : Housed t (f :: r)) (hfree : t.pages.free ≠ []) :
    ∃ t', t.dequeueProcess = some (0, t') ∧ Left t r t' ∧
      ∃ l, t.sched.last = some l ∧ (t.sched.nodes l).next = f := by
  have hnotin : f ∉ r := (List.nodup_cons.mp h.ring.ring.nodup).1
  obtain ⟨m', hdestroy, hmem, hfree', hpcb, hheaps'⟩ :=
    h.destroyProcess List.mem_cons_self hfree
  cases hlast : t.sched.last with
  | none => exact absurd (h.ring.last_eq_none_iff.mp hlast) (List.cons_ne_nil _ _)
  | some l =>
    obtain ⟨hfront, hring⟩ := h.ring.dequeued hlast
    have hdetached : (t.sched.detachNode l).1.PCBIndex = (t.sched.nodes f).PCBIndex := by
      have hkept := t.sched.dequeued_PCBIndex l f
      simpa [detachNode, hfront, Scheduler.dequeued] using hkept
    have hsub : ∀ i ∈ r, i ∈ f :: r := fun i hi => List.mem_cons_of_mem f hi
    -- the entries of the nodes that are left
    have hentry : ∀ i ∈ r, m'.pcb.process (t.sched.nodes i).PCBIndex =
        t.pcb.process (t.sched.nodes i).PCBIndex := by
      intro i hi
      have hif : i ≠ f := by
        rintro rfl
        exact hnotin hi
      rw [hpcb]
      exact Pcb.setProcess_ne _ _ _ (h.toNat_ne (hsub i hi) List.mem_cons_self hif)
    refine ⟨⟨m', t.sched.dequeued l⟩, ?_, ?_, l, rfl, hfront⟩
    · simp only [Tasks.dequeueProcess, hlast, hdetached, hdestroy]
      rfl
    · constructor
      · constructor
        · rw [dequeued_running]
          exact h.running
        · exact hring
        · exact hheaps'
        · intro i hi
          rw [dequeued_PCBIndex]
          have hlive' := h.live i (hsub i hi)
          constructor
          · show _ < m'.pcb.maxProcesses
            rw [hpcb]
            exact hlive'.1
          · show (m'.pcb.process _).occupied ≠ 0
            rw [hentry i hi]
            exact hlive'.2
        · intro i hi j hj heq
          rw [dequeued_PCBIndex, dequeued_PCBIndex] at heq
          exact h.apart i (hsub i hi) j (hsub j hj) heq
      · exact hfree'
      · exact hmem
      · exact t.sched.dequeued_PCBIndex l
      · exact t.sched.dequeued_state l
      · exact t.sched.dequeued_firstIteration l
      · exact hentry

/-- The recursion ends, and removes exactly the finished nodes in front. -/
theorem nextProcessRecursive (h : Housed t q) (hq : q ≠ []) (hfree : t.pages.free ≠ [])
    {fuel : Nat} (hfuel : q.length ≤ fuel) :
    ∃ t', t.nextProcessRecursive fuel =
        some (t'.answer (q.dropWhile t.sched.isFinished), t') ∧
      Left t (q.dropWhile t.sched.isFinished) t' := by
  induction q generalizing t fuel with
  | nil => exact absurd rfl hq
  | cons f r ih =>
    obtain ⟨fuel, rfl⟩ : ∃ k, fuel = k + 1 := ⟨fuel - 1, by simp at hfuel; omega⟩
    by_cases hfin : t.sched.isFinished f = true
    · obtain ⟨t₁, hdequeue, hleft, l, hlast, hfront⟩ := h.dequeueProcess hfree
      have hstate : (t.sched.nodes f).state = .FINISHED := by simpa [isFinished] using hfin
      have hrest : r.dropWhile t.sched.isFinished = r.dropWhile t₁.sched.isFinished := by
        rw [hleft.isFinished]
      rw [List.dropWhile_cons_of_pos hfin, hrest]
      have hrec : t.nextProcessRecursive (fuel + 1) =
          if r = [] then some (t₁.sched.returnToKernelRSP, t₁)
          else t₁.nextProcessRecursive fuel := by
        rw [Tasks.nextProcessRecursive]
        simp only [hlast, hfront, hstate, if_true, hdequeue,
          hleft.housed.ring.last_eq_none_iff]
      by_cases hr : r = []
      · subst hr
        exact ⟨t₁, hrec, hleft⟩
      · obtain ⟨t', hrec', hleft'⟩ := ih hleft.housed hr hleft.free (by simpa using hfuel)
        refine ⟨t', ?_, hleft.trans hleft' ?_⟩
        · rw [hrec, if_neg hr, hrec']
        · exact fun i hi => (List.dropWhile_sublist _).subset hi
    · rw [List.dropWhile_cons_of_neg hfin]
      have hrec := Tasks.nextProcessRecursive_unfinished h.ring hfin fuel
      exact ⟨t, hrec, h, hfree, rfl, fun _ => rfl, fun _ => rfl, rfl, fun _ _ => rfl⟩

/-- Whose stack pointer is returned. -/
theorem answer (h : Housed t (f :: r)) : t.answer (f :: r) = t.stack f :=
  h.getProcessStack List.mem_cons_self

/-! ### Calls that leave the processes -/

/-- The heaps stay while nothing is written that they are made of. -/
theorem heapsInv_congr {m m' : Machine} {held : Nat → List Addr} {blocks : List Block}
    {chain : Nat → List Addr} (h : HeapsInv ⟨m, held, blocks⟩ chain) (hmem : m'.mem = m.mem)
    (hpages : m'.pages = m.pages) (hpcb : m'.pcb.pcb = m.pcb.pcb)
    (hmax : m'.pcb.maxProcesses = m.pcb.maxProcesses)
    (hentries : ∀ i, (m'.pcb.entries i).occupied = (m.pcb.entries i).occupied ∧
      (m'.pcb.entries i).stackPage = (m.pcb.entries i).stackPage ∧
      (m'.pcb.entries i).heapPage = (m.pcb.entries i).heapPage) :
    HeapsInv ⟨m', held, blocks⟩ chain := by
  have hused : ∀ page, m'.used page = m.used page := by
    intro page
    rw [Machine.used, hmem]
    rfl
  refine ⟨hpcb ▸ h.pcb, hmax.trans h.maxProcesses, ?_, ?_, ?_, h.apart, ?_, ?_, h.disjoint⟩
  · intro i hi
    show LinkedChain.Chain m'.mem.readWord NULL (m'.pcb.entries i).heapPage (chain i)
    rw [hmem, (hentries i).2.2]
    exact h.linked i hi
  · intro i hi
    have hpages' : (m'.pcb.entries i).pages (chain i) = (m.pcb.entries i).pages (chain i) := by
      rw [PcbEntry.pages, PcbEntry.pages, (hentries i).1, (hentries i).2.1]
    rw [hpages']
    exact h.held i hi
  · intro i hi
    show Exclusive ⟨m'.pages, held i⟩
    rw [hpages]
    exact h.exclusive i hi
  · intro i hi page hpage
    rw [hused]
    exact h.used i hi page hpage
  · intro b hb
    obtain ⟨howner, page, hpage, hin⟩ := h.inside b hb
    refine ⟨howner, page, hpage, ?_⟩
    rw [Block.In, hused]
    exact hin

/-- The queue keeps its members, and these their entries. -/
theorem congr (h : Housed t q) (t' : Tasks) (q' : List Nat) (hrun : t'.sched.running = true)
    (hring : RingInv t'.sched q') (hq : ∀ i, i ∈ q' → i ∈ q)
    (hindex : ∀ i, (t'.sched.nodes i).PCBIndex = (t.sched.nodes i).PCBIndex)
    (hmax : t'.pcb.maxProcesses = t.pcb.maxProcesses)
    (hoccupied : ∀ i, (t'.pcb.entries i).occupied = (t.pcb.entries i).occupied)
    (hheaps : ∃ held blocks chain, HeapsInv ⟨t'.toMachine, held, blocks⟩ chain) :
    Housed t' q' where
  running := hrun
  ring := hring
  heaps := hheaps
  live i hi := by
    have hlive := h.live i (hq i hi)
    rw [hindex]
    refine ⟨hmax ▸ hlive.1, ?_⟩
    rw [Pcb.process, hoccupied]
    exact hlive.2
  apart i hi j hj heq := by
    rw [hindex, hindex] at heq
    exact h.apart i (hq i hi) j (hq j hj) heq

theorem mem_rotated {i f : Nat} {q : List Nat} : i ∈ q ++ [f] ↔ i ∈ f :: q := by
  simp [or_comm]

/-- The stack pointer of the front is saved and the front goes to the back. -/
theorem rotate (h : Housed t (f :: q)) (rsp : Addr) : Housed (t.rotate f rsp) (q ++ [f]) := by
  obtain ⟨held, blocks, chain, hheaps⟩ := h.heaps
  apply h.congr (t.rotate f rsp)
  · rw [Tasks.rotate_running]
    exact h.running
  · exact Tasks.RingInv.rotated h.ring rsp
  · exact fun i hi => mem_rotated.mp hi
  · intro i
    rw [Tasks.rotate_nodes]
  · rw [Tasks.rotate_pcb]
    split <;> simp
  · exact Tasks.rotate_occupied t f rsp
  · refine ⟨held, blocks, chain, heapsInv_congr hheaps ?_ ?_ ?_ ?_ ?_⟩
    · exact Tasks.rotate_mem t f rsp
    · exact Tasks.rotate_pages t f rsp
    · rw [Tasks.rotate_pcb]
      split <;> simp
    · rw [Tasks.rotate_pcb]
      split <;> simp
    · intro i
      exact ⟨Tasks.rotate_occupied t f rsp i, Tasks.rotate_stackPage t f rsp i,
        Tasks.rotate_heapPage t f rsp i⟩

/-- What `nextProcess` saves for each process. -/
theorem rotate_stack (h : Housed t (f :: q)) (rsp : Addr) (hi : i ∈ f :: q) :
    (t.rotate f rsp).stack i =
      if t.sched.firstIteration = false ∧ i = f then rsp else t.stack i := by
  have hbad := h.badIndex (i := f) List.mem_cons_self
  rw [Tasks.stack, Tasks.rotate_nodes, Pcb.process, Tasks.rotate_entries]
  by_cases hif : i = f
  · subst hif
    by_cases hfirst : t.sched.firstIteration = false
    · simp [hbad, hfirst]
    · simp [hbad, hfirst, Tasks.stack, Pcb.process]
  · have hne := h.toNat_ne List.mem_cons_self hi (Ne.symm hif)
    simp [hne, hif, Tasks.stack, Pcb.process]

theorem rotate_stackPage (t : Tasks) (f : Nat) (rsp : Addr) (i : Nat) :
    (t.rotate f rsp).stackPage i = t.stackPage i := by
  rw [Tasks.stackPage, Tasks.rotate_nodes, Pcb.process, Tasks.rotate_stackPage]
  rfl

/-- `nextProcess` with at least one process: the finished ones now in front are gone, and
    the stack pointer of the first of the others is returned, or the kernel's. -/
theorem nextProcess (h : Housed t (f :: q)) (hfree : t.pages.free ≠ []) (rsp : Addr) :
    ∃ t', t.nextProcess rsp = some (t'.answer ((q ++ [f]).dropWhile t.sched.isFinished), t') ∧
      Left (t.rotate f rsp) ((q ++ [f]).dropWhile t.sched.isFinished) t' := by
  have hlength : (q ++ [f]).length ≤ walkBound := by
    have hle := h.ring.length_le
    unfold MAX_PROCESSES at hle
    unfold walkBound
    simp at hle ⊢
    omega
  have hfree' : (t.rotate f rsp).pages.free ≠ [] := by
    rw [Tasks.rotate_pages]
    exact hfree
  obtain ⟨t', hrec, hleft⟩ := (h.rotate rsp).nextProcessRecursive (by simp) hfree' hlength
  rw [Tasks.rotate_isFinished] at hrec hleft
  refine ⟨t', ?_, hleft⟩
  rw [Tasks.nextProcess, h.ring.current_eq h.running]
  exact hrec

/-! ### Memory -/

/-- A byte of a header of a heap. -/
def Header (m : Machine) (x : Addr) : Prop :=
  ∃ i pages, i < m.pcb.maxProcesses.toNat ∧ m.HeapChain i pages ∧ ∃ page ∈ pages, InHeader page x

theorem keepsHeaders_iff {m : Machine} {mem : Memory} :
    m.KeepsHeaders mem ↔ ∀ x, Header m x → mem x = m.mem x := by
  constructor
  · rintro h x ⟨i, pages, hi, hchain, page, hpage, hx⟩
    obtain ⟨k, hk, rfl⟩ := inHeader_iff.mp hx
    exact h i pages hi hchain page hpage k hk
  · intro h i pages hi hchain page hpage k hk
    exact h _ ⟨i, pages, hi, hchain, page, hpage, inHeader_iff.mpr ⟨k, hk, rfl⟩⟩

/-- A header does not lie in another page. -/
theorem header_notIn {page other x : Addr} (hpage : page ∈ initialPages)
    (hother : other ∈ initialPages) (hne : page ≠ other) (hx : InHeader page x) :
    ¬ Write.InPage other x := by
  have hbounds := initialPages_bounds hpage
  have hbounds' := initialPages_bounds hother
  have hapart := initialPages_apart hpage hother hne
  have hsize : PAGE_SIZE.toNat = 0x2000 := rfl
  rw [InHeader, addr_sub_toNat_lt_iff (by omega)] at hx
  rw [Write.InPage, addr_sub_toNat_lt_iff (by omega)]
  omega

theorem header_notStack (h : Housed t q) (hi : i ∈ q) {x : Addr} (hx : Header t.toMachine x) :
    ¬ Write.InPage (t.stackPage i) x := by
  obtain ⟨k, pages, hk, hchain, page, hpage, hin⟩ := hx
  obtain ⟨hpool, hne⟩ := h.heapPage_ne hi hk hchain hpage
  exact header_notIn hpool (h.stackPage_pool hi) hne hin

/-- Memory changes, and the headers stay. -/
theorem write (h : Housed t q) {mem : Memory}
    (hkeep : ∀ x, Header t.toMachine x → mem x = t.mem x) : Housed { t with mem := mem } q := by
  obtain ⟨held, blocks, chain, hheaps⟩ := h.heaps
  exact h.congr _ q h.running h.ring (fun _ hi => hi) (fun _ => rfl) rfl (fun _ => rfl)
    ⟨_, _, _, hheaps.write (keepsHeaders_iff.mpr hkeep)⟩

/-- A process allocates. -/
theorem malloc (h : Housed t q) (hfree : t.pages.free ≠ []) {k : UInt64} {n : Int64} {p : Addr}
    {m' : Machine} (hk : k < t.pcb.maxProcesses) (hm : t.malloc k n = some (p, m')) :
    Housed ⟨m', t.sched⟩ q ∧ ∀ i ∈ q, Tasks.stackPage ⟨m', t.sched⟩ i = t.stackPage i ∧
      Tasks.stack ⟨m', t.sched⟩ i = t.stack i ∧
      ∀ x, Write.InPage (t.stackPage i) x → m'.mem x = t.mem x := by
  obtain ⟨held, blocks, chain, hheaps⟩ := h.heaps
  have hmem : ∀ i ∈ q, ∀ x, Write.InPage (t.stackPage i) x → m'.mem x = t.mem x := by
    intro i hi x hx
    have hlt := hheaps.toNat_lt hk
    apply hheaps.malloc_frame hfree hk hm
    · intro page hpage hin
      apply h.header_notStack hi _ hx
      exact ⟨k.toNat, _, UInt64.lt_iff_toNat_lt.mp hk, hheaps.linked _ hlt, page, hpage, hin⟩
    · intro page hpage hin
      have hpool := (hheaps.exclusive _ hlt).fromPool page (List.mem_append_right _ hpage)
      apply header_notIn hpool (h.stackPage_pool hi) _ hin hx
      rintro rfl
      exact h.stackPage_notFree hi hpage
  rcases hheaps.malloc_cases hfree hk n with
    ⟨-, hnull⟩ | ⟨-, taken, target, start, m'', heq, -, ha⟩
  · obtain ⟨rfl, rfl⟩ := Prod.mk.inj (Option.some.inj (hnull.symm.trans hm))
    exact ⟨h, fun i hi => ⟨rfl, rfl, hmem i hi⟩⟩
  · obtain ⟨rfl, rfl⟩ := Prod.mk.inj (Option.some.inj (heq.symm.trans hm))
    obtain ⟨head, hpcb⟩ := ha.entry
    have hentry : ∀ i, m''.pcb.entries i = if i = k.toNat then
        { t.pcb.entries k.toNat with heapPage := head } else t.pcb.entries i := by
      intro i
      rw [hpcb, Pcb.modifyProcess_entries]
    constructor
    · apply h.congr ⟨m'', t.sched⟩ q h.running h.ring (fun _ hi => hi) (fun _ => rfl)
      · show m''.pcb.maxProcesses = _
        rw [hpcb]
        rfl
      · intro i
        show (m''.pcb.entries i).occupied = _
        rw [hentry]
        split
        next hik => rw [hik]
        next => rfl
      · exact ⟨_, _, _, hheaps.malloc (hheaps.toNat_lt hk) ha⟩
    · intro i hi
      refine ⟨?_, ?_, hmem i hi⟩
      · show (m''.pcb.entries _).stackPage = (t.pcb.entries _).stackPage
        rw [hentry]
        split
        next hik => rw [hik]
        next => rfl
      · show (m''.pcb.entries _).stack = (t.pcb.entries _).stack
        rw [hentry]
        split
        next hik => rw [hik]
        next => rfl

theorem pop (h : Housed t q) :
    Housed { t with pages := (t.pages.pageManager .POP_PAGE NULL).1 } q := by
  obtain ⟨held, blocks, chain, hheaps⟩ := h.heaps
  exact h.congr _ q h.running h.ring (fun _ hi => hi) (fun _ => rfl) rfl (fun _ => rfl)
    ⟨_, _, _, hheaps.pop⟩

/-- A page comes back that belongs to no process. -/
theorem push (h : Housed t q) {page : Addr} (hpage : page ∈ initialPages)
    (hfree : page ∉ t.pages.free)
    (hstack : ∀ i < t.pcb.maxProcesses.toNat, (t.pcb.entries i).occupied ≠ 0 →
      page ≠ (t.pcb.entries i).stackPage)
    (hheap : ∀ i pages, i < t.pcb.maxProcesses.toNat → t.HeapChain i pages → page ∉ pages) :
    Housed { t with pages := (t.pages.pageManager .PUSH_PAGE page).1 } q := by
  obtain ⟨held, blocks, chain, hheaps⟩ := h.heaps
  apply h.congr { t with pages := (t.pages.pageManager .PUSH_PAGE page).1 } q h.running h.ring
    (fun _ hi => hi) (fun _ => rfl) rfl (fun _ => rfl)
  refine ⟨_, _, _, hheaps.push hpage hfree ?_⟩
  intro i hi hmem
  have hlt : i < t.pcb.maxProcesses.toNat := hheaps.toNat_maxProcesses ▸ hi
  have hmem' : page ∈ (t.pcb.entries i).pages (chain i) := (hheaps.held i hi).mem_iff.mp hmem
  have hnot := hheap i _ hlt (hheaps.linked i hi)
  by_cases hoccupied : (t.pcb.entries i).occupied = 0
  · rw [PcbEntry.pages, if_pos hoccupied] at hmem'
    exact hnot hmem'
  · rw [PcbEntry.pages, if_neg hoccupied] at hmem'
    rcases List.mem_cons.mp hmem' with heq | hchain
    · exact hstack i hlt hoccupied heq
    · exact hnot hchain

/-- Marks for sleeping and what else the entries hold. -/
theorem elsewhere (h : Housed t q) (helse : Elsewhere t t') (hmem : t'.mem = t.mem)
    (hpages : t'.pages = t.pages)
    (hstackPage : ∀ i, (t'.pcb.entries i).stackPage = (t.pcb.entries i).stackPage) :
    Housed t' q ∧ t'.sched.firstIteration = t.sched.firstIteration ∧
    ∀ i, t'.sched.isFinished i = t.sched.isFinished i ∧ t'.stackPage i = t.stackPage i ∧
      t'.stack i = t.stack i := by
  obtain ⟨nodes, hsched, hnodes⟩ := helse.sched
  obtain ⟨held, blocks, chain, hheaps⟩ := h.heaps
  have hindex : ∀ i, (t'.sched.nodes i).PCBIndex = (t.sched.nodes i).PCBIndex := by
    intro i
    rw [hsched]
    exact (hnodes i).1
  refine ⟨?_, by rw [hsched], ?_⟩
  · apply h.congr t' q
    · rw [hsched]
      exact h.running
    · rw [hsched]
      exact h.ring.congr_nodes (fun i _ => (hnodes i).2.2.1) (fun i _ => (hnodes i).2.1)
    · exact fun i hi => hi
    · exact hindex
    · exact helse.maxProcesses
    · exact helse.occupied
    · exact ⟨_, _, _, heapsInv_congr hheaps hmem hpages helse.pcb helse.maxProcesses
        fun i => ⟨helse.occupied i, hstackPage i, helse.heapPage i⟩⟩
  · intro i
    refine ⟨?_, ?_, ?_⟩
    · rw [hsched]
      simp only [isFinished, decide_eq_decide]
      exact (hnodes i).2.2.2
    · rw [Tasks.stackPage, hindex]
      exact hstackPage _
    · rw [Tasks.stack, hindex]
      exact helse.stack _

/-- The process in front is marked as finished. -/
theorem finishProcess (h : Housed t (f :: q)) :
    Housed t.finishProcess.2 (f :: q) ∧
    t.finishProcess.2.sched.firstIteration = t.sched.firstIteration ∧
    ∀ i, t.finishProcess.2.sched.isFinished i = (t.sched.isFinished i || decide (i = f)) ∧
      t.finishProcess.2.stackPage i = t.stackPage i ∧
      t.finishProcess.2.stack i = t.stack i := by
  have hindex : ∀ i, (t.finishProcess.2.sched.nodes i).PCBIndex = (t.sched.nodes i).PCBIndex := by
    intro i
    rw [Tasks.finishProcess_eq h.ring h.running]
    by_cases hif : i = f <;> simp [hif]
  have hheaps := h.heaps
  refine ⟨?_, ?_, ?_⟩
  · apply h.congr t.finishProcess.2 (f :: q)
    · rw [Tasks.finishProcess_eq h.ring h.running]
      exact h.running
    · rw [Tasks.finishProcess_eq h.ring h.running]
      exact Tasks.RingInv.finish h.ring f
    · exact fun i hi => hi
    · exact hindex
    · rfl
    · exact fun _ => rfl
    · exact hheaps
  · rw [Tasks.finishProcess_eq h.ring h.running]
    rfl
  · intro i
    refine ⟨?_, ?_, ?_⟩
    · rw [Tasks.finishProcess_eq h.ring h.running]
      by_cases hif : i = f <;> simp [isFinished, hif]
    · rw [Tasks.stackPage, hindex]
      rfl
    · rw [Tasks.stack, hindex]
      rfl

/-! ### A process joins -/

/-- What `addProcess` leaves when the new process got node `i`. -/
structure Admitted (t : Tasks) (q : List Nat) (a : ProcessParams) (i : Nat) (t' : Tasks) :
    Prop where
  housed : Housed t' (q ++ [i])
  new : i ∉ q
  isFinished : t'.sched.isFinished i = false
  firstIteration : t'.sched.firstIteration = t.sched.firstIteration
  kept : ∀ j ∈ q, t'.sched.isFinished j = t.sched.isFinished j ∧
    t'.stackPage j = t.stackPage j ∧ t'.stack j = t.stack j
  mem : ∀ x, (∀ k < loopCount a.argc, ¬ SlotByte a.argv k x) →
    ¬ Write.InPage (t'.stackPage i) x → t'.mem x = t.mem x
  frame : (t'.stackPage i).toNat ≤ (t'.stack i).toNat ∧
    (t'.stack i).toNat + 208 ≤ (t'.stackPage i).toNat + PAGE_SIZE.toNat

/-- The page of the next stack is a free one. -/
theorem nextStackPage_free (h : Housed t q) {a : ProcessParams} (hcan : CanCreate t.toMachine a) :
    t.nextStackPage ∈ initialPages ∧ t.nextStackPage ∈ t.pages.free ∧
    t.nextStackTop.toNat = t.nextStackPage.toNat + PAGE_SIZE.toNat := by
  obtain ⟨held, blocks, chain, hheaps⟩ := h.heaps
  have hexcl : Exclusive ⟨t.pages, held 0⟩ := hheaps.exclusive 0 (by decide)
  have hfree : t.pages.free = t.nextStackPage :: _ := hexcl.pop_answer hcan.2.2.1
  have hmem : t.nextStackPage ∈ t.pages.free := by
    rw [hfree]
    exact List.mem_cons_self
  have hpool : t.nextStackPage ∈ initialPages :=
    hexcl.fromPool _ (List.mem_append_right _ hmem)
  have hbounds := initialPages_bounds hpool
  refine ⟨hpool, hmem, ?_⟩
  apply addr_add_toNat (k := 0x2000)
  show t.nextStackPage.toNat + 0x2000 < 2 ^ 64
  omega

/-- No header lies in a free page. -/
theorem header_notFree (h : Housed t q) {page x : Addr} (hpage : page ∈ initialPages)
    (hfree : page ∈ t.pages.free) (hx : Header t.toMachine x) : ¬ Write.InPage page x := by
  obtain ⟨held, blocks, chain, hheaps⟩ := h.heaps
  obtain ⟨k, pages, hk, hchain, heapPage, hmem, hin⟩ := hx
  have hlt : k < pcbEntries := by
    rw [← hheaps.toNat_maxProcesses]
    exact hk
  obtain rfl : pages = chain k := LinkedChain.Chain.unique hchain (hheaps.linked k hlt)
  apply header_notIn (hheaps.pool hlt hmem) hpage _ hin
  rintro rfl
  exact List.disjoint_of_nodup_append (hheaps.exclusive k hlt).distinct
    (hheaps.mem_held hlt hmem) hfree

theorem addProcess (h : Housed t q) {a : ProcessParams} {r : Int} (hclean : AddsCleanly t a)
    (hfree : t.pages.free ≠ []) (hfits : t.Fits a)
    (hslots : ∀ k < loopCount a.argc, ∀ x, SlotByte a.argv k x → ¬ Header t.toMachine x)
    (hadd : t.addProcess a = some (r, t')) : t' = t ∨ ∃ i, Admitted t q a i t' := by
  cases Tasks.addProcess_added hadd with
  | noNode => exact .inl rfl
  | ok i k m hi hunused hcreate =>
    have hcan : CanCreate t.toMachine a :=
      hclean.resolve_left fun hfull => hunused (hfull i hi)
    have hnew : i ∉ q := fun hmem => hunused ((h.ring.used i hi).mpr hmem)
    obtain ⟨mem, sp, rfl, hinit, rfl⟩ := (createProcess_created hcreate).of_canCreate hcan
    obtain ⟨hpool, hpageFree, htop⟩ := h.nextStackPage_free hcan
    have hbounds := initialPages_bounds hpool
    obtain ⟨hmem, hlow, hhigh⟩ := initializeStack_inPage hcan (by omega) hfits hinit
    obtain ⟨held, blocks, chain, hheaps⟩ := h.heaps
    have hfreeEntry := freeEntry_unoccupied hcan.2.1
    have hindex := hcan.toNat_freeEntry
    have hself : ((t.sched.attachNode i (UInt64.ofNat (freeEntry t.pcb))).nodes i).PCBIndex =
        UInt64.ofNat (freeEntry t.pcb) := by
      rw [attachNode_self]
    have hold : ∀ j ∈ q, ((t.sched.attachNode i (UInt64.ofNat (freeEntry t.pcb))).nodes
        j).PCBIndex = (t.sched.nodes j).PCBIndex := by
      intro j hj
      rw [attachNode_ne _ _ _ (fun hji : j = i => hnew (hji ▸ hj))]
    -- the entries of the processes there are differ from the new one
    have hne : ∀ j ∈ q, (t.sched.nodes j).PCBIndex.toNat ≠ freeEntry t.pcb := by
      intro j hj heq
      apply (h.live j hj).2
      rw [Pcb.process, heq]
      exact hfreeEntry
    have hentry : ∀ j ∈ q, (t.withNewProcess (freeEntry t.pcb)
        (t.createdEntry a (freeEntry t.pcb) sp)).entries (t.sched.nodes j).PCBIndex.toNat =
          t.pcb.entries (t.sched.nodes j).PCBIndex.toNat := by
      intro j hj
      exact Pcb.setProcess_ne _ _ _ (hne j hj)
    have hkeep : t.KeepsHeaders mem := by
      rw [keepsHeaders_iff]
      intro x hx
      apply hmem
      · intro k hk hslot
        exact hslots k hk x hslot hx
      · exact h.header_notFree hpool hpageFree hx
    have hheaps' := hheaps.createProcess hcan.2.1 hfree hcreate hkeep
    refine .inr ⟨i, ?_, hnew, attachNode_isFinished_self _ _ _, rfl, ?_, ?_, ?_⟩
    · constructor
      · exact h.running
      · exact h.ring.attachNode hi hnew _
      · exact ⟨_, _, _, hheaps'⟩
      · intro j hj
        by_cases hji : j = i
        · subst hji
          rw [hself]
          refine ⟨?_, ?_⟩
          · rw [UInt64.lt_iff_toNat_lt, hindex]
            exact hcan.2.1
          · rw [Pcb.process, hindex, withNewProcess_entries_self]
            show (1 : UInt64) ≠ 0
            decide
        · have hj' : j ∈ q := by simpa [hji] using hj
          rw [hold j hj']
          refine ⟨(h.live j hj').1, ?_⟩
          rw [Pcb.process, hentry j hj']
          exact (h.live j hj').2
      · intro j hj j' hj' heq
        by_cases hji : j = i <;> by_cases hji' : j' = i
        · rw [hji, hji']
        · have hjq : j' ∈ q := by simpa [hji'] using hj'
          rw [hji, hself, hold j' hjq] at heq
          exact absurd (by rw [← heq, hindex]) (hne j' hjq)
        · have hjq : j ∈ q := by simpa [hji] using hj
          rw [hji', hself, hold j hjq] at heq
          exact absurd (by rw [heq, hindex]) (hne j hjq)
        · have hjq : j ∈ q := by simpa [hji] using hj
          have hjq' : j' ∈ q := by simpa [hji'] using hj'
          rw [hold j hjq, hold j' hjq'] at heq
          exact h.apart j hjq j' hjq' heq
    · intro j hj
      have hji : j ≠ i := fun hji => hnew (hji ▸ hj)
      refine ⟨attachNode_isFinished_ne _ _ _ hji, ?_, ?_⟩
      · rw [Tasks.stackPage, hold j hj, Pcb.process, hentry j hj]
        rfl
      · rw [Tasks.stack, hold j hj, Pcb.process, hentry j hj]
        rfl
    · intro x hslot hx
      apply hmem x hslot
      rw [Tasks.stackPage, hself, Pcb.process, hindex, withNewProcess_entries_self] at hx
      exact hx
    · rw [Tasks.stackPage, Tasks.stack, hself, Pcb.process, hindex, withNewProcess_entries_self]
      show t.nextStackPage.toNat ≤ sp.toNat ∧ sp.toNat + 208 ≤ t.nextStackPage.toNat + _
      omega

end Housed

end TP2Kernel
