import TP2Kernel.Mutex.Calls
import TP2Kernel.Process.StackWrites
import TP2Kernel.Scheduler.Outcome

/-! # What a creation leaves to its caller

    `createProcess` writes to the new stack page and to the slots of the caller's `argv`,
    which it redirects to the copies of the strings; nothing else in memory changes.  The
    `CREATE_PROCESS` call stores its result as well.
-/

namespace TP2Kernel

namespace Machine

variable {m m' : Machine} {a : ProcessParams} {args : Nat → CString} {r : UInt64}
  {held : List Addr}

/-! ### The rest of memory -/

/-- The creation changed no memory but the new stack page and the slots of `argv`, and no
    entry of the PCB but the new one. -/
structure LeavesAlone (m : Machine) (a : ProcessParams) (m' : Machine) : Prop where
  memory : ∀ x, ¬ Write.InPage m.nextStackPage x →
    (∀ i < a.argc.toNat, ¬ SlotByte a.argv i x) → m'.mem x = m.mem x
  entries : ∀ i, i ≠ freeEntry m.pcb → m'.pcb.entries i = m.pcb.entries i

theorem loopCount_le (argc : UInt64) : loopCount argc ≤ argc.toNat := by
  have hle : (argc - 1).toInt64.toInt ≤ (argc - 1).toNat := by
    show (argc - 1).toBitVec.toInt ≤ (argc - 1).toBitVec.toNat
    rw [BitVec.toInt_eq_toNat_cond]
    split <;> omega
  by_cases hzero : argc = 0
  · rw [hzero]
    decide
  · have hpos : argc.toNat ≠ 0 := fun h => hzero (UInt64.toNat_inj.mp h)
    have hpred : (argc - 1).toNat = argc.toNat - 1 := addr_sub_toNat (k := 1) (by omega)
    unfold loopCount
    omega

/-- The bytes of memory that a creation changes are those pushed and those of the slots. -/
theorem Created.frame (h : Created m a r m') {x : Addr}
    (hx : ∀ w ∈ m.stackWrites a, ¬ w.Covers x)
    (hslot : ∀ i < a.argc.toNat, ¬ SlotByte a.argv i x) : m'.mem x = m.mem x := by
  by_cases hcan : CanCreate m a
  · obtain ⟨hwrites, hpushes⟩ := stackWrites_pushes hcan
    obtain ⟨mem, sp, -, hinit, rfl⟩ := h.of_canCreate hcan
    have hinit : initializeStack m.mem m.nextStackTop a.entryPoint a.argc a.argv =
      some (0, mem, sp) := hinit
    rw [initializeStack_eq_recorded hcan.2.2.2] at hinit
    obtain ⟨q, hq, hresult⟩ := Option.map_eq_some_iff.mp hinit
    obtain rfl : q = (mem, sp) := by simpa using hresult
    rw [hwrites] at hx
    apply hpushes.frame _ hq x _ hx
    intro i hi
    exact hslot i (Nat.lt_of_lt_of_le hi (loopCount_le _))
  · cases h with
    | noPcb | noEntry | noPage | noArguments => rfl
    | ok index mem sp hnull hidx hlt hpage hargc =>
      subst hidx
      exact absurd ⟨hnull, hlt, hpage, hargc⟩ hcan

theorem Created.leavesAlone (h : Created m a r m') (hfits : Fits m a) : LeavesAlone m a m' := by
  constructor
  · intro x hpage hslot
    apply h.frame _ hslot
    intro w hw hcovers
    exact hpage ((stackWrites_inPage_iff m a).mpr hfits w hw x hcovers)
  · intro i hi
    cases h with
    | noPcb | noEntry => rfl
    | noPage index _ hidx => simp [withNewProcess, hidx, hi]
    | noArguments index _ hidx => simp [withNewProcess, hidx, hi]
    | ok index mem sp _ hidx => simp [withNewProcess, hidx, hi]

/-! ### `argv` afterwards -/

/-- The creation succeeds, and leaves `argv` pointing to the copies on the new stack. -/
theorem createProcess_redirects (h : GoodCall m a args) (happart : Apart m a args) :
    Fits m a ∧ ∃ m', m.createProcess a = some (UInt64.ofNat (freeEntry m.pcb), m') ∧
      ∀ i < a.argc.toNat, StringWithin m'.mem
        (m.nextStackTop.toNat - layoutSize args a.argc.toNat) m.nextStackTop.toNat
        (m'.mem.readWord (argvSlot a.argv i)) (args i) := by
  obtain ⟨⟨held, hpages⟩, hcan, hholds, hfits⟩ := h
  obtain ⟨hpage, -⟩ := nextStackTop_bounds hpages hcan.2.2.1
  have hsize : PAGE_SIZE.toNat = 0x2000 := rfl
  have hargs : Arguments m.mem a.argv
      (m.nextStackTop.toNat - layoutSize args a.argc.toNat) m.nextStackTop.toNat args
      a.argc.toNat := ⟨hholds, happart.slots, happart.strings, happart.apart⟩
  constructor
  · rw [Fits, total_stackWrites hcan hargs (by omega) (by omega)]
    exact hfits
  · obtain ⟨final, hinit, hcopies⟩ :=
      @initializeStack_copies args m.mem m.nextStackTop a.entryPoint a.argv a.argc hcan.2.2.2
        hargs (by omega) (by omega)
    obtain ⟨r, m', hcreate⟩ := createProcess_isSome_of_stack m ⟨_, hinit⟩
    obtain ⟨mem, sp, rfl, hinit', rfl⟩ := (createProcess_created hcreate).of_canCreate hcan
    obtain rfl : final = (mem, sp) := by
      have heq : some ((0 : UInt64), final) = some (0, mem, sp) := hinit.symm.trans hinit'
      simpa using heq
    exact ⟨_, hcreate, hcopies⟩

/-- `argv` leads to the strings `args`, all of them on the new stack page. -/
def LeadsToPage (m : Machine) (a : ProcessParams) (args : Nat → CString) (mem : Memory) : Prop :=
  ∀ i < a.argc.toNat, Write.InPage m.nextStackPage (mem.readWord (argvSlot a.argv i)) ∧
    HoldsString mem (mem.readWord (argvSlot a.argv i)) (args i)

/-- The same slots and the same page: what the caller needs of the memory afterwards. -/
def KeepsCopies (m : Machine) (a : ProcessParams) (m' : Machine) (mem : Memory) : Prop :=
  ∀ x, (Write.InPage m.nextStackPage x ∨ ∃ i < a.argc.toNat, SlotByte a.argv i x) →
    mem x = m'.mem x

theorem KeepsCopies.leadsToPage {mem : Memory} (h : GoodCall m a args)
    (hkeeps : KeepsCopies m a m' mem)
    (hcopies : ∀ i < a.argc.toNat, StringWithin m'.mem
      (m.nextStackTop.toNat - layoutSize args a.argc.toNat) m.nextStackTop.toNat
      (m'.mem.readWord (argvSlot a.argv i)) (args i)) : LeadsToPage m a args mem := by
  obtain ⟨held, hpages⟩ := h.pages
  obtain ⟨k, hk, hpage, htop⟩ := nextStackTop_pool hpages h.canCreate.2.2.1
  have hfits := h.fits
  have hsize : PAGE_SIZE.toNat = 0x2000 := rfl
  have hbase : m.nextStackPage.toNat = 0x10000000 + k * 0x2000 := by
    rw [nextStackPage, hpage, PageStack.pageAddress_toNat hk]
  unfold STACK_SIZE at hk
  have hin : ∀ x : Addr, m.nextStackTop.toNat - layoutSize args a.argc.toNat ≤ x.toNat →
      x.toNat < m.nextStackTop.toNat → Write.InPage m.nextStackPage x := by
    intro x hlo hhi
    rw [Write.InPage, addr_sub_toNat_lt_iff (by omega)]
    omega
  intro i hi
  have hslot : mem.readWord (argvSlot a.argv i) = m'.mem.readWord (argvSlot a.argv i) :=
    readWord_argvSlot fun x hx => hkeeps x (.inr ⟨i, hi, hx⟩)
  have hstring := hcopies i hi
  have hlower := hstring.lower
  have hupper := hstring.upper
  rw [hslot]
  constructor
  · exact hin _ hlower (by omega)
  · apply hstring.holds.copy hstring.holds.1
    intro j hj
    have hbyte := @addr_add_toNat (m'.mem.readWord (argvSlot a.argv i)) j (by omega)
    apply hkeeps
    left
    apply hin
    · omega
    · omega

/-- Two pages that were handed out one after the other do not overlap. -/
theorem createProcess_pages (hpages : pageOwnership.Reachable ⟨m.pages, held⟩)
    (hcan : CanCreate m a) (hcreate : m.createProcess a = some (r, m')) (hcan' : CanCreate m' a) :
    (∃ held', pageOwnership.Reachable ⟨m'.pages, held'⟩) ∧
    (m.nextStackTop.toNat + PAGE_SIZE.toNat ≤ m'.nextStackTop.toNat ∨
      m'.nextStackTop.toNat + PAGE_SIZE.toNat ≤ m.nextStackTop.toNat) := by
  obtain ⟨mem, sp, -, -, hm'⟩ := (createProcess_created hcreate).of_canCreate hcan
  have hpop : m'.pages = (m.stackPageFor (freeEntry m.pcb)).1 := by rw [hm']
  have hheld : pageOwnership.Reachable ⟨m'.pages, m.nextStackPage :: held⟩ := by
    have hstep : pageOwnership.Reachable
        (Ownership.pop ⟨m.pages, held⟩ (m.pcb.entries (freeEntry m.pcb)).stackPage) :=
      .step .pop hpages ⟨_, rfl⟩
    have hnull : (m.pages.pageManager .POP_PAGE
        (m.pcb.entries (freeEntry m.pcb)).stackPage).2 ≠ NULL := hcan.2.2.1
    rw [Ownership.pop, if_neg hnull] at hstep
    rw [hpop]
    exact hstep
  refine ⟨⟨_, hheld⟩, ?_⟩
  -- the second page was free when the first one was held
  have hexclusive := exclusive_reachable hheld
  have hfree : m'.nextStackPage ∈ m'.pages.free := by
    rw [hexclusive.pop_answer hcan'.2.2.1]
    exact List.mem_cons_self
  have hne : m.nextStackPage ≠ m'.nextStackPage := by
    intro heq
    have hnodup := hexclusive.distinct
    rw [List.cons_append, List.nodup_cons] at hnodup
    apply hnodup.1
    apply List.mem_append_right
    rw [heq]
    exact hfree
  obtain ⟨i, _, hpage, htop⟩ := nextStackTop_pool hpages hcan.2.2.1
  obtain ⟨j, _, hpage', htop'⟩ := nextStackTop_pool hheld hcan'.2.2.1
  have hij : i ≠ j := by
    intro heq
    apply hne
    rw [nextStackPage, nextStackPage, hpage, hpage', heq]
  have hsize : PAGE_SIZE.toNat = 0x2000 := rfl
  omega

/-- The same `argv` can be used again while the copies are there: the second process starts
    with the same strings. -/
theorem createProcess_again (h : GoodCall m a args) (happart : Apart m a args)
    (hcreate : m.createProcess a = some (r, m')) (hcan' : CanCreate m' a)
    (hslots : ∀ i < a.argc.toNat, ∀ x, SlotByte a.argv i x → m'.OutsideFrame a args x) :
    m'.StartsWith a args := by
  obtain ⟨-, m'', hcreate', hcopies⟩ := createProcess_redirects h happart
  obtain rfl : m'' = m' := by
    have heq := hcreate'.symm.trans hcreate
    simpa using (Prod.mk.inj (Option.some.inj heq)).2
  obtain ⟨held, hpages⟩ := h.pages
  obtain ⟨hheld, hdisjoint⟩ := createProcess_pages hpages h.canCreate hcreate hcan'
  obtain ⟨htop, -⟩ := nextStackTop_bounds hpages h.canCreate.2.2.1
  have hlt := m.nextStackTop.toNat_lt
  have hfits := h.fits
  -- a byte of a copy
  have hbyte : ∀ i < a.argc.toNat, ∀ j ≤ (args i).length,
      m.nextStackTop.toNat - layoutSize args a.argc.toNat ≤
        (m''.mem.readWord (argvSlot a.argv i) + UInt64.ofNat j).toNat ∧
      (m''.mem.readWord (argvSlot a.argv i) + UInt64.ofNat j).toNat < m.nextStackTop.toNat := by
    intro i hi j hj
    have hlower := (hcopies i hi).lower
    have hupper := (hcopies i hi).upper
    rw [addr_add_toNat (by omega)]
    omega
  apply createProcess_starts ⟨hheld, hcan', fun i hi => (hcopies i hi).holds, hfits⟩ hslots
  · intro i hi j hj
    obtain ⟨hlower, hupper⟩ := hbyte i hi j hj
    unfold OutsideFrame Outside
    omega
  · -- the slots lie outside of the first stack, the copies inside
    intro i hi j hj k _ hk hx
    obtain ⟨hlower, hupper⟩ := hbyte i hi j hj
    have hout := happart.slots k hk _ hx
    unfold OutsideFrame Outside at hout
    omega

end Machine

/-! ### `CREATE_PROCESS` -/

namespace Kernel

open Machine

/-- The parameters of the call, as it reads them. -/
def creationParams (k : Kernel) (p1 : Addr) : ProcessParams :=
  createProcessParams k.mem p1 k.getCurrentPID

/-- The call has changed no memory but what the creation may change and its result. -/
structure LeavesAlone (k : Kernel) (p1 p2 : Addr) (k' : Kernel) : Prop where
  memory : ∀ x, ¬ Write.InPage k.nextStackPage x →
    (∀ i < (k.creationParams p1).argc.toNat, ¬ SlotByte (k.creationParams p1).argv i x) →
    ¬ (x - p2).toNat < 8 → k'.mem x = k.mem x
  entries : ∀ i, i ≠ freeEntry k.pcb → k'.pcb.entries i = k.pcb.entries i

variable {k : Kernel} {p1 p2 : Addr}

theorem addProcess_leavesAlone {t : Tasks} {result : Int}
    (hfits : Fits k.toMachine (k.creationParams p1))
    (h : k.addProcess (k.creationParams p1) = some (result, t)) :
    LeavesAlone k p1 p2 { k with toTasks := t } := by
  cases Tasks.addProcess_added h with
  | noNode => exact ⟨fun _ _ _ _ => rfl, fun _ _ => rfl⟩
  | ok i index m _ _ hcreate =>
    have hleaves := (createProcess_created hcreate).leavesAlone hfits
    exact ⟨fun x hpage hslot _ => hleaves.memory x hpage hslot, hleaves.entries⟩

end Kernel

namespace Mutexes

open Machine Kernel

/-- `n` steps of the call, with nothing in between. -/
def createSteps (p1 p2 : Addr) (s : Mutexes) : Nat → Mutexes × Creating
  | 0 => (s, .lock)
  | n + 1 => (createSteps p1 p2 s n).1.createStep p1 p2 (createSteps p1 p2 s n).2

variable {s s' : Mutexes} {p1 p2 : Addr}

/-- What holds at each point: up to `addProcess` the kernel is as it was. -/
def Untouched (k : Kernel) (p1 p2 : Addr) (s : Mutexes) : Creating → Prop
  | .lock | .add => s.kernel = k
  | .store _ | .unlock _ | .done _ => LeavesAlone k p1 p2 s.kernel

theorem untouched_step {k : Kernel} {point : Creating}
    (hfits : Fits k.toMachine (k.creationParams p1)) (h : Untouched k p1 p2 s point) :
    Untouched k p1 p2 (s.createStep p1 p2 point).1 (s.createStep p1 p2 point).2 := by
  cases point with
  | lock =>
    have hkernel : s.kernel = k := h
    rw [createStep]
    by_cases hlast : (mutexLock s.createProcessMutex).1 = true
    · simp only [hlast, if_true]
      exact hkernel
    · simp only [hlast]
      exact hkernel
  | add =>
    obtain rfl : s.kernel = k := h
    rw [createStep]
    cases hadd : s.kernel.addProcess
        (createProcessParams s.kernel.mem p1 s.kernel.getCurrentPID) with
    | none => rfl
    | some added =>
      obtain ⟨result, t⟩ := added
      exact addProcess_leavesAlone hfits hadd
  | store result =>
    have hleaves : LeavesAlone k p1 p2 s.kernel := h
    constructor
    · intro x hpage hslot hresult
      have hstore : s.kernel.mem.writeWord p2 (Int64.ofInt result).toUInt64 x =
          s.kernel.mem x := by
        rw [Memory.writeWord_apply, if_neg hresult]
      exact hstore.trans (hleaves.memory x hpage hslot hresult)
    · exact hleaves.entries
  | unlock result => exact h
  | done result => exact h

/-- From its first step to the last the call touches nothing else. -/
theorem createSteps_untouched (hfits : Fits s.kernel.toMachine (s.kernel.creationParams p1))
    (n : Nat) :
    Untouched s.kernel p1 p2 (createSteps p1 p2 s n).1 (createSteps p1 p2 s n).2 := by
  induction n with
  | zero => rfl
  | succ n ih => exact untouched_step hfits ih

theorem Untouched.leavesAlone {k : Kernel} {point : Creating} (h : Untouched k p1 p2 s point) :
    LeavesAlone k p1 p2 s.kernel := by
  cases point with
  | lock | add =>
    obtain rfl : s.kernel = k := h
    exact ⟨fun _ _ _ _ => rfl, fun _ _ => rfl⟩
  | store _ | unlock _ | done _ => exact h

/-- Whatever else runs in between, each step of the call touches nothing else. -/
theorem createStep_leavesAlone (hfits : Fits s.kernel.toMachine (s.kernel.creationParams p1))
    (point : Creating) : s.kernel.LeavesAlone p1 p2 (s.createStep p1 p2 point).1.kernel := by
  have hstart : Untouched s.kernel p1 p2 s point := by
    cases point with
    | lock | add => rfl
    | store _ | unlock _ | done _ => exact ⟨fun _ _ _ _ => rfl, fun _ _ => rfl⟩
  exact (untouched_step hfits hstart).leavesAlone

end Mutexes

namespace Machine

open Mutexes

/-- **What a creation leaves to its caller.**  A creation whose stack fits, and the call
    `CREATE_PROCESS` at each of its steps, changes nothing else but the slots of `argv`.
    For arguments that lie apart these lead to copies of the strings in the new page, so
    that a second creation with the same `argv` starts with the same strings. -/
theorem creation_leavesCaller (m : Machine) (a : ProcessParams) :
    (Fits m a →
      (∀ r m', m.createProcess a = some (r, m') → LeavesAlone m a m') ∧
      ∀ (s : Mutexes) (p1 p2 : Addr), s.kernel.toMachine = m →
        s.kernel.creationParams p1 = a →
        (∀ n, s.kernel.LeavesAlone p1 p2 (createSteps p1 p2 s n).1.kernel) ∧
        ∀ point, s.kernel.LeavesAlone p1 p2 (s.createStep p1 p2 point).1.kernel) ∧
    ∀ args, GoodCall m a args → Apart m a args →
      Fits m a ∧ ∃ m', m.createProcess a = some (UInt64.ofNat (freeEntry m.pcb), m') ∧
        (∀ mem, KeepsCopies m a m' mem → LeadsToPage m a args mem) ∧
        (CanCreate m' a →
          (∀ i < a.argc.toNat, ∀ x, SlotByte a.argv i x → m'.OutsideFrame a args x) →
          m'.StartsWith a args) := by
  constructor
  · intro hfits
    constructor
    · intro r m' hcreate
      exact (createProcess_created hcreate).leavesAlone hfits
    · intro s p1 p2 hm ha
      rw [← hm, ← ha] at hfits
      constructor
      · intro n
        exact (createSteps_untouched hfits n).leavesAlone
      · exact createStep_leavesAlone hfits
  · intro args hgood happart
    obtain ⟨hfits, m', hcreate, hcopies⟩ := createProcess_redirects hgood happart
    refine ⟨hfits, m', hcreate, ?_, ?_⟩
    · intro mem hkeeps
      exact hkeeps.leadsToPage hgood hcopies
    · intro hcan' hslots
      exact createProcess_again hgood happart hcreate hcan' hslots

theorem creation_leavesCaller_separate :
    ∃ m', separate.createProcess (callWith 2) = some (0, m') ∧
      LeavesAlone separate (callWith 2) m' ∧
      LeadsToPage separate (callWith 2) separateArgs m'.mem := by
  obtain ⟨hframe, hcopies⟩ := creation_leavesCaller separate (callWith 2)
  obtain ⟨hfits, m', hcreate, hleads, -⟩ := hcopies separateArgs separate_good separate_apart
  refine ⟨m', hcreate, (hframe hfits).1 _ _ hcreate, ?_⟩
  apply hleads
  intro x _
  rfl

/-- The slots of `argv` do change. -/
theorem separate_redirected :
    separate.GoodCall (callWith 2) separateArgs ∧ Apart separate (callWith 2) separateArgs ∧
    ∃ m', separate.createProcess (callWith 2) = some (0, m') ∧
      m'.mem.readWord (argvSlot 0x1000 0) ≠ separate.mem.readWord (argvSlot 0x1000 0) ∧
      ¬ ∀ x, ¬ Write.InPage separate.nextStackPage x → m'.mem x = separate.mem x := by
  obtain ⟨-, m', hcreate, hcopies⟩ := createProcess_redirects separate_good separate_apart
  have hbefore : separate.mem.readWord (argvSlot 0x1000 0) = 0x2000 := by
    decide +kernel
  have hafter : m'.mem.readWord (argvSlot 0x1000 0) ≠
      separate.mem.readWord (argvSlot 0x1000 0) := by
    have hlower := (hcopies 0 (by decide)).lower
    have htop : separate.nextStackTop.toNat - layoutSize separateArgs 2 = 0x10003F10 := by decide
    intro heq
    have hlower : separate.nextStackTop.toNat - layoutSize separateArgs 2 ≤
      (m'.mem.readWord (argvSlot 0x1000 0)).toNat := hlower
    rw [heq, hbefore, htop] at hlower
    exact absurd hlower (by decide)
  refine ⟨separate_good, separate_apart, m', hcreate, hafter, ?_⟩
  intro hsame
  apply hafter
  apply readWord_argvSlot
  intro x hx
  apply hsame
  have hbelow : (argvSlot 0x1000 0).toNat = 0x1000 := by decide
  have hpage : separate.nextStackPage.toNat = 0x10002000 := by decide
  have hsize : PAGE_SIZE.toNat = 0x2000 := rfl
  rw [SlotByte, addr_sub_toNat_lt_iff (by omega)] at hx
  rw [Write.InPage, addr_sub_toNat_lt_iff (by omega)]
  omega

end Machine

end TP2Kernel
