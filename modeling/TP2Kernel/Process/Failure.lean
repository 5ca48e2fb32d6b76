import TP2Kernel.Framework.Transition
import TP2Kernel.Process.Outcome

/-! # Creations that fail

    `createProcess` marks the entry as occupied and takes the stack's page before the
    checks that can still fail, and undoes neither.  So a failed creation leaves no trace
    exactly when it fails before these two, for want of an entry.
-/

namespace TP2Kernel

open Transition

namespace Machine

/-- The error codes of a creation that was attempted: no entry, no stack page, bad
    parameters. -/
def CreationFailed (r : UInt64) : Prop := r = -2 ∨ r = -3 ∨ r = -4

/-- The same entries are occupied and the same pages are free. -/
def NoTrace (m m' : Machine) : Prop :=
  (∀ i, (m'.pcb.entries i).occupied = (m.pcb.entries i).occupied) ∧
  ∀ page, page ∈ m'.pages.free ↔ page ∈ m.pages.free

/-- Nothing is missing for a new process: there are a PCB, a free entry, a page for the
    stack and at least one argument. -/
def CanCreate (m : Machine) (a : ProcessParams) : Prop :=
  m.pcb.pcb ≠ NULL ∧ freeEntry m.pcb < m.pcb.maxProcesses.toNat ∧
  (m.stackPageFor (freeEntry m.pcb)).2 ≠ NULL ∧ a.argc ≠ 0

/-- The creation stops before it takes an entry or lacks nothing. -/
def CreatesCleanly (m : Machine) (a : ProcessParams) : Prop :=
  m.pcb.pcb = NULL ∨ freeEntry m.pcb = m.pcb.maxProcesses.toNat ∨ CanCreate m a

theorem NoTrace.refl (m : Machine) : NoTrace m m := ⟨fun _ => rfl, fun _ => Iff.rfl⟩

theorem NoTrace.trans {m m' m'' : Machine} (h : NoTrace m m') (h' : NoTrace m' m'') :
    NoTrace m m'' :=
  ⟨fun i => (h'.1 i).trans (h.1 i), fun page => (h'.2 page).trans (h.2 page)⟩

variable {m m' : Machine} {a : ProcessParams} {r : UInt64}

theorem CanCreate.toNat_freeEntry (h : CanCreate m a) :
    (UInt64.ofNat (freeEntry m.pcb)).toNat = freeEntry m.pcb :=
  UInt64.toNat_ofNat_of_lt' (h.2.1.trans m.pcb.maxProcesses.toNat_lt)

/-- What is lacking decides between success and failure. -/
theorem Created.failed_iff (h : Created m a r m')
    (hmax : m.pcb.maxProcesses ≤ UInt64.ofNat pcbEntries) :
    2 ^ 63 ≤ r.toNat ↔ ¬ CanCreate m a := by
  cases h with
  | noPcb hnull => exact iff_of_true (by decide) (by simp [CanCreate, hnull])
  | noEntry hnull hfull => exact iff_of_true (by decide) (by simp [CanCreate, hfull])
  | noPage index hnull hidx hlt hpage =>
    subst hidx
    exact iff_of_true (by decide) (by simp [CanCreate, hpage])
  | noArguments index hnull hidx hlt hpage hargc =>
    exact iff_of_true (by decide) (by simp [CanCreate, hargc])
  | ok index mem sp hnull hidx hlt hpage hargc =>
    subst hidx
    have hle : m.pcb.maxProcesses.toNat ≤ pcbEntries := UInt64.le_iff_toNat_le.mp hmax
    have hsmall : (UInt64.ofNat (freeEntry m.pcb)).toNat = freeEntry m.pcb :=
      UInt64.toNat_ofNat_of_lt' (hlt.trans m.pcb.maxProcesses.toNat_lt)
    have hcan : CanCreate m a := ⟨hnull, hlt, hpage, hargc⟩
    simp only [hcan, not_true_eq_false, iff_false, hsmall]
    unfold pcbEntries at hle
    omega

/-- A creation that lacks nothing succeeds. -/
theorem Created.of_canCreate (h : Created m a r m') (hcan : CanCreate m a) :
    ∃ mem sp, r = UInt64.ofNat (freeEntry m.pcb) ∧
      initializeStack m.mem ((m.stackPageFor (freeEntry m.pcb)).2 + PAGE_SIZE) a.entryPoint
        a.argc a.argv = some (0, mem, sp) ∧
      m' = { mem := mem
             pages := (m.stackPageFor (freeEntry m.pcb)).1
             pcb := m.withNewProcess (freeEntry m.pcb)
              (m.createdEntry a (freeEntry m.pcb) sp) } := by
  obtain ⟨hnull, hlt, hpage, hargc⟩ := hcan
  cases h with
  | noPcb h => exact absurd h hnull
  | noEntry _ hfull => exact absurd hfull hlt.ne
  | noPage index _ hidx _ h => exact absurd (hidx ▸ h) hpage
  | noArguments index _ _ _ _ h => exact absurd h hargc
  | ok index mem sp _ hidx _ _ _ hinit =>
    subst hidx
    exact ⟨mem, sp, rfl, hinit, rfl⟩

/-- An entry that was claimed stays claimed. -/
theorem withNewProcess_trace {index : Nat} {e : PcbEntry} {pages : PageStack} {mem : Memory}
    (hfree : (m.pcb.entries index).occupied = 0) (he : e.occupied = 1) :
    ¬ NoTrace m { mem := mem, pages := pages, pcb := m.withNewProcess index e } := by
  intro h
  have := h.1 index
  rw [withNewProcess_entries_self, he, hfree] at this
  exact absurd this (by decide)

theorem Created.noTrace_iff (h : Created m a r m')
    (hmax : m.pcb.maxProcesses ≤ UInt64.ofNat pcbEntries) :
    (CreationFailed r → NoTrace m m') ↔ CreatesCleanly m a := by
  have hfailed := h.failed_iff hmax
  cases h with
  | noPcb hnull => simp [NoTrace.refl, CreatesCleanly, hnull]
  | noEntry hnull hfull => simp [NoTrace.refl, CreatesCleanly, hfull]
  | noPage index hnull hidx hlt hpage =>
    have hclean : ¬ CreatesCleanly m a := by
      subst hidx
      simp [CreatesCleanly, CanCreate, hnull, hlt.ne, hpage]
    have hfree := freeEntry_unoccupied (hidx ▸ hlt)
    rw [← hidx] at hfree
    have htrace : CreationFailed (-3) := .inr (.inl rfl)
    simp only [hclean, iff_false, htrace, forall_true_left]
    exact withNewProcess_trace hfree rfl
  | noArguments index hnull hidx hlt hpage hargc =>
    have hclean : ¬ CreatesCleanly m a := by
      subst hidx
      simp [CreatesCleanly, CanCreate, hnull, hlt.ne, hargc]
    have hfree := freeEntry_unoccupied (hidx ▸ hlt)
    rw [← hidx] at hfree
    have htrace : CreationFailed (-4) := .inr (.inr rfl)
    simp only [hclean, iff_false, htrace, forall_true_left]
    exact withNewProcess_trace hfree rfl
  | ok index mem sp hnull hidx hlt hpage hargc =>
    subst hidx
    have hclean : CreatesCleanly m a := .inr (.inr ⟨hnull, hlt, hpage, hargc⟩)
    simp only [hclean, iff_true]
    intro hfail
    have hge : 2 ^ 63 ≤ (UInt64.ofNat (freeEntry m.pcb)).toNat := by
      rcases hfail with heq | heq | heq <;> rw [heq] <;> decide
    exact absurd ⟨hnull, hlt, hpage, hargc⟩ (hfailed.mp hge)

/-- Calls of `createProcess` that all fail. -/
def failingCreations : System Machine ProcessParams where
  init := fun m => m.pcb.maxProcesses ≤ UInt64.ofNat pcbEntries
  step := fun m a m' => ∃ r, m.createProcess a = some (r, m') ∧ CreationFailed r

/-- **A failed creation leaves no trace** exactly when there is no entry to take, or no
    PCB, or nothing is missing; then any number of failed creations leaves none. -/
theorem failed_createProcess_noTrace_iff (m : Machine)
    (hmax : m.pcb.maxProcesses ≤ UInt64.ofNat pcbEntries) :
    (∀ a r m', m.createProcess a = some (r, m') →
      ((CreationFailed r → NoTrace m m') ↔ CreatesCleanly m a)) ∧
    ∀ as m', (failingCreations.restrict CreatesCleanly).StepsFrom m as m' → NoTrace m m' := by
  refine ⟨fun a r m' h => (createProcess_created h).noTrace_iff hmax, ?_⟩
  intro as m' hrun
  have hinv := hrun.invariant
    (fun s => NoTrace m s ∧ s.pcb.maxProcesses ≤ UInt64.ofNat pcbEntries) ?_
    ⟨NoTrace.refl m, hmax⟩
  · exact hinv.1
  · rintro s a s' ⟨htrace, hs⟩ ⟨hclean, r, hcreate, hfail⟩
    have hcr := createProcess_created hcreate
    refine ⟨htrace.trans ((hcr.noTrace_iff hs).mpr hclean hfail), ?_⟩
    rw [hcr.maxProcesses]
    exact hs

/-- The machine right after `initializePCB`. -/
def fresh : Machine :=
  (initializePCB { mem := fun _ => 0, pages := .popped 0, pcb := .bss fun _ => .zero }).2

/-- A process without arguments, not even its name. -/
def noArguments : ProcessParams := ⟨0, NULL, NULL, 0, NULL⟩

/-- The creation of a process without arguments fails and keeps its entry and its page. -/
theorem createProcess_noArguments_trace :
    ∃ m', fresh.createProcess noArguments = some (-4, m') ∧ CreationFailed (-4) ∧
      (fresh.pcb.entries 0).occupied = 0 ∧ (m'.pcb.entries 0).occupied = 1 ∧
      PageStack.pageAddress 1 = (m'.pcb.entries 0).stackPage ∧ ¬ NoTrace fresh m' := by
  refine ⟨_, rfl, .inr (.inr rfl), rfl, rfl, rfl, ?_⟩
  intro h
  exact absurd (h.1 0) (by decide)

theorem failed_createProcess_noTrace_iff_fresh :
    ¬ CreatesCleanly fresh noArguments ∧
    ∃ m', fresh.createProcess noArguments = some (-4, m') ∧
      ((CreationFailed (-4) → NoTrace fresh m') ↔ CreatesCleanly fresh noArguments) := by
  refine ⟨?_, _, rfl, (failed_createProcess_noTrace_iff fresh (by decide)).1 _ _ _ rfl⟩
  intro h
  rcases h with h | h | ⟨-, -, -, h⟩
  · exact absurd h (by decide)
  · exact absurd h (by decide)
  · exact h rfl

end Machine

end TP2Kernel
