import TP2Kernel.Memory.Ownership

/-! # No page is lost, unless the stack is exhausted

    The pages that `POP_PAGE` still yields and the pages handed out are `STACK_SIZE`
    together.  `pushPage` accepts a page only while `stackTop < STACK_SIZE`: once all pages
    are handed out, the next one that comes back is dropped, and so are all after it.
-/

namespace TP2Kernel

open Transition

namespace PageStack

/-- What successive calls of `POP_PAGE` yield until the first `NULL`, in at most `n` calls. -/
def popAll (m : PageStack) : Nat → List Addr
  | 0 => []
  | n + 1 =>
    match m.pageManager .POP_PAGE NULL with
    | (m, page) => if page = NULL then [] else page :: popAll m n

/-- The pages that can still be obtained. -/
def obtainable (m : PageStack) : List Addr := m.popAll STACK_SIZE

theorem length_free (m : PageStack) : m.free.length = STACK_SIZE - m.stackTop.toNat := by
  simp [free]

/-- They are the pages of the array from `stackTop` on. -/
theorem popAll_eq_free {m : PageStack} {n : Nat} (hready : m.initialized = true)
    (hnull : NULL ∉ m.free) (hlen : m.free.length ≤ n) : m.popAll n = m.free := by
  induction n generalizing m with
  | zero =>
    show [] = m.free
    exact (List.eq_nil_of_length_eq_zero (Nat.le_zero.mp hlen)).symm
  | succ n ih =>
    by_cases htop : m.stackTop.toNat < STACK_SIZE
    · have hfree := popPage_free htop
      have hpop : m.pageManager .POP_PAGE NULL = m.popPage := by
        simp [pageManager, hready]
      -- the page is one of the pool, so it does not end the loop
      have hpage : m.popPage.2 ≠ NULL := by
        intro heq
        rw [hfree, heq] at hnull
        exact hnull List.mem_cons_self
      have hready' : m.popPage.1.initialized = true := by
        simp [popPage, htop, hready]
      rw [hfree, List.mem_cons, not_or] at hnull
      rw [hfree, List.length_cons] at hlen
      simp only [popAll, hpop, if_neg hpage]
      rw [ih hready' hnull.2 (by omega), ← hfree]
    -- past the end of the array nothing is left
    · have hempty : m.free = [] := by
        apply List.eq_nil_of_length_eq_zero
        rw [length_free]
        omega
      simp [popAll, pageManager, hready, popPage_exhausted htop, hempty]

end PageStack

/-! ### Conservation -/

/-- Every page can be obtained or is handed out, and `POP_PAGE` fails only when all are
    handed out. -/
structure Conserved (s : Ownership) : Prop where
  total : s.stack.obtainable.length + s.outstanding.length = STACK_SIZE
  exhausted : ∀ old, (s.stack.pageManager .POP_PAGE old).2 = NULL →
    s.outstanding.length = STACK_SIZE

/-- No page is pushed while all of them are handed out. -/
def PushAccepted (s : Ownership) : PageRequest → Prop
  | .pop => True
  | .push _ => s.stack.stackTop.toNat < STACK_SIZE

variable {s s' : Ownership}

theorem Exclusive.null_not_mem (h : Exclusive s) : NULL ∉ s.stack.free := fun hmem =>
  PageStack.NULL_not_mem_initialPages (h.fromPool NULL (List.mem_append_right _ hmem))

theorem Exclusive.obtainable_eq (h : Exclusive s) : s.stack.obtainable = s.stack.free := by
  unfold PageStack.obtainable
  apply PageStack.popAll_eq_free h.ready h.null_not_mem
  rw [PageStack.length_free]
  exact Nat.sub_le _ _

/-- `NULL` is the answer of an empty stack only. -/
theorem Exclusive.pop_null_iff (h : Exclusive s) (old : Addr) :
    (s.stack.pageManager .POP_PAGE old).2 = NULL ↔ s.stack.free = [] := by
  constructor
  · intro hnull
    by_contra hne
    have htop : s.stack.stackTop.toNat < STACK_SIZE := by
      by_contra htop
      apply hne
      apply List.eq_nil_of_length_eq_zero
      rw [PageStack.length_free]
      omega
    have hmem : NULL ∈ s.stack.free := by
      rw [PageStack.popPage_free htop, List.mem_cons]
      left
      simpa [PageStack.pageManager, h.ready] using hnull.symm
    exact h.null_not_mem hmem
  · intro hempty
    by_contra hne
    rw [h.pop_answer hne] at hempty
    exact List.cons_ne_nil _ _ hempty

/-- The two parts of the property are one. -/
theorem Exclusive.conserved_iff (h : Exclusive s) :
    Conserved s ↔ s.stack.free.length + s.outstanding.length = STACK_SIZE := by
  constructor
  · intro hcons
    rw [← h.obtainable_eq]
    exact hcons.total
  · intro htotal
    refine ⟨by rw [h.obtainable_eq]; exact htotal, ?_⟩
    intro old hnull
    rw [h.pop_null_iff] at hnull
    rw [hnull, List.length_nil, Nat.zero_add] at htotal
    exact htotal

theorem conserved_init (h : pageOwnership.init s) : Conserved s := by
  apply (exclusive_init h).conserved_iff.mpr
  obtain ⟨hstack, hout⟩ := h
  have hlen : PageStack.initialPages.length = STACK_SIZE := by
    rw [PageStack.initialPages, List.length_map, List.length_range]
  rw [hstack, hout, PageStack.initializePageStack_free, hlen, List.length_nil, Nat.add_zero]

theorem conserved_pop (hs : Exclusive s) (h : Conserved s) (old : Addr) :
    Conserved (s.pop old) := by
  rw [hs.conserved_iff] at h
  rw [(exclusive_pop hs old).conserved_iff]
  by_cases hnull : (s.stack.pageManager .POP_PAGE old).2 = NULL
  · have hempty := (hs.pop_null_iff old).mp hnull
    have htop : ¬ s.stack.stackTop.toNat < STACK_SIZE := by
      intro htop
      rw [PageStack.popPage_free htop] at hempty
      exact List.cons_ne_nil _ _ hempty
    simpa [Ownership.pop, PageStack.pageManager, hs.ready, PageStack.popPage_exhausted htop]
      using h
  · rw [hs.pop_answer hnull, List.length_cons] at h
    simp only [Ownership.pop, if_neg hnull, List.length_cons]
    omega

/-- A page that comes back is kept if and only if the stack accepts it. -/
theorem conserved_push_iff (hs : Exclusive s) (h : Conserved s) {page : Addr}
    (hheld : page ∈ s.outstanding) :
    Conserved (s.push page) ↔ s.stack.stackTop.toNat < STACK_SIZE := by
  rw [hs.conserved_iff] at h
  rw [(exclusive_push hs hheld).conserved_iff]
  have hpush : (s.push page).stack = s.stack.pushPage page := by
    simp [Ownership.push, PageStack.pageManager, hs.ready]
  have hout : (s.push page).outstanding.length = s.outstanding.length - 1 :=
    List.length_erase_of_mem hheld
  have hpos : 0 < s.outstanding.length := List.length_pos_of_mem hheld
  have hlen := PageStack.length_free s.stack
  by_cases htop : s.stack.stackTop.toNat < STACK_SIZE
  -- it moves from those handed out to those obtainable
  · have hback : (s.push page).stack.free.length = s.stack.free.length + 1 := by
      rw [hpush, PageStack.pushPage_free (by omega) htop, List.length_cons]
    rw [hback, hout]
    constructor
    · exact fun _ => htop
    · intro _
      omega
  · -- the page is neither handed out nor on the stack
    rw [hpush, PageStack.pushPage_refused (fun hopen => htop hopen.2), hout]
    constructor
    · intro htotal
      omega
    · exact fun htop' => absurd htop' htop

theorem conserved_reachable (h : (pageOwnership.restrict PushAccepted).Reachable s) :
    Exclusive s ∧ Conserved s := by
  apply h.invariant (fun s => Exclusive s ∧ Conserved s)
  · exact fun s hinit => ⟨exclusive_init hinit, conserved_init hinit⟩
  · rintro s action s' ⟨hs, hcons⟩ ⟨hok, hstep⟩
    cases action with
    | pop =>
      obtain ⟨old, rfl⟩ := hstep
      exact ⟨exclusive_pop hs old, conserved_pop hs hcons old⟩
    | push page =>
      obtain ⟨hheld, rfl⟩ := hstep
      exact ⟨exclusive_push hs hheld, (conserved_push_iff hs hcons hheld).mpr hok⟩

/-- As long as no page is pushed on an exhausted stack every page is accounted for; the
    first push on an exhausted stack loses one. -/
theorem conserved_iff_pushAccepted (h : (pageOwnership.restrict PushAccepted).Reachable s) :
    Conserved s ∧
    ∀ action s', pageOwnership.step s action s' → (Conserved s' ↔ PushAccepted s action) := by
  obtain ⟨hs, hcons⟩ := conserved_reachable h
  refine ⟨hcons, ?_⟩
  intro action s' hstep
  cases action with
  | pop =>
    obtain ⟨old, rfl⟩ := hstep
    exact ⟨fun _ => trivial, fun _ => conserved_pop hs hcons old⟩
  | push page =>
    obtain ⟨hheld, rfl⟩ := hstep
    exact conserved_push_iff hs hcons hheld

/-- A page is popped and comes back. -/
theorem conserved_iff_pushAccepted_pop_push :
    ∃ s s' : Ownership, (pageOwnership.restrict PushAccepted).Reachable s ∧
      s.outstanding = [PageStack.pageAddress 0] ∧
      pageOwnership.step s (.push (PageStack.pageAddress 0)) s' ∧ Conserved s' := by
  have h₀ : (pageOwnership.restrict PushAccepted).Reachable
      ⟨PageStack.bss.initializePageStack, []⟩ := .init ⟨rfl, rfl⟩
  obtain ⟨s, hs⟩ : ∃ s, s = Ownership.pop ⟨PageStack.bss.initializePageStack, []⟩ NULL := ⟨_, rfl⟩
  have h₁ : (pageOwnership.restrict PushAccepted).Reachable s :=
    .step .pop h₀ ⟨trivial, NULL, hs⟩
  have hheld : s.outstanding = [PageStack.pageAddress 0] := by
    rw [hs]
    rfl
  have hstep : pageOwnership.step s (.push (PageStack.pageAddress 0)) (s.push _) :=
    ⟨by rw [hheld]; exact List.mem_cons_self, rfl⟩
  refine ⟨s, _, h₁, hheld, hstep, ((conserved_iff_pushAccepted h₁).2 _ _ hstep).mpr ?_⟩
  show s.stack.stackTop.toNat < STACK_SIZE
  rw [hs]
  decide

/-! ### Exhaustion -/

/-- The first `k` pages, the last one first. -/
def firstPages : Nat → List Addr
  | 0 => []
  | k + 1 => PageStack.pageAddress k :: firstPages k

/-- Popping goes on until nothing is left. -/
theorem popped_reachable {k : Nat} (hk : k ≤ STACK_SIZE) :
    pageOwnership.Reachable ⟨.popped (UInt16.ofNat k), firstPages k⟩ := by
  induction k with
  | zero => exact .init ⟨rfl, rfl⟩
  | succ k ih =>
    have hlt : (UInt16.ofNat k).toNat = k := by
      apply UInt16.toNat_ofNat_of_lt'
      unfold STACK_SIZE at hk
      show k < 2 ^ 16
      omega
    have hpop := PageStack.popped_pop (k := UInt16.ofNat k) (by omega) NULL
    have hpage := PageStack.pageAddress_ne_null (i := k) (by omega)
    rw [hlt] at hpop
    refine .step .pop (ih (by omega)) ⟨NULL, ?_⟩
    simp only [Ownership.pop, hpop, if_neg hpage]
    rw [UInt16.ofNat_add k 1]
    rfl

/-- All pages are handed out, one comes back, and can not be obtained again. -/
theorem exhausted_push_lost : ¬ ∀ s, pageOwnership.Reachable s → Conserved s := by
  intro hclaim
  obtain ⟨k, hk⟩ : ∃ k, STACK_SIZE = k + 1 := ⟨32767, rfl⟩
  have h := popped_reachable (Nat.le_of_eq hk.symm)
  have hs := exclusive_reachable h
  have hheld : PageStack.pageAddress k ∈ firstPages (k + 1) := List.mem_cons_self
  have hpush := hclaim _ (.step (.push _) h ⟨hheld, rfl⟩)
  rw [conserved_push_iff hs (hclaim _ h) hheld, ← hk] at hpush
  exact absurd hpush (show ¬ (UInt16.ofNat STACK_SIZE).toNat < STACK_SIZE by decide)

end TP2Kernel
