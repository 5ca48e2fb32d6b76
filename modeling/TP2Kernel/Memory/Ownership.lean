import TP2Kernel.Framework.Transition
import TP2Kernel.Memory.PageStack

/-! # Who owns which page

    The allocator together with its clients: the pages handed out by `POP_PAGE` and
    not given back with `PUSH_PAGE`.  A client only gives back a page it was handed.

    `exclusive_ownership`: a page is never free and handed out at once, and never
    handed out twice.
-/

namespace TP2Kernel

open Transition

/-- The allocator and the pages its clients hold. -/
structure Ownership where
  stack : PageStack
  outstanding : List Addr

/-- What a client asks `pageManager` for. -/
inductive PageRequest where
  | pop
  | push (page : Addr)

namespace Ownership

/-- `POP_PAGE` into a variable that held `old`; a `NULL` answer hands nothing out. -/
def pop (s : Ownership) (old : Addr) : Ownership :=
  let answer := s.stack.pageManager .POP_PAGE old
  { stack := answer.1
    outstanding := if answer.2 = NULL then s.outstanding else answer.2 :: s.outstanding }

def push (s : Ownership) (page : Addr) : Ownership :=
  { stack := (s.stack.pageManager .PUSH_PAGE page).1
    outstanding := s.outstanding.erase page }

end Ownership

/-- The allocator in use, from `initializePageStack` on. -/
def pageOwnership : System Ownership PageRequest where
  init := fun s => s.stack = PageStack.bss.initializePageStack ∧ s.outstanding = []
  step := fun s a s' =>
    match a with
    | .pop => ∃ old, s' = s.pop old
    | .push page => page ∈ s.outstanding ∧ s' = s.push page

namespace PageStack

/-! ### The pages of the pool -/

/-- The `STACK_SIZE` page addresses the pool starts with. -/
def initialPages : List Addr := (List.range STACK_SIZE).map pageAddress

theorem initialPages_nodup : initialPages.Nodup := by
  refine List.Nodup.map_on ?_ List.nodup_range
  intro i hi j hj heq
  have h := congrArg UInt64.toNat heq
  rw [pageAddress_toNat (List.mem_range.mp hi), pageAddress_toNat (List.mem_range.mp hj)] at h
  omega

theorem NULL_not_mem_initialPages : NULL ∉ initialPages := by
  intro h
  obtain ⟨i, hi, heq⟩ := List.mem_map.mp h
  exact pageAddress_ne_null (List.mem_range.mp hi) heq

theorem initializePageStack_free :
    bss.initializePageStack.free = initialPages := by
  show (List.range' 0 STACK_SIZE).map bss.initializePageStack.pageStack = initialPages
  rw [← List.range_eq_range', initialPages]
  apply List.map_congr_left
  intro i hi
  simp [initializePageStack, List.mem_range.mp hi]

end PageStack

/-! ### The invariant -/

/-- Free and handed-out pages are pairwise distinct pages of the pool. -/
structure Exclusive (s : Ownership) : Prop where
  ready : s.stack.initialized = true
  distinct : (s.outstanding ++ s.stack.free).Nodup
  fromPool : ∀ page ∈ s.outstanding ++ s.stack.free, page ∈ PageStack.initialPages

theorem exclusive_init {s : Ownership} (h : pageOwnership.init s) : Exclusive s := by
  obtain ⟨hstack, hout⟩ := h
  have hfree : s.stack.free = PageStack.initialPages := by
    rw [hstack, PageStack.initializePageStack_free]
  refine ⟨by rw [hstack]; rfl, ?_, ?_⟩
  · rw [hout, hfree, List.nil_append]
    exact PageStack.initialPages_nodup
  · intro page hmem
    rwa [hout, hfree, List.nil_append] at hmem

/-- What the next `POP_PAGE` hands out is the first free page. -/
theorem Exclusive.pop_answer {s : Ownership} (hs : Exclusive s) {old : Addr}
    (h : (s.stack.pageManager .POP_PAGE old).2 ≠ NULL) :
    s.stack.free = (s.stack.pageManager .POP_PAGE old).2 ::
      (s.stack.pageManager .POP_PAGE old).1.free := by
  by_cases htop : s.stack.stackTop.toNat < STACK_SIZE
  · simpa [PageStack.pageManager, hs.ready] using PageStack.popPage_free htop
  · simp [PageStack.pageManager, hs.ready, PageStack.popPage_exhausted htop] at h

/-- No more pages are handed out than the pool has, the free ones counted. -/
theorem Exclusive.length_le {s : Ownership} (h : Exclusive s) :
    s.outstanding.length + (STACK_SIZE - s.stack.stackTop.toNat) ≤ STACK_SIZE := by
  have hsub : (s.outstanding ++ s.stack.free) ⊆ PageStack.initialPages :=
    fun p hp => h.fromPool p hp
  have hle := (List.subperm_of_subset h.distinct hsub).length_le
  have hlen : PageStack.initialPages.length = STACK_SIZE := by
    rw [PageStack.initialPages, List.length_map, List.length_range]
  have hfree : s.stack.free.length = STACK_SIZE - s.stack.stackTop.toNat := by
    simp [PageStack.free]
  rwa [hlen, List.length_append, hfree] at hle

/-- A page that is handed out was popped. -/
theorem Exclusive.stackTop_pos {s : Ownership} (h : Exclusive s) {page : Addr}
    (hmem : page ∈ s.outstanding) : 0 < s.stack.stackTop.toNat := by
  have hle := h.length_le
  have hpos := List.length_pos_of_mem hmem
  have hsize : 0 < STACK_SIZE := by decide
  omega

theorem exclusive_pop {s : Ownership} (hs : Exclusive s) (old : Addr) :
    Exclusive (s.pop old) := by
  have hready : (s.stack.pageManager .POP_PAGE old).1.initialized = true := by
    by_cases htop : s.stack.stackTop.toNat < STACK_SIZE <;>
      simp [PageStack.pageManager, hs.ready, PageStack.popPage, htop]
  by_cases hnull : (s.stack.pageManager .POP_PAGE old).2 = NULL
  · -- a page of the pool is not `NULL`, so nothing was popped
    have hsame : (s.stack.pageManager .POP_PAGE old).1 = s.stack := by
      by_cases htop : s.stack.stackTop.toNat < STACK_SIZE
      · have hcons := PageStack.popPage_free htop
        have hpop : s.stack.popPage.2 = NULL := by
          simpa [PageStack.pageManager, hs.ready] using hnull
        exact absurd (hs.fromPool NULL (by simp [hcons, hpop]))
          PageStack.NULL_not_mem_initialPages
      · simp [PageStack.pageManager, hs.ready, PageStack.popPage_exhausted htop]
    have : s.pop old = s := by
      simp [Ownership.pop, hnull, hsame]
    rw [this]
    exact hs
  · have hfree := hs.pop_answer hnull
    have hperm : ((s.pop old).outstanding ++ (s.pop old).stack.free).Perm
        (s.outstanding ++ s.stack.free) := by
      simp only [Ownership.pop, hnull, if_false, hfree, List.cons_append]
      exact List.perm_middle.symm
    exact ⟨hready, hperm.nodup_iff.mpr hs.distinct,
      fun page hmem => hs.fromPool page (hperm.mem_iff.mp hmem)⟩

theorem exclusive_push {s : Ownership} (hs : Exclusive s) {page : Addr}
    (hheld : page ∈ s.outstanding) : Exclusive (s.push page) := by
  have hpush : (s.stack.pageManager .PUSH_PAGE page).1 = s.stack.pushPage page := by
    simp [PageStack.pageManager, hs.ready]
  have hperm : (s.outstanding ++ s.stack.free).Perm
      (page :: (s.outstanding.erase page ++ s.stack.free)) :=
    (List.perm_cons_erase hheld).append_right _
  by_cases hopen : 0 < s.stack.stackTop.toNat ∧ s.stack.stackTop.toNat < STACK_SIZE
  · have hback : ((s.push page).outstanding ++ (s.push page).stack.free).Perm
        (s.outstanding ++ s.stack.free) := by
      simp only [Ownership.push, hpush, PageStack.pushPage_free hopen.1 hopen.2]
      exact List.perm_middle.trans hperm.symm
    refine ⟨?_, hback.nodup_iff.mpr hs.distinct,
      fun p hmem => hs.fromPool p (hback.mem_iff.mp hmem)⟩
    simp only [Ownership.push, hpush, PageStack.pushPage]
    split <;> exact hs.ready
  · -- the page is refused and belongs to nobody from now on
    have hsame : (s.push page).stack = s.stack := by
      simp only [Ownership.push, hpush, PageStack.pushPage_refused hopen]
    have hsub : ((s.push page).outstanding ++ (s.push page).stack.free).Sublist
        (page :: (s.outstanding.erase page ++ s.stack.free)) := by
      rw [hsame]
      exact List.sublist_cons_self _ _
    refine ⟨by rw [hsame]; exact hs.ready, (hperm.nodup_iff.mp hs.distinct).sublist hsub, ?_⟩
    intro p hmem
    exact hs.fromPool p (hperm.mem_iff.mpr (hsub.subset hmem))

/-! ### Lists of pages -/

/-- What is said of all the pages handed out holds of some of them. -/
theorem Exclusive.sublist {stack : PageStack} {held held' : List Addr}
    (h : Exclusive ⟨stack, held⟩) (hsub : held'.Sublist held) : Exclusive ⟨stack, held'⟩ := by
  have hsub' : (held' ++ stack.free).Sublist (held ++ stack.free) :=
    hsub.append (List.Sublist.refl _)
  exact ⟨h.ready, h.distinct.sublist hsub', fun p hp => h.fromPool p (hsub'.subset hp)⟩

theorem Exclusive.perm {stack : PageStack} {held held' : List Addr}
    (h : Exclusive ⟨stack, held⟩) (hperm : held'.Perm held) : Exclusive ⟨stack, held'⟩ := by
  have hperm' : (held' ++ stack.free).Perm (held ++ stack.free) := hperm.append_right _
  exact ⟨h.ready, hperm'.nodup_iff.mpr h.distinct,
    fun p hp => h.fromPool p (hperm'.mem_iff.mp hp)⟩

theorem Exclusive.append {stack : PageStack} {held held' : List Addr}
    (h : Exclusive ⟨stack, held⟩) (h' : Exclusive ⟨stack, held'⟩)
    (hdisjoint : held.Disjoint held') : Exclusive ⟨stack, held ++ held'⟩ := by
  refine ⟨h.ready, ?_, ?_⟩
  · show (held ++ held' ++ stack.free).Nodup
    rw [List.append_assoc]
    apply (List.nodup_append.mp h.distinct).1.append h'.distinct
    intro p hp hmem
    rcases List.mem_append.mp hmem with hmem | hmem
    · exact hdisjoint hp hmem
    · exact List.disjoint_of_nodup_append h.distinct hp hmem
  · intro p hp
    rw [List.append_assoc] at hp
    rcases List.mem_append.mp hp with hp | hp
    · exact h.fromPool p (List.mem_append_left _ hp)
    · exact h'.fromPool p hp

/-- Pages that leave the stack belong to whoever popped them. -/
theorem exclusive_take {stack stack' : PageStack} {held taken : List Addr}
    (h : Exclusive ⟨stack, held⟩) (hfree : stack.free = taken ++ stack'.free)
    (hready : stack'.initialized = true) : Exclusive ⟨stack', taken ++ held⟩ := by
  have hperm : (taken ++ held ++ stack'.free).Perm (held ++ stack.free) := by
    rw [hfree, ← List.append_assoc]
    exact List.perm_append_comm.append_right _
  exact ⟨hready, hperm.nodup_iff.mpr h.distinct, fun p hp => h.fromPool p (hperm.mem_iff.mp hp)⟩

namespace PageStack

/-- Pushes pages one after the other. -/
def pushAll (stack : PageStack) (pages : List Addr) : PageStack :=
  pages.foldl (fun stack page => (stack.pageManager .PUSH_PAGE page).1) stack

end PageStack

/-- While a page is free, pages that are handed out come back all, each of them once. -/
theorem exclusive_give {stack : PageStack} {pages held : List Addr}
    (h : Exclusive ⟨stack, pages ++ held⟩) (hfree : stack.free ≠ []) :
    (stack.pushAll pages).free = pages.reverse ++ stack.free ∧
    Exclusive ⟨stack.pushAll pages, held⟩ := by
  induction pages generalizing stack with
  | nil => exact ⟨rfl, h⟩
  | cons page pages ih =>
    have hmem : page ∈ page :: pages ++ held := List.mem_cons_self
    have hpush := exclusive_push h hmem
    have hstack : (stack.pageManager .PUSH_PAGE page).1 = stack.pushPage page := by
      have hready : stack.initialized = true := h.ready
      simp [PageStack.pageManager, hready]
    have hout : (page :: pages ++ held).erase page = pages ++ held := by
      rw [List.cons_append, List.erase_cons_head]
    have htop : stack.stackTop.toNat < STACK_SIZE := by
      by_contra htop
      apply hfree
      apply List.eq_nil_of_length_eq_zero
      simp only [PageStack.free, List.length_map, List.length_range']
      omega
    have hback := @PageStack.pushPage_free stack page (h.stackTop_pos hmem) htop
    simp only [Ownership.push, hout, hstack] at hpush
    obtain ⟨hrest, hexcl⟩ := ih hpush (by rw [hback]; exact List.cons_ne_nil _ _)
    have hall : stack.pushAll (page :: pages) = (stack.pushPage page).pushAll pages := by
      rw [← hstack]
      rfl
    rw [hall, hrest, hback, List.reverse_cons, List.append_assoc]
    exact ⟨rfl, hexcl⟩

theorem exclusive_reachable {s : Ownership} (h : pageOwnership.Reachable s) :
    Exclusive s := by
  refine h.invariant Exclusive (fun _ => exclusive_init) ?_
  intro s a s' hs hstep
  cases a with
  | pop =>
    obtain ⟨old, rfl⟩ := hstep
    exact exclusive_pop hs old
  | push page =>
    obtain ⟨hheld, rfl⟩ := hstep
    exact exclusive_push hs hheld

/-- **Exclusive page ownership.** In every state reached by popping pages and pushing
    back pages that are handed out, the outstanding and the free pages are pairwise
    distinct pages of the pool, and what `POP_PAGE` yields next, unless `NULL`, is a page
    of the pool that nobody holds. -/
theorem exclusive_ownership {s : Ownership} (h : pageOwnership.Reachable s) :
    (s.outstanding ++ s.stack.free).Nodup ∧
    (∀ page ∈ s.outstanding ++ s.stack.free, page ∈ PageStack.initialPages) ∧
    ∀ old, (s.stack.pageManager .POP_PAGE old).2 ≠ NULL →
      (s.stack.pageManager .POP_PAGE old).2 ∈ PageStack.initialPages ∧
      (s.stack.pageManager .POP_PAGE old).2 ∉ s.outstanding := by
  have hs := exclusive_reachable h
  refine ⟨hs.distinct, hs.fromPool, ?_⟩
  intro old hne
  have hmem : (s.stack.pageManager .POP_PAGE old).2 ∈ s.stack.free := by
    rw [hs.pop_answer hne]
    exact List.mem_cons_self
  refine ⟨hs.fromPool _ (List.mem_append_right _ hmem), ?_⟩
  intro hheld
  exact List.disjoint_of_nodup_append hs.distinct hheld hmem

/-- Two pages are popped and the first one is given back. -/
theorem exclusive_ownership_pop_pop_push :
    ∃ s, pageOwnership.Reachable s ∧ s.outstanding = [PageStack.pageAddress 1] ∧
      (s.stack.pageManager .POP_PAGE NULL).2 = PageStack.pageAddress 0 ∧
      PageStack.pageAddress 0 ∈ PageStack.initialPages ∧
      PageStack.pageAddress 0 ∉ s.outstanding := by
  have h₀ : pageOwnership.Reachable ⟨PageStack.bss.initializePageStack, []⟩ :=
    .init ⟨rfl, rfl⟩
  have h₁ : pageOwnership.Reachable _ := .step .pop h₀ ⟨NULL, rfl⟩
  have h₂ : pageOwnership.Reachable _ := .step .pop h₁ ⟨NULL, rfl⟩
  have h : pageOwnership.Reachable _ := .step (.push (PageStack.pageAddress 0)) h₂
    ⟨by decide, rfl⟩
  exact ⟨_, h, rfl, rfl, (exclusive_ownership h).2.2 NULL (by decide)⟩

end TP2Kernel
