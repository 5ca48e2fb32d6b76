import TP2Kernel.Process.Heap

/-! # What `malloc` does to the heap

    A call either takes room in a page of the heap or adds a page with room behind the
    last one.  `Allocated` says what holds then of the machine as a whole; everything else
    about `malloc` follows from it.
-/

namespace TP2Kernel

open LinkedChain PageStack

namespace Machine

variable {m : Machine} {current : PagePointer} {page b : Addr} {pages : List Addr} {i j : Nat}
  {size : UInt64}

/-! ### Stores in headers -/

section
variable (hpage : page ∈ initialPages) (hb : b ∈ initialPages) (v : UInt64)
include hpage hb

theorem storeLink_link (hne : b ≠ page) :
    (m.storeWord page v).mem.readWord b = m.mem.readWord b :=
  Memory.readWord_writeWord_of_apart _ _ ((header_apart hpage hb).2.2 (Ne.symm hne)).1

theorem storeLink_used : (m.storeWord page v).used b = m.used b :=
  Memory.readWord_writeWord_of_apart _ _ (header_apart hpage hb).1

theorem storeUsed_link : (m.storeWord (page + 8) v).mem.readWord b = m.mem.readWord b :=
  Memory.readWord_writeWord_of_apart _ _ (header_apart hpage hb).2.1

theorem storeUsed_used (hne : b ≠ page) : (m.storeWord (page + 8) v).used b = m.used b :=
  Memory.readWord_writeWord_of_apart _ _ ((header_apart hpage hb).2.2 (Ne.symm hne)).2

end

theorem storeLink_self (m : Machine) (page : Addr) (v : UInt64) :
    (m.storeWord page v).mem.readWord page = v :=
  Memory.readWord_writeWord _ _ _

theorem storeUsed_self (m : Machine) (page : Addr) (v : UInt64) :
    (m.storeWord (page + 8) v).used page = v :=
  Memory.readWord_writeWord _ _ _

/-! ### Adding a page -/

/-- The pointer is not in `page`, which is about to be linked. -/
def PagePointer.Outside (page : Addr) : PagePointer → Prop
  | .heapPage _ => True
  | .next previous => previous ∈ initialPages ∧ previous ≠ page

theorem store_link (hcurrent : PagePointer.Outside page current) (hb : b ∈ initialPages)
    (hne : current ≠ .next b) (v : Addr) :
    (m.store v current).mem.readWord b = m.mem.readWord b := by
  cases current with
  | heapPage => rfl
  | next previous =>
    apply storeLink_link hcurrent.1 hb v
    rintro rfl
    exact hne rfl

theorem store_used (hcurrent : PagePointer.Outside page current) (hb : b ∈ initialPages)
    (v : Addr) : (m.store v current).used b = m.used b := by
  cases current with
  | heapPage => rfl
  | next previous => exact storeLink_used hcurrent.1 hb v

theorem store_load (v : Addr) : (m.store v current).load current = v := by
  cases current with
  | heapPage i => simp [store, load, modifyProcess, Pcb.modifyProcess_entries]
  | next previous => exact storeLink_self m previous v

/-- A store in the header of `page` leaves the pointer. -/
theorem storeWord_load (hcurrent : PagePointer.Outside page current) (hpage : page ∈ initialPages)
    {a : Addr} (ha : a = page ∨ a = page + 8) (v : UInt64) :
    (m.storeWord a v).load current = m.load current := by
  cases current with
  | heapPage => rfl
  | next previous =>
    rcases ha with rfl | rfl
    · exact storeLink_link hpage hcurrent.1 v hcurrent.2
    · exact storeUsed_link hpage hcurrent.1 v

/-- The page is linked first and then gets its header. -/
theorem addHeapPage_eq {stack : PageStack} (hpage : page ∈ initialPages)
    (hpop : m.pages.pageManager .POP_PAGE (m.load current) = (stack, page))
    (hcurrent : PagePointer.Outside page current) :
    m.addHeapPage current = ((({ m with pages := stack } : Machine).store page current).storeWord
      page NULL).storeWord (page + 8) pageHeaderSize := by
  simp only [addHeapPage, hpop]
  rw [store_load, storeWord_load hcurrent hpage (Or.inl rfl), store_load]

/-! ### The effect of a call -/

/-- A call took `size` bytes of the page `target` from `start` on, after it had added the
    pages `taken` to those of the heap. -/
structure Allocated (m : Machine) (i : Nat) (pages : List Addr) (size : UInt64)
    (taken : List Addr) (target : Addr) (start : UInt64) (m' : Machine) : Prop where
  free : m.pages.free = taken ++ m'.pages.free
  ready : m'.pages.initialized = true
  entry : ∃ head, m'.pcb = m.pcb.modifyProcess i fun e => { e with heapPage := head }
  chain : m'.HeapChain i (pages ++ taken)
  inHeap : target ∈ pages ++ taken
  onlyTaken : taken = [] ∨ taken = [target]
  header : 16 ≤ start.toNat
  fits : start.toNat + size.toNat ≤ 0x2000
  usedBefore : target ∈ pages → start = m.used target
  used : m'.used target = start + size
  usedElsewhere : ∀ b ∈ initialPages, b ≠ target → m'.used b = m.used b
  linksElsewhere : ∀ b ∈ initialPages, b ∉ pages ++ taken → m'.mem.readWord b = m.mem.readWord b

/-- There is room in a page of the heap. -/
theorem allocated_room (hready : m.pages.initialized = true) (hchain : m.HeapChain i pages)
    (hpool : ∀ p ∈ pages, p ∈ initialPages) (hpage : page ∈ pages)
    (hused : 16 ≤ (m.used page).toNat ∧ (m.used page).toNat ≤ 0x2000)
    (hroom : size ≤ PAGE_SIZE - m.used page) :
    Allocated m i pages size [] page (m.used page)
      (m.storeWord (page + 8) (m.used page + size)) := by
  have hlink : ∀ b ∈ initialPages,
      (m.storeWord (page + 8) (m.used page + size)).mem.readWord b = m.mem.readWord b :=
    fun b hb => storeUsed_link (hpool page hpage) hb _
  refine ⟨rfl, hready, ⟨(m.pcb.entries i).heapPage, ?_⟩, ?_, ?_,
    Or.inl rfl, hused.1, ?_, fun _ => rfl, storeUsed_self m page _,
    fun b hb hne => storeUsed_used (hpool page hpage) hb _ hne, fun b hb _ => hlink b hb⟩
  · show m.pcb = m.pcb.setProcess i (m.pcb.entries i)
    simp [Pcb.setProcess]
  · rw [List.append_nil]
    exact Chain.congr hchain fun a ha => hlink a (hpool a ha)
  · rw [List.append_nil]
    exact hpage
  · have hsub : (PAGE_SIZE - m.used page).toNat = 0x2000 - (m.used page).toNat :=
      UInt64.toNat_sub_of_le _ _ (UInt64.le_iff_toNat_le.mpr hused.2)
    have hle := UInt64.le_iff_toNat_le.mp hroom
    rw [hsub] at hle
    omega

theorem lastPointer_eq (current : PagePointer) (pages : List Addr) :
    lastPointer current pages =
      match pages.getLast? with
      | none => current
      | some last => .next last := by
  induction pages generalizing current with
  | nil => rfl
  | cons p pages ih =>
    rw [lastPointer, ih]
    cases pages with
    | nil => rfl
    | cons q pages => rw [List.getLast?_cons_cons, List.getLast?_cons]

/-- A new page is linked from the heap of the process or from the last page. -/
theorem lastPointer_cases (hcurrent : current = lastPointer (.heapPage i) pages) :
    (pages = [] ∧ current = .heapPage i) ∨
      ∃ last, pages.getLast? = some last ∧ last ∈ pages ∧ current = .next last := by
  rw [lastPointer_eq] at hcurrent
  cases hl : pages.getLast? with
  | none =>
    rw [hl] at hcurrent
    exact Or.inl ⟨List.getLast?_eq_none_iff.mp hl, hcurrent⟩
  | some last =>
    rw [hl] at hcurrent
    exact Or.inr ⟨last, rfl, List.mem_of_getLast? hl, hcurrent⟩

/-- The last pointer leads to a page whose link is `NULL`, and the other links stay. -/
theorem HeapChain.snoc {m' : Machine} (hchain : m.HeapChain i pages) (hnd : pages.Nodup)
    (hcurrent : current = lastPointer (.heapPage i) pages) (hload : m'.load current = page)
    (hhead : pages ≠ [] → (m'.pcb.entries i).heapPage = (m.pcb.entries i).heapPage)
    (hsame : ∀ b ∈ pages, current ≠ .next b → m'.mem.readWord b = m.mem.readWord b)
    (hnull : page ≠ NULL) (hend : m'.mem.readWord page = NULL) :
    m'.HeapChain i (pages ++ [page]) := by
  have hlast := lastPointer_cases hcurrent
  apply Chain.snoc hchain hnd
  · intro hempty
    rcases hlast with ⟨-, rfl⟩ | ⟨last, hlast, -, -⟩
    · exact hload
    · rw [hempty] at hlast
      cases hlast
  · exact hhead
  · intro b hb
    rcases hlast with ⟨hempty, -⟩ | ⟨last, hlast, -, rfl⟩
    · rw [hempty] at hb
      cases hb
    · obtain rfl : last = b := Option.some.inj (hlast.symm.trans hb)
      exact hload
  · intro b hmem hnot
    apply hsame b hmem
    rintro rfl
    apply hnot
    rcases hlast with ⟨-, hcur⟩ | ⟨last, hl, -, hcur⟩
    · cases hcur
    · cases hcur
      exact hl
  · exact hnull
  · exact hend

/-- No page of the heap has room, and a page is added. -/
theorem allocated_added {stack : PageStack} (hchain : m.HeapChain i pages)
    (hpool : ∀ p ∈ pages, p ∈ initialPages) (hnd : pages.Nodup) (hpage : page ∈ initialPages)
    (hnew : page ∉ pages) (hready : stack.initialized = true)
    (hcurrent : current = lastPointer (.heapPage i) pages)
    (hpop : m.pages.pageManager .POP_PAGE (m.load current) = (stack, page))
    (hfree : m.pages.free = page :: stack.free) (hsize : size ≤ PAGE_SIZE - pageHeaderSize) :
    (m.addHeapPage current).load current = page ∧
    (m.addHeapPage current).used page = pageHeaderSize ∧
    Allocated m i pages size [page] page pageHeaderSize
      ((m.addHeapPage current).storeWord (page + 8) (pageHeaderSize + size)) := by
  have hcases := lastPointer_cases hcurrent
  have houtside : PagePointer.Outside page current := by
    rcases hcases with ⟨-, rfl⟩ | ⟨last, -, hmem, rfl⟩
    · trivial
    · refine ⟨hpool last hmem, ?_⟩
      rintro rfl
      exact hnew hmem
  rw [addHeapPage_eq hpage hpop houtside]
  generalize hm₁ : ({ m with pages := stack } : Machine).store page current = m₁
  have hstack : m₁.pages = stack := by
    rw [← hm₁]
    cases current <;> rfl
  have hload : m₁.load current = page := by
    rw [← hm₁]
    exact store_load page
  -- the header of the new page is no other link
  have hsame : ∀ b ∈ initialPages, b ≠ page → current ≠ .next b →
      ((((m₁.storeWord page NULL).storeWord (page + 8) pageHeaderSize).storeWord (page + 8)
        (pageHeaderSize + size)).mem).readWord b = m.mem.readWord b := by
    intro b hb hne hcur
    rw [storeUsed_link hpage hb, storeUsed_link hpage hb, storeLink_link hpage hb _ hne, ← hm₁]
    exact store_link houtside hb hcur page
  refine ⟨?_, storeUsed_self _ page _, ?_, ?_, ?_, ?_, ?_, ?_, by decide, ?_, ?_,
    storeUsed_self _ page _, ?_, ?_⟩
  · rw [storeWord_load houtside hpage (Or.inr rfl), storeWord_load houtside hpage (Or.inl rfl)]
    exact hload
  · show m.pages.free = [page] ++ m₁.pages.free
    rw [hstack]
    exact hfree
  · show m₁.pages.initialized = true
    rw [hstack]
    exact hready
  · show ∃ head, m₁.pcb = m.pcb.modifyProcess i fun e => { e with heapPage := head }
    rw [← hm₁]
    rcases hcases with ⟨-, rfl⟩ | ⟨last, -, -, rfl⟩
    · exact ⟨page, rfl⟩
    · refine ⟨(m.pcb.entries i).heapPage, ?_⟩
      show m.pcb = m.pcb.setProcess i (m.pcb.entries i)
      simp [Pcb.setProcess]
  · apply hchain.snoc hnd hcurrent
    · rw [storeWord_load houtside hpage (Or.inr rfl), storeWord_load houtside hpage (Or.inr rfl),
        storeWord_load houtside hpage (Or.inl rfl)]
      exact hload
    · intro hnonempty
      rcases hcases with ⟨hempty, -⟩ | ⟨last, -, -, rfl⟩
      · exact absurd hempty hnonempty
      · show (m₁.pcb.entries i).heapPage = _
        rw [← hm₁]
        rfl
    · intro b hb hcur
      apply hsame b (hpool b hb) _ hcur
      rintro rfl
      exact hnew hb
    · intro hnull
      have hbounds := initialPages_bounds hpage
      rw [hnull] at hbounds
      exact absurd hbounds.1 (by decide)
    · rw [storeUsed_link hpage hpage, storeUsed_link hpage hpage]
      exact storeLink_self m₁ page NULL
  · exact List.mem_append_right _ List.mem_cons_self
  · exact Or.inr rfl
  · have hle := UInt64.le_iff_toNat_le.mp hsize
    have hroom : (PAGE_SIZE - pageHeaderSize).toNat = 0x2000 - 16 := by decide
    have hheader : pageHeaderSize.toNat = 16 := by decide
    omega
  · exact fun hmem => absurd hmem hnew
  · intro b hb hbp
    rw [storeUsed_used hpage hb _ hbp, storeUsed_used hpage hb _ hbp, storeLink_used hpage hb,
      ← hm₁]
    exact store_used houtside hb page
  · intro b hb hout
    have hbp : b ≠ page := by
      rintro rfl
      exact hout (List.mem_append_right _ List.mem_cons_self)
    apply hsame b hb hbp
    rintro rfl
    rcases hcases with ⟨-, hcur⟩ | ⟨last, -, hmem, hcur⟩
    · cases hcur
    · cases hcur
      exact hout (List.mem_append_left _ hmem)

/-! ### `malloc` -/

/-- What `POP_PAGE` does while a page is free. -/
theorem pop_of_free {stack : PageStack} {held : List Addr} (h : Exclusive ⟨stack, held⟩)
    (hfree : stack.free ≠ []) : ∃ page stack',
      (∀ old, stack.pageManager .POP_PAGE old = (stack', page)) ∧
      stack.free = page :: stack'.free ∧ stack'.initialized = true := by
  have hnull : (stack.pageManager .POP_PAGE NULL).2 ≠ NULL :=
    fun hnull => hfree ((h.pop_null_iff NULL).mp hnull)
  refine ⟨_, _, ?_, h.pop_answer hnull, (exclusive_pop h NULL).ready⟩
  intro old
  have hready : stack.initialized = true := h.ready
  simp [pageManager, hready]

/-- A walk along pages of the pool ends in time. -/
theorem length_lt_walkBound {stack : PageStack} {held : List Addr}
    (h : Exclusive ⟨stack, held⟩) : held.length < walkBound + 1 := by
  have hle : held.length + (STACK_SIZE - stack.stackTop.toNat) ≤ STACK_SIZE := h.length_le
  have hbound : STACK_SIZE < walkBound + 1 := by decide
  omega

/-- While a page is free, `mallocRecursive` finds room. -/
theorem mallocRecursive_allocated (hchain : m.HeapChain i pages)
    (hexcl : Exclusive ⟨m.pages, pages⟩) (hfree : m.pages.free ≠ [])
    (hused : ∀ p ∈ pages, 16 ≤ (m.used p).toNat ∧ (m.used p).toNat ≤ 0x2000)
    (hsize : size ≤ PAGE_SIZE - pageHeaderSize) :
    ∃ taken target start m', m.mallocRecursive (.heapPage i) size (walkBound + 1) =
        some (target + start, m') ∧ Allocated m i pages size taken target start m' := by
  have hpool : ∀ p ∈ pages, p ∈ initialPages :=
    fun p hp => hexcl.fromPool p (List.mem_append_left _ hp)
  have hnd := (List.nodup_append.mp hexcl.distinct).1
  rcases @mallocRecursive_walk m (.heapPage i) pages size _ hchain (length_lt_walkBound hexcl) with
    ⟨page, hpage, hroom, heq⟩ | ⟨hnull, rest, heq⟩
  · exact ⟨[], page, m.used page, _, heq,
      allocated_room hexcl.ready hchain hpool hpage (hused page hpage) hroom⟩
  · obtain ⟨page, stack, hpop, hcons, hready⟩ := pop_of_free hexcl hfree
    have htake : Exclusive ⟨stack, [page] ++ pages⟩ := exclusive_take hexcl hcons hready
    have hpage : page ∈ initialPages := htake.fromPool page (by simp)
    have hnew : page ∉ pages := by
      have hnd' := (List.nodup_append.mp htake.distinct).1
      exact (List.nodup_cons.mp hnd').1
    obtain ⟨hload, hheader, halloc⟩ := allocated_added hchain hpool hnd hpage hnew hready rfl
      (hpop _) hcons hsize
    exact ⟨[page], page, pageHeaderSize, _,
      heq.trans (mallocRecursive_end hnull hload hheader hsize), halloc⟩

/-- The sizes that `malloc` refuses. -/
theorem size_refused_iff (n : Int64) :
    (n < 0 ∨ n.toUInt64 > PAGE_SIZE - pageHeaderSize) ↔ (n.toInt < 0 ∨ 0x2000 - 16 < n.toInt) := by
  have hneg : n < 0 ↔ n.toInt < 0 := Int64.lt_iff_toInt_lt
  rw [hneg]
  by_cases hsign : n.toInt < 0
  · simp [hsign]
  · have hle : 0 ≤ n := by
      rw [Int64.le_iff_toInt_le]
      exact not_lt.mp hsign
    have hnat : n.toUInt64.toNat = n.toInt.toNat := Int64.toNat_toUInt64_of_le hle
    have hroom : (PAGE_SIZE - pageHeaderSize).toNat = 0x2000 - 16 := by decide
    rw [gt_iff_lt, UInt64.lt_iff_toNat_lt, hnat, hroom]
    omega

theorem malloc_refused (PCBIndex : UInt64) {n : Int64}
    (h : n < 0 ∨ n.toUInt64 > PAGE_SIZE - pageHeaderSize) :
    m.malloc PCBIndex n = some (NULL, m) := by
  rcases h with h | h
  · simp [malloc, h]
  · simp [malloc, h]

/-- A size in range is passed on. -/
theorem malloc_accepted {PCBIndex : UInt64} {n : Int64} (hindex : m.pcb.badIndex PCBIndex = false)
    (h : ¬ (n < 0 ∨ n.toUInt64 > PAGE_SIZE - pageHeaderSize)) :
    m.malloc PCBIndex n =
      m.mallocRecursive (.heapPage PCBIndex.toNat) n.toUInt64 (walkBound + 1) := by
  rw [not_or] at h
  simp only [malloc, hindex, h.1, h.2, decide_false, Bool.or_self, Bool.false_eq_true, if_false]

end Machine

end TP2Kernel
