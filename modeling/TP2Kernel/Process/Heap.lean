import TP2Kernel.Framework.LinkedChain
import TP2Kernel.Memory.Conservation
import TP2Kernel.Memory.Words
import TP2Kernel.Process.Outcome

/-! # The heap of a process (`Kernel/c/process.c`)

    The pages of a heap are linked, in the order in which they were popped.  The first
    word of a page points to the next page, the second counts the bytes in use, this
    header included; the data follow.  `malloc` takes the first page that has room, and
    adds one when there is none.
-/

namespace TP2Kernel

open LinkedChain

/-- `sizeof(void *) + sizeof(uint64_t)`. -/
def pageHeaderSize : UInt64 := 16

/-- A `void **` of the heap: the pointer to the first page, or that to the page after
    another one. -/
inductive PagePointer where
  | heapPage (PCBIndex : Nat)
  | next (page : Addr)

namespace Machine

/-- `*current`. -/
def load (m : Machine) : PagePointer → Addr
  | .heapPage PCBIndex => (m.pcb.entries PCBIndex).heapPage
  | .next page => m.mem.readWord page

/-- `*current = page`. -/
def store (m : Machine) (page : Addr) : PagePointer → Machine
  | .heapPage PCBIndex => m.modifyProcess PCBIndex fun e => { e with heapPage := page }
  | .next previous => { m with mem := m.mem.writeWord previous page }

def storeWord (m : Machine) (a : Addr) (v : UInt64) : Machine :=
  { m with mem := m.mem.writeWord a v }

/-- What `mallocRecursive` does at the end of the heap: pops a page, links it and sets up
    its header.  The test for `NULL` that follows the pop is about `current` itself, which
    is never `NULL`. -/
def addHeapPage (m : Machine) (current : PagePointer) : Machine :=
  match m.pages.pageManager .POP_PAGE (m.load current) with
  | (pages, page) =>
    let m := { m with pages := pages }.store page current
    let m := m.storeWord (m.load current) NULL
    m.storeWord (m.load current + 8) pageHeaderSize

/-- `none` when the pages are linked in a circle and none of them has room. -/
def mallocRecursive (m : Machine) (current : PagePointer) (size : UInt64) :
    Nat → Option (Addr × Machine)
  | 0 => none
  | fuel + 1 =>
    let m := if m.load current = NULL then m.addHeapPage current else m
    let currentSize := m.load current + 8
    if size ≤ PAGE_SIZE - m.mem.readWord currentSize then
      let result := m.load current + m.mem.readWord currentSize
      some (result, m.storeWord currentSize (m.mem.readWord currentSize + size))
    else m.mallocRecursive (.next (m.load current)) size fuel

def malloc (m : Machine) (PCBIndex : UInt64) (size : Int64) : Option (Addr × Machine) :=
  if m.pcb.badIndex PCBIndex || size < 0 || size.toUInt64 > PAGE_SIZE - pageHeaderSize then
    some (NULL, m)
  else m.mallocRecursive (.heapPage PCBIndex.toNat) size.toUInt64 (walkBound + 1)

/-- `none` when the pages are linked in a circle. -/
def recursiveGetProcessMemoryAmount (mem : Memory) (currentPage : Addr) : Nat → Option UInt64
  | 0 => none
  | fuel + 1 =>
    if currentPage = NULL then some 0
    else
      match recursiveGetProcessMemoryAmount mem (mem.readWord currentPage) fuel with
      | none => none
      | some amount => some (1 + amount)

def getProcessMemoryAmount (m : Machine) (PCBIndex : UInt64) : Option UInt64 :=
  if m.pcb.badIndex PCBIndex then some NULL
  else
    match recursiveGetProcessMemoryAmount m.mem (m.pcb.process PCBIndex).heapPage
        (walkBound + 1) with
    | none => none
    | some amount => some (PAGE_SIZE * (1 + amount))

/-! ### Pages of the pool -/

/-- The second word of a page. -/
def used (m : Machine) (page : Addr) : UInt64 := m.mem.readWord (page + 8)

/-- The pages of the heap of entry `i`. -/
def HeapChain (m : Machine) (i : Nat) (pages : List Addr) : Prop :=
  Chain m.mem.readWord NULL (m.pcb.entries i).heapPage pages

end Machine

namespace PageStack

variable {p q : Addr}

theorem initialPages_bounds (hp : p ∈ initialPages) :
    0x10000000 ≤ p.toNat ∧ p.toNat + 0x2000 ≤ 0x20000000 := by
  obtain ⟨i, hi, rfl⟩ := List.mem_map.mp hp
  have hlt := List.mem_range.mp hi
  rw [pageAddress_toNat hlt]
  unfold STACK_SIZE at hlt
  omega

/-- Two pages do not overlap. -/
theorem initialPages_apart (hp : p ∈ initialPages) (hq : q ∈ initialPages) (h : p ≠ q) :
    p.toNat + 0x2000 ≤ q.toNat ∨ q.toNat + 0x2000 ≤ p.toNat := by
  obtain ⟨i, hi, rfl⟩ := List.mem_map.mp hp
  obtain ⟨j, hj, rfl⟩ := List.mem_map.mp hq
  rw [pageAddress_toNat (List.mem_range.mp hi), pageAddress_toNat (List.mem_range.mp hj)]
  have hij : i ≠ j := by
    rintro rfl
    exact h rfl
  omega

theorem header_toNat (hp : p ∈ initialPages) : (p + 8).toNat = p.toNat + 8 := by
  have hbounds := initialPages_bounds hp
  exact addr_add_toNat (k := 8) (by omega)

/-- The two words of a header. -/
theorem header_apart (hp : p ∈ initialPages) (hq : q ∈ initialPages) :
    Memory.Apart p (q + 8) ∧ Memory.Apart (p + 8) q ∧
    (p ≠ q → Memory.Apart p q ∧ Memory.Apart (p + 8) (q + 8)) := by
  have hbp := initialPages_bounds hp
  have hbq := initialPages_bounds hq
  have hhp := header_toNat hp
  have hhq := header_toNat hq
  unfold Memory.Apart
  rw [hhp, hhq]
  by_cases h : p = q
  · subst h
    refine ⟨by omega, by omega, fun hne => absurd rfl hne⟩
  · have hpq := initialPages_apart hp hq h
    refine ⟨by omega, by omega, fun _ => ⟨by omega, by omega⟩⟩

end PageStack

namespace Machine

/-! ### Walking along the heap -/

/-- The pointer at the end of the pages behind `current`. -/
def lastPointer (current : PagePointer) : List Addr → PagePointer
  | [] => current
  | page :: pages => lastPointer (.next page) pages

variable {m : Machine} {current : PagePointer} {pages : List Addr} {size : UInt64} {fuel : Nat}

/-- The first page with room is taken; if no page has room, the walk comes to the end of
    the heap. -/
theorem mallocRecursive_walk
    (hchain : Chain m.mem.readWord NULL (m.load current) pages) (hfuel : pages.length < fuel) :
    (∃ page ∈ pages, size ≤ PAGE_SIZE - m.used page ∧
      m.mallocRecursive current size fuel =
        some (page + m.used page, m.storeWord (page + 8) (m.used page + size))) ∨
    (m.load (lastPointer current pages) = NULL ∧ ∃ rest,
      m.mallocRecursive current size fuel =
        m.mallocRecursive (lastPointer current pages) size (rest + 1)) := by
  induction pages generalizing current fuel with
  | nil =>
    obtain ⟨rest, rfl⟩ := Nat.exists_eq_add_of_lt hfuel
    exact Or.inr ⟨hchain, _, rfl⟩
  | cons page pages ih =>
    obtain ⟨rest, rfl⟩ := Nat.exists_eq_add_of_lt hfuel
    obtain ⟨hload, hne, hnext⟩ := hchain
    by_cases hroom : size ≤ PAGE_SIZE - m.mem.readWord (page + 8)
    · refine Or.inl ⟨page, List.mem_cons_self, hroom, ?_⟩
      simp only [mallocRecursive, hload, if_neg hne, if_pos hroom, used]
    · have hskip : m.mallocRecursive current size ((page :: pages).length + rest + 1) =
          m.mallocRecursive (.next page) size ((page :: pages).length + rest) := by
        simp only [mallocRecursive, hload, if_neg hne, if_neg hroom]
      rw [hskip]
      have hlonger : pages.length < (page :: pages).length + rest := by
        rw [List.length_cons]
        omega
      rcases @ih (.next page) _ hnext hlonger with ⟨target, htarget, hfits, heq⟩ | hend
      · exact Or.inl ⟨target, List.mem_cons_of_mem page htarget, hfits, heq⟩
      · exact Or.inr hend

/-- At the end of the heap a page is added, and it has room. -/
theorem mallocRecursive_end {page : Addr} (hnull : m.load current = NULL)
    (hload : (m.addHeapPage current).load current = page)
    (hused : (m.addHeapPage current).used page = pageHeaderSize)
    (hsize : size ≤ PAGE_SIZE - pageHeaderSize) :
    m.mallocRecursive current size (fuel + 1) = some (page + pageHeaderSize,
      (m.addHeapPage current).storeWord (page + 8) (pageHeaderSize + size)) := by
  unfold used at hused
  simp only [mallocRecursive, if_pos hnull, hload, hused, if_pos hsize]

/-- The walk that counts the pages. -/
theorem recursiveGetProcessMemoryAmount_chain {mem : Memory} {currentPage : Addr}
    (hchain : Chain mem.readWord NULL currentPage pages) (hfuel : pages.length < fuel) :
    recursiveGetProcessMemoryAmount mem currentPage fuel = some (UInt64.ofNat pages.length) := by
  induction pages generalizing currentPage fuel with
  | nil =>
    obtain ⟨rest, rfl⟩ := Nat.exists_eq_add_of_lt hfuel
    rw [show currentPage = NULL from hchain]
    rfl
  | cons page pages ih =>
    obtain ⟨rest, rfl⟩ := Nat.exists_eq_add_of_lt hfuel
    obtain ⟨rfl, hne, hnext⟩ := hchain
    have hlonger : pages.length < (currentPage :: pages).length + rest := by
      rw [List.length_cons]
      omega
    have hrest := ih hnext hlonger
    simp only [recursiveGetProcessMemoryAmount, if_neg hne, hrest]
    rw [List.length_cons, UInt64.ofNat_add, UInt64.add_comm]
    rfl

/-- The walk that gives the pages back, the last one on top. -/
theorem freePages_chain {mem : Memory} {stack : PageStack} {currentPage : Addr}
    (hchain : Chain mem.readWord NULL currentPage pages) (hfuel : pages.length < fuel) :
    freePages mem stack currentPage fuel =
      some (stack.pushAll pages) := by
  induction pages generalizing currentPage fuel stack with
  | nil =>
    obtain ⟨rest, rfl⟩ := Nat.exists_eq_add_of_lt hfuel
    rw [show currentPage = NULL from hchain]
    rfl
  | cons page pages ih =>
    obtain ⟨rest, rfl⟩ := Nat.exists_eq_add_of_lt hfuel
    obtain ⟨rfl, hne, hnext⟩ := hchain
    have hlonger : pages.length < (currentPage :: pages).length + rest := by
      rw [List.length_cons]
      omega
    simp only [freePages, if_neg hne]
    exact ih hnext hlonger

end Machine

end TP2Kernel
