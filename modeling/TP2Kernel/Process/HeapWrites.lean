import TP2Kernel.Process.Heaps

/-! # What `malloc` writes

    `malloc` writes the headers of pages only: those of the heap it extends, and that of
    the page it takes.  Every other byte of memory stays.
-/

namespace TP2Kernel

open LinkedChain PageStack

/-- A byte of the header of `page`. -/
def InHeader (page x : Addr) : Prop := (x - page).toNat < 16

theorem inHeader_iff {page x : Addr} :
    InHeader page x ↔ ∃ k < 16, x = page + UInt64.ofNat k := by
  constructor
  · intro h
    exact ⟨(x - page).toNat, h, (addr_sub_toNat_eq_iff (x - page).toNat_lt).mp rfl⟩
  · rintro ⟨k, hk, rfl⟩
    have hoffset : (page + UInt64.ofNat k - page).toNat = k :=
      (addr_sub_toNat_eq_iff (by omega)).mpr rfl
    rw [InHeader, hoffset]
    exact hk

namespace Machine

variable {m m' : Machine} {page x p : Addr} {v : UInt64} {i : Nat} {pages : List Addr}

theorem storeWord_frame (hx : ¬ InHeader page x) :
    (m.storeWord page v).mem x = m.mem x ∧ (m.storeWord (page + 8) v).mem x = m.mem x := by
  have hlink : ¬ (x - page).toNat < 8 := fun h => hx (h.trans (by decide))
  have hused : ¬ (x - (page + 8)).toNat < 8 := by
    intro h
    apply hx
    have hdistance : x - page = x - (page + 8) + 8 := by grind
    have hlt : (x - (page + 8)).toNat + (8 : UInt64).toNat < 2 ^ 64 := by
      show (x - (page + 8)).toNat + 8 < 2 ^ 64
      omega
    rw [InHeader, hdistance, UInt64.toNat_add, Nat.mod_eq_of_lt hlt]
    show (x - (page + 8)).toNat + 8 < 16
    omega
  constructor
  · show m.mem.writeWord page v x = _
    rw [Memory.writeWord_apply, if_neg hlink]
  · show m.mem.writeWord (page + 8) v x = _
    rw [Memory.writeWord_apply, if_neg hused]

/-- The page that is linked behind the last one, and its header. -/
theorem addHeapPage_frame {stack : PageStack} {current : PagePointer}
    (hpool : ∀ p ∈ pages, p ∈ initialPages) (hcurrent : current = lastPointer (.heapPage i) pages)
    (hpage : page ∈ initialPages) (hnew : page ∉ pages)
    (hpop : m.pages.pageManager .POP_PAGE (m.load current) = (stack, page))
    (hheap : ∀ p ∈ pages, ¬ InHeader p x) (hx : ¬ InHeader page x) :
    (m.addHeapPage current).mem x = m.mem x := by
  rcases lastPointer_cases hcurrent with ⟨-, rfl⟩ | ⟨last, -, hmem, rfl⟩
  · rw [addHeapPage_eq hpage hpop trivial, (storeWord_frame hx).2, (storeWord_frame hx).1]
    rfl
  · have houtside : PagePointer.Outside page (.next last) := by
      refine ⟨hpool last hmem, ?_⟩
      rintro rfl
      exact hnew hmem
    rw [addHeapPage_eq hpage hpop houtside, (storeWord_frame hx).2, (storeWord_frame hx).1]
    exact (@storeWord_frame { m with pages := stack } last x page (hheap last hmem)).1

end Machine

namespace HeapsInv

variable {s : Heaps} {chain : Nat → List Addr} {m' : Machine} {p x : Addr} {k : UInt64} {n : Int64}

/-- **Only headers are written**: bytes that lie neither in a header of the heap nor in a
    free page stay. -/
theorem malloc_frame (h : HeapsInv s chain) (hfree : s.pages.free ≠ [])
    (hk : k < s.pcb.maxProcesses) (hm : s.malloc k n = some (p, m'))
    (hheap : ∀ page ∈ chain k.toNat, ¬ InHeader page x)
    (hnew : ∀ page ∈ s.pages.free, ¬ InHeader page x) : m'.mem x = s.mem x := by
  have hi := h.toNat_lt hk
  have hexcl := h.exclusive_chain hi
  by_cases hsize : n < 0 ∨ n.toUInt64 > PAGE_SIZE - pageHeaderSize
  · rw [Machine.malloc_refused k hsize] at hm
    obtain ⟨-, rfl⟩ := Prod.mk.inj (Option.some.inj hm)
    rfl
  · have hle : n.toUInt64 ≤ PAGE_SIZE - pageHeaderSize := by
      rw [not_or] at hsize
      exact UInt64.not_lt.mp hsize.2
    rw [Machine.malloc_accepted (h.badIndex_eq hk) hsize] at hm
    have hpool : ∀ page ∈ chain k.toNat, page ∈ initialPages := fun page => h.pool hi
    rcases @Machine.mallocRecursive_walk s.toMachine (.heapPage k.toNat) (chain k.toNat)
      n.toUInt64 _ (h.linked k.toNat hi) (Machine.length_lt_walkBound hexcl) with
      ⟨page, hpage, -, heq⟩ | ⟨hnull, rest, heq⟩
    · -- a page of the heap has room
      obtain ⟨-, rfl⟩ := Prod.mk.inj (Option.some.inj (heq.symm.trans hm))
      exact (Machine.storeWord_frame (hheap page hpage)).2
    · -- a free page is added
      obtain ⟨page, stack, hpop, hcons, hready⟩ := Machine.pop_of_free hexcl hfree
      have htake : Exclusive ⟨stack, [page] ++ chain k.toNat⟩ := exclusive_take hexcl hcons hready
      have hpage : page ∈ initialPages := htake.fromPool page (by simp)
      have hout : page ∉ chain k.toNat := by
        have hnd := (List.nodup_append.mp htake.distinct).1
        exact (List.nodup_cons.mp hnd).1
      have hxpage : ¬ InHeader page x := by
        apply hnew
        rw [hcons]
        exact List.mem_cons_self
      obtain ⟨hload, hheader, -⟩ := Machine.allocated_added (h.linked k.toNat hi) hpool
        (List.nodup_append.mp hexcl.distinct).1 hpage hout hready rfl (hpop _) hcons hle
      have hend := heq.trans (Machine.mallocRecursive_end hnull hload hheader hle)
      obtain ⟨-, rfl⟩ := Prod.mk.inj (Option.some.inj (hend.symm.trans hm))
      rw [(Machine.storeWord_frame hxpage).2]
      exact Machine.addHeapPage_frame hpool rfl hpage hout (hpop _) hheap hxpage

end HeapsInv

end TP2Kernel
