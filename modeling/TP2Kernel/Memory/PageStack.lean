import Mathlib.Data.UInt
import Mathlib.Data.List.Range
import Mathlib.Logic.Function.Basic
import TP2Kernel.Framework.Word

/-! # The page allocator (`Kernel/c/memory.c`)

    The free pages of the system are kept in an array used as a stack that grows
    downwards: `pageStack[stackTop .. STACK_SIZE - 1]` are the free ones.
-/

namespace TP2Kernel

/-- An address, or a pointer. -/
abbrev Addr := UInt64

def NULL : Addr := 0

def PAGE_SIZE : UInt64 := 0x2000

def STACK_POSITION : Addr := 0x10000000

/-- 256 MiB divided into 8 KiB pages. -/
def STACK_SIZE : Nat := 32768

inductive PageAction where
  | PUSH_PAGE
  | POP_PAGE
  deriving DecidableEq, Repr

/-- The static variables of `memory.c`. -/
structure PageStack where
  pageStack : Nat → Addr
  stackTop : UInt16
  initialized : Bool

namespace PageStack

/-- The variables as the loader leaves them. -/
def bss : PageStack where
  pageStack := fun _ => NULL
  stackTop := 0
  initialized := false

/-- The `i`-th page of the pool. -/
def pageAddress (i : Nat) : Addr := STACK_POSITION + UInt64.ofNat i * PAGE_SIZE

def initializePageStack (m : PageStack) : PageStack :=
  { m with
    pageStack := fun i => if i < STACK_SIZE then pageAddress i else m.pageStack i
    initialized := true }

def pushPage (m : PageStack) (page : Addr) : PageStack :=
  if 0 < m.stackTop ∧ m.stackTop.toNat < STACK_SIZE then
    { m with
      pageStack := Function.update m.pageStack (m.stackTop - 1).toNat page
      stackTop := m.stackTop - 1 }
  else m

def popPage (m : PageStack) : PageStack × Addr :=
  if m.stackTop.toNat < STACK_SIZE then
    ({ m with stackTop := m.stackTop + 1 }, m.pageStack m.stackTop.toNat)
  else (m, NULL)

/-- `pageManager(action, &page)`: the new state and the value left in `page`. -/
def pageManager (m : PageStack) (action : PageAction) (page : Addr) : PageStack × Addr :=
  if m.initialized then
    match action with
    | .PUSH_PAGE => (m.pushPage page, page)
    | .POP_PAGE => m.popPage
  else (m, page)

/-- The stack after `k` pages of the initial ones were popped. -/
def popped (k : UInt16) : PageStack := { bss.initializePageStack with stackTop := k }

/-! ### The pages of the pool -/

theorem pageAddress_toNat {i : Nat} (h : i < STACK_SIZE) :
    (pageAddress i).toNat = 0x10000000 + i * 0x2000 := by
  unfold STACK_SIZE at h
  have hi : (UInt64.ofNat i).toNat = i := UInt64.toNat_ofNat_of_lt' (by
    show i < 2 ^ 64
    omega)
  have hmul : (UInt64.ofNat i * PAGE_SIZE).toNat = i * 0x2000 := by
    rw [UInt64.toNat_mul, hi]
    show i * 8192 % 2 ^ 64 = i * 8192
    omega
  rw [pageAddress, UInt64.toNat_add, hmul]
  show (268435456 + i * 8192) % 2 ^ 64 = _
  omega

theorem pageAddress_ne_null {i : Nat} (h : i < STACK_SIZE) : pageAddress i ≠ NULL := by
  intro heq
  have h0 := congrArg UInt64.toNat heq
  rw [pageAddress_toNat h] at h0
  have : NULL.toNat = 0 := rfl
  omega

theorem popped_pop {k : UInt16} (hk : k.toNat < STACK_SIZE) (page : Addr) :
    (popped k).pageManager .POP_PAGE page = (popped (k + 1), pageAddress k.toNat) := by
  simp [pageManager, popped, initializePageStack, popPage, hk]

/-! ### The free pages -/

/-- The pages `pageStack[stackTop .. STACK_SIZE - 1]`. -/
def free (m : PageStack) : List Addr :=
  (List.range' m.stackTop.toNat (STACK_SIZE - m.stackTop.toNat)).map m.pageStack

/-- Pages can be popped and pushed: the stack is initialised and neither of the two
    boundary cases of `stackTop` holds. -/
def Open (m : PageStack) : Prop :=
  m.initialized = true ∧ 0 < m.stackTop.toNat ∧ m.stackTop.toNat < STACK_SIZE

theorem popPage_free {m : PageStack} (h : m.stackTop.toNat < STACK_SIZE) :
    m.free = m.popPage.2 :: m.popPage.1.free := by
  have htop : (m.stackTop + 1).toNat = m.stackTop.toNat + 1 :=
    Word.uint16_toNat_succ (by unfold STACK_SIZE at h; omega)
  have hlen : STACK_SIZE - m.stackTop.toNat = (STACK_SIZE - (m.stackTop.toNat + 1)) + 1 := by
    omega
  simp only [free, popPage, if_pos h, htop]
  rw [hlen, List.range'_succ, List.map_cons]

theorem popPage_exhausted {m : PageStack} (h : ¬ m.stackTop.toNat < STACK_SIZE) :
    m.popPage = (m, NULL) := by
  simp [popPage, h]

theorem pushPage_free {m : PageStack} {page : Addr}
    (hpos : 0 < m.stackTop.toNat) (hlt : m.stackTop.toNat < STACK_SIZE) :
    (m.pushPage page).free = page :: m.free := by
  have hguard : 0 < m.stackTop ∧ m.stackTop.toNat < STACK_SIZE :=
    ⟨UInt16.lt_iff_toNat_lt.mpr hpos, hlt⟩
  have htop : (m.stackTop - 1).toNat = m.stackTop.toNat - 1 := Word.uint16_toNat_pred hpos
  have hlen : STACK_SIZE - (m.stackTop.toNat - 1) = (STACK_SIZE - m.stackTop.toNat) + 1 := by
    omega
  simp only [free, pushPage, if_pos hguard, htop]
  rw [hlen, List.range'_succ, List.map_cons, Function.update_self,
    show m.stackTop.toNat - 1 + 1 = m.stackTop.toNat by omega]
  congr 1
  apply List.map_congr_left
  intro i hi
  -- the slots above the new top are not the one that is written
  have hne : i ≠ m.stackTop.toNat - 1 := by
    have := (List.mem_range'_1.mp hi).1
    omega
  exact Function.update_of_ne hne _ _

/-- A page refused by `pushPage` is lost: the state does not change. -/
theorem pushPage_refused {m : PageStack} {page : Addr}
    (h : ¬ (0 < m.stackTop.toNat ∧ m.stackTop.toNat < STACK_SIZE)) :
    m.pushPage page = m := by
  have hguard : ¬ (0 < m.stackTop ∧ m.stackTop.toNat < STACK_SIZE) := fun hg =>
    h ⟨UInt16.lt_iff_toNat_lt.mp hg.1, hg.2⟩
  simp [pushPage, hguard]

end PageStack

end TP2Kernel
