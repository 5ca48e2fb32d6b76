import TP2Kernel.Memory.Copies
import TP2Kernel.Process.Lifecycle

/-! # Words on a stack

    A stack grows downwards.  Every piece of the initial stack is a number of words that
    are pushed: the stack pointer goes down by their size, they lie there from the new
    stack pointer on, and no other byte changes.
-/

namespace TP2Kernel

/-- The bytes outside of `lo .. hi - 1`. -/
def Outside (lo hi : Nat) (x : Addr) : Prop := x.toNat < lo ∨ hi ≤ x.toNat

/-- The words lie one after the other from `sp` on. -/
def Stacked (m : Memory) (sp : Addr) : List UInt64 → Prop
  | [] => True
  | w :: ws => m.readWord sp = w ∧ Stacked m (sp + 8) ws

namespace Stacked

variable {m m' : Memory} {sp : Addr} {ws ws' : List UInt64}

theorem append (h : Stacked m sp ws) (h' : Stacked m (sp + UInt64.ofNat (8 * ws.length)) ws') :
    Stacked m sp (ws ++ ws') := by
  induction ws generalizing sp with
  | nil => simpa using h'
  | cons w ws ih =>
    refine ⟨h.1, ih h.2 ?_⟩
    have hnext : sp + 8 + UInt64.ofNat (8 * ws.length) =
        sp + UInt64.ofNat (8 * (w :: ws).length) := by
      rw [List.length_cons, Nat.mul_succ, Nat.add_comm, UInt64.ofNat_add, ← add_assoc]
      rfl
    rwa [hnext]

/-- The words below the first ones. -/
theorem right (h : Stacked m sp (ws ++ ws')) :
    Stacked m (sp + UInt64.ofNat (8 * ws.length)) ws' := by
  induction ws generalizing sp with
  | nil => simpa using h
  | cons w ws ih =>
    have hnext : sp + 8 + UInt64.ofNat (8 * ws.length) =
        sp + UInt64.ofNat (8 * (w :: ws).length) := by
      rw [List.length_cons, Nat.mul_succ, Nat.add_comm, UInt64.ofNat_add, ← add_assoc]
      rfl
    rw [← hnext]
    exact ih h.2

theorem readWord (h : Stacked m sp ws) {i : Nat} {w : UInt64} (hw : ws[i]? = some w) :
    m.readWord (sp + UInt64.ofNat (8 * i)) = w := by
  have hi : i < ws.length := (List.getElem?_eq_some_iff.mp hw).1
  have hsplit : ws = ws.take i ++ w :: ws.drop (i + 1) := by
    have hget : ws[i] = w := (List.getElem?_eq_some_iff.mp hw).2
    rw [← hget, ← List.drop_eq_getElem_cons hi, List.take_append_drop]
  rw [hsplit] at h
  have hrest := h.right
  rw [List.length_take, Nat.min_eq_left hi.le] at hrest
  exact hrest.1

/-- Words stay as long as their bytes do. -/
theorem congr (h : Stacked m sp ws) (hroom : sp.toNat + 8 * ws.length < 2 ^ 64)
    (hsame : ∀ x : Addr, sp.toNat ≤ x.toNat → x.toNat < sp.toNat + 8 * ws.length →
      m' x = m x) : Stacked m' sp ws := by
  induction ws generalizing sp with
  | nil => trivial
  | cons w ws ih =>
    rw [List.length_cons] at hroom hsame
    have hnext : (sp + 8).toNat = sp.toNat + 8 := addr_add_toNat (k := 8) (by omega)
    constructor
    · rw [← h.1]
      apply Memory.readWord_congr
      intro k hk
      have hbyte : (sp + UInt64.ofNat k).toNat = sp.toNat + k := addr_add_toNat (by omega)
      apply hsame
      · omega
      · omega
    · apply ih h.2
      · omega
      · intro x hlo hhi
        apply hsame
        · omega
        · omega

/-- Zero bytes are zero words. -/
theorem zeros {n : Nat} (hroom : sp.toNat + 8 * n < 2 ^ 64)
    (hzero : ∀ x : Addr, sp.toNat ≤ x.toNat → x.toNat < sp.toNat + 8 * n → m x = 0) :
    Stacked m sp (List.replicate n 0) := by
  induction n generalizing sp with
  | zero => trivial
  | succ n ih =>
    have hnext : (sp + 8).toNat = sp.toNat + 8 := addr_add_toNat (k := 8) (by omega)
    constructor
    · apply Memory.readWord_eq
      intro k hk
      have hbyte : (sp + UInt64.ofNat k).toNat = sp.toNat + k := addr_add_toNat (by omega)
      rw [hzero _ (by omega) (by omega)]
      simp
    · apply ih
      · omega
      · intro x hlo hhi
        apply hzero
        · omega
        · omega

end Stacked

/-! ### Pushes -/

/-- From the first memory and stack pointer to the second, the words were pushed. -/
structure Pushed (before after : Memory × Addr) (ws : List UInt64) : Prop where
  sp : after.2.toNat + 8 * ws.length = before.2.toNat
  frame : ∀ x, Outside after.2.toNat before.2.toNat x → after.1 x = before.1 x
  words : Stacked after.1 after.2 ws

namespace Pushed

variable {p p' p'' : Memory × Addr} {ws ws' : List UInt64}

theorem refl (p : Memory × Addr) : Pushed p p [] where
  sp := rfl
  frame := fun _ _ => rfl
  words := trivial

/-- Popping the words leads back. -/
theorem sp_add (h : Pushed p p' ws) : p'.2 + UInt64.ofNat (8 * ws.length) = p.2 := by
  have hsp := h.sp
  apply UInt64.toNat_inj.mp
  rw [addr_add_toNat]
  · exact hsp
  · rw [hsp]
    exact p.2.toNat_lt

theorem trans (h : Pushed p p' ws) (h' : Pushed p' p'' ws') : Pushed p p'' (ws' ++ ws) := by
  have hsp := h.sp
  have hsp' := h'.sp
  constructor
  · rw [List.length_append]
    omega
  · intro x hx
    -- what lies outside both parts lies outside each
    have hx' : Outside p''.2.toNat p'.2.toNat x := by
      rcases hx with hx | hx
      · exact .inl hx
      · right
        omega
    have hx₀ : Outside p'.2.toNat p.2.toNat x := by
      rcases hx with hx | hx
      · left
        omega
      · exact .inr hx
    rw [h'.frame x hx', h.frame x hx₀]
  · apply h'.words.append
    -- the later words end where the earlier ones begin
    rw [h'.sp_add]
    apply h.words.congr
    · rw [hsp]
      exact p.2.toNat_lt
    · intro x hlo hhi
      exact h'.frame x (.inr hlo)

end Pushed

namespace Machine

variable {m : Memory} {sp : Addr}

theorem pushWord_pushed (hroom : 8 ≤ sp.toNat) (v : UInt64) :
    Pushed (m, sp) (pushWord m sp v) [v] := by
  have hsp : (sp - 8).toNat = sp.toNat - 8 := addr_sub_toNat hroom
  have hlt := sp.toNat_lt
  constructor
  · show (sp - 8).toNat + 8 = sp.toNat
    omega
  · intro x hx
    have hx' : x.toNat < (sp - 8).toNat ∨ sp.toNat ≤ x.toNat := hx
    apply Memory.writeWord_of_lt
    · omega
    · omega
  · exact ⟨Memory.readWord_writeWord m (sp - 8) v, trivial⟩

theorem pushZeros_pushed {n : Nat} (hroom : 8 * n ≤ sp.toNat) :
    Pushed (m, sp) (pushZeros m sp (8 * n)) (List.replicate n 0) := by
  have hsp : (sp - UInt64.ofNat (8 * n)).toNat = sp.toNat - 8 * n := addr_sub_toNat hroom
  have hlt := sp.toNat_lt
  -- `memset` clears the bytes from the new stack pointer to the old one
  have hbytes : ∀ x, (pushZeros m sp (8 * n)).1 x =
      if sp.toNat - 8 * n ≤ x.toNat ∧ x.toNat < sp.toNat then 0 else m x := by
    intro x
    have hiff : (x - (sp - UInt64.ofNat (8 * n))).toNat < 8 * n ↔
        sp.toNat - 8 * n ≤ x.toNat ∧ x.toNat < sp.toNat := by
      rw [addr_sub_toNat_lt_iff (by omega), hsp]
      omega
    show memset m (sp - UInt64.ofNat (8 * n)) 0 (8 * n) x = _
    rw [memset_apply (by omega)]
    simp only [hiff]
  constructor
  · rw [List.length_replicate]
    show (sp - UInt64.ofNat (8 * n)).toNat + 8 * n = sp.toNat
    omega
  · intro x hx
    have hx' : x.toNat < (sp - UInt64.ofNat (8 * n)).toNat ∨ sp.toNat ≤ x.toNat := hx
    rw [hbytes, if_neg (by omega)]
  · apply Stacked.zeros
    · show (sp - UInt64.ofNat (8 * n)).toNat + 8 * n < 2 ^ 64
      omega
    · intro x hlo hhi
      have hlo' : (sp - UInt64.ofNat (8 * n)).toNat ≤ x.toNat := hlo
      have hhi' : x.toNat < (sp - UInt64.ofNat (8 * n)).toNat + 8 * n := hhi
      rw [hbytes, if_pos (by omega)]

/-! ### The pointers of `argv` -/

/-- Where `argv[i]` lies. -/
abbrev argvSlot (argv : Addr) (i : Nat) : Addr := argv + UInt64.ofNat (8 * i)

/-- Pointers that do not lie in the way end up on the stack in their order. -/
theorem pushPointers_pushed {argv : Addr} {pointer : Nat → Addr} {n : Nat}
    (hroom : 8 * n ≤ sp.toNat)
    (hslots : ∀ i < n, m.readWord (argvSlot argv i) = pointer i)
    (hout : ∀ i < n, ∀ k < 8,
      Outside (sp.toNat - 8 * n) sp.toNat (argvSlot argv i + UInt64.ofNat k)) :
    Pushed (m, sp) (pushPointers m sp argv n) ((List.range n).map pointer) := by
  -- the last pointer is pushed first; the push does not reach the slots before it
  induction n generalizing m sp with
  | zero => exact .refl _
  | succ n ih =>
    have hpush : Pushed (m, sp) (pushWord m sp (pointer n)) [pointer n] :=
      pushWord_pushed (by omega) _
    have hsp : (sp - 8).toNat = sp.toNat - 8 := addr_sub_toNat (k := 8) (by omega)
    have hrest : Pushed (pushWord m sp (pointer n))
        (pushPointers (pushWord m sp (pointer n)).1 (pushWord m sp (pointer n)).2 argv n)
        ((List.range n).map pointer) := by
      apply ih
      · show 8 * n ≤ (sp - 8).toNat
        omega
      · intro i hi
        rw [← hslots i (by omega)]
        apply Memory.readWord_congr
        intro k hk
        apply hpush.frame
        rcases hout i (by omega) k hk with hx | hx
        · left
          show _ < (sp - 8).toNat
          omega
        · exact .inr hx
      · intro i hi k hk
        rcases hout i (by omega) k hk with hx | hx
        · left
          show _ < (sp - 8).toNat - 8 * n
          omega
        · right
          show (sp - 8).toNat ≤ _
          omega
    rw [pushPointers, hslots n (Nat.lt_succ_self n), List.range_succ, List.map_append]
    exact hpush.trans hrest

end Machine

/-! ### One push after the other -/

namespace Pushed

open Machine

variable {p q : Memory × Addr} {ws : List UInt64}

/-- One more word on top of those pushed. -/
theorem pushWord (h : Pushed p q ws) (v : UInt64) (hroom : 8 * (ws.length + 1) ≤ p.2.toNat) :
    Pushed p (Machine.pushWord q.1 q.2 v) (v :: ws) := by
  have hsp := h.sp
  exact h.trans (pushWord_pushed (by omega) v)

theorem pushZeros (h : Pushed p q ws) (n : Nat) (hroom : 8 * (ws.length + n) ≤ p.2.toNat) :
    Pushed p (Machine.pushZeros q.1 q.2 (8 * n)) (List.replicate n 0 ++ ws) := by
  have hsp := h.sp
  exact h.trans (pushZeros_pushed (by omega))

/-- Pointers that are found where neither the words pushed nor the pointers go. -/
theorem pushPointers (h : Pushed p q ws) {argv : Addr} {n : Nat}
    (hroom : 8 * (ws.length + n) ≤ p.2.toNat)
    (hout : ∀ i < n, ∀ k < 8, Outside (p.2.toNat - 8 * (ws.length + n)) p.2.toNat
      (argvSlot argv i + UInt64.ofNat k)) :
    Pushed p (Machine.pushPointers q.1 q.2 argv n)
      ((List.range n).map (fun i => p.1.readWord (argvSlot argv i)) ++ ws) := by
  have hsp := h.sp
  apply h.trans
  apply pushPointers_pushed
  · omega
  · intro i hi
    apply Memory.readWord_congr
    intro k hk
    apply h.frame
    rcases hout i hi k hk with hx | hx
    · left
      omega
    · exact .inr hx
  · intro i hi k hk
    rcases hout i hi k hk with hx | hx
    · left
      omega
    · right
      omega

end Pushed

end TP2Kernel
