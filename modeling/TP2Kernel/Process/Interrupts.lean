import TP2Kernel.Process.Context

/-! # Interrupts (`Kernel/asm/interrupts.asm`)

    An interrupt leaves the registers on the stack of whoever was interrupted: the
    processor pushes its part, `saveState` the rest.  `frame` lists the words, and loading
    them gives the registers back.

    The end of an interrupt is in `Process.Context`.
-/

namespace TP2Kernel

namespace Cpu

open Machine

/-- The words of a saved state, from the top of the stack on. -/
def frame (cpu : Cpu) : List UInt64 :=
  [cpu.gs.toUInt64, cpu.fs.toUInt64, cpu.r15, cpu.r14, cpu.r13, cpu.r12, cpu.r11, cpu.r10,
    cpu.r9, cpu.r8, cpu.rsi, cpu.rdi, cpu.rbp, cpu.rdx, cpu.rcx, cpu.rbx, cpu.rax,
    cpu.rip, cpu.cs.toUInt64, cpu.rflags, cpu.rsp, cpu.ss.toUInt64]

/-- Where the processor begins to push: it aligns the stack pointer to 16 bytes. -/
def aligned (rsp : Addr) : Addr := rsp &&& ~~~15

/-- Several `push`es, in the order in which they are made. -/
def pushWords (mem : Memory) (rsp : Addr) : List UInt64 → Memory × Addr
  | [] => (mem, rsp)
  | w :: ws =>
    let (mem, rsp) := pushWord mem rsp w
    pushWords mem rsp ws

/-- What the processor does when it takes an interrupt. -/
def interrupt (mem : Memory) (cpu : Cpu) : Memory × Addr :=
  pushWords mem (aligned cpu.rsp)
    [cpu.ss.toUInt64, cpu.rsp, cpu.rflags, cpu.cs.toUInt64, cpu.rip]

/-- `saveState`. -/
def saveState (mem : Memory) (rsp : Addr) (cpu : Cpu) : Memory × Addr :=
  pushWords mem rsp
    [cpu.rax, cpu.rbx, cpu.rcx, cpu.rdx, cpu.rbp, cpu.rdi, cpu.rsi, cpu.r8, cpu.r9, cpu.r10,
      cpu.r11, cpu.r12, cpu.r13, cpu.r14, cpu.r15, cpu.fs.toUInt64, cpu.gs.toUInt64]

/-- The beginning of every interrupt: memory and stack pointer when the handler is called. -/
def saved (mem : Memory) (cpu : Cpu) : Memory × Addr :=
  let (mem, rsp) := interrupt mem cpu
  saveState mem rsp cpu

/-! ### What is loaded -/

/-- The registers that the words of a frame stand for. -/
def ofFrame : List UInt64 → Cpu
  | [gs, fs, r15, r14, r13, r12, r11, r10, r9, r8, rsi, rdi, rbp, rdx, rcx, rbx, rax,
      rip, cs, rflags, rsp, ss] =>
    { gs := gs.toUInt16, fs := fs.toUInt16, r15 := r15, r14 := r14, r13 := r13, r12 := r12,
      r11 := r11, r10 := r10, r9 := r9, r8 := r8, rsi := rsi, rdi := rdi, rbp := rbp,
      rdx := rdx, rcx := rcx, rbx := rbx, rax := rax, rip := rip, cs := cs.toUInt16,
      rflags := rflags, rsp := rsp, ss := ss.toUInt16 }
  | _ => zero

theorem ofFrame_frame (cpu : Cpu) : ofFrame cpu.frame = cpu := by
  simp [frame, ofFrame]

/-- The `n` words from `sp` on. -/
def wordsAt (mem : Memory) (sp : Addr) : Nat → List UInt64
  | 0 => []
  | n + 1 => mem.readWord sp :: wordsAt mem (sp + 8) n

theorem wordsAt_stacked {mem : Memory} {sp : Addr} {ws : List UInt64}
    (h : Stacked mem sp ws) : wordsAt mem sp ws.length = ws := by
  induction ws generalizing sp with
  | nil => rfl
  | cons w ws ih => rw [List.length_cons, wordsAt, h.1, ih h.2]

theorem length_wordsAt (mem : Memory) (sp : Addr) (n : Nat) : (wordsAt mem sp n).length = n := by
  induction n generalizing sp with
  | zero => rfl
  | succ n ih => rw [wordsAt, List.length_cons, ih]

theorem stacked_wordsAt (mem : Memory) (sp : Addr) (n : Nat) :
    Stacked mem sp (wordsAt mem sp n) := by
  induction n generalizing sp with
  | zero => trivial
  | succ n ih => exact ⟨rfl, ih (sp + 8)⟩

/-- The end of an interrupt loads all registers, so nothing of the handler's is left. -/
theorem switchTo_eq (cpu : Cpu) (mem : Memory) (sp : Addr) :
    cpu.switchTo mem sp = ofFrame (wordsAt mem sp 22) := rfl

/-- What was saved is loaded. -/
theorem switchTo_of_frame {mem : Memory} {sp : Addr} {cpu : Cpu}
    (h : Stacked mem sp cpu.frame) (before : Cpu) : before.switchTo mem sp = cpu := by
  have hwords : wordsAt mem sp 22 = cpu.frame := wordsAt_stacked h
  rw [switchTo_eq, hwords, ofFrame_frame]

/-- Only the 176 bytes of the frame matter. -/
theorem switchTo_congr {mem mem' : Memory} {sp : Addr} (cpu cpu' : Cpu)
    (hroom : sp.toNat + 176 < 2 ^ 64)
    (hsame : ∀ x : Addr, sp.toNat ≤ x.toNat → x.toNat < sp.toNat + 176 → mem' x = mem x) :
    cpu'.switchTo mem' sp = cpu.switchTo mem sp := by
  have hlength := length_wordsAt mem sp 22
  have hwords : Stacked mem' sp (wordsAt mem sp 22) := by
    apply (stacked_wordsAt mem sp 22).congr
    · rw [hlength]
      exact hroom
    · rw [hlength]
      exact hsame
  have hsame' := wordsAt_stacked hwords
  rw [hlength] at hsame'
  rw [switchTo_eq, switchTo_eq, hsame']

/-! ### What is saved -/

/-- The stack pointer is rounded down to a multiple of 16. -/
theorem aligned_toNat (rsp : Addr) : (aligned rsp).toNat = rsp.toNat / 16 * 16 := by
  have hshift : rsp.toBitVec &&& ~~~15#64 = rsp.toBitVec >>> 4 <<< 4 := by
    ext i hi
    have hmask : (~~~15#64)[i] = !decide (i < 4) := by
      rw [BitVec.getElem_not, ← Nat.testBit_two_pow_sub_one 4 i]
      rfl
    rw [BitVec.getElem_and, hmask, BitVec.getElem_shiftLeft, Bool.and_comm]
    by_cases hlow : i < 4
    · simp [hlow]
    · have hle : 4 + (i - 4) = i := by omega
      simp [hlow, hle, BitVec.getLsbD_eq_getElem hi]
  have hnat : (rsp.toBitVec >>> 4 <<< 4).toNat = rsp.toNat / 16 * 16 := by
    have hlt := rsp.toNat_lt
    rw [BitVec.toNat_shiftLeft, BitVec.toNat_ushiftRight, Nat.shiftRight_eq_div_pow,
      Nat.shiftLeft_eq]
    show rsp.toNat / 16 * 16 % 2 ^ 64 = _
    omega
  rw [← hnat, ← hshift]
  rfl

/-- The word pushed last is on top. -/
theorem pushWords_pushed {mem : Memory} {rsp : Addr} {ws : List UInt64}
    (hroom : 8 * ws.length ≤ rsp.toNat) :
    Pushed (mem, rsp) (pushWords mem rsp ws) ws.reverse := by
  induction ws generalizing mem rsp with
  | nil => exact .refl _
  | cons w ws ih =>
    rw [List.length_cons] at hroom
    have hpush : Pushed (mem, rsp) (pushWord mem rsp w) [w] := pushWord_pushed (by omega) w
    have hsp : (rsp - 8).toNat = rsp.toNat - 8 := addr_sub_toNat (k := 8) (by omega)
    rw [List.reverse_cons]
    apply hpush.trans
    apply ih
    omega

theorem saved_pushed (mem : Memory) (cpu : Cpu) (hroom : 192 ≤ cpu.rsp.toNat) :
    Pushed (mem, aligned cpu.rsp) (saved mem cpu) cpu.frame := by
  have haligned := aligned_toNat cpu.rsp
  have hprocessor : Pushed (mem, aligned cpu.rsp) (interrupt mem cpu) _ :=
    pushWords_pushed (by
      show 40 ≤ (aligned cpu.rsp).toNat
      omega)
  have hsp : (interrupt mem cpu).2.toNat + 40 = (aligned cpu.rsp).toNat := hprocessor.sp
  have hregisters : Pushed (interrupt mem cpu) (saved mem cpu) _ :=
    pushWords_pushed (by
      show 136 ≤ (interrupt mem cpu).2.toNat
      omega)
  exact hprocessor.trans hregisters

/-- Where a saved state lies: right below the stack pointer, the alignment apart. -/
theorem saved_bounds (mem : Memory) (cpu : Cpu) (hroom : 192 ≤ cpu.rsp.toNat) :
    cpu.rsp.toNat ≤ (saved mem cpu).2.toNat + 192 ∧
    (saved mem cpu).2.toNat + 176 ≤ cpu.rsp.toNat := by
  have haligned := aligned_toNat cpu.rsp
  have hsp : (saved mem cpu).2.toNat + 176 = (aligned cpu.rsp).toNat :=
    (saved_pushed mem cpu hroom).sp
  omega

/-- **Saving and loading.**  An interrupt that leaves the 176 bytes of the frame ends with
    the registers with which it began. -/
theorem switchTo_saved {mem after : Memory} {cpu : Cpu} (hroom : 192 ≤ cpu.rsp.toNat)
    (hkept : ∀ x : Addr, (saved mem cpu).2.toNat ≤ x.toNat → x.toNat < cpu.rsp.toNat →
      after x = (saved mem cpu).1 x) (before : Cpu) :
    before.switchTo after (saved mem cpu).2 = cpu := by
  obtain ⟨-, hbelow⟩ := saved_bounds mem cpu hroom
  have hlt := cpu.rsp.toNat_lt
  have hpushed := saved_pushed mem cpu hroom
  rw [switchTo_congr before before (by omega) (fun x hlo hhi => hkept x hlo (by omega))]
  exact switchTo_of_frame hpushed.words before

end Cpu

end TP2Kernel
