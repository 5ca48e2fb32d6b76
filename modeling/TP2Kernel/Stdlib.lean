import Mathlib.Data.UInt
import TP2Kernel.Memory.PageStack

/-! # The kernel's library (`Common/c/stdlib.c`)

    Memory is a function from addresses to bytes.  A loop that may never end on some
    memory returns an `Option`: `none` is the call that does not return.

    A C string that is passed by value is a `CString`, the bytes before its NUL.
-/

namespace TP2Kernel

/-- Byte-addressed memory. -/
abbrev Memory := Addr → UInt8

namespace Memory

def readWord (m : Memory) (a : Addr) : UInt64 :=
  (List.range 8).foldr (fun k acc => acc <<< 8 ||| (m (a + UInt64.ofNat k)).toUInt64) 0

def writeWord (m : Memory) (a : Addr) (v : UInt64) : Memory :=
  (List.range 8).foldl (fun m k =>
    Function.update m (a + UInt64.ofNat k) (v >>> UInt64.ofNat (8 * k)).toUInt8) m

/-- The bytes stored one after the other from `a` on. -/
def writeBytes (m : Memory) (a : Addr) : List UInt8 → Memory
  | [] => m
  | b :: bs => writeBytes (Function.update m a b) (a + 1) bs

end Memory

/-- `memset`, from the last byte down to the first. -/
def memset (m : Memory) (destination : Addr) (c : UInt8) : Nat → Memory
  | 0 => m
  | length + 1 =>
    memset (Function.update m (destination + UInt64.ofNat length) c) destination c length

/-- The loop `d[i] = s[i]` over elements of `width` bytes, from the first on. -/
def copyLoop (m : Memory) (d s : Addr) (width : Nat) : Nat → Memory
  | 0 => m
  | i + 1 =>
    let m' := copyLoop m d s width i
    let offset := UInt64.ofNat (i * width)
    (List.range width).foldl (fun acc k =>
      Function.update acc (d + offset + UInt64.ofNat k) (m' (s + offset + UInt64.ofNat k))) m'

def memcpy (m : Memory) (destination source : Addr) (length : UInt64) : Memory :=
  if destination % 4 = 0 ∧ source % 4 = 0 ∧ length % 4 = 0 then
    copyLoop m destination source 4 (length / 4).toNat
  else
    copyLoop m destination source 1 length.toNat

/-- A bound on the iterations of a loop that walks through memory: a walk over `2 ^ 64`
    addresses that has not ended by then never ends. -/
def walkBound : Nat := 2 ^ 64

def strlenFrom (m : Memory) (s : Addr) : UInt64 → Nat → Option UInt64
  | _, 0 => none
  | count, fuel + 1 =>
    if m (s + count) ≠ 0 then strlenFrom m s (count + 1) fuel else some count

def strlen (m : Memory) (s : Addr) : Option UInt64 :=
  if s = NULL then some (-1) else strlenFrom m s 0 walkBound

theorem memset_self (m : Memory) (destination : Addr) (c : UInt8) (n : Nat) :
    memset m destination c (n + 1) destination = c := by
  induction n generalizing m with
  | zero => simp [memset]
  | succ n ih => rw [memset, ih]

theorem strlenFrom_isSome {m : Memory} {s count : Addr} {fuel j : Nat} (hj : j < fuel)
    (h : m (s + count + UInt64.ofNat j) = 0) :
    ∃ len, strlenFrom m s count fuel = some len := by
  induction fuel generalizing count j with
  | zero => omega
  | succ fuel ih =>
    by_cases hz : m (s + count) = 0
    · exact ⟨count, by simp [strlenFrom, hz]⟩
    · cases j with
      | zero => exact absurd (by simpa using h) hz
      | succ j =>
        have hnext : m (s + (count + 1) + UInt64.ofNat j) = 0 := by
          rw [← h]
          congr 1
          rw [UInt64.ofNat_add]
          simp only [UInt64.add_assoc, UInt64.add_comm 1]
          rfl
        obtain ⟨len, hlen⟩ := ih (by omega) hnext
        exact ⟨len, by simp [strlenFrom, hz, hlen]⟩

/-- A walk through memory that holds a zero somewhere ends. -/
theorem strlen_isSome {m : Memory} {a : Addr} (h : m a = 0) (s : Addr) :
    ∃ len, strlen m s = some len := by
  unfold strlen
  split
  · exact ⟨_, rfl⟩
  · have hj : (a - s).toNat < walkBound := UInt64.toNat_lt _
    refine strlenFrom_isSome hj ?_
    rw [← h]
    congr 1
    simp

/-! ### Strings passed by value -/

/-- The bytes of a NUL-terminated string before its NUL. -/
structure CString where
  bytes : List UInt8
  noNul : ∀ b ∈ bytes, b ≠ 0
  deriving DecidableEq

namespace CString

def empty : CString := ⟨[], by simp⟩

def length (s : CString) : Nat := s.bytes.length

@[ext] theorem ext {s t : CString} (h : s.bytes = t.bytes) : s = t := by
  cases s
  cases t
  simpa using h

end CString

/-- The loop of `streql`; a string that has ended shows its NUL. -/
def streqlBytes : List UInt8 → List UInt8 → Bool
  | a :: as, b :: bs => if a ≠ b then false else streqlBytes as bs
  | [], [] => true
  | _, _ => false

def streql (s1 s2 : CString) : Bool :=
  streqlBytes s1.bytes s2.bytes

/-- The loop of `strcmp`, on signed characters. -/
def strcmpBytes : List UInt8 → List UInt8 → Int
  | a :: as, b :: bs =>
    let diff := a.toInt8.toInt - b.toInt8.toInt
    if diff ≠ 0 then diff else strcmpBytes as bs
  | [], [] => 0
  | a :: _, [] => a.toInt8.toInt
  | [], b :: _ => - b.toInt8.toInt

def strcmp (s1 s2 : CString) : Int :=
  strcmpBytes s1.bytes s2.bytes

theorem streqlBytes_iff (as bs : List UInt8) : streqlBytes as bs = true ↔ as = bs := by
  induction as generalizing bs with
  | nil => cases bs <;> simp [streqlBytes]
  | cons a as ih =>
    cases bs with
    | nil => simp [streqlBytes]
    | cons b bs => by_cases h : a = b <;> simp [streqlBytes, h, ih]

@[simp] theorem streql_iff (s t : CString) : streql s t = true ↔ s = t := by
  rw [streql, streqlBytes_iff]
  exact ⟨CString.ext, fun h => h ▸ rfl⟩

theorem toInt8_toInt_eq_iff (a b : UInt8) : a.toInt8.toInt = b.toInt8.toInt ↔ a = b := by
  constructor
  · intro h
    have h8 : a.toInt8 = b.toInt8 := Int8.toInt_inj.mp h
    exact congrArg Int8.toUInt8 h8
  · rintro rfl
    rfl

theorem toInt8_toInt_eq_zero_iff (a : UInt8) : a.toInt8.toInt = 0 ↔ a = 0 :=
  toInt8_toInt_eq_iff a 0

theorem strcmpBytes_eq_zero_iff {as bs : List UInt8} (ha : ∀ b ∈ as, b ≠ 0)
    (hb : ∀ b ∈ bs, b ≠ 0) : strcmpBytes as bs = 0 ↔ as = bs := by
  induction as generalizing bs with
  | nil =>
    cases bs with
    | nil => simp [strcmpBytes]
    | cons b bs =>
      have := hb b (by simp)
      simp [strcmpBytes, toInt8_toInt_eq_zero_iff, this]
  | cons a as ih =>
    cases bs with
    | nil =>
      have := ha a (by simp)
      simp [strcmpBytes, toInt8_toInt_eq_zero_iff, this]
    | cons b bs =>
      have ih' := @ih bs (fun c hc => ha c (List.mem_cons_of_mem a hc))
        (fun c hc => hb c (List.mem_cons_of_mem b hc))
      by_cases h : a = b
      · subst h
        simp [strcmpBytes, ih']
      · have hne : a.toInt8.toInt - b.toInt8.toInt ≠ 0 := fun h0 =>
          h ((toInt8_toInt_eq_iff a b).mp (by omega))
        simp [strcmpBytes, hne, h]

@[simp] theorem strcmp_eq_zero_iff (s t : CString) : strcmp s t = 0 ↔ s = t := by
  rw [strcmp, strcmpBytes_eq_zero_iff s.noNul t.noNul]
  exact ⟨CString.ext, fun h => h ▸ rfl⟩

/-! ### Numbers -/

/-- The character of a digit: `'0'` is 48, and `'A' - 10` is 55. -/
def digitChar (remainder : UInt32) : UInt8 :=
  if remainder < 10 then remainder.toUInt8 + 48 else remainder.toUInt8 + 55

/-- The first loop of `intToStrBase`: the digits, the last one first.  The last argument
    bounds their number. -/
def intToStrDigits (base : UInt32) (value : UInt64) : Nat → List UInt8
  | 0 => []
  | fuel + 1 =>
    let digit := digitChar (value % base.toUInt64).toUInt32
    let value := value / base.toUInt64
    if value ≠ 0 then digit :: intToStrDigits base value fuel else [digit]

/-- The characters that `intToStrBase` stores before the NUL. -/
def intToStrBase (value : UInt64) (base : UInt32) : List UInt8 :=
  (intToStrDigits base value 64).reverse

theorem toNat_digitChar {remainder : UInt32} (h : remainder < 10) :
    (digitChar remainder).toNat = remainder.toNat + 48 := by
  have hlt : remainder.toNat < 10 := UInt32.lt_iff_toNat_lt.mp h
  rw [digitChar, if_pos h, UInt8.toNat_add, UInt32.toNat_toUInt8]
  show (remainder.toNat % 2 ^ 8 + 48) % 2 ^ 8 = _
  omega

theorem digitChar_ne_zero {remainder : UInt32} (h : remainder < 10) :
    digitChar remainder ≠ 0 := by
  intro h0
  have hnat := toNat_digitChar h
  rw [h0] at hnat
  exact absurd hnat (Nat.ne_of_lt (Nat.zero_lt_succ _))

theorem intToStrDigits_ne_zero (value : UInt64) (fuel : Nat) :
    ∀ b ∈ intToStrDigits 10 value fuel, b ≠ 0 := by
  induction fuel generalizing value with
  | zero => simp [intToStrDigits]
  | succ fuel ih =>
    have hdigit : digitChar (value % 10).toUInt32 ≠ 0 := by
      apply digitChar_ne_zero
      have hmod : (value % 10).toNat < 10 := by
        rw [UInt64.toNat_mod]
        exact Nat.mod_lt _ (by decide)
      rw [UInt32.lt_iff_toNat_lt, UInt64.toNat_toUInt32]
      exact lt_of_le_of_lt (Nat.mod_le _ _) hmod
    intro b hb
    simp only [intToStrDigits] at hb
    split at hb
    · rcases List.mem_cons.mp hb with rfl | hb
      · exact hdigit
      · exact ih _ b hb
    · rw [List.mem_singleton.mp hb]
      exact hdigit

def intToStr (value : UInt64) : CString where
  bytes := intToStrBase value 10
  noNul := fun b hb => intToStrDigits_ne_zero value 64 b (List.mem_reverse.mp hb)

example : (intToStr 4294967295).bytes = [52, 50, 57, 52, 57, 54, 55, 50, 57, 53] := by decide

end TP2Kernel
