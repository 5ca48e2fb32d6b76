import TP2Kernel.Framework.Numeral
import TP2Kernel.Memory.Bytes

/-! # Numbers as strings (`intToStrBase` in `Common/c/stdlib.c`)

    The digits are stored as they come, the lowest first, behind them a NUL, and then they
    are swapped in place from both ends.
-/

namespace TP2Kernel

namespace Memory

/-- The first loop: the pointer behind the digits, and their number.  The first argument
    bounds the rounds. -/
def intToStrLoop (base : UInt32) :
    Nat → UInt64 → Addr → UInt32 → Memory → Option (Addr × UInt32 × Memory)
  | 0, _, _, _, _ => none
  | rounds + 1, value, p, digits, m =>
    let remainder := (value % base.toUInt64).toUInt32
    let m := Function.update m p (digitChar remainder)
    let value := value / base.toUInt64
    if value ≠ 0 then intToStrLoop base rounds value (p + 1) (digits + 1) m
    else some (p + 1, digits + 1, m)

/-- The second loop. -/
def reverseLoop : Nat → Addr → Addr → Memory → Option Memory
  | 0, _, _, _ => none
  | rounds + 1, p1, p2, m =>
    if p1 < p2 then
      let tmp := m p1
      let m := Function.update m p1 (m p2)
      let m := Function.update m p2 tmp
      reverseLoop rounds (p1 + 1) (p2 - 1) m
    else some m

/-- `intToStrBase`: the number of digits, and the memory.  A number of 64 bits has no more
    than 64 digits, unless the base is less than two. -/
def intToStrBase (m : Memory) (value : UInt64) (buffer : Addr) (base : UInt32) :
    Option (UInt32 × Memory) :=
  (intToStrLoop base 64 value buffer 0 m).bind fun (p, digits, m) =>
    (reverseLoop 64 buffer (p - 1) (Function.update m p 0)).map fun m => (digits, m)

def intToStr (m : Memory) (value : UInt64) (buffer : Addr) : Option (UInt32 × Memory) :=
  m.intToStrBase value buffer 10

end Memory

/-! ### Numerals -/

/-- The characters of the digits, the lowest first. -/
def digitChars (base value : Nat) : List UInt8 :=
  (Numeral.digits base value).map fun d => digitChar (UInt32.ofNat d)

/-- The number in that base. -/
def numeral (base value : Nat) : List UInt8 := (digitChars base value).reverse

/-- The digit of a character. -/
def charDigit (c : UInt8) : Nat := if c < 65 then c.toNat - 48 else c.toNat - 55

/-- The number that a string of digits stands for. -/
def denoted (base : Nat) (text : List UInt8) : Nat :=
  Nat.ofDigits base (text.reverse.map charDigit)

/-- The way to write the number: digits and capital letters, without a zero in front. -/
structure Canonical (base value : Nat) (text : List UInt8) : Prop where
  characters : ∀ c ∈ text, 48 ≤ c ∧ c ≤ 57 ∨ 65 ≤ c ∧ c ≤ 90
  digits : ∀ c ∈ text, charDigit c < base
  zero : value = 0 → text = [48]
  noLeadingZero : value ≠ 0 → text.head? ≠ some 48
  value : denoted base text = value

variable {m : Memory} {buffer p : Addr} {value : UInt64} {base : UInt32} {b n : Nat}

theorem digitChar_spec : ∀ d < 36, charDigit (digitChar (UInt32.ofNat d)) = d ∧
    (48 ≤ digitChar (UInt32.ofNat d) ∧ digitChar (UInt32.ofNat d) ≤ 57 ∨
      65 ≤ digitChar (UInt32.ofNat d) ∧ digitChar (UInt32.ofNat d) ≤ 90) := by
  decide

theorem numeral_canonical (hb : 2 ≤ b ∧ b ≤ 36) (n : Nat) : Canonical b n (numeral b n) := by
  have hdigit : ∀ c ∈ numeral b n, ∃ d < b, c = digitChar (UInt32.ofNat d) := by
    intro c hc
    rw [numeral, List.mem_reverse, digitChars, List.mem_map] at hc
    obtain ⟨d, hd, rfl⟩ := hc
    exact ⟨d, Numeral.lt_base hb.1 hd, rfl⟩
  constructor
  · intro c hc
    obtain ⟨d, hd, rfl⟩ := hdigit c hc
    exact (digitChar_spec d (by omega)).2
  · intro c hc
    obtain ⟨d, hd, rfl⟩ := hdigit c hc
    rwa [(digitChar_spec d (by omega)).1]
  · rintro rfl
    rfl
  · intro hn hhead
    rw [numeral, List.head?_reverse, digitChars, List.getLast?_map,
      List.getLast?_eq_getLast_of_ne_nil (Numeral.digits_ne_nil b n), Option.map_some,
      Option.some.injEq] at hhead
    have hlast := Numeral.lt_base hb.1 (List.getLast_mem (Numeral.digits_ne_nil b n))
    have hzero := (digitChar_spec _ (Nat.lt_of_lt_of_le hlast hb.2)).1
    rw [hhead] at hzero
    exact Numeral.getLast_ne_zero hn hzero.symm
  · have hback : (digitChars b n).map charDigit = Numeral.digits b n := by
      rw [digitChars, List.map_map]
      refine (List.map_congr_left fun d hd => ?_).trans (List.map_id _)
      have hlt := Numeral.lt_base hb.1 hd
      exact (digitChar_spec d (by omega)).1
    rw [denoted, numeral, List.reverse_reverse, hback, Numeral.ofDigits_digits]

theorem numeral_inj (hb : 2 ≤ b ∧ b ≤ 36) {n n' : Nat} (h : numeral b n = numeral b n') :
    n = n' := by
  rw [← (numeral_canonical hb n).value, h, (numeral_canonical hb n').value]

theorem length_numeral_le_iff (hb : 2 ≤ b) {k : Nat} (hk : 0 < k) :
    (numeral b n).length ≤ k ↔ n < b ^ k := by
  rw [numeral, List.length_reverse, digitChars, List.length_map]
  exact Numeral.length_le_iff hb hk

/-! ### The loops -/

/-- One digit. -/
theorem remainder_eq (hbase : 0 < base.toNat) (value : UInt64) :
    (value % base.toUInt64).toUInt32 = UInt32.ofNat (value.toNat % base.toNat) := by
  have hmod := Nat.mod_lt value.toNat hbase
  have hlt := base.toNat_lt
  rw [← UInt32.toNat_inj, UInt64.toNat_toUInt32, UInt64.toNat_mod, UInt32.toNat_toUInt64,
    UInt32.toNat_ofNat_of_lt' (by show _ < 2 ^ 32; omega), Nat.mod_eq_of_lt (by omega)]

theorem digitChars_of_lt (h : n < b) : digitChars b n = [digitChar (UInt32.ofNat n)] := by
  rw [digitChars, Numeral.digits_of_lt h, List.map_singleton]

theorem digitChars_of_ge (hb : 2 ≤ b) (h : b ≤ n) :
    digitChars b n = digitChar (UInt32.ofNat (n % b)) :: digitChars b (n / b) := by
  rw [digitChars, Numeral.digits_of_ge hb h, List.map_cons, digitChars]

theorem toNat_quotient (value : UInt64) (base : UInt32) :
    (value / base.toUInt64).toNat = value.toNat / base.toNat := by
  rw [UInt64.toNat_div, UInt32.toNat_toUInt64]

/-- The test of the first loop. -/
theorem quotient_ne_zero_iff (hbase : 0 < base.toNat) :
    value / base.toUInt64 ≠ 0 ↔ base.toNat ≤ value.toNat := by
  rw [ne_eq, ← UInt64.toNat_inj, toNat_quotient]
  show ¬ value.toNat / base.toNat = 0 ↔ _
  rw [Nat.div_eq_zero_iff]
  omega

/-- One round: it gives the last digit, or there are more behind it. -/
theorem digitChars_round (hbase : 2 ≤ base.toNat) (value : UInt64) :
    (value / base.toUInt64 = 0 ∧
      digitChars base.toNat value.toNat = [digitChar (value % base.toUInt64).toUInt32]) ∨
    (value / base.toUInt64 ≠ 0 ∧
      digitChars base.toNat value.toNat =
        digitChar (value % base.toUInt64).toUInt32 ::
          digitChars base.toNat (value / base.toUInt64).toNat) := by
  have hpos : 0 < base.toNat := by omega
  rw [remainder_eq hpos]
  by_cases hlast : value.toNat < base.toNat
  · left
    have hstop : ¬ value / base.toUInt64 ≠ 0 := by
      rw [quotient_ne_zero_iff hpos]
      omega
    rw [digitChars_of_lt hlast, Nat.mod_eq_of_lt hlast]
    exact ⟨not_not.mp hstop, rfl⟩
  · right
    have hmore : base.toNat ≤ value.toNat := by omega
    rw [toNat_quotient]
    exact ⟨(quotient_ne_zero_iff hpos).mpr hmore, digitChars_of_ge hbase hmore⟩

theorem length_digitChars_pos (b n : Nat) : 0 < (digitChars b n).length := by
  rw [digitChars, List.length_map]
  exact Numeral.length_pos b n

/-- The first loop stores the digits, by induction on the rounds. -/
theorem intToStrLoop_eq {rounds : Nat} (hbase : 2 ≤ base.toNat) (p : Addr) (digits : UInt32)
    (m : Memory) (hrounds : (digitChars base.toNat value.toNat).length ≤ rounds) :
    m.intToStrLoop base rounds value p digits =
      some (p + UInt64.ofNat (digitChars base.toNat value.toNat).length,
        digits + UInt32.ofNat (digitChars base.toNat value.toNat).length,
        m.writeBytes p (digitChars base.toNat value.toNat)) := by
  induction rounds generalizing value p digits m with
  | zero =>
    have hpos := length_digitChars_pos base.toNat value.toNat
    omega
  | succ rounds ih =>
    unfold Memory.intToStrLoop
    dsimp only
    obtain ⟨hstop, hdigit⟩ | ⟨hmore, hdigit⟩ := digitChars_round hbase value
    · rw [if_neg (not_not.mpr hstop), hdigit]
      rfl
    · rw [hdigit] at hrounds ⊢
      rw [if_pos hmore, ih _ _ _ (Nat.le_of_succ_le_succ hrounds), List.length_cons,
        UInt64.ofNat_add, UInt32.ofNat_add, UInt64.add_comm (UInt64.ofNat _),
        UInt32.add_comm (UInt32.ofNat _), ← UInt64.add_assoc, ← UInt32.add_assoc]
      rfl

/-- The characters that `intToStrDigits` gives are those that the loop stores. -/
theorem intToStrDigits_eq {rounds : Nat} (hbase : 2 ≤ base.toNat)
    (hrounds : (digitChars base.toNat value.toNat).length ≤ rounds) :
    intToStrDigits base value rounds = digitChars base.toNat value.toNat := by
  induction rounds generalizing value with
  | zero =>
    have hpos := length_digitChars_pos base.toNat value.toNat
    omega
  | succ rounds ih =>
    unfold intToStrDigits
    dsimp only
    obtain ⟨hstop, hdigit⟩ | ⟨hmore, hdigit⟩ := digitChars_round hbase value
    · rw [if_neg (not_not.mpr hstop), hdigit]
    · rw [hdigit] at hrounds ⊢
      rw [if_pos hmore, ih (Nat.le_of_succ_le_succ hrounds)]

/-- The bytes from `a` on, seen from the other end. -/
def mirrored (m : Memory) (a : Addr) (length : Nat) (x : Addr) : UInt8 :=
  m (a + UInt64.ofNat (length - 1 - (x - a).toNat))

/-- The second loop has swapped `k` bytes at each end. -/
structure Swapped (m : Memory) (a : Addr) (length k : Nat) (m' : Memory) : Prop where
  ends : ∀ x, (x - a).toNat < k ∨ length - k ≤ (x - a).toNat ∧ (x - a).toNat < length →
    m' x = mirrored m a length x
  others : ∀ x, ¬ ((x - a).toNat < k ∨ length - k ≤ (x - a).toNat ∧ (x - a).toNat < length) →
    m' x = m x

variable {m' : Memory} {a : Addr} {length k : Nat}

theorem offset_toNat (a : Addr) {j : Nat} (hj : j < 2 ^ 64) : (a + UInt64.ofNat j - a).toNat = j :=
  (addr_sub_toNat_eq_iff hj).mpr rfl

/-- One more pair of bytes. -/
theorem Swapped.succ (h : Swapped m a length k m') (hk : k < length - 1 - k)
    (hlength : length ≤ 2 ^ 64) :
    Swapped m a length (k + 1)
      (Function.update
        (Function.update m' (a + UInt64.ofNat k) (m' (a + UInt64.ofNat (length - 1 - k))))
        (a + UInt64.ofNat (length - 1 - k)) (m' (a + UInt64.ofNat k))) := by
  have hleft := offset_toNat a (show k < 2 ^ 64 by omega)
  have hright := offset_toNat a (show length - 1 - k < 2 ^ 64 by omega)
  have hlow : m' (a + UInt64.ofNat k) = m (a + UInt64.ofNat k) := h.others _ (by omega)
  have hhigh : m' (a + UInt64.ofNat (length - 1 - k)) = m (a + UInt64.ofNat (length - 1 - k)) :=
    h.others _ (by omega)
  have hne : ∀ {x : Addr} {j : Nat}, j < 2 ^ 64 → (x - a).toNat ≠ j → x ≠ a + UInt64.ofNat j :=
    fun hj hx heq => hx ((addr_sub_toNat_eq_iff hj).mpr heq)
  rw [hlow, hhigh]
  constructor
  · intro x hx
    by_cases hxr : (x - a).toNat = length - 1 - k
    · rw [(addr_sub_toNat_eq_iff (by omega)).mp hxr, Function.update_self, mirrored, hright,
        Nat.sub_sub_self (by omega)]
    · rw [Function.update_of_ne (hne (by omega) hxr)]
      by_cases hxl : (x - a).toNat = k
      · rw [(addr_sub_toNat_eq_iff (by omega)).mp hxl, Function.update_self, mirrored, hleft]
      · rw [Function.update_of_ne (hne (by omega) hxl)]
        exact h.ends x (by omega)
  · intro x hx
    rw [Function.update_of_ne (hne (by omega) (by omega)),
      Function.update_of_ne (hne (by omega) (by omega))]
    exact h.others x (by omega)

/-- Where the right pointer is after `k` rounds. -/
theorem rightPointer_eq (a : Addr) (h : k + 1 ≤ length) :
    a + UInt64.ofNat length - 1 - UInt64.ofNat k = a + UInt64.ofNat (length - 1 - k) := by
  have hsplit : UInt64.ofNat length = UInt64.ofNat (length - 1 - k) + 1 + UInt64.ofNat k := by
    rw [show length = length - 1 - k + 1 + k by omega, UInt64.ofNat_add, UInt64.ofNat_add,
      show length - 1 - k + 1 + k - 1 - k = length - 1 - k by omega]
    rfl
  rw [hsplit]
  grind

/-- The middle byte of an odd number of bytes is its own mirror image. -/
theorem mirrored_middle {x : Addr} (hx : (x - a).toNat = k) (hmiddle : length - 1 - k = k) :
    mirrored m a length x = m x := by
  have hlt := (x - a).toNat_lt
  rw [mirrored, hx, hmiddle, ← (addr_sub_toNat_eq_iff (by omega)).mp hx]

/-- The pointers have met. -/
theorem Swapped.done (h : Swapped m a length k m') (hk : 2 * k ≤ length)
    (hmet : ¬ k < length - 1 - k) :
    (∀ x, (x - a).toNat < length → m' x = mirrored m a length x) ∧
      ∀ x, ¬ (x - a).toNat < length → m' x = m x := by
  constructor
  · intro x hx
    by_cases hmiddle : (x - a).toNat = k ∧ length - 1 - k = k
    · rw [mirrored_middle hmiddle.1 hmiddle.2]
      exact h.others x (by omega)
    · exact h.ends x (by omega)
  · intro x hx
    exact h.others x (by omega)

/-- The second loop goes on until the pointers meet; by induction on the rounds, with the
    bytes swapped so far as the invariant. -/
theorem reverseLoop_spec {rounds : Nat} (h : Swapped m a length k m') (hk : 2 * k ≤ length)
    (hpos : 0 < length) (hroom : a.toNat + length ≤ 2 ^ 64)
    (hrounds : length < 2 * (k + rounds)) :
    ∃ r, m'.reverseLoop rounds (a + UInt64.ofNat k) (a + UInt64.ofNat length - 1 - UInt64.ofNat k) =
        some r ∧
      (∀ x, (x - a).toNat < length → r x = mirrored m a length x) ∧
      ∀ x, ¬ (x - a).toNat < length → r x = m x := by
  induction rounds generalizing k m' with
  | zero => omega
  | succ rounds ih =>
    have hright := rightPointer_eq a (show k + 1 ≤ length by omega)
    have htest : a + UInt64.ofNat k < a + UInt64.ofNat (length - 1 - k) ↔ k < length - 1 - k := by
      rw [UInt64.lt_iff_toNat_lt, addr_add_toNat (by omega), addr_add_toNat (by omega)]
      omega
    unfold Memory.reverseLoop
    dsimp only
    by_cases hmore : k < length - 1 - k
    · obtain ⟨r, hr, hrest⟩ := ih (h.succ hmore (by omega)) (by omega) (by omega)
      refine ⟨r, ?_, hrest⟩
      have hp1 : a + UInt64.ofNat k + 1 = a + UInt64.ofNat (k + 1) := by
        rw [UInt64.ofNat_add, UInt64.add_assoc]
        rfl
      have hp2 : a + UInt64.ofNat length - 1 - UInt64.ofNat k - 1 =
          a + UInt64.ofNat length - 1 - UInt64.ofNat (k + 1) := by
        rw [UInt64.ofNat_add, sub_add_eq_sub_sub]
        rfl
      rw [if_pos (by rw [hright]; exact htest.mpr hmore), hp1, hp2, hright]
      exact hr
    · refine ⟨m', ?_, h.done hk hmore⟩
      rw [if_neg (by rw [hright]; exact fun hlt => hmore (htest.mp hlt))]

/-- A string whose characters are mirrored in memory, and its NUL. -/
theorem writeBytes_reverse {ds : List UInt8} {r : Memory} (hlength : ds.length < 2 ^ 64)
    (hin : ∀ x, (x - a).toNat < ds.length →
      r x = mirrored (m.writeBytes a (ds ++ [0])) a ds.length x)
    (hout : ∀ x, ¬ (x - a).toNat < ds.length → r x = m.writeBytes a (ds ++ [0]) x) :
    r = m.writeBytes a (ds.reverse ++ [0]) := by
  have hreverse : ds.reverse.length = ds.length := List.length_reverse
  funext x
  rw [Memory.writeString_apply m a x (by omega), hreverse]
  by_cases hx : (x - a).toNat < ds.length
  · have hmirror : ds.length - 1 - (x - a).toNat < ds.length := by omega
    have hx' : (x - a).toNat < ds.reverse.length := by omega
    rw [hin x hx, mirrored, Memory.writeString_apply m a _ hlength, offset_toNat a (by omega),
      if_pos hmirror.le, if_pos hx.le, List.getD_eq_getElem _ _ hmirror,
      List.getD_eq_getElem _ _ hx', List.getElem_reverse]
  · -- behind the digits there is the NUL, and then what was there before
    rw [hout x hx, Memory.writeString_apply m a x hlength, List.getD_eq_default _ _ (by omega),
      List.getD_eq_default _ _ (by omega)]

/-- A number of 64 bits has no more than 64 digits. -/
theorem length_numeral_le (hbase : 2 ≤ base.toNat) (value : UInt64) :
    (numeral base.toNat value.toNat).length ≤ 64 := by
  rw [length_numeral_le_iff hbase (by decide)]
  exact Nat.lt_of_lt_of_le value.toNat_lt (Nat.pow_le_pow_left hbase 64)

theorem length_digitChars (b n : Nat) : (digitChars b n).length = (numeral b n).length :=
  List.length_reverse.symm

theorem intToStrBase_eq_numeral (hbase : 2 ≤ base.toNat) (value : UInt64) :
    intToStrBase value base = numeral base.toNat value.toNat := by
  rw [intToStrBase, numeral, intToStrDigits_eq hbase]
  rw [length_digitChars]
  exact length_numeral_le hbase value

/-- What `intToStrBase` does: it stores the number and a NUL. -/
theorem Memory.intToStrBase_eq (m : Memory) (hbase : 2 ≤ base.toNat)
    (hroom : buffer.toNat + (numeral base.toNat value.toNat).length ≤ 2 ^ 64) :
    m.intToStrBase value buffer base =
      some (UInt32.ofNat (numeral base.toNat value.toNat).length,
        m.writeBytes buffer (numeral base.toNat value.toNat ++ [0])) := by
  have hmany := length_numeral_le hbase value
  have hpos := length_digitChars_pos base.toNat value.toNat
  rw [← length_digitChars] at hmany hroom ⊢
  have hstored : Function.update (m.writeBytes buffer (digitChars base.toNat value.toNat))
      (buffer + UInt64.ofNat (digitChars base.toNat value.toNat).length) 0 =
      m.writeBytes buffer (digitChars base.toNat value.toNat ++ [0]) := by
    rw [Memory.writeBytes_append]
    rfl
  have hstart : Swapped (m.writeBytes buffer (digitChars base.toNat value.toNat ++ [0])) buffer
      (digitChars base.toNat value.toNat).length 0
      (m.writeBytes buffer (digitChars base.toNat value.toNat ++ [0])) := by
    refine ⟨?_, fun x _ => rfl⟩
    intro x hx
    omega
  have hrounds : (digitChars base.toNat value.toNat).length < 2 * (0 + 64) := by omega
  obtain ⟨r, hr, hin, hout⟩ := reverseLoop_spec hstart (by omega) hpos hroom hrounds
  have hzero : buffer + UInt64.ofNat 0 = buffer := UInt64.add_zero buffer
  have hback : ∀ x : Addr, x - UInt64.ofNat 0 = x := fun x => UInt64.sub_zero x
  rw [hzero, hback] at hr
  unfold Memory.intToStrBase
  rw [intToStrLoop_eq hbase buffer 0 m hmany, Option.bind_some]
  dsimp only
  rw [hstored, hr, Option.map_some, writeBytes_reverse (by omega) hin hout, UInt32.zero_add,
    numeral]

theorem intToStr_bytes (value : UInt64) : (intToStr value).bytes = numeral 10 value.toNat :=
  intToStrBase_eq_numeral (by decide) value

theorem intToStr_inj {a b : UInt64} (h : intToStr a = intToStr b) : a = b := by
  have hbytes := congrArg CString.bytes h
  rw [intToStr_bytes, intToStr_bytes] at hbytes
  exact UInt64.toNat_inj.mp (numeral_inj (by decide) hbytes)

theorem length_intToStr_le {k : Nat} (hk : 0 < k) (h : value.toNat < 10 ^ k) :
    (intToStr value).length ≤ k := by
  rw [CString.length, intToStr_bytes]
  exact (length_numeral_le_iff (by decide) hk).mpr h

/-- The call stores the string by which the tables of the kernel know the number. -/
theorem Memory.intToStr_stores (m : Memory) (value : UInt64)
    (hroom : buffer.toNat + (TP2Kernel.intToStr value).length ≤ 2 ^ 64) :
    m.intToStr value buffer =
      some (UInt32.ofNat (TP2Kernel.intToStr value).length,
        m.writeBytes buffer ((TP2Kernel.intToStr value).bytes ++ [0])) := by
  rw [CString.length, intToStr_bytes] at hroom ⊢
  exact m.intToStrBase_eq (by decide) hroom

/-! ### The number printed -/

/-- A digit is told by its character. -/
theorem digitChar_charDigit {c : UInt8} (hc : 48 ≤ c ∧ c ≤ 57 ∨ 65 ≤ c ∧ c ≤ 90) :
    digitChar (UInt32.ofNat (charDigit c)) = c := by
  have hall : ∀ i < 91, 48 ≤ i ∧ i ≤ 57 ∨ 65 ≤ i ∧ i ≤ 90 →
      digitChar (UInt32.ofNat (charDigit (UInt8.ofNat i))) = UInt8.ofNat i := by
    decide
  simp only [UInt8.le_iff_toNat_le] at hc
  have hchar := hall c.toNat (by simp at hc; omega) (by simpa using hc)
  rwa [UInt8.ofNat_toNat] at hchar

/-- The first digit is not a zero. -/
theorem Canonical.getLast_ne_zero {text : List UInt8} (h : Canonical b n text) (hn : n ≠ 0)
    (hne : text.reverse.map charDigit ≠ []) : (text.reverse.map charDigit).getLast hne ≠ 0 := by
  intro hzero
  obtain ⟨c, rest, rfl⟩ := List.exists_cons_of_ne_nil (l := text) (by
    rintro rfl
    exact hne rfl)
  have hc : charDigit c = 0 := by simpa using hzero
  have hchar := digitChar_charDigit (h.characters c List.mem_cons_self)
  rw [hc] at hchar
  exact h.noLeadingZero hn (congrArg some hchar.symm)

theorem Canonical.digits_eq {text : List UInt8} (h : Canonical b n text) (hb : 2 ≤ b) :
    text.reverse.map charDigit = Numeral.digits b n := by
  by_cases hn : n = 0
  · rw [h.zero hn, hn]
    rfl
  · have hdigit : ∀ d ∈ text.reverse.map charDigit, d < b := by
      intro d hd
      obtain ⟨c, hc, rfl⟩ := List.mem_map.mp hd
      exact h.digits c (List.mem_reverse.mp hc)
    rw [← Nat.digits_ofDigits b (by omega) _ hdigit (h.getLast_ne_zero hn), Numeral.digits,
      if_neg hn]
    exact congrArg (Nat.digits b) h.value

/-- There is only one way to write a number. -/
theorem canonical_iff (hb : 2 ≤ b ∧ b ≤ 36) {text : List UInt8} :
    Canonical b n text ↔ text = numeral b n := by
  constructor
  · intro h
    have hchars : (text.reverse.map charDigit).map (fun d => digitChar (UInt32.ofNat d)) =
        text.reverse := by
      rw [List.map_map]
      refine (List.map_congr_left fun c hc => ?_).trans (List.map_id _)
      exact digitChar_charDigit (h.characters c (List.mem_reverse.mp hc))
    rw [numeral, digitChars, ← h.digits_eq hb.1, hchars, List.reverse_reverse]
  · rintro rfl
    exact numeral_canonical hb n

/-- A number is printed exactly: the digits and a NUL, one byte more than the number
    returned, and nothing else; and the digits tell the number from every other one. -/
theorem intToStrBase_exact (m : Memory) (hbase : 2 ≤ base.toNat ∧ base.toNat ≤ 36)
    (hroom : buffer.toNat + (numeral base.toNat value.toNat).length ≤ 2 ^ 64) :
    ∃ digits m', m.intToStrBase value buffer base = some (digits, m') ∧
      digits.toNat = (numeral base.toNat value.toNat).length ∧
      (∀ text, Canonical base.toNat value.toNat text ↔
        text = numeral base.toNat value.toNat) ∧
      LiesAt m' buffer (numeral base.toNat value.toNat ++ [0]) ∧
      (∀ x, ¬ (x - buffer).toNat < digits.toNat + 1 → m' x = m x) ∧
      ∀ value' : UInt64, numeral base.toNat value'.toNat = numeral base.toNat value.toNat →
        value' = value := by
  have hmany := length_numeral_le hbase.1 value
  have hdigits : (UInt32.ofNat (numeral base.toNat value.toNat).length).toNat =
      (numeral base.toNat value.toNat).length :=
    UInt32.toNat_ofNat_of_lt' (by show _ < 2 ^ 32; omega)
  have hstring := length_withNul (numeral base.toNat value.toNat)
  refine ⟨_, _, m.intToStrBase_eq hbase.1 hroom, hdigits, fun _ => canonical_iff hbase,
    liesAt_writeBytes m buffer (by omega), ?_, ?_⟩
  · intro x hx
    rw [hdigits, ← hstring] at hx
    exact m.writeBytes_frame (by omega) hx
  · intro value' hsame
    exact UInt64.toNat_inj.mp (numeral_inj hbase hsame)

/-- The number 255 in base 16. -/
theorem intToStrBase_exact_hex : ∃ digits m',
    Memory.intToStrBase (fun _ => 1) 255 4096 16 = some (digits, m') ∧ digits.toNat = 2 ∧
      LiesAt m' 4096 [70, 70, 0] ∧ ∀ x : Addr, ¬ (x - 4096).toNat < 3 → m' x = 1 := by
  have htext : numeral (16 : UInt32).toNat (255 : UInt64).toNat = [70, 70] := by decide
  have hroom : (4096 : Addr).toNat + (numeral (16 : UInt32).toNat (255 : UInt64).toNat).length ≤
      2 ^ 64 := by
    rw [htext]
    decide
  obtain ⟨digits, m', hrun, hdigits, -, hlies, hframe, -⟩ :=
    intToStrBase_exact (fun _ => 1) (by decide) hroom
  rw [htext] at hdigits hlies
  rw [hdigits] at hframe
  exact ⟨digits, m', hrun, hdigits, hlies, hframe⟩

end TP2Kernel
