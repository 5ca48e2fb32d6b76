import Mathlib.Data.List.Lex
import TP2Kernel.Memory.Bytes
import TP2Kernel.Memory.Copies
import TP2Kernel.MessageQueue.Table

/-! # Comparing strings (`streql` and `strcmp` in `Common/c/stdlib.c`)

    Both walk through two strings until they differ or one of them ends, and then compare
    the characters they stand at.  The table of message queues looks for a name with the
    one, the table of files with the other.

    A character is a signed number, so the NUL is not the least one.
-/

namespace TP2Kernel

namespace Memory

/-- The loop of `streql`. -/
def streqlLoop (m : Memory) : Nat → Addr → Addr → Option UInt8
  | 0, _, _ => none
  | rounds + 1, s1, s2 =>
    if m s1 ≠ 0 ∧ m s2 ≠ 0 then
      if m s1 ≠ m s2 then some 0 else streqlLoop m rounds (s1 + 1) (s2 + 1)
    else some (if m s1 = m s2 then 1 else 0)

def streql (m : Memory) (s1 s2 : Addr) : Option UInt8 := m.streqlLoop walkBound s1 s2

/-- `*s1 - *s2` -/
def difference (m : Memory) (s1 s2 : Addr) : Int32 :=
  (m s1).toInt8.toInt32 - (m s2).toInt8.toInt32

/-- The loop of `strcmp`. -/
def strcmpLoop (m : Memory) : Nat → Addr → Addr → Option Int32
  | 0, _, _ => none
  | rounds + 1, s1, s2 =>
    if m s1 ≠ 0 ∧ m s2 ≠ 0 then
      let diff := m.difference s1 s2
      if diff ≠ 0 then some diff else strcmpLoop m rounds (s1 + 1) (s2 + 1)
    else some (m.difference s1 s2)

def strcmp (m : Memory) (s1 s2 : Addr) : Option Int32 := m.strcmpLoop walkBound s1 s2

end Memory

/-! ### Strings in memory -/

variable {m : Memory} {a b c p p' : Addr} {s t u : CString} {l l' : List UInt8} {rounds : Nat}

theorem HoldsString.liesAt (h : HoldsString m a s) : LiesAt m a (s.bytes ++ [0]) := by
  intro i hi
  have hlength := length_withNul s.bytes
  rw [h.2 i (by unfold CString.length; omega), ← List.getD_eq_getElem _ 0 hi, getD_withNul]

/-- A string in memory is shorter than memory: else its NUL would be one of its characters. -/
theorem HoldsString.length_lt (h : HoldsString m a s) : s.length < walkBound := by
  by_contra hlong
  have hlt : s.length - 2 ^ 64 < s.length := by
    unfold walkBound at hlong
    omega
  have hsame : UInt64.ofNat s.length = UInt64.ofNat (s.length - 2 ^ 64) := by
    rw [← UInt64.toNat_inj, UInt64.toNat_ofNat', UInt64.toNat_ofNat']
    unfold walkBound at hlong
    omega
  have hnul := h.nul
  rw [hsame] at hnul
  exact h.char_ne_zero hlt hnul

/-- An `int` has room for the difference of two characters. -/
theorem difference_toInt (m : Memory) (p p' : Addr) :
    (m.difference p p').toInt = (m p).toInt8.toInt - (m p').toInt8.toInt := by
  have hlow := (m p).toInt8.le_toInt
  have hhigh := (m p).toInt8.toInt_lt
  have hlow' := (m p').toInt8.le_toInt
  have hhigh' := (m p').toInt8.toInt_lt
  rw [Memory.difference, Int32.toInt_sub, Int8.toInt_toInt32, Int8.toInt_toInt32]
  apply Int.bmod_eq_of_le <;> omega

/-- The two strings of a round: what is left of them, and the NUL at their ends. -/
structure Walk (m : Memory) (p p' : Addr) (l l' : List UInt8) : Prop where
  left : LiesAt m p (l ++ [0])
  right : LiesAt m p' (l' ++ [0])
  leftChars : ∀ c ∈ l, c ≠ 0
  rightChars : ∀ c ∈ l', c ≠ 0

theorem HoldsString.walk (h : HoldsString m a s) (h' : HoldsString m b t) :
    Walk m a b s.bytes t.bytes :=
  ⟨h.liesAt, h'.liesAt, s.noNul, t.noNul⟩

theorem first_eq (h : LiesAt m p (l ++ [0])) : m p = l.headD 0 := by
  cases l with
  | nil => exact (liesAt_cons.mp h).1
  | cons c l => exact (liesAt_cons.mp h).1

theorem first_ne_zero (h : LiesAt m p (l ++ [0])) (hchars : ∀ c ∈ l, c ≠ 0) :
    m p ≠ 0 ↔ l ≠ [] := by
  rw [first_eq h]
  cases l with
  | nil => simp
  | cons c l => simpa using hchars c List.mem_cons_self

theorem Walk.tail {x y : UInt8} (h : Walk m p p' (x :: l) (y :: l')) :
    Walk m (p + 1) (p' + 1) l l' :=
  ⟨(liesAt_cons.mp h.left).2, (liesAt_cons.mp h.right).2,
    fun c hc => h.leftChars c (List.mem_cons_of_mem x hc),
    fun c hc => h.rightChars c (List.mem_cons_of_mem y hc)⟩

/-- The test of both loops. -/
theorem Walk.goes_on (h : Walk m p p' l l') : (m p ≠ 0 ∧ m p' ≠ 0) ↔ l ≠ [] ∧ l' ≠ [] :=
  and_congr (first_ne_zero h.left h.leftChars) (first_ne_zero h.right h.rightChars)

/-- The loop of `streql`, by induction on the first string. -/
theorem Walk.streqlLoop (h : Walk m p p' l l') (hrounds : l.length < rounds) :
    m.streqlLoop rounds p p' = some (if streqlBytes l l' then 1 else 0) := by
  induction l generalizing l' p p' rounds with
  | nil =>
    obtain ⟨rounds, rfl⟩ := Nat.exists_eq_add_of_le' (show 1 ≤ rounds from hrounds)
    rw [Memory.streqlLoop, if_neg fun hboth => (h.goes_on.mp hboth).1 rfl, first_eq h.left,
      first_eq h.right]
    cases l' with
    | nil => rfl
    | cons y l' =>
      have hy : ¬ 0 = y := Ne.symm (h.rightChars y List.mem_cons_self)
      simp [streqlBytes, hy]
  | cons x l ih =>
    rw [List.length_cons] at hrounds
    obtain ⟨rounds, rfl⟩ := Nat.exists_eq_add_of_le' (show 1 ≤ rounds by omega)
    cases l' with
    | nil =>
      have hx : x ≠ 0 := h.leftChars x List.mem_cons_self
      rw [Memory.streqlLoop, if_neg fun hboth => (h.goes_on.mp hboth).2 rfl, first_eq h.left,
        first_eq h.right]
      simp [streqlBytes, hx]
    | cons y l' =>
      rw [Memory.streqlLoop,
        if_pos (h.goes_on.mpr ⟨List.cons_ne_nil _ _, List.cons_ne_nil _ _⟩), first_eq h.left,
        first_eq h.right, List.headD_cons, List.headD_cons]
      by_cases hxy : x = y
      · rw [if_neg (not_not.mpr hxy), ih h.tail (by omega), streqlBytes, if_neg (not_not.mpr hxy)]
      · rw [if_pos hxy, streqlBytes, if_pos hxy]
        rfl

/-- The loop of `strcmp`, in the same way. -/
theorem Walk.strcmpLoop (h : Walk m p p' l l') (hrounds : l.length < rounds) :
    ∃ diff, m.strcmpLoop rounds p p' = some diff ∧ diff.toInt = strcmpBytes l l' := by
  have hdiff := difference_toInt m p p'
  rw [first_eq h.left, first_eq h.right] at hdiff
  induction l generalizing l' p p' rounds with
  | nil =>
    obtain ⟨rounds, rfl⟩ := Nat.exists_eq_add_of_le' (show 1 ≤ rounds from hrounds)
    rw [Memory.strcmpLoop, if_neg fun hboth => (h.goes_on.mp hboth).1 rfl]
    refine ⟨_, rfl, hdiff.trans ?_⟩
    cases l' with
    | nil => rfl
    | cons y l' => exact Int.zero_sub _
  | cons x l ih =>
    rw [List.length_cons] at hrounds
    obtain ⟨rounds, rfl⟩ := Nat.exists_eq_add_of_le' (show 1 ≤ rounds by omega)
    cases l' with
    | nil =>
      rw [Memory.strcmpLoop, if_neg fun hboth => (h.goes_on.mp hboth).2 rfl]
      exact ⟨_, rfl, hdiff.trans (Int.sub_zero _)⟩
    | cons y l' =>
      rw [Memory.strcmpLoop,
        if_pos (h.goes_on.mpr ⟨List.cons_ne_nil _ _, List.cons_ne_nil _ _⟩)]
      dsimp only [List.headD_cons] at hdiff ⊢
      have hzero : m.difference p p' = 0 ↔ x.toInt8.toInt - y.toInt8.toInt = 0 := by
        rw [← hdiff, ← Int32.toInt_inj, Int32.toInt_zero]
      by_cases hsame : x.toInt8.toInt - y.toInt8.toInt = 0
      · have hnext := difference_toInt m (p + 1) (p' + 1)
        rw [first_eq h.tail.left, first_eq h.tail.right] at hnext
        rw [if_neg (not_not.mpr (hzero.mpr hsame)), strcmpBytes, if_neg (not_not.mpr hsame)]
        exact ih h.tail (by omega) hnext
      · rw [if_pos fun heq => hsame (hzero.mp heq), strcmpBytes, if_pos hsame]
        exact ⟨_, rfl, hdiff⟩

theorem Memory.streql_holds (h : HoldsString m a s) (h' : HoldsString m b t) :
    m.streql a b = some (if TP2Kernel.streql s t then 1 else 0) :=
  (h.walk h').streqlLoop h.length_lt

theorem Memory.strcmp_holds (h : HoldsString m a s) (h' : HoldsString m b t) :
    ∃ diff, m.strcmp a b = some diff ∧ diff.toInt = TP2Kernel.strcmp s t :=
  (h.walk h').strcmpLoop h.length_lt

/-! ### The order -/

/-- A string as `strcmp` sees it: signed characters, and a zero. -/
def signedChars : List UInt8 → List Int
  | [] => [0]
  | c :: l => c.toInt8.toInt :: signedChars l

/-- The same difference, seen from the other side. -/
theorem strcmpBytes_swap (l l' : List UInt8) : strcmpBytes l' l = - strcmpBytes l l' := by
  induction l generalizing l' with
  | nil =>
    cases l' with
    | nil => rfl
    | cons y l' => exact (Int.neg_neg _).symm
  | cons x l ih =>
    cases l' with
    | nil => rfl
    | cons y l' =>
      have hswap : y.toInt8.toInt - x.toInt8.toInt = -(x.toInt8.toInt - y.toInt8.toInt) :=
        (Int.neg_sub _ _).symm
      rw [strcmpBytes, strcmpBytes, hswap]
      by_cases hsame : x.toInt8.toInt - y.toInt8.toInt = 0
      · rw [if_neg (not_not.mpr hsame), if_neg (not_not.mpr (by rw [hsame]; rfl))]
        exact ih l'
      · rw [if_pos hsame, if_pos fun h => hsame (Int.neg_eq_zero.mp h)]

/-- The sign of `strcmp` is the lexicographic order of the signed characters. -/
theorem strcmpBytes_neg_iff (hl : ∀ c ∈ l, c ≠ 0) (hl' : ∀ c ∈ l', c ≠ 0) :
    strcmpBytes l l' < 0 ↔ signedChars l < signedChars l' := by
  induction l generalizing l' with
  | nil =>
    cases l' with
    | nil => simp [strcmpBytes]
    | cons y l' =>
      have hy := (toInt8_toInt_eq_zero_iff y).not.mpr (hl' y List.mem_cons_self)
      simp only [strcmpBytes, signedChars, List.cons_lt_cons_iff]
      omega
  | cons x l ih =>
    have hx := (toInt8_toInt_eq_zero_iff x).not.mpr (hl x List.mem_cons_self)
    cases l' with
    | nil =>
      simp only [strcmpBytes, signedChars, List.cons_lt_cons_iff]
      omega
    | cons y l' =>
      have hrest := ih (fun c hc => hl c (List.mem_cons_of_mem x hc))
        (fun c hc => hl' c (List.mem_cons_of_mem y hc))
      simp only [strcmpBytes, signedChars, List.cons_lt_cons_iff, ← hrest]
      split <;> omega

theorem strcmp_neg_iff (s t : CString) :
    strcmp s t < 0 ↔ signedChars s.bytes < signedChars t.bytes :=
  strcmpBytes_neg_iff s.noNul t.noNul

theorem strcmp_swap (s t : CString) : strcmp t s = - strcmp s t :=
  strcmpBytes_swap s.bytes t.bytes

theorem strcmp_trans (h : strcmp s t < 0) (h' : strcmp t u < 0) : strcmp s u < 0 := by
  rw [strcmp_neg_iff] at h h' ⊢
  exact lt_trans h h'

/-- The tests of `indexOfMQ` and of `findBasicFile` are the same. -/
theorem name_tests_agree (k : Kernel) {i f : Nat} (hfile : (k.mqs i).file = some f)
    (name : CString) :
    streql (k.files.getBasicFileName (k.mqs i).file) name = true ↔
      strcmp (k.files.filesTable f).name name = 0 := by
  rw [streql_iff, strcmp_eq_zero_iff, hfile]
  rfl

/-- **The two comparisons agree** on all strings in memory, and `strcmp` puts them in the
    lexicographic order of their signed characters.  So the table of message queues and the
    table of files never disagree about a name. -/
theorem comparisons_agree (hs : HoldsString m a s) (ht : HoldsString m b t) :
    ∃ equal diff back, m.streql a b = some equal ∧ m.strcmp a b = some diff ∧
      m.strcmp b a = some back ∧
      (equal = 1 ↔ diff = 0) ∧ (diff = 0 ↔ s = t) ∧
      back.toInt.sign = - diff.toInt.sign ∧
      (diff < 0 ↔ signedChars s.bytes < signedChars t.bytes) ∧
      (∀ c u, HoldsString m c u → ∃ next last, m.strcmp b c = some next ∧
        m.strcmp a c = some last ∧ (diff < 0 → next < 0 → last < 0)) ∧
      ∀ (k : Kernel) (i f : Nat) (name : CString), (k.mqs i).file = some f →
        (streql (k.files.getBasicFileName (k.mqs i).file) name = true ↔
          strcmp (k.files.filesTable f).name name = 0) := by
  obtain ⟨diff, hdiff, hvalue⟩ := Memory.strcmp_holds hs ht
  obtain ⟨back, hback, hvalue'⟩ := Memory.strcmp_holds ht hs
  have hsame : diff = 0 ↔ s = t := by
    rw [← Int32.toInt_inj, hvalue, Int32.toInt_zero, strcmp_eq_zero_iff]
  refine ⟨_, diff, back, Memory.streql_holds hs ht, hdiff, hback, ?_, hsame, ?_, ?_, ?_,
    fun k i f name hfile => name_tests_agree k hfile name⟩
  · rw [hsame, ← streql_iff]
    cases streql s t with
    | false => decide
    | true => decide
  · rw [hvalue, hvalue', strcmp_swap, Int.sign_neg]
  · rw [Int32.lt_iff_toInt_lt, hvalue, Int32.toInt_zero, strcmp_neg_iff]
  · intro c u hu
    obtain ⟨next, hnext, hvalue₁⟩ := Memory.strcmp_holds ht hu
    obtain ⟨last, hlast, hvalue₂⟩ := Memory.strcmp_holds hs hu
    refine ⟨next, last, hnext, hlast, ?_⟩
    rw [Int32.lt_iff_toInt_lt, Int32.lt_iff_toInt_lt, Int32.lt_iff_toInt_lt, hvalue, hvalue₁,
      hvalue₂, Int32.toInt_zero]
    exact strcmp_trans

/-- A character above 127 comes before the end of the string. -/
theorem comparisons_agree_signed : ∃ equal diff,
    Memory.streql (fun x => if x = 4097 then 0xE1 else if x = 8192 ∨ x = 4096 then 97 else 0)
      4096 8192 = some equal ∧
    Memory.strcmp (fun x => if x = 4097 then 0xE1 else if x = 8192 ∨ x = 4096 then 97 else 0)
      4096 8192 = some diff ∧ equal ≠ 1 ∧ diff < 0 := by
  let long : CString := ⟨[97, 0xE1], by simp⟩
  let short : CString := ⟨[97], by simp⟩
  let m : Memory := fun x => if x = 4097 then 0xE1 else if x = 8192 ∨ x = 4096 then 97 else 0
  have hlong : HoldsString m 4096 long := by decide
  have hshort : HoldsString m 8192 short := by decide
  obtain ⟨equal, diff, -, hequal, hdiff, -, hagree, hsame, -, hneg, -, -⟩ :=
    comparisons_agree hlong hshort
  have hne : long ≠ short := by decide
  refine ⟨equal, diff, hequal, hdiff, fun h => hne (hsame.mp (hagree.mp h)), hneg.mpr ?_⟩
  decide

end TP2Kernel
