import TP2Kernel.BasicFile.FreeSpace
import TP2Kernel.Framework.Recorded
import TP2Kernel.MessageQueue.Table
import TP2Kernel.Scheduler.ProcessList
import TP2Kernel.Stdlib.IntToStr

/-! # Arrays for numbers

    Whoever prints a number has an array for its characters: 64 bytes in `video-text.c`, 21
    in `printNum` and `printPS`, 22 in `printMQs`.  A sign goes before the digits, and a NUL
    behind them.  Only 64 digits are too many, and only one number has them.

    The events are the characters printed.
-/

namespace TP2Kernel

open Recorded

/-! ### Printing -/

/-- The loop of `ncPrintColor`. -/
def ncPrintLoop (m : Memory) (string : Addr) : Nat → Nat → Recorded UInt8 Unit
  | 0, _ => never
  | rounds + 1, i =>
    let c := m (string + UInt64.ofNat i)
    if c ≠ 0 then emit c >>= fun _ => ncPrintLoop m string rounds (i + 1) else pure ()

/-- `ncPrint`.  The index is an `int`, so the source says nothing of longer strings. -/
def ncPrint (m : Memory) (string : Addr) : Recorded UInt8 Unit := ncPrintLoop m string (2 ^ 31) 0

/-- `print` of `usrlib.c`: the characters handed to the system call. -/
def print (m : Memory) (str : Addr) : Recorded UInt8 Unit :=
  ofOption (strlen m str) >>= fun length =>
    emits ((List.range length.toNat).map fun k => m (str + UInt64.ofNat k))

/-- `ncPrintBase`; `buffer` is the array of `video-text.c`. -/
def ncPrintBase (m : Memory) (buffer : Addr) (value : Int64) (base : UInt32) :
    Recorded UInt8 Memory := do
  let negative : Bool := value < 0
  let value := if negative then value * (-1) else value
  let (_, m) ← ofOption (m.intToStrBase value.toUInt64 buffer base)
  onlyIf negative (emit 45)
  ncPrint m buffer
  pure m

def ncPrintDec (m : Memory) (buffer : Addr) (value : Int64) : Recorded UInt8 Memory :=
  ncPrintBase m buffer value 10

def ncPrintHex (m : Memory) (buffer : Addr) (value : Int64) : Recorded UInt8 Memory :=
  ncPrintBase m buffer value 16

def ncPrintBin (m : Memory) (buffer : Addr) (value : Int64) : Recorded UInt8 Memory :=
  ncPrintBase m buffer value 2

def printNum (m : Memory) (buff : Addr) (num : Int64) : Recorded UInt8 Memory := do
  let negative : Bool := num < 0
  let m : Memory := if negative then Function.update m buff 45 else m
  let num := if negative then num * (-1) else num
  let (_, m) ← ofOption (m.intToStr num.toUInt64 (if negative then buff + 1 else buff))
  print m buff
  pure m

/-! ### The tables -/

/-- `intToStr(value, buff); ncPrint(buff);` -/
def ncPrintNumber (m : Memory) (buff : Addr) (value : UInt64) : Recorded UInt8 Memory := do
  let (_, m) ← ofOption (m.intToStr value buff)
  ncPrint m buff
  pure m

/-- `pad(width - strlen(buff))` -/
def padTo (m : Memory) (buff : Addr) (width : UInt64) : Recorded UInt8 Unit :=
  ofOption (strlen m buff) >>= fun length => emits (pad (width - length))

namespace Tasks

/-- The row of node `i`, with the array in memory. -/
def printNode (t : Tasks) (buff : Addr) (i : Nat) (m : Memory) : Recorded UInt8 Memory := do
  let newPCBIndex := (t.sched.nodes i).PCBIndex
  let m ← ncPrintNumber m buff (t.pcb.getProcessPID newPCBIndex)
  padTo m buff 20
  let name := t.pcb.getProcessName newPCBIndex
  let printed ← ofOption (printName m name)
  emits printed
  emits (pad (32 - nameLength name))
  emit (t.sched.nodes i).state.staticChar
  emits (pad (9 - 1))
  let amount ← ofOption ({ t.toMachine with mem := m }.getProcessMemoryAmount newPCBIndex)
  let m ← ncPrintNumber m buff amount
  padTo m buff 20
  emit 10
  pure m

/-- `printPS`, with its array, which it clears first. -/
def printPSAt (t : Tasks) (buff : Addr) : Recorded UInt8 Memory := do
  emits psTitle
  let m ← forRange (fun i m => if t.sched.usedNodes i = 1 then t.printNode buff i m else pure m)
    MAX_PROCESSES (memset t.mem buff 0 21)
  emits [10, 10]
  pure m

end Tasks

def FilesTable.getBasicFileSize (t : FilesTable) (f : BasicFile) : UInt64 := (t.entry f).size

/-- The column of a reader or a writer: a dash when there is none. -/
def ncPrintPID (m : Memory) (buff : Addr) (pid : UInt64) : Recorded UInt8 Memory :=
  if pid = -1 then
    let m := m.writeBytes buff [45, 0]
    ncPrint m buff >>= fun _ => pure m
  else ncPrintNumber m buff pid

namespace Kernel

/-- The row of queue `i`. -/
def printMQ (s : Kernel) (buff : Addr) (i : Nat) (m : Memory) : Recorded UInt8 Memory := do
  let q := s.mqs i
  let name := s.files.getBasicFileName q.file
  emits name.bytes
  emits (pad (UInt64.ofNat (MAX_NAME + 1) - UInt64.ofNat name.length))
  let m ← ncPrintPID m buff q.readPID
  padTo m buff 14
  let m ← ncPrintPID m buff q.writePID
  padTo m buff 14
  let m ← ncPrintNumber m buff (s.files.getBasicFileSize q.file)
  padTo m buff 11
  let m ← ncPrintNumber m buff (s.files.getBasicFileFreeSpace q.file)
  emit 10
  pure m

/-- The loop of `printMQs`, over the slots that are left. -/
def printMQRows (s : Kernel) (buff : Addr) : List Nat → UInt64 → Memory → Recorded UInt8 Memory
  | [], _, m => pure m
  | i :: slots, printedMQs, m =>
    if printedMQs < s.numMQs then
      if (s.mqs i).file ≠ none then
        s.printMQ buff i m >>= printMQRows s buff slots (printedMQs + 1)
      else printMQRows s buff slots printedMQs m
    else pure m

def mqTitle : List UInt8 :=
  chars "\n------ Message Queues ------" ++
  chars "\nname             reader PID    writer PID    size(B)    free space(B)\n"

def printMQs (s : Kernel) (m : Memory) (buff : Addr) : Recorded UInt8 Memory := do
  emits mqTitle
  let m ← s.printMQRows buff (List.range MAX_MQS) 0 m
  emit 10
  pure m

end Kernel

/-! ### What is printed -/

/-- An array of the program: it has an address, and its bytes do not wrap around. -/
structure IsArray (a : Addr) (size : Nat) : Prop where
  notNull : a ≠ NULL
  room : a.toNat + size ≤ 2 ^ 64

/-- Only the array has been written. -/
def OnlyWithin (a : Addr) (size : Nat) (m m' : Memory) : Prop :=
  ∀ x, ¬ (x - a).toNat < size → m' x = m x

/-- The number with its sign. -/
def Signed (base : Nat) (value : Int) (text : List UInt8) : Prop :=
  if value < 0 then ∃ digits, text = 45 :: digits ∧ Canonical base value.natAbs digits
  else Canonical base value.natAbs text

/-- The number is printed with its sign, and only the array is written. -/
def PrintsWithin (base : Nat) (value : Int) (a : Addr) (size : Nat) (m : Memory)
    (run : Recorded UInt8 Memory) : Prop :=
  ∃ text m', run = ⟨text, some m'⟩ ∧ Signed base value text ∧ OnlyWithin a size m m'

variable {m m' : Memory} {a : Addr} {s : CString} {base : UInt32} {b n size : Nat}

theorem OnlyWithin.refl (a : Addr) (size : Nat) (m : Memory) : OnlyWithin a size m m :=
  fun _ _ => rfl

theorem OnlyWithin.trans {m'' : Memory} (h : OnlyWithin a size m m')
    (h' : OnlyWithin a size m' m'') : OnlyWithin a size m m'' := by
  intro x hx
  rw [h' x hx, h x hx]

/-- A string that fits with its NUL. -/
theorem onlyWithin_writeBytes {text : List UInt8} (m : Memory) (a : Addr)
    (h : text.length < size) (hsize : size ≤ 2 ^ 64) :
    OnlyWithin a size m (m.writeBytes a (text ++ [0])) := by
  intro x hx
  have hlength := length_withNul text
  exact m.writeBytes_frame (by omega) (by omega)

/-- A string that does not fit is noticed by its NUL. -/
theorem not_onlyWithin {text : List UInt8} (h : size ≤ text.length)
    (hlength : text.length < 2 ^ 64) :
    ¬ OnlyWithin a size (fun _ => 1) (Memory.writeBytes (fun _ => 1) a (text ++ [0])) := by
  intro hwithin
  have hoffset := offset_toNat a hlength
  have hsame := hwithin (a + UInt64.ofNat text.length) (by omega)
  rw [Memory.writeString_apply _ a _ hlength, hoffset, if_pos (Nat.le_refl _),
    List.getD_eq_default _ _ (Nat.le_refl _)] at hsame
  have hone : (0 : UInt8) = 1 := hsame
  exact absurd hone (by decide)

theorem ncPrintLoop_holds (h : HoldsString m a s) {rounds i : Nat} (hi : i ≤ s.length)
    (hrounds : s.length - i < rounds) :
    ncPrintLoop m a rounds i = ⟨s.bytes.drop i, some ()⟩ := by
  induction rounds generalizing i with
  | zero => omega
  | succ rounds ih =>
    unfold ncPrintLoop
    dsimp only
    by_cases hend : i = s.length
    · rw [hend, if_neg (not_not.mpr h.nul), CString.length, List.drop_length]
      rfl
    · have hlt : i < s.bytes.length := by
        unfold CString.length at hi hend
        omega
      rw [if_pos (h.char_ne_zero hlt), h.2 i hi, List.getD_eq_getElem _ _ hlt,
        List.drop_eq_getElem_cons hlt]
      exact bind_eq rfl (ih hlt (by omega))

theorem ncPrint_holds (h : HoldsString m a s) (hlength : s.length < 2 ^ 31) :
    ncPrint m a = ⟨s.bytes, some ()⟩ :=
  ncPrintLoop_holds h (Nat.zero_le _) (by omega)

theorem toNat_length (hlength : s.length < walkBound) :
    (UInt64.ofNat s.length).toNat = s.length :=
  UInt64.toNat_ofNat_of_lt' hlength

theorem print_holds (h : HoldsString m a s) (hlength : s.length < walkBound) :
    print m a = ⟨s.bytes, some ()⟩ := by
  have hbytes : (List.range s.length).map (fun k => m (a + UInt64.ofNat k)) = s.bytes := by
    apply List.ext_getElem
    · rw [List.length_map, List.length_range, CString.length]
    · intro k hk hk'
      rw [List.getElem_map, List.getElem_range, h.2 k hk'.le, List.getD_eq_getElem _ _ hk']
  unfold print
  rw [strlen_holds h hlength]
  refine (bind_eq rfl ?_).trans (by rw [List.nil_append])
  rw [toNat_length hlength, hbytes]
  rfl

theorem padTo_holds (h : HoldsString m a s) (hlength : s.length < walkBound) (width : UInt64) :
    padTo m a width = ⟨pad (width - UInt64.ofNat s.length), some ()⟩ := by
  unfold padTo
  rw [strlen_holds h hlength]
  rfl

/-- A string that has been stored with its NUL. -/
theorem holdsString_writeBytes (m : Memory) (ha : a ≠ NULL) (hlength : s.length < walkBound) :
    HoldsString (m.writeBytes a (s.bytes ++ [0])) a s := by
  refine ⟨ha, ?_⟩
  intro j hj
  have hoffset := offset_toNat a (Nat.lt_of_le_of_lt hj hlength)
  rw [Memory.writeString_apply m a _ hlength, hoffset]
  exact if_pos hj

/-! ### Numbers with a sign -/

theorem numeral_noNul (hb : 2 ≤ b ∧ b ≤ 36) (n : Nat) : ∀ c ∈ numeral b n, c ≠ 0 := by
  rintro c hc rfl
  rcases (numeral_canonical hb n).characters 0 hc with ⟨h, -⟩ | ⟨h, -⟩
  · exact absurd h (by decide)
  · exact absurd h (by decide)

def numeralString (hb : 2 ≤ b ∧ b ≤ 36) (n : Nat) : CString := ⟨numeral b n, numeral_noNul hb n⟩

def signOf (value : Int) : List UInt8 := if value < 0 then [45] else []

theorem signed_numeral (hb : 2 ≤ b ∧ b ≤ 36) (value : Int) :
    Signed b value (signOf value ++ numeral b value.natAbs) := by
  unfold Signed signOf
  split
  · exact ⟨_, rfl, numeral_canonical hb _⟩
  · exact numeral_canonical hb _

theorem toInt_eq (value : Int64) :
    value.toInt = if value.toUInt64.toNat < 2 ^ 63 then (value.toUInt64.toNat : Int)
      else value.toUInt64.toNat - 2 ^ 64 := by
  show value.toBitVec.toInt = _
  rw [BitVec.toInt_eq_toNat_cond, Int64.toNat_toBitVec]
  by_cases h : value.toUInt64.toNat < 2 ^ 63
  · rw [if_pos h, if_pos (by omega)]
  · rw [if_neg h, if_neg (by omega)]
    rfl

theorem negative_iff (value : Int64) : value < 0 ↔ value.toInt < 0 :=
  Int64.lt_iff_toInt_lt

/-- The negation is right for the least number too: its bits are those of `2 ^ 63`. -/
theorem toNat_magnitude (value : Int64) :
    (if value < 0 then value * (-1) else value).toUInt64.toNat = value.toInt.natAbs := by
  have hlt := value.toUInt64.toNat_lt
  have htoInt := toInt_eq value
  by_cases hneg : value < 0
  · have hbits : ¬ value.toUInt64.toNat < 2 ^ 63 := by
      intro hsmall
      rw [negative_iff, htoInt, if_pos hsmall] at hneg
      omega
    rw [if_neg hbits] at htoInt
    rw [if_pos hneg, Int64.toUInt64_mul, UInt64.toNat_mul, htoInt]
    show value.toUInt64.toNat * 18446744073709551615 % 2 ^ 64 = _
    omega
  · have hbits : value.toUInt64.toNat < 2 ^ 63 := by
      by_contra hlarge
      rw [negative_iff, htoInt, if_neg hlarge] at hneg
      omega
    rw [if_pos hbits] at htoInt
    rw [if_neg hneg, htoInt, Int.natAbs_natCast]

theorem natAbs_le (value : Int64) : value.toInt.natAbs ≤ 2 ^ 63 := by
  have hlt := value.toUInt64.toNat_lt
  rw [toInt_eq]
  split <;> omega

theorem natAbs_lt_iff (value : Int64) :
    value.toInt.natAbs < 2 ^ 63 ↔ value ≠ Int64.minValue := by
  have hlt := value.toUInt64.toNat_lt
  have hmin : value = Int64.minValue ↔ value.toUInt64.toNat = 2 ^ 63 := by
    constructor
    · rintro rfl
      rfl
    · intro h
      have hbits : value.toUInt64 = Int64.minValue.toUInt64 := UInt64.toNat_inj.mp h
      rw [← Int64.toInt64_toUInt64 value, hbits, Int64.toInt64_toUInt64]
  rw [ne_eq, hmin, toInt_eq]
  split <;> omega

/-- A number of 64 bits with a sign has no more than 63 digits, but for one in one base. -/
theorem length_magnitude_lt_iff (hbase : 2 ≤ base.toNat) (value : Int64) :
    (numeral base.toNat value.toInt.natAbs).length < 64 ↔
      ¬ (value = Int64.minValue ∧ base = 2) := by
  rw [Nat.lt_succ_iff, length_numeral_le_iff hbase (by decide)]
  by_cases htwo : base = 2
  · rw [htwo]
    show _ < 2 ^ 63 ↔ _
    rw [natAbs_lt_iff]
    simp
  · have hthree : 3 ≤ base.toNat := by
      have hne : base.toNat ≠ 2 := fun h => htwo (UInt32.toNat_inj.mp h)
      omega
    have hpow : 3 ^ 63 ≤ base.toNat ^ 63 := Nat.pow_le_pow_left hthree 63
    have hle := natAbs_le value
    refine iff_of_true ?_ fun h => htwo h.2
    exact Nat.lt_of_lt_of_le (Nat.lt_of_le_of_lt hle (by decide)) hpow

/-! ### The callers -/

theorem emit_sign (value : Int64) :
    onlyIf (value < 0) (emit 45) = ⟨signOf value.toInt, some ()⟩ := by
  unfold onlyIf signOf
  simp only [negative_iff]
  split <;> rfl

/-- The digits of a number without its sign. -/
theorem intToStrBase_magnitude (m : Memory) (hbase : 2 ≤ base.toNat) (value : Int64)
    (hroom : a.toNat + (numeral base.toNat value.toInt.natAbs).length ≤ 2 ^ 64) :
    m.intToStrBase (if value < 0 then value * (-1) else value).toUInt64 a base =
      some (UInt32.ofNat (numeral base.toNat value.toInt.natAbs).length,
        m.writeBytes a (numeral base.toNat value.toInt.natAbs ++ [0])) := by
  rw [← toNat_magnitude] at hroom ⊢
  exact m.intToStrBase_eq hbase hroom

theorem length_magnitude_le (hbase : 2 ≤ base.toNat) (value : Int64) :
    (numeral base.toNat value.toInt.natAbs).length ≤ 64 := by
  rw [← toNat_magnitude]
  exact length_numeral_le hbase _

/-- What `ncPrintBase` prints and stores. -/
theorem ncPrintBase_eq (m : Memory) (harray : IsArray a 64)
    (hbase : 2 ≤ base.toNat ∧ base.toNat ≤ 36) (value : Int64) :
    ncPrintBase m a value base =
      ⟨signOf value.toInt ++ numeral base.toNat value.toInt.natAbs,
        some (m.writeBytes a (numeral base.toNat value.toInt.natAbs ++ [0]))⟩ := by
  have hroom := harray.room
  have hlength := length_magnitude_le hbase.1 value
  have hstored := intToStrBase_magnitude (a := a) m hbase.1 value (by omega)
  have hholds : HoldsString (m.writeBytes a (numeral base.toNat value.toInt.natAbs ++ [0])) a
      (numeralString hbase value.toInt.natAbs) :=
    holdsString_writeBytes m harray.notNull (Nat.lt_of_le_of_lt hlength (by decide))
  have hprint := ncPrint_holds hholds (Nat.lt_of_le_of_lt hlength (by decide))
  unfold ncPrintBase
  simp only [decide_eq_true_eq, hstored, ofOption_bind]
  refine (bind_eq (emit_sign value) (bind_eq hprint rfl)).trans ?_
  rw [List.append_nil]
  rfl

/-- The number with its sign, in base 10. -/
def decimal (num : Int64) : CString where
  bytes := signOf num.toInt ++ numeral 10 num.toInt.natAbs
  noNul := by
    intro c hc
    rcases List.mem_append.mp hc with hsign | hdigit
    · unfold signOf at hsign
      split at hsign
      · rw [List.mem_singleton.mp hsign]
        decide
      · exact absurd hsign List.not_mem_nil
    · exact numeral_noNul (by decide) _ c hdigit

/-- A decimal number with its sign has room for a NUL in 21 bytes. -/
theorem length_decimal_le (num : Int64) : (decimal num).length ≤ 20 := by
  have hdigits : (numeral 10 num.toInt.natAbs).length ≤ 19 :=
    (length_numeral_le_iff (by decide) (by decide)).mpr
      (Nat.lt_of_le_of_lt (natAbs_le num) (by decide))
  have hsign : (signOf num.toInt).length ≤ 1 := by
    unfold signOf
    split <;> decide
  show (signOf num.toInt ++ numeral 10 num.toInt.natAbs).length ≤ 20
  rw [List.length_append]
  omega

/-- `printNum` stores the sign too. -/
theorem printNum_stored (m : Memory) (harray : IsArray a 21) (num : Int64) :
    ∃ digits, (if num < 0 then Function.update m a 45 else m : Memory).intToStr
        (if num < 0 then num * (-1) else num).toUInt64 (if num < 0 then a + 1 else a) =
      some (digits, m.writeBytes a ((decimal num).bytes ++ [0])) := by
  have hroom := harray.room
  have hdigits : (numeral (10 : UInt32).toNat num.toInt.natAbs).length ≤ 19 :=
    (length_numeral_le_iff (by decide) (by decide)).mpr
      (Nat.lt_of_le_of_lt (natAbs_le num) (by decide))
  have hstored : ∀ (m' : Memory) (p : Addr), p.toNat ≤ a.toNat + 1 →
      m'.intToStr (if num < 0 then num * (-1) else num).toUInt64 p =
        some (UInt32.ofNat (numeral 10 num.toInt.natAbs).length,
          m'.writeBytes p (numeral 10 num.toInt.natAbs ++ [0])) :=
    fun m' p hp => intToStrBase_magnitude m' (by decide) num (by omega)
  refine ⟨UInt32.ofNat (numeral 10 num.toInt.natAbs).length, ?_⟩
  by_cases hneg : num < 0
  · have hbytes : (decimal num).bytes = 45 :: numeral 10 num.toInt.natAbs := by
      simp only [decimal, signOf, if_pos ((negative_iff num).mp hneg), List.singleton_append]
    have hnext : (a + 1).toNat ≤ a.toNat + 1 := (addr_add_toNat (k := 1) (by omega)).le
    have hrun := hstored (Function.update m a 45) (a + 1) hnext
    rw [if_pos hneg] at hrun
    rw [if_pos hneg, if_pos hneg, if_pos hneg, hbytes]
    exact hrun
  · have hbytes : (decimal num).bytes = numeral 10 num.toInt.natAbs := by
      simp only [decimal, signOf, if_neg fun h => hneg ((negative_iff num).mpr h),
        List.nil_append]
    have hrun := hstored m a (Nat.le_add_right _ _)
    rw [if_neg hneg] at hrun
    rw [if_neg hneg, if_neg hneg, if_neg hneg, hbytes]
    exact hrun

/-- What `printNum` prints and stores. -/
theorem printNum_eq (m : Memory) (harray : IsArray a 21) (num : Int64) :
    printNum m a num =
      ⟨(decimal num).bytes, some (m.writeBytes a ((decimal num).bytes ++ [0]))⟩ := by
  have hlength := length_decimal_le num
  have hsmall : (decimal num).length < walkBound := Nat.lt_of_le_of_lt hlength (by decide)
  have hprint := print_holds (holdsString_writeBytes m harray.notNull hsmall) hsmall
  obtain ⟨digits, hstored⟩ := printNum_stored m harray num
  unfold printNum
  simp only [decide_eq_true_eq, hstored, ofOption_bind]
  refine (bind_eq hprint rfl).trans ?_
  rw [List.append_nil]

/-! ### The tables -/

/-- What `intToStr` stores for a table, and what is printed of it. -/
theorem ncPrintNumber_eq (m : Memory) (harray : IsArray a size) (hsize : 21 ≤ size)
    (value : UInt64) :
    ncPrintNumber m a value =
      ⟨(intToStr value).bytes, some (m.writeBytes a ((intToStr value).bytes ++ [0]))⟩ := by
  have hroom := harray.room
  have hlength := Tasks.length_intToStr_le_twenty value
  have hsmall : (intToStr value).length < walkBound := Nat.lt_of_le_of_lt hlength (by decide)
  have hfits : a.toNat + (intToStr value).length ≤ 2 ^ 64 := by omega
  have hstored := m.intToStr_stores value hfits
  have hprint := ncPrint_holds (holdsString_writeBytes m harray.notNull hsmall)
    (Nat.lt_of_le_of_lt hlength (by decide))
  unfold ncPrintNumber
  rw [hstored, ofOption_bind]
  refine (bind_eq hprint rfl).trans ?_
  rw [List.append_nil]

/-- The array holds the column that has been printed. -/
structure ColumnIn (a : Addr) (size : Nat) (m m' : Memory) : Prop where
  within : OnlyWithin a size m m'
  column : ∃ text, HoldsString m' a text ∧ text.length < walkBound

theorem columnIn_writeBytes (m : Memory) (harray : IsArray a size) (h : s.length < size) :
    ColumnIn a size m (m.writeBytes a (s.bytes ++ [0])) := by
  have hroom := harray.room
  have hsmall : s.length < walkBound := by
    unfold walkBound
    omega
  exact ⟨onlyWithin_writeBytes m a h (by omega), s,
    holdsString_writeBytes m harray.notNull hsmall, hsmall⟩

theorem ncPrintNumber_meets (m : Memory) (harray : IsArray a size) (hsize : 21 ≤ size)
    (value : UInt64) :
    (ncPrintNumber m a value).Meets (fun _ => True) (ColumnIn a size m) := by
  have hlength := Tasks.length_intToStr_le_twenty value
  refine ⟨_, by rw [ncPrintNumber_eq m harray hsize], ?_, fun _ _ => trivial⟩
  exact columnIn_writeBytes m harray (by omega)

/-- What is printed when there is no process. -/
def dash : CString := ⟨[45], by simp⟩

theorem ncPrintPID_meets (m : Memory) (harray : IsArray a size) (hsize : 21 ≤ size)
    (pid : UInt64) : (ncPrintPID m a pid).Meets (fun _ => True) (ColumnIn a size m) := by
  have hlength : dash.length = 1 := rfl
  unfold ncPrintPID
  split
  · have hdash : ColumnIn a size m (m.writeBytes a [45, 0]) :=
      columnIn_writeBytes (s := dash) m harray (by omega)
    have hholds : HoldsString (m.writeBytes a [45, 0]) a dash :=
      holdsString_writeBytes (s := dash) m harray.notNull (by decide)
    have hprint : (ncPrint (m.writeBytes a [45, 0]) a).Meets (fun _ => True) fun _ => True :=
      ⟨(), by rw [ncPrint_holds hholds (by decide)], trivial, fun _ _ => trivial⟩
    exact hprint.bind fun _ _ => .pure hdash
  · exact ncPrintNumber_meets m harray hsize pid

theorem padTo_meets (h : ColumnIn a size m m') (width : UInt64) :
    (padTo m' a width).Meets (fun _ => True) fun _ => True := by
  obtain ⟨text, hholds, hlength⟩ := h.column
  exact ⟨(), by rw [padTo_holds hholds hlength], trivial, fun _ _ => trivial⟩

/-- A column and its padding, after which the rest goes on. -/
theorem column_meets {run : Recorded UInt8 Memory}
    (h : run.Meets (fun _ => True) (ColumnIn a size m)) (width : UInt64)
    {rest : Memory → Recorded UInt8 Memory} {Q : Memory → Prop}
    (hrest : ∀ m', OnlyWithin a size m m' → (rest m').Meets (fun _ => True) Q) :
    (run >>= fun m => padTo m a width >>= fun _ => rest m).Meets (fun _ => True) Q :=
  .bind h fun m' hm' => .bind (padTo_meets hm' width) fun _ _ => hrest m' hm'.within

/-- The row of a queue is printed, and only the array is written. -/
theorem printMQ_meets (k : Kernel) (harray : IsArray a size) (hsize : 21 ≤ size) (i : Nat)
    (m : Memory) :
    (k.printMQ a i m).Meets (fun _ => True) (OnlyWithin a size m) := by
  unfold Kernel.printMQ
  refine .bind (.emits fun _ _ => trivial) fun _ _ => ?_
  refine .bind (.emits fun _ _ => trivial) fun _ _ => ?_
  refine column_meets (ncPrintPID_meets m harray hsize _) 14 fun m₁ h₁ => ?_
  refine column_meets (ncPrintPID_meets m₁ harray hsize _) 14 fun m₂ h₂ => ?_
  refine column_meets (ncPrintNumber_meets m₂ harray hsize _) 11 fun m₃ h₃ => ?_
  refine .bind (ncPrintNumber_meets m₃ harray hsize _) fun m₄ h₄ => ?_
  refine .bind (.emit trivial) fun _ _ => .pure ?_
  exact ((h₁.trans h₂).trans h₃).trans h₄.within

theorem printMQRows_meets (k : Kernel) (harray : IsArray a size) (hsize : 21 ≤ size)
    (slots : List Nat) (printedMQs : UInt64) (m : Memory) :
    (k.printMQRows a slots printedMQs m).Meets (fun _ => True) (OnlyWithin a size m) := by
  induction slots generalizing printedMQs m with
  | nil => exact .pure (.refl a size m)
  | cons i slots ih =>
    unfold Kernel.printMQRows
    split
    · split
      · refine .bind (printMQ_meets k harray hsize i m) fun m' hm' => ?_
        exact (ih _ m').mono fun m'' hm'' => hm'.trans hm''
      · exact ih printedMQs m
    · exact .pure (.refl a size m)

theorem printMQs_meets (k : Kernel) (harray : IsArray a size) (hsize : 21 ≤ size) (m : Memory) :
    (k.printMQs m a).Meets (fun _ => True) (OnlyWithin a size m) := by
  unfold Kernel.printMQs
  refine .bind (.emits fun _ _ => trivial) fun _ _ => ?_
  refine .bind (printMQRows_meets k harray hsize _ 0 m) fun m' hm' => ?_
  exact .bind (.emit trivial) fun _ _ => .pure hm'

/-- The row of a process: only the array is written, if the row is printed at all. -/
theorem printNode_keeps (t : Tasks) (harray : IsArray a 21) (i : Nat) (m : Memory) :
    (t.printNode a i m).Keeps (fun _ => True) (OnlyWithin a 21 m) := by
  have hnumber := fun (m : Memory) (value : UInt64) =>
    (ncPrintNumber_meets m harray (Nat.le_refl 21) value).keeps
  unfold Tasks.printNode
  refine .bind (hnumber m _) fun m₁ h₁ => ?_
  refine .bind (padTo_meets h₁ 20).keeps fun _ _ => ?_
  refine .bind (Q := fun _ => True) (.ofOption fun _ _ => trivial) fun printed _ => ?_
  refine .bind (.emits fun _ _ => trivial) fun _ _ => ?_
  refine .bind (.emits fun _ _ => trivial) fun _ _ => ?_
  refine .bind (.emit trivial) fun _ _ => ?_
  refine .bind (.emits fun _ _ => trivial) fun _ _ => ?_
  refine .bind (Q := fun _ => True) (.ofOption fun _ _ => trivial) fun amount _ => ?_
  refine .bind (hnumber m₁ amount) fun m₂ h₂ => ?_
  refine .bind (padTo_meets h₂ 20).keeps fun _ _ => ?_
  exact .bind (.emit trivial) fun _ _ => .pure (h₁.within.trans h₂.within)

theorem onlyWithin_memset (m : Memory) (a : Addr) (c : UInt8) (hsize : size ≤ 2 ^ 64) :
    OnlyWithin a size m (memset m a c size) := by
  intro x hx
  rw [memset_apply hsize, if_neg hx]

theorem printPSAt_keeps (t : Tasks) (harray : IsArray a 21) :
    (t.printPSAt a).Keeps (fun _ => True) (OnlyWithin a 21 t.mem) := by
  unfold Tasks.printPSAt
  refine .bind (.emits fun _ _ => trivial) fun _ _ => ?_
  refine .bind (.forRange (Q := OnlyWithin a 21 t.mem) ?_ (onlyWithin_memset _ a 0 (by decide)))
    fun m hm => .bind (.emits fun _ _ => trivial) fun _ _ => .pure hm
  intro i _ m hm
  split
  · exact (printNode_keeps t harray i m).mono fun m' hm' => hm.trans hm'
  · exact .pure hm

/-- What the row of node `i` is made of does not lie in the array. -/
structure ReadsElsewhere (t : Tasks) (a : Addr) (i : Nat) : Prop where
  name : ∀ m, OnlyWithin a 21 t.mem m →
    printName m (t.pcb.getProcessName (t.sched.nodes i).PCBIndex) =
      printName t.mem (t.pcb.getProcessName (t.sched.nodes i).PCBIndex)
  memory : ∀ m, OnlyWithin a 21 t.mem m →
    { t.toMachine with mem := m }.getProcessMemoryAmount (t.sched.nodes i).PCBIndex =
      t.getProcessMemoryAmount (t.sched.nodes i).PCBIndex

/-- The row that is printed is the row of the table. -/
theorem printNode_eq {t : Tasks} {i : Nat} (h : ReadsElsewhere t a i) (harray : IsArray a 21)
    (hm : OnlyWithin a 21 t.mem m) {row : List UInt8} (hrow : t.psRow i = some row) :
    ∃ m', t.printNode a i m = ⟨row, some m'⟩ ∧ OnlyWithin a 21 t.mem m' := by
  have hlength := fun value => Tasks.length_intToStr_le_twenty value
  have hsmall : ∀ value, (intToStr value).length < walkBound := fun value =>
    Nat.lt_of_le_of_lt (hlength value) (by decide)
  have hcolumn := fun (m : Memory) (value : UInt64) =>
    columnIn_writeBytes (s := intToStr value) m harray (Nat.lt_succ_of_le (hlength value))
  have hpad := fun (m : Memory) (value : UInt64) =>
    padTo_holds (holdsString_writeBytes m harray.notNull (hsmall value)) (hsmall value) 20
  have hnumber := fun (m : Memory) (value : UInt64) =>
    ncPrintNumber_eq m harray (Nat.le_refl 21) value
  have hpid := hm.trans (hcolumn m (t.pcb.getProcessPID (t.sched.nodes i).PCBIndex)).within
  unfold Tasks.psRow at hrow
  dsimp only at hrow
  split at hrow
  · exact absurd hrow (Option.some_ne_none _).symm
  · next printed hprinted =>
    split at hrow
    · exact absurd hrow (Option.some_ne_none _).symm
    · next amount hamount =>
      refine ⟨_, ?_, hpid.trans (hcolumn _ amount).within⟩
      rw [← Option.some.inj hrow]
      simp only [Tasks.printNode, hnumber, known_bind, hpad, h.name _ hpid, hprinted,
        h.memory _ hpid, hamount, ofOption_bind, List.append_assoc]
      rfl

theorem psRows_concat (t : Tasks) (nodes : List Nat) (i : Nat) :
    t.psRows (nodes ++ [i]) = (t.psRows nodes).bind fun rows =>
      (if t.sched.usedNodes i = 1 then t.psRow i else some []).map fun row => rows ++ row := by
  induction nodes with
  | nil =>
    simp only [List.nil_append, Tasks.psRows, Option.bind_some]
    split
    · cases t.psRow i with
      | none => rfl
      | some row => simp
    · rfl
  | cons j nodes ih =>
    simp only [List.cons_append, Tasks.psRows, ih]
    split
    · cases t.psRow j with
      | none => rfl
      | some row =>
        cases t.psRows nodes with
        | none => rfl
        | some rows =>
          simp only [Option.bind_some, Option.map_some, Option.map_map, List.append_assoc]
          rfl
    · rfl

/-- The loop prints the rows of the table, by induction on the nodes seen. -/
theorem printNodes_eq {t : Tasks} (harray : IsArray a 21)
    (h : ∀ i < n, t.sched.usedNodes i = 1 → ReadsElsewhere t a i)
    (hm : OnlyWithin a 21 t.mem m) {rows : List UInt8}
    (hrows : t.psRows (List.range n) = some rows) :
    ∃ m', forRange (fun i m => if t.sched.usedNodes i = 1 then t.printNode a i m else pure m) n m =
        ⟨rows, some m'⟩ ∧ OnlyWithin a 21 t.mem m' := by
  induction n generalizing rows with
  | zero => exact ⟨m, by rw [← Option.some.inj hrows]; rfl, hm⟩
  | succ n ih =>
    rw [List.range_succ, psRows_concat, Option.bind_eq_some_iff] at hrows
    obtain ⟨before, hbefore, hlast⟩ := hrows
    obtain ⟨row, hrow, rfl⟩ := Option.map_eq_some_iff.mp hlast
    obtain ⟨m₁, hrun, hm₁⟩ := ih (fun i hi => h i (Nat.lt_succ_of_lt hi)) hbefore
    unfold forRange
    by_cases hused : t.sched.usedNodes n = 1
    · rw [if_pos hused] at hrow
      obtain ⟨m₂, hnode, hm₂⟩ := printNode_eq (h n (Nat.lt_succ_self n) hused) harray hm₁ hrow
      refine ⟨m₂, bind_eq hrun ?_, hm₂⟩
      rw [if_pos hused, hnode]
    · rw [if_neg hused] at hrow
      refine ⟨m₁, bind_eq hrun ?_, hm₁⟩
      rw [if_neg hused, ← Option.some.inj hrow]
      rfl

/-- With its array apart from what it reads, `printPS` prints the list of processes. -/
theorem printPSAt_eq {t : Tasks} (harray : IsArray a 21)
    (h : ∀ i < MAX_PROCESSES, t.sched.usedNodes i = 1 → ReadsElsewhere t a i) {out : List UInt8}
    (hout : t.printPS = some out) :
    ∃ m', t.printPSAt a = ⟨out, some m'⟩ ∧ OnlyWithin a 21 t.mem m' := by
  obtain ⟨rows, hrows, rfl⟩ := Option.map_eq_some_iff.mp hout
  obtain ⟨m', hrun, hm'⟩ :=
    printNodes_eq harray h (onlyWithin_memset t.mem a 0 (by decide)) hrows
  refine ⟨m', ?_, hm'⟩
  unfold Tasks.printPSAt
  rw [hrun]
  simp only [known_bind, emits, List.append_assoc]
  rfl

/-! ### The arrays are large enough -/

/-- `ncPrintBase` keeps to its array when there are less than 64 digits. -/
theorem ncPrintBase_within (hbase : 2 ≤ base.toNat ∧ base.toNat ≤ 36) {value : Int64}
    (hdigits : (numeral base.toNat value.toInt.natAbs).length < 64) (m : Memory)
    (harray : IsArray a 64) :
    PrintsWithin base.toNat value.toInt a 64 m (ncPrintBase m a value base) := by
  refine ⟨_, _, ncPrintBase_eq m harray hbase value, signed_numeral hbase _, ?_⟩
  exact onlyWithin_writeBytes m a hdigits (by decide)

/-- The NUL of 64 digits is written behind the array. -/
theorem ncPrintBase_not_within (hbase : 2 ≤ base.toNat ∧ base.toNat ≤ 36) {value : Int64}
    (hdigits : ¬ (numeral base.toNat value.toInt.natAbs).length < 64) (harray : IsArray a 64) :
    ¬ PrintsWithin base.toNat value.toInt a 64 (fun _ => 1)
      (ncPrintBase (fun _ => 1) a value base) := by
  rintro ⟨text, m', hrun, -, hwithin⟩
  have hlength := length_magnitude_le hbase.1 value
  rw [ncPrintBase_eq _ harray hbase value, Recorded.mk.injEq] at hrun
  rw [← Option.some.inj hrun.2] at hwithin
  exact not_onlyWithin (by omega) (by omega) hwithin

/-- The three bases of the kernel. -/
theorem ncPrint_bases_within (m : Memory) (harray : IsArray a 64) (value : Int64) :
    PrintsWithin 10 value.toInt a 64 m (ncPrintDec m a value) ∧
    PrintsWithin 16 value.toInt a 64 m (ncPrintHex m a value) ∧
    (value ≠ Int64.minValue → PrintsWithin 2 value.toInt a 64 m (ncPrintBin m a value)) := by
  have hfits := fun (base : UInt32) (hb : 2 ≤ base.toNat ∧ base.toNat ≤ 36)
      (h : ¬ (value = Int64.minValue ∧ base = 2)) =>
    ncPrintBase_within hb ((length_magnitude_lt_iff hb.1 value).mpr h) m harray
  refine ⟨?_, ?_, ?_⟩
  · exact hfits 10 (by decide) fun h => absurd h.2 (by decide)
  · exact hfits 16 (by decide) fun h => absurd h.2 (by decide)
  · intro hne
    exact hfits 2 (by decide) fun h => hne h.1

theorem printNum_within (m : Memory) (harray : IsArray a 21) (num : Int64) :
    PrintsWithin 10 num.toInt a 21 m (printNum m a num) := by
  refine ⟨_, _, printNum_eq m harray num, signed_numeral (by decide) _, ?_⟩
  exact onlyWithin_writeBytes m a (Nat.lt_succ_of_le (length_decimal_le num)) (by decide)

theorem ncPrintNumber_within (m : Memory) (harray : IsArray a 21) (value : UInt64) :
    PrintsWithin 10 value.toNat a 21 m (ncPrintNumber m a value) := by
  have hstring : (intToStr value).bytes =
      signOf value.toNat ++ numeral 10 (value.toNat : Int).natAbs := by
    have hsign : signOf value.toNat = [] := if_neg (by omega)
    rw [hsign, List.nil_append, Int.natAbs_natCast, intToStr_bytes]
  refine ⟨_, _, ncPrintNumber_eq m harray (Nat.le_refl 21) value, ?_,
    (columnIn_writeBytes m harray ?_).within⟩
  · rw [hstring]
    exact signed_numeral (by decide) _
  · exact Nat.lt_succ_of_le (Tasks.length_intToStr_le_twenty value)

/-- **Numbers fit in their arrays**, and are printed with their signs: in `ncPrintBase` all
    but the least number in base 2, which leaves no room for its NUL, and in `printNum` and
    the columns of `printPS` and `printMQs` all numbers. -/
theorem number_buffers_iff (hbase : 2 ≤ base.toNat ∧ base.toNat ≤ 16) (value : Int64) :
    ((∀ m buffer, IsArray buffer 64 → PrintsWithin base.toNat value.toInt buffer 64 m
        (ncPrintBase m buffer value base)) ↔ ¬ (value = Int64.minValue ∧ base = 2)) ∧
    (∀ num m buff, IsArray buff 21 →
      PrintsWithin 10 num.toInt buff 21 m (printNum m buff num)) ∧
    (∀ (n : UInt64) (m : Memory) (buff : Addr), IsArray buff 21 →
      PrintsWithin 10 n.toNat buff 21 m (ncPrintNumber m buff n)) ∧
    (∀ (t : Tasks) (buff : Addr), IsArray buff 21 →
      (t.printPSAt buff).Keeps (fun _ => True) (OnlyWithin buff 21 t.mem)) ∧
    ∀ (k : Kernel) (m : Memory) (buff : Addr), IsArray buff 22 →
      (k.printMQs m buff).Meets (fun _ => True) (OnlyWithin buff 22 m) := by
  have hbase' : 2 ≤ base.toNat ∧ base.toNat ≤ 36 := ⟨hbase.1, by omega⟩
  refine ⟨?_, fun num m buff harray => printNum_within m harray num,
    fun n m buff harray => ncPrintNumber_within m harray n,
    fun t buff harray => printPSAt_keeps t harray,
    fun k m buff harray => printMQs_meets k harray (by decide) m⟩
  rw [← length_magnitude_lt_iff hbase.1]
  constructor
  · intro h
    by_contra hdigits
    have harray : IsArray 4096 64 := ⟨by decide, by decide⟩
    exact ncPrintBase_not_within hbase' hdigits harray (h _ 4096 harray)
  · intro hdigits m buffer harray
    exact ncPrintBase_within hbase' hdigits m harray

/-- The number -5 in base 10. -/
theorem number_buffers_iff_negative : PrintsWithin 10 (-5) 4096 64 (fun _ => 1)
    (ncPrintBase (fun _ => 1) 4096 (-5) 10) := by
  have hbase : 2 ≤ (10 : UInt32).toNat ∧ (10 : UInt32).toNat ≤ 16 := by decide
  exact (number_buffers_iff hbase (-5)).1.mpr (by decide) _ 4096 ⟨by decide, by decide⟩

/-- The least number in base 2. -/
theorem binary_least_too_long : IsArray 4096 64 ∧
    ¬ PrintsWithin 2 (-9223372036854775808) 4096 64 (fun _ => 1)
      (ncPrintBase (fun _ => 1) 4096 Int64.minValue 2) := by
  have harray : IsArray 4096 64 := ⟨by decide, by decide⟩
  have hdigits : ¬ (numeral (2 : UInt32).toNat Int64.minValue.toInt.natAbs).length < 64 := by
    rw [length_magnitude_lt_iff (by decide)]
    simp
  exact ⟨harray, ncPrintBase_not_within (by decide) hdigits harray⟩

end TP2Kernel
