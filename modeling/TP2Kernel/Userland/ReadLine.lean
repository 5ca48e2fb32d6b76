import TP2Kernel.Memory.Bytes

/-! # Lines from the standard input (`readLine` in `Userland/c/stdio.c`)

    `readLine` fetches a character before it looks whether there is room for it.  So the
    loop ends with the end of the line, or with a character that is thrown away, together
    with the rest of the line.  It returns one less than the length of what it has stored.
-/

namespace TP2Kernel

/-- The first loop, with the character that ends it.  `none` is a call that still waits for
    input. -/
def readChars (buffer : Addr) (buffSize : UInt64) :
    List UInt8 → UInt64 → Memory → Option (UInt8 × UInt64 × Memory × List UInt8)
  | [], _, _ => none
  | c :: stdin, i, m =>
    if c ≠ 10 ∧ i < buffSize - 1 then
      readChars buffer buffSize stdin (i + 1) (Function.update m (buffer + i) c)
    else some (c, i, m, stdin)

/-- `while (getchar() != '\n');` -/
def cleanStdin : List UInt8 → Option (List UInt8)
  | [] => none
  | c :: stdin => if c ≠ 10 then cleanStdin stdin else some stdin

/-- `readLine`: what it returns, the memory, and what is left of the input. -/
def readLine (m : Memory) (stdin : List UInt8) (buffer : Addr) (buffSize : UInt64) :
    Option (Int64 × Memory × List UInt8) :=
  (readChars buffer buffSize stdin 0 m).bind fun (c, i, m, stdin) =>
    let m := Function.update m (buffer + i) 0
    (if c ≠ 10 then cleanStdin stdin else some stdin).map fun stdin => ((i - 1).toInt64, m, stdin)

/-- What there is room for, with the NUL. -/
def storedLine (line : List UInt8) (buffSize : UInt64) : List UInt8 :=
  line.take (buffSize.toNat - 1)

/-- `readLine` takes the line and its end from the input, stores what there is room for, and
    returns its length. -/
def TakesLine (m : Memory) (line rest : List UInt8) (buffer : Addr) (buffSize : UInt64) : Prop :=
  ∃ result m', readLine m (line ++ 10 :: rest) buffer buffSize = some (result, m', rest) ∧
    LiesAt m' buffer (storedLine line buffSize ++ [0]) ∧
    (∀ a, ¬ (a - buffer).toNat < buffSize.toNat → m' a = m a) ∧
    result = (UInt64.ofNat (storedLine line buffSize).length).toInt64

variable {m : Memory} {line rest : List UInt8} {buffer : Addr} {buffSize i : UInt64}

theorem cleanStdin_eq (hline : 10 ∉ line) : cleanStdin (line ++ 10 :: rest) = some rest := by
  induction line with
  | nil => rfl
  | cons c line ih =>
    rw [List.mem_cons, not_or] at hline
    rw [List.cons_append, cleanStdin, if_pos (Ne.symm hline.1)]
    exact ih hline.2

/-- The loop stores as much of the line as there is room for, by induction on the line.  It
    ends behind the line, or at the first character that has no room. -/
theorem readChars_eq (m : Memory) (rest : List UInt8) (buffer : Addr) (hline : 10 ∉ line)
    {room : Nat} (hroom : i.toNat + room = (buffSize - 1).toNat) :
    ∃ c stdin, readChars buffer buffSize (line ++ 10 :: rest) i m =
        some (c, i + UInt64.ofNat (line.take room).length,
          m.writeBytes (buffer + i) (line.take room), stdin) ∧
      (if c ≠ 10 then cleanStdin stdin else some stdin) = some rest := by
  induction line generalizing i m room with
  | nil =>
    refine ⟨10, rest, ?_, rfl⟩
    rw [List.nil_append, readChars, if_neg (fun h => h.1 rfl), List.take_nil]
    exact congrArg (fun i => some (10, i, m, rest)) (UInt64.add_zero i).symm
  | cons c line ih =>
    rw [List.mem_cons, not_or] at hline
    obtain ⟨hc, hline⟩ := hline
    rw [List.cons_append, readChars]
    cases room with
    | zero =>
      have hfull : ¬ i < buffSize - 1 := by
        rw [UInt64.lt_iff_toNat_lt]
        omega
      refine ⟨c, line ++ 10 :: rest, ?_, ?_⟩
      · rw [if_neg (fun h => hfull h.2), List.take_zero]
        exact congrArg (fun i => some (c, i, m, line ++ 10 :: rest)) (UInt64.add_zero i).symm
      · rw [if_pos (Ne.symm hc)]
        exact cleanStdin_eq hline
    | succ room =>
      have hspace : i < buffSize - 1 := by
        rw [UInt64.lt_iff_toNat_lt]
        omega
      have hlast := (buffSize - 1).toNat_lt
      have hnext : (i + 1).toNat = i.toNat + 1 := addr_add_toNat (k := 1) (by omega)
      obtain ⟨d, stdin, hloop, hrest⟩ := ih (Function.update m (buffer + i) c) hline
        (show (i + 1).toNat + room = _ by omega)
      refine ⟨d, stdin, ?_, hrest⟩
      have hlength : i + 1 + UInt64.ofNat (line.take room).length =
          i + UInt64.ofNat ((c :: line).take (room + 1)).length := by
        rw [List.take_succ_cons, List.length_cons, UInt64.ofNat_add,
          UInt64.add_comm (UInt64.ofNat _), ← UInt64.add_assoc]
        rfl
      rw [if_pos ⟨Ne.symm hc, hspace⟩, hloop, hlength, List.take_succ_cons, Memory.writeBytes,
        UInt64.add_assoc buffer]

/-- What a call does. -/
theorem readLine_eq (m : Memory) (rest : List UInt8) (buffer : Addr) (hsize : 1 ≤ buffSize)
    (hline : 10 ∉ line) :
    readLine m (line ++ 10 :: rest) buffer buffSize =
      some ((UInt64.ofNat (storedLine line buffSize).length - 1).toInt64,
        m.writeBytes buffer (storedLine line buffSize ++ [0]), rest) := by
  have hroom : (buffSize - 1).toNat = buffSize.toNat - 1 :=
    addr_sub_toNat (UInt64.le_iff_toNat_le.mp hsize)
  have hstart : (0 : UInt64).toNat + (buffSize.toNat - 1) = (buffSize - 1).toNat := by
    rw [hroom]
    exact Nat.zero_add _
  obtain ⟨c, stdin, hloop, hrest⟩ := readChars_eq m rest buffer hline hstart
  rw [UInt64.zero_add, UInt64.add_zero] at hloop
  rw [readLine, hloop, Option.bind_some]
  dsimp only
  rw [hrest, Memory.writeBytes_append]
  rfl

theorem length_storedLine (hsize : 1 ≤ buffSize) (line : List UInt8) :
    (storedLine line buffSize ++ [0]).length ≤ buffSize.toNat := by
  have hpos : 1 ≤ buffSize.toNat := UInt64.le_iff_toNat_le.mp hsize
  rw [length_withNul, storedLine, List.length_take]
  omega

/-- **`readLine` does all that it should but for what it returns.**  For every buffer and
    every line it takes the line and its end from the input, and stores the characters for
    which there is room and a NUL, in no more than the bytes of the buffer; but it returns
    one less than the length of the string. -/
theorem readLine_never_length (m : Memory) (rest : List UInt8) (buffer : Addr)
    (hsize : 1 ≤ buffSize) (hline : 10 ∉ line) :
    ¬ TakesLine m line rest buffer buffSize ∧
    ∃ result m', readLine m (line ++ 10 :: rest) buffer buffSize = some (result, m', rest) ∧
      LiesAt m' buffer (storedLine line buffSize ++ [0]) ∧
      (∀ a, ¬ (a - buffer).toNat < buffSize.toNat → m' a = m a) ∧
      result = (UInt64.ofNat (storedLine line buffSize).length).toInt64 - 1 := by
  have hcall := readLine_eq m rest buffer hsize hline
  have hroom := length_storedLine hsize line
  have hlength : (storedLine line buffSize ++ [0]).length ≤ 2 ^ 64 :=
    hroom.trans buffSize.toNat_lt.le
  have hresult : (UInt64.ofNat (storedLine line buffSize).length - 1).toInt64 =
      (UInt64.ofNat (storedLine line buffSize).length).toInt64 - 1 := rfl
  refine ⟨?_, _, _, hcall, liesAt_writeBytes m buffer hlength, ?_, hresult⟩
  · rintro ⟨result, m', htakes, -, -, heq⟩
    rw [hcall, Option.some.injEq, Prod.mk.injEq, hresult] at htakes
    rw [← htakes.1] at heq
    grind
  · intro a ha
    exact Memory.writeBytes_frame m hlength fun hin => ha (Nat.lt_of_lt_of_le hin hroom)

/-- Of the line "abcde" a buffer of four bytes gets "abc", and two is returned. -/
theorem readLine_never_length_cut : ∃ result m',
    readLine (fun _ => 0) [97, 98, 99, 100, 101, 10] 0x1000 4 = some (result, m', []) ∧
    LiesAt m' 0x1000 [97, 98, 99, 0] ∧ result = 2 := by
  have hline : (10 : UInt8) ∉ [97, 98, 99, 100, 101] := by decide
  obtain ⟨-, result, m', hcall, hlies, -, hresult⟩ :=
    readLine_never_length (fun _ => 0) [] 0x1000 (show (1 : UInt64) ≤ 4 by decide) hline
  exact ⟨result, m', hcall, hlies, hresult⟩

/-- Of the line "a" the length is one, and zero is returned. -/
theorem readLine_a : (readLine (fun _ => 0) [97, 10] 0x1000 8).map (·.1) = some 0 ∧
    ¬ TakesLine (fun _ => 0) [97] [] 0x1000 8 := by
  refine ⟨rfl, ?_⟩
  rintro ⟨result, m', hcall, -, -, hresult⟩
  rw [readLine_eq (fun _ => 0) [] 0x1000 (by decide) (by decide)] at hcall
  rw [← (Prod.mk.inj (Option.some.inj hcall)).1] at hresult
  exact absurd hresult (by decide)

end TP2Kernel
