import Mathlib.Order.Bounds.Basic
import TP2Kernel.Framework.IntLoop
import TP2Kernel.Stdlib.StringOrder

/-! # Searching strings (`indexOf` in `Common/c/stdlib.c`)

    `indexOf` walks through the haystack and counts the characters that match.  It looks at
    no more characters than the needle has, takes one character less than that for a match,
    and returns the place less the length of the needle, which is a negative number.  So it
    never says where a needle is.  For a haystack without the needle it returns -1, unless
    the haystack begins with all of the needle but its last character.
-/

namespace TP2Kernel

namespace Memory

/-- The loop of `indexOf`; `nLen` is the length of the needle as an `int`. -/
def indexOfLoop (m : Memory) (needle haystack : Addr) (nLen : Int32) :
    Nat → Int32 → Int32 → Option Int32
  | 0, _, _ => none
  | rounds + 1, hIndex, nIndex =>
    if m (haystack + IntLoop.extend hIndex) ≠ 0 then
      if hIndex ≥ nLen then some (-1)
      else if m (haystack + IntLoop.extend hIndex) = m (needle + IntLoop.extend nIndex) then
        let nIndex := nIndex + 1
        if nIndex = nLen - 1 then some (hIndex - nLen)
        else indexOfLoop m needle haystack nLen rounds (hIndex + 1) nIndex
      else indexOfLoop m needle haystack nLen rounds (hIndex + 1) 0
    else some (-1)

/-- `indexOf`.  The index is an `int`, so the source says nothing of longer haystacks. -/
def indexOf (m : Memory) (needle haystack : Addr) : Option Int32 :=
  (strlen m needle).bind fun length =>
    m.indexOfLoop needle haystack length.toUInt32.toInt32 (2 ^ 31) 0 0

end Memory

/-! ### What it should find -/

/-- The needle is in the haystack, from its `i`-th character on. -/
def OccursAt (needle haystack : CString) (i : Nat) : Prop :=
  needle.bytes <+: haystack.bytes.drop i

/-- The number says where the needle is first, or that it is nowhere. -/
structure Finds (needle haystack : CString) (r : Int32) : Prop where
  first : ∀ i, IsLeast {i | OccursAt needle haystack i} i → r.toInt = i
  nowhere : r = -1 ↔ ∀ i, ¬ OccursAt needle haystack i

/-- The length as an `int`. -/
def CString.intLength (s : CString) : Int32 := (UInt64.ofNat s.length).toUInt32.toInt32

/-- The haystack begins with the needle, except for its last character. -/
def BeginsLike (needle haystack : CString) : Prop :=
  2 ≤ needle.intLength.toInt ∧
    needle.bytes.take (needle.intLength.toInt - 1).toNat <+: haystack.bytes

variable {m : Memory} {a b : Addr} {needle haystack : CString} {nLen : Int32}
  {h k n rounds : Nat}

theorem intLength_le (s : CString) : s.intLength.toInt ≤ s.length := by
  have hword : (UInt64.ofNat s.length).toUInt32.toNat ≤ s.length := by
    rw [UInt64.toNat_toUInt32, UInt64.toNat_ofNat']
    exact (Nat.mod_le _ _).trans (Nat.mod_le _ _)
  have hint : s.intLength.toInt ≤ (UInt64.ofNat s.length).toUInt32.toNat := by
    show ((UInt64.ofNat s.length).toUInt32.toBitVec).toInt ≤ _
    rw [BitVec.toInt_eq_toNat_cond, UInt32.toNat_toBitVec]
    split <;> omega
  omega

/-- A beginning of the needle, character by character. -/
theorem take_prefix_iff (hn : n ≤ needle.length) :
    needle.bytes.take n <+: haystack.bytes ↔
      ∀ j < n, haystack.bytes.getD j 0 = needle.bytes.getD j 0 := by
  have hlength : (needle.bytes.take n).length = n := by
    rw [List.length_take]
    exact Nat.min_eq_left hn
  constructor
  · rintro ⟨rest, hrest⟩ j hj
    have hchar : (needle.bytes.take n).getD j 0 = needle.bytes.getD j 0 := by
      rw [List.getD_eq_getElem _ _ (by omega), List.getElem_take,
        List.getD_eq_getElem _ _ (Nat.lt_of_lt_of_le hj hn)]
    rw [← hrest, List.getD_append _ _ _ _ (by omega), hchar]
  · intro h
    have hlong : n ≤ haystack.bytes.length := by
      by_contra hshort
      -- where the haystack ends, the needle would have a NUL
      have hend : haystack.bytes.length < needle.bytes.length := by
        unfold CString.length at hn
        omega
      have hnul := h haystack.bytes.length (by omega)
      rw [List.getD_eq_default _ _ (Nat.le_refl _), List.getD_eq_getElem _ _ hend] at hnul
      exact needle.noNul _ (List.getElem_mem hend) hnul.symm
    have htake : needle.bytes.take n = haystack.bytes.take n := by
      apply List.ext_getElem
      · rw [hlength, List.length_take, Nat.min_eq_left hlong]
      · intro j hj hj'
        have hjn : j < n := by omega
        have hchar := h j hjn
        rw [List.getD_eq_getElem _ _ (by omega),
          List.getD_eq_getElem _ _ (Nat.lt_of_lt_of_le hjn hn)] at hchar
        rw [List.getElem_take, List.getElem_take, hchar]
    rw [htake]
    exact List.take_prefix n haystack.bytes

/-! ### The loop -/

theorem int32_le_ofNat_iff (hk : k < 2 ^ 31) : Int32.ofNat k ≥ nLen ↔ nLen.toInt ≤ k := by
  rw [ge_iff_le, Int32.le_iff_toInt_le, Int32.toInt_ofNat_of_lt hk]

/-- The counter of a match that is complete. -/
theorem complete_iff (hk : k + 1 < 2 ^ 31) (hpos : 0 < nLen.toInt) :
    Int32.ofNat (k + 1) = nLen - 1 ↔ (k : Int) + 2 = nLen.toInt := by
  have hlt := nLen.toInt_lt
  have hpred : (nLen - 1).toInt = nLen.toInt - 1 := by
    rw [Int32.toInt_sub]
    show (nLen.toInt - 1).bmod (2 ^ 32) = _
    apply Int.bmod_eq_of_le <;> omega
  rw [← Int32.toInt_inj, hpred, Int32.toInt_ofNat_of_lt hk]
  omega

/-- A place in the haystack from which the loop goes on. -/
structure Searching (m : Memory) (a b : Addr) (needle haystack : CString) (h rounds : Nat) :
    Prop where
  needleAt : HoldsString m a needle
  haystackAt : HoldsString m b haystack
  short : haystack.length < 2 ^ 31
  place : h ≤ haystack.length
  rounds : haystack.length - h < rounds

/-- The loop ends with the haystack, and behind as many characters as the needle has. -/
theorem Searching.stop (hs : Searching m a b needle haystack h rounds)
    (hstop : h = haystack.length ∨ nLen.toInt ≤ h) (nIndex : Int32) :
    m.indexOfLoop a b nLen rounds (Int32.ofNat h) nIndex = some (-1) := by
  have hshort := hs.short
  have hplace := hs.place
  obtain ⟨rounds, rfl⟩ := Nat.exists_eq_add_of_le' (Nat.one_le_of_lt hs.rounds)
  rw [Memory.indexOfLoop, IntLoop.extend_ofNat (by omega)]
  by_cases hchar : m (b + UInt64.ofNat h) = 0
  · rw [if_neg (not_not.mpr hchar)]
  · obtain rfl | hlate := hstop
    · exact absurd hs.haystackAt.nul hchar
    · rw [if_pos hchar, if_pos ((int32_le_ofNat_iff (by omega)).mpr hlate)]

/-- Before that, the character decides how it goes on. -/
theorem Searching.step (hs : Searching m a b needle haystack h (rounds + 1))
    (hh : h < haystack.length) (hlen : (h : Int) < nLen.toInt) (hk : k ≤ h) :
    m.indexOfLoop a b nLen (rounds + 1) (Int32.ofNat h) (Int32.ofNat k) =
      if m (b + UInt64.ofNat h) = m (a + UInt64.ofNat k) then
        if (k : Int) + 2 = nLen.toInt then some (Int32.ofNat h - nLen)
        else m.indexOfLoop a b nLen rounds (Int32.ofNat (h + 1)) (Int32.ofNat (k + 1))
      else m.indexOfLoop a b nLen rounds (Int32.ofNat (h + 1)) (Int32.ofNat 0) := by
  have hshort := hs.short
  have hpos : 0 < nLen.toInt := by omega
  have hearly : ¬ Int32.ofNat h ≥ nLen := by
    rw [int32_le_ofNat_iff (by omega)]
    omega
  rw [Memory.indexOfLoop, IntLoop.extend_ofNat (by omega), IntLoop.extend_ofNat (by omega),
    if_pos (hs.haystackAt.char_ne_zero hh), if_neg hearly]
  simp only [IntLoop.ofNat_succ, complete_iff (show k + 1 < 2 ^ 31 by omega) hpos]
  rfl

theorem Searching.next (hs : Searching m a b needle haystack h (rounds + 1))
    (hplace : h < haystack.length) : Searching m a b needle haystack (h + 1) rounds := by
  have hrounds := hs.rounds
  exact ⟨hs.needleAt, hs.haystackAt, hs.short, hplace, by omega⟩

/-- The place less the length of the needle. -/
theorem ofNat_sub_eq {d : Nat} (hd : (h : Int) + d = nLen.toInt) :
    Int32.ofNat h - nLen = -Int32.ofNat d := by
  have hlt := nLen.toInt_lt
  have hlength : nLen = Int32.ofNat h + Int32.ofNat d := by
    rw [← Int32.ofNat_add, ← Int32.toInt_inj, Int32.toInt_ofNat_of_lt (by omega)]
    omega
  rw [hlength]
  grind

/-- After a mismatch it is too late: by induction on the rounds. -/
theorem Searching.late (hs : Searching m a b needle haystack h rounds) (hk : k < h) :
    m.indexOfLoop a b nLen rounds (Int32.ofNat h) (Int32.ofNat k) = some (-1) := by
  induction rounds generalizing h k with
  | zero => exact absurd hs.rounds (Nat.not_lt_zero _)
  | succ rounds ih =>
    have hshort := hs.short
    have hplace := hs.place
    by_cases hstop : h = haystack.length ∨ nLen.toInt ≤ h
    · exact hs.stop hstop _
    · obtain ⟨hmore, hlen⟩ := not_or.mp hstop
      have hh : h < haystack.length := by omega
      rw [hs.step hh (by omega) hk.le]
      split
      · split
        · next hcomplete =>
          -- the match is complete at the last character that is looked at
          have hlast : (h : Int) + (1 : Nat) = nLen.toInt := by omega
          rw [ofNat_sub_eq hlast]
          rfl
        · exact ih (hs.next hh) (Nat.succ_lt_succ hk)
      · exact ih (hs.next hh) (Nat.succ_pos h)

/-- The characters match from the `h`-th on, but for the last one of the needle. -/
def MatchesFrom (needle haystack : CString) (nLen : Int32) (h : Nat) : Prop :=
  ∀ j, h ≤ j → (j : Int) + 1 < nLen.toInt → haystack.bytes.getD j 0 = needle.bytes.getD j 0

theorem matchesFrom_succ_iff (hsame : haystack.bytes.getD h 0 = needle.bytes.getD h 0) :
    MatchesFrom needle haystack nLen (h + 1) ↔ MatchesFrom needle haystack nLen h := by
  constructor
  · intro hall j hj hj'
    obtain rfl | hlt := Nat.eq_or_lt_of_le hj
    · exact hsame
    · exact hall j hlt hj'
  · intro hall j hj
    exact hall j (Nat.le_of_succ_le hj)

/-- As long as all characters have matched, the rest decides: by induction on the rounds. -/
theorem Searching.matched (hs : Searching m a b needle haystack h rounds)
    (hlen : nLen.toInt ≤ needle.length) (hmore : (h : Int) + 1 < nLen.toInt) :
    (MatchesFrom needle haystack nLen h →
      m.indexOfLoop a b nLen rounds (Int32.ofNat h) (Int32.ofNat h) = some (-2)) ∧
    (¬ MatchesFrom needle haystack nLen h →
      m.indexOfLoop a b nLen rounds (Int32.ofNat h) (Int32.ofNat h) = some (-1)) := by
  induction rounds generalizing h with
  | zero => exact absurd hs.rounds (Nat.not_lt_zero _)
  | succ rounds ih =>
    have hshort := hs.short
    have hplace := hs.place
    have hchar : m (b + UInt64.ofNat h) = haystack.bytes.getD h 0 := hs.haystackAt.2 h hplace
    have hchar' : m (a + UInt64.ofNat h) = needle.bytes.getD h 0 :=
      hs.needleAt.2 h (by omega)
    by_cases hsame : haystack.bytes.getD h 0 = needle.bytes.getD h 0
    · have hh : h < haystack.length := by
        -- the needle goes on, so the haystack does
        have hgoes := hs.needleAt.char_ne_zero (show h < needle.length by omega)
        rw [hchar', ← hsame, ← hchar] at hgoes
        refine Nat.lt_of_le_of_ne hplace ?_
        rintro rfl
        exact hgoes hs.haystackAt.nul
      rw [hs.step hh (by omega) (Nat.le_refl h), if_pos (by rw [hchar, hchar', hsame])]
      by_cases hcomplete : (h : Int) + 2 = nLen.toInt
      · have hall : MatchesFrom needle haystack nLen h := by
          intro j hj hj'
          obtain rfl : j = h := by omega
          exact hsame
        have htwo : (h : Int) + (2 : Nat) = nLen.toInt := hcomplete
        rw [if_pos hcomplete, ofNat_sub_eq htwo]
        exact ⟨fun _ => rfl, fun hno => absurd hall hno⟩
      · rw [if_neg hcomplete, ← matchesFrom_succ_iff hsame]
        exact ih (hs.next hh) (by omega)
    · have hno : ¬ MatchesFrom needle haystack nLen h := fun hall =>
        hsame (hall h (Nat.le_refl h) hmore)
      refine ⟨fun hall => absurd hall hno, fun _ => ?_⟩
      by_cases hend : h = haystack.length
      · exact hs.stop (.inl hend) _
      · have hh : h < haystack.length := by omega
        rw [hs.step hh (by omega) (Nat.le_refl h), if_neg (by rw [hchar, hchar']; exact hsame)]
        exact (hs.next hh).late (Nat.succ_pos h)

/-- A needle of one character is not looked for, and one of none is not either. -/
theorem Searching.tiny (hs : Searching m a b needle haystack 0 rounds) (htiny : nLen.toInt ≤ 1) :
    m.indexOfLoop a b nLen rounds (Int32.ofNat 0) (Int32.ofNat 0) = some (-1) := by
  by_cases hstop : 0 = haystack.length ∨ nLen.toInt ≤ 0
  · exact hs.stop hstop _
  · obtain ⟨hmore, hlen⟩ := not_or.mp hstop
    have hh : 0 < haystack.length := by omega
    obtain ⟨rounds, rfl⟩ := Nat.exists_eq_add_of_le' (Nat.one_le_of_lt hs.rounds)
    rw [hs.step hh (by omega) (Nat.le_refl 0), if_neg (show ¬ (0 : Nat) + 2 = nLen.toInt by omega)]
    split
    · exact (hs.next hh).stop (.inr (by omega)) _
    · exact (hs.next hh).stop (.inr (by omega)) _

/-! ### What it returns -/

theorem beginsLike_iff : BeginsLike needle haystack ↔
    2 ≤ needle.intLength.toInt ∧ MatchesFrom needle haystack needle.intLength 0 := by
  have hlen := intLength_le needle
  unfold BeginsLike MatchesFrom
  refine and_congr_right fun htwo => ?_
  rw [take_prefix_iff (by omega)]
  constructor
  · intro hall j _ hj
    exact hall j (by omega)
  · intro hall j hj
    exact hall j (Nat.zero_le j) (by omega)

/-- `indexOf` returns -2 or -1, whatever it is asked for. -/
theorem indexOf_eq (hn : HoldsString m a needle) (hh : HoldsString m b haystack)
    (hshort : haystack.length < 2 ^ 31) :
    (BeginsLike needle haystack → m.indexOf a b = some (-2)) ∧
    (¬ BeginsLike needle haystack → m.indexOf a b = some (-1)) := by
  have hs : Searching m a b needle haystack 0 (2 ^ 31) :=
    ⟨hn, hh, hshort, Nat.zero_le _, by omega⟩
  have hzero : Int32.ofNat 0 = 0 := rfl
  have hloop : m.indexOf a b =
      m.indexOfLoop a b needle.intLength (2 ^ 31) (Int32.ofNat 0) (Int32.ofNat 0) := by
    rw [Memory.indexOf, strlen_holds hn hn.length_lt, Option.bind_some, hzero, CString.intLength]
  rw [hloop, beginsLike_iff]
  by_cases htwo : 2 ≤ needle.intLength.toInt
  · have hmore : ((0 : Nat) : Int) + 1 < needle.intLength.toInt := by omega
    obtain ⟨hyes, hno⟩ := hs.matched (intLength_le needle) hmore
    exact ⟨fun h => hyes h.2, fun h => hno fun hall => h ⟨htwo, hall⟩⟩
  · exact ⟨fun h => absurd h.1 htwo, fun _ => hs.tiny (by omega)⟩

/-- What -1 is right for. -/
theorem finds_neg_one_iff : Finds needle haystack (-1) ↔ ∀ i, ¬ OccursAt needle haystack i := by
  constructor
  · intro hfinds
    exact hfinds.nowhere.mp rfl
  · intro hnowhere
    exact ⟨fun i hi => absurd hi.1 (hnowhere i), iff_of_true rfl hnowhere⟩

/-- There is nothing that -2 is right for: no place is negative. -/
theorem not_finds_neg_two : ¬ Finds needle haystack (-2) := by
  classical
  intro hfinds
  have hsomewhere : ∃ i, OccursAt needle haystack i := by
    by_contra hno
    exact absurd (hfinds.nowhere.mpr (not_exists.mp hno)) (by decide)
  have hplace := hfinds.first _ (Nat.isLeast_find hsomewhere)
  have hvalue : (-2 : Int32).toInt = -2 := rfl
  omega

/-- **What `indexOf` is good for**: it returns, and what it returns is right if and only if
    the needle is nowhere in the haystack and the haystack does not begin with the needle
    without its last character. -/
theorem indexOf_finds_iff (hn : HoldsString m a needle) (hh : HoldsString m b haystack)
    (hshort : haystack.length < 2 ^ 31) :
    ∃ r, m.indexOf a b = some r ∧
      (Finds needle haystack r ↔
        (∀ i, ¬ OccursAt needle haystack i) ∧ ¬ BeginsLike needle haystack) := by
  obtain ⟨hlike, hunlike⟩ := indexOf_eq hn hh hshort
  by_cases hbegins : BeginsLike needle haystack
  · refine ⟨-2, hlike hbegins, ?_⟩
    exact iff_of_false not_finds_neg_two fun h => h.2 hbegins
  · refine ⟨-1, hunlike hbegins, ?_⟩
    rw [finds_neg_one_iff, and_iff_left hbegins]

/-- The needle "bc" is not in "a". -/
theorem indexOf_finds_iff_absent : ∃ r,
    Memory.indexOf (fun x => if x = 4096 then 98 else if x = 4097 then 99
      else if x = 8192 then 97 else 0) 4096 8192 = some r ∧
    Finds ⟨[98, 99], by simp⟩ ⟨[97], by simp⟩ r := by
  let m : Memory := fun x => if x = 4096 then 98 else if x = 4097 then 99
    else if x = 8192 then 97 else 0
  have hn : HoldsString m 4096 ⟨[98, 99], by simp⟩ := by decide
  have hh : HoldsString m 8192 ⟨[97], by simp⟩ := by decide
  obtain ⟨r, hr, hfinds⟩ := indexOf_finds_iff hn hh (by decide)
  refine ⟨r, hr, hfinds.mpr ⟨?_, ?_⟩⟩
  · rintro (_ | i) hoccurs
    · exact absurd hoccurs (by unfold OccursAt; decide)
    · exact absurd hoccurs (by unfold OccursAt; simp)
  · exact fun hbegins => absurd hbegins.2 (by decide)

/-- The needle "a" is in "a", and -1 is returned. -/
theorem indexOf_a : ∃ r,
    Memory.indexOf (fun x => if x = 4096 ∨ x = 8192 then 97 else 0) 4096 8192 = some r ∧
    r = -1 ∧ OccursAt ⟨[97], by simp⟩ ⟨[97], by simp⟩ 0 ∧
    ¬ Finds ⟨[97], by simp⟩ ⟨[97], by simp⟩ r := by
  let m : Memory := fun x => if x = 4096 ∨ x = 8192 then 97 else 0
  have hn : HoldsString m 4096 ⟨[97], by simp⟩ := by decide
  have hh : HoldsString m 8192 ⟨[97], by simp⟩ := by decide
  have hoccurs : OccursAt ⟨[97], by simp⟩ ⟨[97], by simp⟩ 0 := List.prefix_refl _
  have htiny : ¬ BeginsLike ⟨[97], by simp⟩ ⟨[97], by simp⟩ := fun h => absurd h.1 (by decide)
  refine ⟨-1, (indexOf_eq hn hh (by decide)).2 htiny, rfl, hoccurs, ?_⟩
  rw [finds_neg_one_iff]
  exact fun hnowhere => hnowhere 0 hoccurs

end TP2Kernel
