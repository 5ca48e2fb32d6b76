import Mathlib.Data.List.TakeWhile
import TP2Kernel.BasicFile.Queue
import TP2Kernel.MessageQueue.Table

/-! # Reading until `EOF`

    `basicFileReadChar` takes its byte from a signed `char`, so that the byte 255 becomes
    the `int` -1, which is `EOF`: who reads it takes the file for empty, and the byte is gone.
-/

namespace TP2Kernel

open Transition

/-! ### The loop of a reader -/

namespace FilesTable

/-- `while((c = basicFileReadChar(f)) != EOF)`: the characters read, and the table after.
    The last argument bounds the rounds. -/
def readUntilEOF (t : FilesTable) (mem : Memory) (file : BasicFile) :
    Nat → Option (List Int × FilesTable)
  | 0 => none
  | fuel + 1 =>
    let (c, t) := t.basicFileReadChar mem file
    if c = EOF then some ([], t)
    else (t.readUntilEOF mem file fuel).map fun (cs, t) => (c :: cs, t)

variable {t : FilesTable} {mem : Memory} {i n : Nat} {l : List UInt8}

theorem toInt_eq_EOF_iff (a : UInt8) : a.toInt8.toInt = EOF ↔ a = 255 :=
  toInt8_toInt_eq_iff a 255

/-- The loop ends at the first byte 255, and takes it out of the file. -/
theorem Contents.readUntilEOF (h : t.Contents mem i n l) {fuel : Nat} (hfuel : l.length < fuel) :
    ∃ t', t.readUntilEOF mem (some i) fuel =
      some ((l.takeWhile (· ≠ 255)).map fun a => a.toInt8.toInt, t') ∧
      t'.Contents mem i n (l.dropWhile (· ≠ 255)).tail := by
  induction l generalizing t fuel with
  | nil =>
    obtain ⟨fuel, rfl⟩ := Nat.exists_eq_succ_of_ne_zero (Nat.ne_of_gt hfuel)
    refine ⟨t, ?_, h⟩
    simp [FilesTable.readUntilEOF, h.read_refused]
  | cons a l ih =>
    obtain ⟨fuel, rfl⟩ := Nat.exists_eq_succ_of_ne_zero (Nat.ne_of_gt (Nat.zero_lt_of_lt hfuel))
    obtain ⟨t', hread, hafter⟩ := h.read
    by_cases hend : a = 255
    · -- the byte that looks like the end
      refine ⟨t', ?_, ?_⟩
      · simp [FilesTable.readUntilEOF, hread, hend, EOF]
      · simpa [hend] using hafter
    · have hEOF := mt (toInt_eq_EOF_iff a).mp hend
      obtain ⟨t'', hrest, hlast⟩ := ih hafter (Nat.lt_of_succ_lt_succ hfuel)
      refine ⟨t'', ?_, ?_⟩
      · simp [FilesTable.readUntilEOF, hread, hEOF, hend, hrest]
      · simpa [hend] using hlast

end FilesTable

/-! ### The reader of a queue -/

namespace Kernel

/-- `n` calls of `MQreadChar` in a row: what each returns, and the byte it stores. -/
def MQreadChars (s : Kernel) (tableIndex : UInt64) : Nat → List (Int × Option UInt8) × Kernel
  | 0 => ([], s)
  | n + 1 =>
    let (result, dest, s) := s.MQreadChar tableIndex
    let (results, s) := s.MQreadChars tableIndex n
    ((result, dest) :: results, s)

/-- The current process reads file `i` through slot `tableIndex`. -/
structure IsReader (s : Kernel) (tableIndex : UInt64) (i : Nat) : Prop where
  slot : tableIndex.toNat < MAX_MQS
  file : (s.mqs tableIndex.toNat).file = some i
  reader : (s.mqs tableIndex.toNat).readPID = s.getCurrentPID

variable {s : Kernel} {tableIndex : UInt64} {i n : Nat} {l : List UInt8}

/-- All bytes come out, but 255 is reported like an empty file. -/
theorem IsReader.MQreadChars (h : s.IsReader tableIndex i) (hl : s.files.Contents s.mem i n l) :
    (s.MQreadChars tableIndex l.length).1 =
      l.map fun a => (if a = 255 then 0 else 1, some a) := by
  induction l generalizing s with
  | nil => rfl
  | cons a l ih =>
    obtain ⟨files, hread, hafter⟩ := hl.read
    have hslot : ¬ tableIndex.toNat ≥ MAX_MQS := Nat.not_le.mpr h.slot
    have hchar : s.MQreadChar tableIndex =
        (if a = 255 then 0 else 1, some a, { s with files := files }) := by
      simp [MQreadChar, hslot, h.file, h.reader, hread, toChar_toInt,
        FilesTable.toInt_eq_EOF_iff]
    have hnext : IsReader { s with files := files } tableIndex i := ⟨h.slot, h.file, h.reader⟩
    have hrest := ih hnext hafter
    show (Kernel.MQreadChars s tableIndex (l.length + 1)).1 = _
    simp [Kernel.MQreadChars, hchar, hrest]

end Kernel

/-! ### Draining a file -/

namespace FileMemory

/-- `EOF` means that the file is empty: who reads until `EOF` gets all bytes in order and leaves
    the file empty, and the reader of a queue is told of every byte that it gets one. -/
structure Drains (s : FileMemory) (i : Nat) : Prop where
  eof : (s.files.basicFileReadChar s.mem (some i)).1 = EOF ↔ s.files.queued s.mem i = []
  loop : ∀ fuel, (s.files.queued s.mem i).length < fuel → ∃ files,
    s.files.readUntilEOF s.mem (some i) fuel =
      some ((s.files.queued s.mem i).map fun a => a.toInt8.toInt, files) ∧
    files.queued s.mem i = []
  messageQueue : ∀ (k : Kernel) tableIndex, k.files = s.files → k.mem = s.mem →
    k.IsReader tableIndex i →
    (k.MQreadChars tableIndex (s.files.queued s.mem i).length).1 =
      (s.files.queued s.mem i).map fun a => (1, some a)

variable {s : FileMemory} {i : Nat} {size : UInt64}

/-- **Reading until `EOF` drains the file, unless it holds a byte 255.** -/
theorem drains_iff (h : (fileCalls i size).Reachable s) :
    s.Drains i ↔ 255 ∉ s.files.queued s.mem i := by
  have hcontents := contents_reachable h
  obtain ⟨l, hl⟩ : ∃ l, s.files.queued s.mem i = l := ⟨_, rfl⟩
  rw [hl] at hcontents ⊢
  obtain ⟨files, hloop, hafter⟩ := hcontents.readUntilEOF (Nat.lt_succ_self l.length)
  constructor
  · intro hdrains hmem
    -- the loop leaves out what comes after the first 255
    obtain ⟨files', hall, -⟩ := hdrains.loop (l.length + 1) (by rw [hl]; exact Nat.lt_succ_self _)
    have hlist := congrArg Prod.fst (Option.some.inj (hloop.symm.trans hall))
    have hlen := congrArg List.length hlist
    rw [hl, List.length_map, List.length_map] at hlen
    have hprefix :=
      (List.takeWhile_prefix (fun a : UInt8 => decide (a ≠ 255)) (l := l)).eq_of_length
      hlen
    have hne := List.takeWhile_eq_self_iff.mp hprefix 255 hmem
    exact absurd rfl (of_decide_eq_true hne)
  · intro hno
    have hne : ∀ a ∈ l, a ≠ 255 := fun a ha heq => hno (heq ▸ ha)
    constructor
    · rw [hl]
      cases l with
      | nil =>
        rw [hcontents.read_refused]
        simp
      | cons a rest =>
        obtain ⟨t', hread, -⟩ := hcontents.read
        rw [hread]
        simp [FilesTable.toInt_eq_EOF_iff, hne a List.mem_cons_self]
    · intro fuel hfuel
      rw [hl] at hfuel ⊢
      obtain ⟨t', hloop', hafter'⟩ := hcontents.readUntilEOF hfuel
      have htake : l.takeWhile (fun a => decide (a ≠ 255)) = l :=
        List.takeWhile_eq_self_iff.mpr fun a ha => decide_eq_true (hne a ha)
      have hdrop : l.dropWhile (fun a => decide (a ≠ 255)) = [] :=
        List.dropWhile_eq_nil_iff.mpr fun a ha => decide_eq_true (hne a ha)
      rw [htake] at hloop'
      rw [hdrop] at hafter'
      exact ⟨t', hloop', hafter'.queued_eq⟩
    · intro k tableIndex hfiles hmem hreads
      rw [hl]
      have hk : k.files.Contents k.mem i size.toNat l := by
        rw [hfiles, hmem]
        exact hcontents
      rw [hreads.MQreadChars hk]
      apply List.map_congr_left
      intro a ha
      rw [if_neg (hne a ha)]

/-- A file with one byte, not 255, is drained. -/
theorem drains_oneByte : ∃ s, (fileCalls 0 4000).Reachable s ∧ s.files.queued s.mem 0 = [7] ∧
    s.Drains 0 := by
  obtain ⟨s, hreach, hqueued, -⟩ := oneByte 7
  refine ⟨s, hreach, hqueued, (drains_iff hreach).mpr ?_⟩
  rw [hqueued]
  decide

/-- A file with the byte 255 looks empty. -/
theorem drains_not_255 : ¬ ∀ i size s, (fileCalls i size).Reachable s → s.Drains i := by
  intro hclaim
  obtain ⟨s, hreach, hqueued, hcontents⟩ := oneByte 255
  obtain ⟨t', hread, -⟩ := hcontents.read
  have hEOF : (s.files.basicFileReadChar s.mem (some 0)).1 = EOF := by
    rw [hread]
    rfl
  have hnil := (hclaim 0 4000 s hreach).eof.mp hEOF
  rw [hqueued] at hnil
  exact List.cons_ne_nil _ _ hnil

end FileMemory

end TP2Kernel
