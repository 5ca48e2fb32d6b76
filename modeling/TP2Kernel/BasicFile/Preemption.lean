import TP2Kernel.BasicFile.Queue

/-! # Preempted between any two memory accesses

    The system calls run with interrupts on, so a process can lose the processor in the
    middle of `basicFileReadChar` or `basicFileWriteChar`, and the other end of a message
    queue goes on in between.  Nothing locks the file.

    Here each access to what both ends see is a step of its own.  With one writer and one
    reader the calls still act as if each happened at once, at the moment it returns: the
    writer alone moves the write index, after the byte is stored, and the reader alone
    moves the read index, after the byte is loaded.
-/

namespace TP2Kernel

open Transition

/-- Where a call of `basicFileWriteChar` is, if there is one.  The test of a full file looks
    at the read index twice. -/
inductive Writing where
  | idle
  | firstClause (c : UInt8)
  | secondClause (c : UInt8)
  | store (c : UInt8)
  | advance (c : UInt8)

/-- Where a call of `basicFileReadChar` is, if there is one. -/
inductive Reading where
  | idle
  | isEmpty
  | load
  | advance (c : UInt8)

/-- A call that returns, with its result. -/
inductive FileReturn where
  | basicFileWriteChar (c : UInt8) (result : Int)
  | basicFileReadChar (result : Int)
  deriving DecidableEq

/-- The file, and the two processes that use it. -/
structure SharedFile extends FileMemory where
  writing : Writing
  reading : Reading

namespace SharedFile

/-- The next access of the writer to file `i`. -/
def writerStep (i : Nat) (s : SharedFile) : SharedFile × Option FileReturn :=
  let f := s.files.filesTable i
  match s.writing with
  | .idle => (s, none)
  | .firstClause c =>
    if f.writeIndex = f.readIndex - 1 then
      ({ s with writing := .idle }, some (.basicFileWriteChar c EOF))
    else ({ s with writing := .secondClause c }, none)
  | .secondClause c =>
    if f.writeIndex ≥ f.size - 1 ∧ f.readIndex = 0 then
      ({ s with writing := .idle }, some (.basicFileWriteChar c EOF))
    else ({ s with writing := .store c }, none)
  | .store c =>
    ({ s with mem := Function.update s.mem (f.stream + f.writeIndex) c, writing := .advance c },
      none)
  | .advance c =>
    let next := if f.writeIndex ≥ f.size - 1 then 0 else f.writeIndex + 1
    ({ s with files := s.files.setEntry i { f with writeIndex := next }, writing := .idle },
      some (.basicFileWriteChar c 1))

/-- The next access of the reader. -/
def readerStep (i : Nat) (s : SharedFile) : SharedFile × Option FileReturn :=
  let f := s.files.filesTable i
  match s.reading with
  | .idle => (s, none)
  | .isEmpty =>
    if f.writeIndex = f.readIndex then
      ({ s with reading := .idle }, some (.basicFileReadChar EOF))
    else ({ s with reading := .load }, none)
  | .load => ({ s with reading := .advance (s.mem (f.stream + f.readIndex)) }, none)
  | .advance c =>
    let next := if f.readIndex ≥ f.size - 1 then 0 else f.readIndex + 1
    ({ s with files := s.files.setEntry i { f with readIndex := next }, reading := .idle },
      some (.basicFileReadChar c.toInt8.toInt))

end SharedFile

inductive SharedAction where
  | callWrite (c : UInt8)
  | writer (returned : Option FileReturn)
  | callRead
  | reader (returned : Option FileReturn)
  | other

namespace SharedAction

/-- What is seen of the calls. -/
def returned : SharedAction → Option FileReturn
  | .writer returned => returned
  | .reader returned => returned
  | _ => none

end SharedAction

/-- A file of `size` bytes with one writer and one reader, whose accesses come in any order. -/
def preemptible (i : Nat) (size : UInt64) : System SharedFile SharedAction where
  init := fun s => (fileCalls i size).Reachable s.toFileMemory ∧ s.writing = .idle ∧
    s.reading = .idle
  step := fun s action s' =>
    match action with
    | .callWrite c => s.writing = .idle ∧ s' = { s with writing := .firstClause c }
    | .writer returned => (s', returned) = s.writerStep i
    | .callRead => s.reading = .idle ∧ s' = { s with reading := .isEmpty }
    | .reader returned => (s', returned) = s.readerStep i
    | .other => s'.writing = s.writing ∧ s'.reading = s.reading ∧
      (fileCalls i size).step s.toFileMemory .other s'.toFileMemory

/-- The same calls, each of which happens at once. -/
def atomicFile (capacity : Nat) : System (List UInt8) FileReturn where
  init := fun l => l.length ≤ capacity
  step := fun l call l' =>
    match call with
    | .basicFileWriteChar c result =>
      match BoundedQueue.enqueue capacity l c with
      | none => result = EOF ∧ l' = l
      | some accepted => result = 1 ∧ l' = accepted
    | .basicFileReadChar result =>
      match BoundedQueue.dequeue l with
      | none => result = EOF ∧ l' = l
      | some (a, rest) => result = a.toInt8.toInt ∧ l' = rest

namespace SharedFile

variable {s s' : SharedFile} {i n : Nat} {size : UInt64} {l : List UInt8}

/-! ### Without preemption -/

/-- Alone, the accesses of the writer are those of `basicFileWriteChar`. -/
theorem writer_alone (hi : i < maxFiles) (s : SharedFile) (c : UInt8) :
    ∃ k, (fun s => (s.writerStep i).1)^[k] { s with writing := .firstClause c } =
      { s with
        files := (s.files.basicFileWriteChar s.mem c (some i)).2.1
        mem := (s.files.basicFileWriteChar s.mem c (some i)).2.2
        writing := .idle } := by
  have hvalid : FilesTable.isValidFile (some i) = true := by simpa [FilesTable.isValidFile] using hi
  by_cases hfirst : (s.files.filesTable i).writeIndex = (s.files.filesTable i).readIndex - 1
  · have hfull : s.files.basicFileIsFull (some i) = true := by
      simp only [FilesTable.basicFileIsFull, FilesTable.entry, hfirst, decide_true, Bool.true_or]
    have hstep : writerStep i { s with writing := .firstClause c } =
        ({ s with writing := .idle }, some (.basicFileWriteChar c EOF)) := by
      simp only [writerStep, if_pos hfirst]
    refine ⟨1, ?_⟩
    simp [hstep, FilesTable.basicFileWriteChar, hfull]
  · have hstep : writerStep i { s with writing := .firstClause c } =
        ({ s with writing := .secondClause c }, none) := by
      simp only [writerStep, if_neg hfirst]
    by_cases hsecond : (s.files.filesTable i).writeIndex ≥ (s.files.filesTable i).size - 1 ∧
        (s.files.filesTable i).readIndex = 0
    · have hfull : s.files.basicFileIsFull (some i) = true := by
        simp [FilesTable.basicFileIsFull, FilesTable.entry, hsecond.1, hsecond.2]
      have hstep' : writerStep i { s with writing := .secondClause c } =
          ({ s with writing := .idle }, some (.basicFileWriteChar c EOF)) := by
        simp only [writerStep, if_pos hsecond]
      refine ⟨2, ?_⟩
      simp [hstep, hstep', FilesTable.basicFileWriteChar, hfull]
    · have hfull : s.files.basicFileIsFull (some i) = false := by
        rw [not_and_or] at hsecond
        rcases hsecond with hlast | hzero
        · simp [FilesTable.basicFileIsFull, FilesTable.entry, hfirst, hlast]
        · simp [FilesTable.basicFileIsFull, FilesTable.entry, hfirst, hzero]
      have hstep' : writerStep i { s with writing := .secondClause c } =
          ({ s with writing := .store c }, none) := by
        simp only [writerStep, if_neg hsecond]
      refine ⟨4, ?_⟩
      simp only [Function.iterate_succ_apply, Function.iterate_zero, id_eq, hstep, hstep',
        FilesTable.basicFileWriteChar, hvalid, hfull]
      rfl

/-- Alone, the accesses of the reader are those of `basicFileReadChar`. -/
theorem reader_alone (hi : i < maxFiles) (s : SharedFile) :
    ∃ k, (fun s => (s.readerStep i).1)^[k] { s with reading := .isEmpty } =
      { s with
        files := (s.files.basicFileReadChar s.mem (some i)).2
        reading := .idle } := by
  have hvalid : FilesTable.isValidFile (some i) = true := by simpa [FilesTable.isValidFile] using hi
  by_cases hsame : (s.files.filesTable i).writeIndex = (s.files.filesTable i).readIndex
  · have hempty : s.files.basicFileIsEmpty (some i) = true := decide_eq_true hsame
    refine ⟨1, ?_⟩
    simp [readerStep, hsame, FilesTable.basicFileReadChar, hempty]
  · have hempty : s.files.basicFileIsEmpty (some i) = false := decide_eq_false hsame
    have hstep : readerStep i { s with reading := .isEmpty } =
        ({ s with reading := .load }, none) := by
      simp only [readerStep, if_neg hsame]
    refine ⟨3, ?_⟩
    simp only [Function.iterate_succ_apply, Function.iterate_zero, id_eq, hstep,
      FilesTable.basicFileReadChar, hvalid, hempty]
    rfl

end SharedFile

/-! ### What an access does to the bytes of the file -/

namespace FilesTable

variable {t : FilesTable} {mem : Memory} {i n : Nat} {l : List UInt8}

/-- The byte behind the last one is not in the file yet. -/
theorem Contents.store (h : t.Contents mem i n l) (c : UInt8) :
    t.Contents (Function.update mem ((t.filesTable i).stream + (t.filesTable i).writeIndex) c)
      i n l ∧
    t.cells (Function.update mem ((t.filesTable i).stream + (t.filesTable i).writeIndex) c) i
      (t.filesTable i).writeIndex.toNat = c := by
  obtain ⟨f, hf⟩ : ∃ f, t.filesTable i = f := ⟨_, rfl⟩
  have hcells : ∀ k < n, t.cells (Function.update mem (f.stream + f.writeIndex) c) i k =
      Function.update (t.cells mem i) f.writeIndex.toNat c k := by
    intro k hk
    have hlt := f.size.toNat_lt
    have hsize := h.size
    rw [hf] at hsize
    unfold cells
    rw [hf]
    by_cases hkw : k = f.writeIndex.toNat
    · rw [hkw, UInt64.ofNat_toNat, Function.update_self, Function.update_self]
    · rw [Function.update_of_ne hkw, Function.update_of_ne]
      exact fun heq => hkw (add_ofNat_inj (by omega) heq)
  have hholds := h.holds
  rw [hf] at hholds ⊢
  refine ⟨⟨h.lt, h.size, ?_⟩, ?_⟩
  · rw [hf]
    exact (hholds.store c).congr hcells
  · rw [hcells _ hholds.write_lt, Function.update_self]

/-- Then the index takes it in. -/
theorem Contents.advanceWrite (h : t.Contents mem i n l) {c : UInt8}
    (hcell : t.cells mem i (t.filesTable i).writeIndex.toNat = c) (hroom : l.length + 1 < n) :
    (t.setEntry i { t.filesTable i with
      writeIndex := if (t.filesTable i).writeIndex ≥ (t.filesTable i).size - 1 then 0
        else (t.filesTable i).writeIndex + 1 }).Contents mem i n (l ++ [c]) := by
  have hindex : (t.filesTable i).writeIndex.toNat < (t.filesTable i).size.toNat := by
    rw [h.size]
    exact h.holds.write_lt
  refine ⟨h.lt, ?_, ?_⟩
  · rw [setEntry_self]
    exact h.size
  · rw [setEntry_self]
    simp only [toNat_nextIndex hindex, h.size]
    apply (h.holds.advance hcell hroom).congr
    intro k _
    unfold cells
    rw [setEntry_self]

/-- The first byte of the file is the one at the read index. -/
theorem Contents.front {a : UInt8} (h : t.Contents mem i n (a :: l)) :
    mem ((t.filesTable i).stream + (t.filesTable i).readIndex) = a := by
  have hcell := h.holds.pop.1
  unfold cells at hcell
  rwa [UInt64.ofNat_toNat] at hcell

theorem cells_readIndex (t : FilesTable) (mem : Memory) (i : Nat) (index : UInt64) :
    (t.setEntry i { t.filesTable i with readIndex := index }).cells mem i = t.cells mem i := by
  unfold cells
  rw [setEntry_self]

/-- Then the index leaves it behind. -/
theorem Contents.advanceRead {a : UInt8} (h : t.Contents mem i n (a :: l)) :
    (t.setEntry i { t.filesTable i with
      readIndex := if (t.filesTable i).readIndex ≥ (t.filesTable i).size - 1 then 0
        else (t.filesTable i).readIndex + 1 }).Contents mem i n l := by
  have hindex : (t.filesTable i).readIndex.toNat < (t.filesTable i).size.toNat := by
    rw [h.size]
    exact h.holds.read_lt
  refine ⟨h.lt, ?_, ?_⟩
  · rw [setEntry_self]
    exact h.size
  · rw [setEntry_self]
    simp only [toNat_nextIndex hindex, h.size]
    rw [cells_readIndex]
    exact h.holds.pop.2

/-- Past the first clause of the test, the file has room unless the writer is at its end. -/
theorem Contents.room_of_firstClause (h : t.Contents mem i n l)
    (hfirst : (t.filesTable i).writeIndex ≠ (t.filesTable i).readIndex - 1)
    (hinner : (t.filesTable i).writeIndex.toNat + 1 < n) : l.length + 1 < n := by
  have hroom := h.holds.room
  rcases Nat.lt_or_eq_of_le (Nat.succ_le_of_lt hroom) with hlt | heq
  · exact hlt
  have hfull := h.isFull_iff.mpr heq
  have hsize := h.size
  have hpred : ((t.filesTable i).size - 1).toNat = (t.filesTable i).size.toNat - 1 :=
    Word.uint64_toNat_pred (by omega)
  simp only [basicFileIsFull, entry, Bool.or_eq_true, Bool.and_eq_true] at hfull
  rcases hfull with hclause | ⟨hge, -⟩
  · exact absurd (of_decide_eq_true hclause) hfirst
  · have hle := UInt64.le_iff_toNat_le.mp (of_decide_eq_true hge)
    omega

/-- Past the second one it has room. -/
theorem Contents.room_of_secondClause (h : t.Contents mem i n l)
    (hinner : (t.filesTable i).writeIndex.toNat + 1 < n → l.length + 1 < n)
    (hsecond : ¬ ((t.filesTable i).writeIndex ≥ (t.filesTable i).size - 1 ∧
      (t.filesTable i).readIndex = 0)) : l.length + 1 < n := by
  have hroom := h.holds.room
  have hwrite := h.holds.write_lt
  have hsize := h.size
  rcases Nat.lt_or_eq_of_le (Nat.succ_le_of_lt hwrite) with hlt | hlast
  · exact hinner hlt
  rcases Nat.lt_or_eq_of_le (Nat.succ_le_of_lt hroom) with hlt | heq
  · exact hlt
  -- the writer is at the end, so the file is full only if the reader is at the beginning
  have hzero := h.holds.full_iff.mpr heq
  rw [CircularBuffer.next, if_pos (by omega)] at hzero
  have hpred : ((t.filesTable i).size - 1).toNat = (t.filesTable i).size.toNat - 1 :=
    Word.uint64_toNat_pred (by omega)
  refine absurd ⟨?_, UInt64.toNat_inj.mp hzero.symm⟩ hsecond
  rw [ge_iff_le, UInt64.le_iff_toNat_le, hpred]
  omega

end FilesTable

/-! ### The invariant -/

/-- What the writer knows. -/
def WritingInv (cell : Nat → UInt8) (n w : Nat) (l : List UInt8) : Writing → Prop
  | .idle => True
  | .firstClause _ => True
  | .secondClause _ => w + 1 < n → l.length + 1 < n
  | .store _ => l.length + 1 < n
  | .advance c => l.length + 1 < n ∧ cell w = c

/-- What the reader knows. -/
def ReadingInv (l : List UInt8) : Reading → Prop
  | .idle => True
  | .isEmpty => True
  | .load => l ≠ []
  | .advance c => l.head? = some c

/-- The file holds `l`, and the two calls can rely on what they know. -/
structure SharedInv (s : SharedFile) (i n : Nat) (l : List UInt8) : Prop where
  contents : s.files.Contents s.mem i n l
  writing : WritingInv (s.files.cells s.mem i) n (s.files.filesTable i).writeIndex.toNat l s.writing
  reading : ReadingInv l s.reading

/-- What is seen of a step: nothing, or a call that happens at once. -/
def Seen (capacity : Nat) (l : List UInt8) (returned : Option FileReturn) (l' : List UInt8) :
    Prop :=
  match returned with
  | none => l' = l
  | some call => (atomicFile capacity).step l call l'

variable {cell cell' : Nat → UInt8} {n w w' i : Nat} {l l' : List UInt8} {p : Writing} {q : Reading}
  {s s' : SharedFile} {returned : Option FileReturn}

/-- The reader makes room and does not write. -/
theorem WritingInv.mono (h : WritingInv cell n w l p) (hle : l'.length ≤ l.length)
    (hcell : cell' w = cell w) : WritingInv cell' n w l' p := by
  cases p with
  | idle => trivial
  | firstClause c => trivial
  | secondClause c =>
    intro hinner
    have hroom := h hinner
    omega
  | store c => exact Nat.lt_of_le_of_lt (Nat.succ_le_succ hle) h
  | advance c => exact ⟨Nat.lt_of_le_of_lt (Nat.succ_le_succ hle) h.1, hcell.trans h.2⟩

/-- The writer adds at the end. -/
theorem ReadingInv.append (h : ReadingInv l q) (c : UInt8) : ReadingInv (l ++ [c]) q := by
  cases q with
  | idle => trivial
  | isEmpty => trivial
  | load => exact List.append_ne_nil_of_left_ne_nil h _
  | advance a =>
    obtain ⟨rest, rfl⟩ := List.head?_eq_some_iff.mp h
    rfl

namespace SharedInv

theorem refused (h : SharedInv s i n l) (hfull : s.files.basicFileIsFull (some i) = true)
    (c : UInt8) : (atomicFile (n - 1)).step l (.basicFileWriteChar c EOF) l := by
  have hlength := h.contents.isFull_iff.mp hfull
  show match BoundedQueue.enqueue (n - 1) l c with
    | none => EOF = EOF ∧ l = l
    | some accepted => EOF = 1 ∧ l = accepted
  rw [BoundedQueue.enqueue_eq_none_iff.mpr (by omega)]
  exact ⟨rfl, rfl⟩

/-- One access of the writer. -/
theorem writerStep (h : SharedInv s i n l) (hstep : (s', returned) = s.writerStep i) :
    ∃ l', SharedInv s' i n l' ∧ Seen (n - 1) l returned l' := by
  obtain ⟨hcontents, hwriting, hreading⟩ := h
  unfold SharedFile.writerStep at hstep
  cases hp : s.writing with
  | idle =>
    rw [hp] at hstep
    obtain ⟨rfl, rfl⟩ := Prod.mk.inj hstep
    exact ⟨l, ⟨hcontents, hwriting, hreading⟩, rfl⟩
  | firstClause c =>
    rw [hp] at hstep
    dsimp only at hstep
    split at hstep
    · next hfirst =>
      obtain ⟨rfl, rfl⟩ := Prod.mk.inj hstep
      refine ⟨l, ⟨hcontents, trivial, hreading⟩, ?_⟩
      apply refused ⟨hcontents, hwriting, hreading⟩
      simp only [FilesTable.basicFileIsFull, FilesTable.entry, hfirst, decide_true, Bool.true_or]
    · next hfirst =>
      obtain ⟨rfl, rfl⟩ := Prod.mk.inj hstep
      exact ⟨l, ⟨hcontents, hcontents.room_of_firstClause hfirst, hreading⟩, rfl⟩
  | secondClause c =>
    rw [hp] at hstep hwriting
    dsimp only at hstep
    split at hstep
    · next hsecond =>
      obtain ⟨rfl, rfl⟩ := Prod.mk.inj hstep
      refine ⟨l, ⟨hcontents, trivial, hreading⟩, ?_⟩
      apply refused ⟨hcontents, hp ▸ hwriting, hreading⟩
      simp [FilesTable.basicFileIsFull, FilesTable.entry, hsecond.1, hsecond.2]
    · next hsecond =>
      obtain ⟨rfl, rfl⟩ := Prod.mk.inj hstep
      exact ⟨l, ⟨hcontents, hcontents.room_of_secondClause hwriting hsecond, hreading⟩, rfl⟩
  | store c =>
    rw [hp] at hstep hwriting
    obtain ⟨rfl, rfl⟩ := Prod.mk.inj hstep
    obtain ⟨hafter, hcell⟩ := hcontents.store c
    exact ⟨l, ⟨hafter, ⟨hwriting, hcell⟩, hreading⟩, rfl⟩
  | advance c =>
    rw [hp] at hstep hwriting
    obtain ⟨rfl, rfl⟩ := Prod.mk.inj hstep
    obtain ⟨hroom, hcell⟩ := hwriting
    refine ⟨l ++ [c], ⟨hcontents.advanceWrite hcell hroom, trivial, hreading.append c⟩, ?_⟩
    show match BoundedQueue.enqueue (n - 1) l c with
      | none => 1 = EOF ∧ l ++ [c] = l
      | some accepted => (1 : Int) = 1 ∧ l ++ [c] = accepted
    rw [BoundedQueue.enqueue_of_lt (by omega)]
    exact ⟨rfl, rfl⟩

/-- One access of the reader. -/
theorem readerStep (h : SharedInv s i n l) (hstep : (s', returned) = s.readerStep i) :
    ∃ l', SharedInv s' i n l' ∧ Seen (n - 1) l returned l' := by
  obtain ⟨hcontents, hwriting, hreading⟩ := h
  unfold SharedFile.readerStep at hstep
  cases hq : s.reading with
  | idle =>
    rw [hq] at hstep
    obtain ⟨rfl, rfl⟩ := Prod.mk.inj hstep
    exact ⟨l, ⟨hcontents, hwriting, hreading⟩, rfl⟩
  | isEmpty =>
    rw [hq] at hstep
    dsimp only at hstep
    split at hstep
    · next hsame =>
      obtain ⟨rfl, rfl⟩ := Prod.mk.inj hstep
      obtain rfl := hcontents.isEmpty_iff.mp (decide_eq_true hsame)
      exact ⟨[], ⟨hcontents, hwriting, trivial⟩, rfl, rfl⟩
    · next hsame =>
      obtain ⟨rfl, rfl⟩ := Prod.mk.inj hstep
      refine ⟨l, ⟨hcontents, hwriting, ?_⟩, rfl⟩
      exact fun hnil => hsame (of_decide_eq_true (hcontents.isEmpty_iff.mpr hnil))
  | load =>
    rw [hq] at hstep hreading
    obtain ⟨rfl, rfl⟩ := Prod.mk.inj hstep
    obtain ⟨a, rest, rfl⟩ := List.exists_cons_of_ne_nil hreading
    exact ⟨a :: rest, ⟨hcontents, hwriting, congrArg some hcontents.front.symm⟩, rfl⟩
  | advance c =>
    rw [hq] at hstep hreading
    obtain ⟨rfl, rfl⟩ := Prod.mk.inj hstep
    obtain ⟨rest, rfl⟩ := List.head?_eq_some_iff.mp hreading
    refine ⟨rest, ⟨hcontents.advanceRead, ?_, trivial⟩, rfl, rfl⟩
    rw [FilesTable.cells_readIndex, FilesTable.setEntry_self]
    exact hwriting.mono (Nat.le_succ rest.length) rfl

/-- One step of the two processes. -/
theorem step {size : UInt64} {action : SharedAction} (h : SharedInv s i size.toNat l)
    (hstep : (preemptible i size).step s action s') :
    ∃ l', SharedInv s' i size.toNat l' ∧ Seen (size.toNat - 1) l action.returned l' := by
  cases action with
  | callWrite c =>
    obtain ⟨-, rfl⟩ := hstep
    exact ⟨l, ⟨h.contents, trivial, h.reading⟩, rfl⟩
  | writer returned => exact h.writerStep hstep
  | callRead =>
    obtain ⟨-, rfl⟩ := hstep
    exact ⟨l, ⟨h.contents, h.writing, trivial⟩, rfl⟩
  | reader returned => exact h.readerStep hstep
  | other =>
    obtain ⟨hwriting, hreading, hentry, hcells⟩ := hstep
    refine ⟨l, ⟨⟨h.contents.lt, ?_, ?_⟩, ?_, ?_⟩, rfl⟩
    · rw [hentry]
      exact h.contents.size
    · rw [hentry]
      exact h.contents.holds.congr hcells
    · rw [hwriting, hentry]
      exact h.writing.mono (Nat.le_refl _) (hcells _ h.contents.holds.write_lt)
    · rw [hreading]
      exact h.reading

end SharedInv

namespace SharedFile

variable {s s' : SharedFile} {i : Nat} {size : UInt64} {actions : List SharedAction}

/-- The file holds some bytes, and the calls can rely on what they know. -/
def Consistent (i n : Nat) (s : SharedFile) : Prop := ∃ l, SharedInv s i n l

theorem Consistent.step {action : SharedAction} (h : s.Consistent i size.toNat)
    (hstep : (preemptible i size).step s action s') :
    s'.Consistent i size.toNat ∧ Seen (size.toNat - 1) (s.files.queued s.mem i) action.returned
      (s'.files.queued s'.mem i) := by
  obtain ⟨l, hinv⟩ := h
  obtain ⟨l', hinv', hseen⟩ := hinv.step hstep
  rw [hinv.contents.queued_eq, hinv'.contents.queued_eq]
  exact ⟨⟨l', hinv'⟩, hseen⟩

theorem consistent_reachable (h : (preemptible i size).Reachable s) :
    s.Consistent i size.toNat := by
  apply h.invariant (Consistent i size.toNat)
  · rintro s ⟨hfile, hwriting, hreading⟩
    refine ⟨_, FileMemory.contents_reachable hfile, ?_, ?_⟩
    · rw [hwriting]
      trivial
    · rw [hreading]
      trivial
  · exact fun s action s' hinv hstep => (hinv.step hstep).1

/-- **The calls on a file are atomic**, although each can be preempted between any two of
    its accesses: what they return in a run is what they return when each happens at once,
    in the order in which they return. -/
theorem preempted_calls_atomic (h : (preemptible i size).Reachable s)
    (hrun : (preemptible i size).StepsFrom s actions s') :
    (atomicFile (size.toNat - 1)).StepsFrom (s.files.queued s.mem i)
      (actions.filterMap SharedAction.returned) (s'.files.queued s'.mem i) := by
  apply hrun.filterMap (f := fun s : SharedFile => s.files.queued s.mem i)
  · exact fun s action s' hinv hstep => (Consistent.step hinv hstep).1
  · intro s action s' call hinv hstep hcall
    have hseen := (Consistent.step hinv hstep).2
    rwa [hcall] at hseen
  · intro s action s' hinv hstep hnone
    have hseen := (Consistent.step hinv hstep).2
    rwa [hnone] at hseen
  · exact consistent_reachable h

/-- A read that comes in the middle of the first write finds nothing, and the write goes on. -/
theorem preempted_calls_atomic_read_in_write : ∃ s s' : SharedFile,
    (preemptible 0 4000).Reachable s ∧
    (preemptible 0 4000).StepsFrom s
      [.callWrite 65, .writer none, .writer none, .callRead, .writer none,
        .reader (some (.basicFileReadChar EOF)), .writer (some (.basicFileWriteChar 65 1))] s' ∧
    s'.files.queued s'.mem 0 = [65] := by
  let s₀ : SharedFile := ⟨⟨Catalog.oneFile, fun _ => 0⟩, .idle, .idle⟩
  let s₁ : SharedFile := { s₀ with writing := .store 65 }
  let s₂ : SharedFile := { s₁ with reading := .isEmpty }
  let s₃ : SharedFile := (s₂.writerStep 0).1
  let s₄ : SharedFile := { s₃ with reading := .idle }
  let s₅ : SharedFile := (s₄.writerStep 0).1
  have hreach : (preemptible 0 4000).Reachable s₀ :=
    .init ⟨.init (FileMemory.oneFile_init fun _ => 0), rfl, rfl⟩
  have hroom : (Catalog.oneFile.filesTable 0).writeIndex ≠
        (Catalog.oneFile.filesTable 0).readIndex - 1 ∧
      ¬ ((Catalog.oneFile.filesTable 0).writeIndex ≥ (Catalog.oneFile.filesTable 0).size - 1 ∧
        (Catalog.oneFile.filesTable 0).readIndex = 0) := by decide +kernel
  have hnothing : (Catalog.oneFile.filesTable 0).writeIndex =
      (Catalog.oneFile.filesTable 0).readIndex := by decide +kernel
  have hfirst : ({ s₀ with writing := .secondClause 65 }, none) =
      writerStep 0 { s₀ with writing := .firstClause 65 } := (if_neg hroom.1).symm
  have hsecond : (s₁, none) = writerStep 0 { s₀ with writing := .secondClause 65 } :=
    (if_neg hroom.2).symm
  have hread : (s₄, some (.basicFileReadChar EOF)) = s₃.readerStep 0 := (if_pos hnothing).symm
  have hrun : (preemptible 0 4000).StepsFrom s₀
      [.callWrite 65, .writer none, .writer none, .callRead, .writer none,
        .reader (some (.basicFileReadChar EOF)), .writer (some (.basicFileWriteChar 65 1))] s₅ :=
    .cons _ _ ⟨rfl, rfl⟩ (.cons _ _ hfirst (.cons _ _ hsecond (.cons _ _ ⟨rfl, rfl⟩
      (.cons _ _ (show (s₃, none) = _ from rfl) (.cons _ _ hread (.cons _ _ rfl (.nil s₅)))))))
  have hatomic := preempted_calls_atomic hreach hrun
  have hempty : s₀.files.queued s₀.mem 0 = [] :=
    (FileMemory.contents_init (FileMemory.oneFile_init fun _ => 0)).queued_eq
  rw [hempty] at hatomic
  refine ⟨s₀, s₅, hreach, hrun, ?_⟩
  cases hatomic with
  | cons _ _ hread hrest =>
    obtain ⟨-, rfl⟩ := hread
    cases hrest with
    | cons _ _ hwrite hnil =>
      obtain ⟨-, hqueue⟩ := hwrite
      cases hnil
      exact hqueue

end SharedFile

end TP2Kernel
