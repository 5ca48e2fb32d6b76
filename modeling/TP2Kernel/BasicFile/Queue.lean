import TP2Kernel.BasicFile.Creation
import TP2Kernel.BasicFile.Fifo
import TP2Kernel.Framework.BoundedQueue

/-! # A basic file of `N` bytes is a queue of `N - 1`

    One byte of the buffer stays free: the write index equals the read index only in an
    empty file.
-/

namespace TP2Kernel

open Transition

namespace FilesTable

variable {t : FilesTable} {mem : Memory} {i n : Nat} {l : List UInt8}

/-! ### The queue of a file -/

/-- The bytes that wait in file `i`, the oldest first. -/
def queued (t : FilesTable) (mem : Memory) (i : Nat) : List UInt8 :=
  CircularBuffer.contents (t.cells mem i) (t.filesTable i).size.toNat
    (t.filesTable i).readIndex.toNat (t.filesTable i).writeIndex.toNat

theorem Contents.queued_eq (h : t.Contents mem i n l) : t.queued mem i = l := by
  unfold queued
  rw [h.size]
  exact h.holds.contents_eq

/-- A new file is empty. -/
theorem contents_createdEntry {name : CString} {stream : Addr} {size : UInt64} {place : Place}
    (hi : i < maxFiles) (hsize : 0 < size)
    (hentry : t.filesTable i = createdEntry name stream size place) :
    t.Contents mem i size.toNat [] := by
  have hpos : 0 < size.toNat := UInt64.lt_iff_toNat_lt.mp hsize
  refine ⟨hi, ?_, ?_⟩
  · rw [hentry]
    rfl
  · rw [hentry]
    exact CircularBuffer.Holds.nil hpos

/-- A full file takes no byte. -/
theorem Contents.write_refused (h : t.Contents mem i n l) (hfull : l.length + 1 = n)
    (c : UInt8) : t.basicFileWriteChar mem c (some i) = (EOF, t, mem) := by
  have htest := h.isFull_iff.mpr hfull
  simp [basicFileWriteChar, htest]

/-- An empty file gives none. -/
theorem Contents.read_refused (h : t.Contents mem i n []) :
    t.basicFileReadChar mem (some i) = (EOF, t) := by
  have htest := h.isEmpty_iff.mpr rfl
  simp [basicFileReadChar, htest]

/-- File `i`, of `n` bytes, acts as a queue of `n - 1`: the two tests say whether a call is
    refused, and a refused call changes nothing. -/
structure ActsAsQueue (t : FilesTable) (mem : Memory) (i n : Nat) : Prop where
  size : (t.filesTable i).size.toNat = n ∧ 1 ≤ n
  indices : (t.filesTable i).readIndex.toNat < n ∧ (t.filesTable i).writeIndex.toNat < n
  full : t.basicFileIsFull (some i) = true ↔ (t.queued mem i).length = n - 1
  empty : t.basicFileIsEmpty (some i) = true ↔ t.queued mem i = []
  write : ∀ c, match BoundedQueue.enqueue (n - 1) (t.queued mem i) c with
    | none => t.basicFileWriteChar mem c (some i) = (EOF, t, mem)
    | some l => ∃ t' mem', t.basicFileWriteChar mem c (some i) = (1, t', mem') ∧
      t'.queued mem' i = l
  read : match BoundedQueue.dequeue (t.queued mem i) with
    | none => t.basicFileReadChar mem (some i) = (EOF, t)
    | some (a, l) => ∃ t', t.basicFileReadChar mem (some i) = (a.toInt8.toInt, t') ∧
      t'.queued mem i = l

theorem Contents.actsAsQueue (h : t.Contents mem i n l) : t.ActsAsQueue mem i n := by
  have hroom := h.holds.room
  have hqueued := h.queued_eq
  refine ⟨⟨h.size, by omega⟩, ⟨h.holds.read_lt, h.holds.write_lt⟩, ?_, ?_, ?_, ?_⟩
  · rw [hqueued, h.isFull_iff]
    omega
  · rw [hqueued]
    exact h.isEmpty_iff
  · intro c
    rw [hqueued]
    by_cases hlt : l.length < n - 1
    · obtain ⟨t', mem', heq, hafter⟩ := h.write (by omega) c
      rw [BoundedQueue.enqueue_of_lt hlt]
      exact ⟨t', mem', heq, hafter.queued_eq⟩
    · rw [BoundedQueue.enqueue_eq_none_iff.mpr (Nat.le_of_not_lt hlt)]
      exact h.write_refused (by omega) c
  · rw [hqueued]
    cases l with
    | nil => exact h.read_refused
    | cons a rest =>
      obtain ⟨t', heq, hafter⟩ := h.read
      exact ⟨t', heq, hafter.queued_eq⟩

end FilesTable

/-! ### Calls on one file -/

structure FileMemory where
  files : FilesTable
  mem : Memory

inductive FileCall where
  | basicFileWriteChar (c : UInt8)
  | basicFileReadChar
  | other

/-- File `i` of `size` bytes, from its creation on.  Nobody else touches its entry or its
    buffer. -/
def fileCalls (i : Nat) (size : UInt64) : System FileMemory FileCall where
  init := fun s => ∃ catalog name stream place, cataloging.Reachable catalog ∧
    catalog.files.createBasicFile name stream size place = (some i, s.files)
  step := fun s call s' =>
    match call with
    | .basicFileWriteChar c =>
      s' = ⟨(s.files.basicFileWriteChar s.mem c (some i)).2.1,
        (s.files.basicFileWriteChar s.mem c (some i)).2.2⟩
    | .basicFileReadChar => s' = ⟨(s.files.basicFileReadChar s.mem (some i)).2, s.mem⟩
    | .other => s'.files.filesTable i = s.files.filesTable i ∧
      ∀ k, k < size.toNat → s'.files.cells s'.mem i k = s.files.cells s.mem i k

namespace FileMemory

variable {s s' : FileMemory} {i : Nat} {size : UInt64} {l : List UInt8}

theorem contents_init (h : (fileCalls i size).init s) :
    s.files.Contents s.mem i size.toNat [] := by
  obtain ⟨catalog, name, stream, place, hreach, hcreate⟩ := h
  rcases catalog.files.createBasicFile_cases name stream size place with
    hnone | ⟨hacc, hsize, hsome⟩
  · rw [hnone] at hcreate
    cases hcreate
  · rw [hsome] at hcreate
    obtain ⟨hindex, hfiles⟩ := Prod.mk.inj hcreate
    have hi : catalog.files.firstFree = i := Option.some.inj hindex
    have hlt := ((Catalog.inv_reachable hreach).table.firstFree hacc.1).1
    apply FilesTable.contents_createdEntry (hi ▸ hlt) hsize
    rw [← hfiles, hi]
    exact Function.update_self _ _ _

/-- A call does to the file what it does to a queue. -/
theorem contents_step (call : FileCall) (h : s.files.Contents s.mem i size.toNat l)
    (hstep : (fileCalls i size).step s call s') :
    (∃ c, s'.files.Contents s'.mem i size.toNat
      (BoundedQueue.afterCall (size.toNat - 1) l c)) ∨
    s'.files.Contents s'.mem i size.toNat l := by
  cases call with
  | basicFileWriteChar c =>
    left
    obtain rfl := hstep
    refine ⟨.enqueue c, ?_⟩
    have hroom := h.holds.room
    show FilesTable.Contents _ _ i size.toNat
      ((BoundedQueue.enqueue (size.toNat - 1) l c).getD l)
    by_cases hlt : l.length < size.toNat - 1
    · obtain ⟨t', mem', heq, hafter⟩ := h.write (by omega) c
      rw [BoundedQueue.enqueue_of_lt hlt, heq]
      exact hafter
    · rw [BoundedQueue.enqueue_eq_none_iff.mpr (Nat.le_of_not_lt hlt),
        h.write_refused (by omega) c]
      exact h
  | basicFileReadChar =>
    left
    obtain rfl := hstep
    refine ⟨.dequeue, ?_⟩
    show FilesTable.Contents _ _ i size.toNat l.tail
    cases l with
    | nil =>
      rw [h.read_refused]
      exact h
    | cons a rest =>
      obtain ⟨t', heq, hafter⟩ := h.read
      rw [heq]
      exact hafter
  | other =>
    right
    obtain ⟨hentry, hcells⟩ := hstep
    refine ⟨h.lt, ?_, ?_⟩
    · rw [hentry]
      exact h.size
    · rw [hentry]
      exact h.holds.congr hcells

/-- The file of a run always holds some bytes. -/
theorem contents_reachable (h : (fileCalls i size).Reachable s) :
    s.files.Contents s.mem i size.toNat (s.files.queued s.mem i) := by
  obtain ⟨l, hl⟩ : ∃ l, s.files.Contents s.mem i size.toNat l := by
    apply h.invariant (fun s => ∃ l, s.files.Contents s.mem i size.toNat l)
    · intro s hinit
      exact ⟨[], contents_init hinit⟩
    · intro s call s' hl hstep
      obtain ⟨l, hl⟩ := hl
      rcases contents_step call hl hstep with ⟨c, hafter⟩ | hsame
      · exact ⟨_, hafter⟩
      · exact ⟨l, hsame⟩
  rw [hl.queued_eq]
  exact hl

/-- The runs of a file are runs of a bounded queue that starts empty. -/
theorem fileCalls_refines (h : (fileCalls i size).Reachable s) :
    (BoundedQueue.queue UInt8 (size.toNat - 1)).Reachable (s.files.queued s.mem i) := by
  apply h.map (f := fun s : FileMemory => s.files.queued s.mem i)
    (fun s hreach => contents_reachable hreach)
  · intro s hinit
    exact (contents_init hinit).queued_eq
  · intro s call s' hcontents hstep
    rcases contents_step call hcontents hstep with ⟨c, hafter⟩ | hsame
    · left
      exact ⟨c, hafter.queued_eq⟩
    · right
      exact hsame.queued_eq

/-- **A basic file is a bounded queue**, in every state of every run. -/
theorem basicFile_boundedQueue (h : (fileCalls i size).Reachable s) :
    (BoundedQueue.queue UInt8 (size.toNat - 1)).Reachable (s.files.queued s.mem i) ∧
    (s.files.queued s.mem i).length ≤ size.toNat - 1 ∧
    s.files.ActsAsQueue s.mem i size.toNat := by
  have habstract := fileCalls_refines h
  exact ⟨habstract, BoundedQueue.length_le habstract, (contents_reachable h).actsAsQueue⟩

theorem oneFile_init (mem : Memory) : (fileCalls 0 4000).init ⟨Catalog.oneFile, mem⟩ :=
  ⟨⟨.cleared, .bss⟩, Catalog.screen, 0x100000, .KERNEL, .init rfl, Catalog.createBasicFile_oneFile⟩

/-- A file with one byte. -/
theorem oneByte (c : UInt8) : ∃ s, (fileCalls 0 4000).Reachable s ∧
    s.files.queued s.mem 0 = [c] ∧ s.files.Contents s.mem 0 4000 [c] := by
  have hinit := oneFile_init fun _ => 0
  have hroom : ([] : List UInt8).length + 1 < (4000 : UInt64).toNat := by decide
  obtain ⟨t', mem', hwrite, hafter⟩ := (contents_init hinit).write hroom c
  refine ⟨⟨t', mem'⟩, ?_, hafter.queued_eq, hafter⟩
  refine .step (.basicFileWriteChar c) (.init hinit) ?_
  show (⟨t', mem'⟩ : FileMemory) = ⟨_, _⟩
  rw [hwrite]

/-- After a call of `basicFileWriteChar`. -/
theorem basicFile_boundedQueue_oneByte : ∃ s, (fileCalls 0 4000).Reachable s ∧
    s.files.queued s.mem 0 = [65] ∧ (BoundedQueue.queue UInt8 3999).Reachable [65] ∧
    s.files.ActsAsQueue s.mem 0 4000 := by
  obtain ⟨s, hreach, hqueued, -⟩ := oneByte 65
  obtain ⟨hqueue, -, hacts⟩ := basicFile_boundedQueue hreach
  rw [hqueued] at hqueue
  exact ⟨s, hreach, hqueued, hqueue, hacts⟩

end FileMemory

end TP2Kernel
