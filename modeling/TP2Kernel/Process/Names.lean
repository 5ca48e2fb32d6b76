import Mathlib.Data.List.TakeWhile
import TP2Kernel.Memory.Copies
import TP2Kernel.Process.Failure

/-! # The names of processes

    `createProcess` copies `MAX_NAME_LENGTH` bytes whatever the length of the name, so a
    name that long is copied without its NUL.  `getProcessName` gives a pointer into the
    entry, and who reads the name there reads on: into the stack pointer, which comes
    next, and into what comes after that.
-/

namespace TP2Kernel

/-! ### An entry in memory -/

/-- The bytes of a word, the lowest first. -/
def wordBytes (v : UInt64) : List UInt8 :=
  (List.range 8).map fun k => (v >>> UInt64.ofNat (8 * k)).toUInt8

/-- The bytes of half a word. -/
def halfBytes (v : UInt32) : List UInt8 :=
  (List.range 4).map fun k => (v >>> UInt32.ofNat (8 * k)).toUInt8

def FileDescriptorMapEntry.toBytes (e : FileDescriptorMapEntry) : List UInt8 :=
  halfBytes e.occupied ++ halfBytes e.index ++ halfBytes e.fileType ++ halfBytes e.flags

def FileDescriptorsMap.toBytes (fds : FileDescriptorsMap) : List UInt8 :=
  wordBytes fds.size ++ (List.range MAX_FILES).flatMap fun i => (fds.entries i).toBytes

/-- The entry from `name` to its end.  Nobody writes to `freeSpace`, which is zero. -/
def PcbEntry.fromName (e : PcbEntry) : List UInt8 :=
  e.name ++ wordBytes e.stack ++ e.fileDescriptors.toBytes ++ wordBytes e.stackPage ++
    wordBytes e.heapPage ++ List.replicate (21 * 8) 0

/-- The bytes at the pointer that `getProcessName` returns; `none` for `NULL`. -/
def Pcb.getProcessName (p : Pcb) (PCBIndex : UInt64) : Option (List UInt8) :=
  if p.badIndex PCBIndex then none else some (p.process PCBIndex).fromName

@[simp] theorem length_wordBytes (v : UInt64) : (wordBytes v).length = 8 := by
  simp [wordBytes]

@[simp] theorem length_halfBytes (v : UInt32) : (halfBytes v).length = 4 := by
  simp [halfBytes]

theorem wordBytes_cons (v : UInt64) : ∃ rest, wordBytes v = v.toUInt8 :: rest := by
  have hhead : (v >>> UInt64.ofNat (8 * 0)).toUInt8 = v.toUInt8 := by simp
  rw [wordBytes, List.range_succ_eq_map, List.map_cons, hhead]
  exact ⟨_, rfl⟩

theorem FileDescriptorsMap.length_toBytes (fds : FileDescriptorsMap) :
    fds.toBytes.length = 264 := by
  simp [toBytes, FileDescriptorMapEntry.toBytes, MAX_FILES]

/-- The string at the beginning of the bytes. -/
def stringOf (bytes : List UInt8) : List UInt8 := bytes.takeWhile (· ≠ 0)

/-- The bytes hold a NUL where a name should have one. -/
def NameEnds (bytes : List UInt8) : Prop := 0 ∈ bytes.take MAX_NAME_LENGTH

/-- A string that ends within `n` bytes is shorter. -/
theorem length_stringOf_lt {bytes : List UInt8} {n : Nat} (h : 0 ∈ bytes.take n) :
    (stringOf bytes).length < n := by
  by_contra hlong
  have htake : bytes.take n = (stringOf bytes).take n := by
    obtain ⟨rest, hrest⟩ := List.takeWhile_prefix (l := bytes) (p := (· ≠ 0))
    have hsplit : bytes = stringOf bytes ++ rest := hrest.symm
    rw [hsplit, List.take_append_of_le_length (not_lt.mp hlong), ← hsplit]
  rw [htake] at h
  have hchar := List.mem_takeWhile_imp (List.mem_of_mem_take h)
  simp at hchar

/-! ### The copy -/

namespace Machine

variable {m m' : Machine} {a : ProcessParams} {k : UInt64} {name : CString}

theorem claimedEntry_name (m : Machine) (e : PcbEntry) (a : ProcessParams) :
    (claimedEntry m e a).name =
      (List.range MAX_NAME_LENGTH).map fun k => m.mem (a.name + UInt64.ofNat k) := rfl

/-- The NUL is among the bytes that are copied when the name is short. -/
theorem copied_ends_iff (hname : HoldsString m.mem a.name name) (e : PcbEntry) :
    0 ∈ (claimedEntry m e a).name ↔ name.length < MAX_NAME_LENGTH := by
  rw [claimedEntry_name, List.mem_map]
  constructor
  · rintro ⟨j, hj, hzero⟩
    by_contra hlong
    have hlt := List.mem_range.mp hj
    exact hname.char_ne_zero (by omega) hzero
  · intro hshort
    exact ⟨name.length, List.mem_range.mpr hshort, hname.nul⟩

/-- A short name is copied with its NUL. -/
theorem copied_short (hname : HoldsString m.mem a.name name)
    (hshort : name.length < MAX_NAME_LENGTH) (e : PcbEntry) :
    ∃ rest, (claimedEntry m e a).name = name.bytes ++ 0 :: rest := by
  have hchars : (List.range name.length).map (fun k => m.mem (a.name + UInt64.ofNat k)) =
      name.bytes := by
    refine List.ext_getElem (by simp [CString.length]) ?_
    intro j hj hj'
    rw [List.getElem_map, List.getElem_range, hname.2 j (Nat.le_of_lt hj')]
    exact List.getD_eq_getElem _ _ hj'
  obtain ⟨left, hleft⟩ : ∃ left, MAX_NAME_LENGTH = name.length + (left + 1) :=
    ⟨MAX_NAME_LENGTH - name.length - 1, by omega⟩
  rw [claimedEntry_name, hleft, List.range_add, List.map_append, hchars,
    List.range_succ_eq_map, List.map_cons, List.map_cons, Nat.add_zero, hname.nul]
  exact ⟨_, rfl⟩

/-- The name of the new process is a string, and it is the one passed, or its beginning. -/
def NameKept (m' : Machine) (k : UInt64) (name : CString) : Prop :=
  ∃ bytes, m'.pcb.getProcessName k = some bytes ∧ NameEnds bytes ∧
    stringOf bytes <+: name.bytes

/-- What `getProcessName` finds after the creation: the name, and then the stack pointer. -/
theorem getProcessName_created (hcan : CanCreate m a)
    (hcreate : m.createProcess a = some (k, m')) :
    ∃ rest, rest.length < 2 ^ 32 ∧ m'.pcb.getProcessName k =
      some ((claimedEntry m (m.pcb.entries (freeEntry m.pcb)) a).name ++
        (wordBytes (m'.pcb.process k).stack ++ rest)) := by
  have hcr := createProcess_created hcreate
  have hbad : m'.pcb.badIndex k = false := by
    rw [hcr.badIndex]
    obtain ⟨_, _, rfl, -, -⟩ := hcr.of_canCreate hcan
    have hle := hcan.2.1.le
    rw [← hcan.toNat_freeEntry, ← UInt64.le_iff_toNat_le] at hle
    simpa [Pcb.badIndex, hcan.1] using hle
  obtain ⟨mem, sp, rfl, -, rfl⟩ := hcr.of_canCreate hcan
  refine ⟨standardFiles.toBytes ++ (wordBytes (m.stackPageFor (freeEntry m.pcb)).2 ++
    (wordBytes NULL ++ List.replicate (21 * 8) 0)), ?_, ?_⟩
  · simp only [List.length_append, length_wordBytes, FileDescriptorsMap.length_toBytes,
      List.length_replicate]
    decide
  · rw [Pcb.getProcessName, hbad, Pcb.process, hcan.toNat_freeEntry,
      withNewProcess_entries_self]
    simp only [PcbEntry.fromName, List.append_assoc]
    rfl

theorem nameEnds_copied_iff (hname : HoldsString m.mem a.name name) (e : PcbEntry)
    (rest : List UInt8) :
    NameEnds ((claimedEntry m e a).name ++ rest) ↔ name.length < MAX_NAME_LENGTH := by
  have hlength : (claimedEntry m e a).name.length = MAX_NAME_LENGTH := by
    rw [claimedEntry_name]
    simp
  rw [NameEnds, ← hlength, List.take_left, hlength]
  exact copied_ends_iff hname e

/-- The name of a new process stays a string exactly when it is short. -/
theorem nameKept_iff (hcan : CanCreate m a) (hname : HoldsString m.mem a.name name)
    (hcreate : m.createProcess a = some (k, m')) :
    NameKept m' k name ↔ name.length < MAX_NAME_LENGTH := by
  obtain ⟨rest, -, hbytes⟩ := getProcessName_created hcan hcreate
  constructor
  · rintro ⟨bytes, heq, hends, -⟩
    rw [hbytes] at heq
    rw [← Option.some.inj heq] at hends
    exact (nameEnds_copied_iff hname _ _).mp hends
  · intro hshort
    refine ⟨_, hbytes, (nameEnds_copied_iff hname _ _).mpr hshort, ?_⟩
    obtain ⟨tail, htail⟩ := copied_short hname hshort (m.pcb.entries (freeEntry m.pcb))
    have hstring : ∀ rest, stringOf (name.bytes ++ 0 :: (tail ++ rest)) = name.bytes := by
      intro rest
      rw [stringOf, List.takeWhile_append_of_pos ?_]
      · simp
      · intro b hb
        simpa using name.noNul b hb
    rw [htail, List.append_assoc, List.cons_append, hstring]

/-- A longer name goes on with the stack pointer, unless the lowest byte of that is zero. -/
theorem length_stringOf_long (hcan : CanCreate m a) (hname : HoldsString m.mem a.name name)
    (hlong : MAX_NAME_LENGTH ≤ name.length) (hcreate : m.createProcess a = some (k, m')) :
    ∃ bytes, m'.pcb.getProcessName k = some bytes ∧ (stringOf bytes).length < 2 ^ 64 ∧
      ((stringOf bytes).length ≤ MAX_NAME_LENGTH ↔ (m'.pcb.process k).stack.toUInt8 = 0) := by
  obtain ⟨rest, hrest, hbytes⟩ := getProcessName_created hcan hcreate
  obtain ⟨copied, hcopied⟩ : ∃ copied, copied =
    (claimedEntry m (m.pcb.entries (freeEntry m.pcb)) a).name := ⟨_, rfl⟩
  have hlength : copied.length = MAX_NAME_LENGTH := by
    rw [hcopied, claimedEntry_name]
    simp
  have hchars : ∀ b ∈ copied, decide (b ≠ 0) = true := by
    intro b hb
    rw [decide_eq_true_eq]
    rintro rfl
    rw [hcopied] at hb
    exact absurd ((copied_ends_iff hname _).mp hb) (not_lt.mpr hlong)
  obtain ⟨tail, htail⟩ := wordBytes_cons (m'.pcb.process k).stack
  have hstring : stringOf (copied ++ (wordBytes (m'.pcb.process k).stack ++ rest)) =
      copied ++ stringOf (wordBytes (m'.pcb.process k).stack ++ rest) :=
    List.takeWhile_append_of_pos hchars
  refine ⟨_, hbytes, ?_, ?_⟩
  · rw [← hcopied]
    have hle := (List.takeWhile_prefix (· ≠ 0)
      (l := copied ++ (wordBytes (m'.pcb.process k).stack ++ rest))).length_le
    simp only [List.length_append, length_wordBytes, hlength] at hle
    unfold MAX_NAME_LENGTH at hle
    unfold stringOf
    omega
  · rw [← hcopied, hstring, List.length_append, hlength, htail, List.cons_append, stringOf]
    by_cases hzero : (m'.pcb.process k).stack.toUInt8 = 0 <;> simp [hzero]

end Machine

end TP2Kernel
