import TP2Kernel.Framework.Scan
import TP2Kernel.Memory.PageStack
import TP2Kernel.Stdlib

/-! # Basic files (`Kernel/c/basicFile.c`)

    A basic file is a circular byte array in a page of memory.  The table of open files
    is one page of 64-byte entries; an entry is free when its name is empty.

    A `BasicFile` is a pointer to an entry: here the entry's index, `none` for `NULL`.
-/

namespace TP2Kernel

def MAX_NAME : Nat := 16

/-- `EOF`, as the `int` the character functions return. -/
def EOF : Int := -1

/-- Where a file resides; `unset` is the zero of a cleared entry. -/
inductive Place where
  | unset
  | KERNEL
  | HEAP
  deriving DecidableEq, Repr

/-- `struct basicFile_s`. -/
structure BasicFileEntry where
  name : CString
  stream : Addr
  size : UInt64
  place : Place
  writeIndex : UInt64
  readIndex : UInt64
  deriving DecidableEq

/-- A cleared entry. -/
def BasicFileEntry.zero : BasicFileEntry where
  name := CString.empty
  stream := NULL
  size := 0
  place := .unset
  writeIndex := 0
  readIndex := 0

/-- `PAGE_SIZE / sizeof(struct basicFile_s)`. -/
def maxFiles : Nat := 128

abbrev BasicFile := Option Nat

/-- The static variables of `basicFile.c`. -/
structure FilesTable where
  filesTable : Nat → BasicFileEntry
  numFiles : UInt64

namespace FilesTable

/-- The cleared table `initializeBasicFiles` starts from. -/
def cleared : FilesTable where
  filesTable := fun _ => .zero
  numFiles := 0

/-- The entry a file pointer points to; a `NULL` pointer is never followed. -/
def entry (t : FilesTable) (file : BasicFile) : BasicFileEntry :=
  match file with
  | some i => t.filesTable i
  | none => .zero

def setEntry (t : FilesTable) (i : Nat) (e : BasicFileEntry) : FilesTable :=
  { t with filesTable := Function.update t.filesTable i e }

@[simp] theorem setEntry_self (t : FilesTable) (i : Nat) (e : BasicFileEntry) :
    (t.setEntry i e).filesTable i = e := by
  simp [setEntry]

@[simp] theorem setEntry_ne (t : FilesTable) {i j : Nat} (e : BasicFileEntry) (h : j ≠ i) :
    (t.setEntry i e).filesTable j = t.filesTable j := by
  simp [setEntry, h]

def getBasicFileName (t : FilesTable) (f : BasicFile) : CString := (t.entry f).name

def findBasicFile (t : FilesTable) (name : CString) : BasicFile :=
  let index := Scan.scan (fun i => strcmp (t.filesTable i).name name = 0) maxFiles
  if index ≥ maxFiles then none else some index

def validateParams (t : FilesTable) (name : CString) (memory : Addr) (size : UInt64)
    (place : Place) : Bool :=
  if name = CString.empty ∨ name.length ≥ MAX_NAME then false
  else if memory = NULL ∨ size ≤ 0 ∨ (place ≠ .KERNEL ∧ place ≠ .HEAP) then false
  else if t.findBasicFile name ≠ none then false
  else true

/-- The search for a free entry has no bound in the source; here it ends at `maxFiles`
    when the table has none. -/
def createBasicFile (t : FilesTable) (name : CString) (stream : Addr) (size : UInt64)
    (place : Place) : BasicFile × FilesTable :=
  if t.numFiles ≥ UInt64.ofNat maxFiles then (none, t)
  else if !t.validateParams name stream size place then (none, t)
  else
    let index := Scan.scan (fun i => (t.filesTable i).name = CString.empty) maxFiles
    let t := t.setEntry index
      { name := name, stream := stream, size := size, place := place
        writeIndex := 0, readIndex := 0 }
    (some index, { t with numFiles := t.numFiles + 1 })

def createBasicFileWithName (t : FilesTable) (pages : PageStack) (name : Option CString) :
    BasicFile × FilesTable × PageStack :=
  match name with
  | none => (none, t, pages)
  | some name =>
    if name = CString.empty ∨ name.length > MAX_NAME then (none, t, pages)
    else
      -- `stream` is uninitialised before `POP_PAGE` stores into it
      let (pages, stream) := pages.pageManager .POP_PAGE NULL
      if stream = NULL then (none, t, pages)
      else
        match t.createBasicFile name stream PAGE_SIZE .HEAP with
        | (none, t) => (none, t, (pages.pageManager .PUSH_PAGE stream).1)
        | (some i, t) => (some i, t, pages)

/-! ### The circular array -/

def isValidFile (file : BasicFile) : Bool :=
  match file with
  | none => false
  | some i => i < maxFiles

def basicFileIsFull (t : FilesTable) (file : BasicFile) : Bool :=
  let f := t.entry file
  f.writeIndex = f.readIndex - 1 || (f.writeIndex ≥ f.size - 1 && f.readIndex = 0)

def basicFileIsEmpty (t : FilesTable) (file : BasicFile) : Bool :=
  let f := t.entry file
  f.writeIndex = f.readIndex

/-- The character read, as a sign-extended `int`. -/
def basicFileReadChar (t : FilesTable) (mem : Memory) (file : BasicFile) :
    Int × FilesTable :=
  match file with
  | none => (EOF, t)
  | some i =>
    if !isValidFile file || t.basicFileIsEmpty file then (EOF, t)
    else
      let f := t.filesTable i
      let c := (mem (f.stream + f.readIndex)).toInt8.toInt
      let next := if f.readIndex ≥ f.size - 1 then 0 else f.readIndex + 1
      (c, t.setEntry i { f with readIndex := next })

def basicFileWriteChar (t : FilesTable) (mem : Memory) (c : UInt8) (file : BasicFile) :
    Int × FilesTable × Memory :=
  match file with
  | none => (EOF, t, mem)
  | some i =>
    if !isValidFile file || t.basicFileIsFull file then (EOF, t, mem)
    else
      let f := t.filesTable i
      let mem := Function.update mem (f.stream + f.writeIndex) c
      let next := if f.writeIndex ≥ f.size - 1 then 0 else f.writeIndex + 1
      (1, t.setEntry i { f with writeIndex := next }, mem)

/-! ### Destruction -/

/-- `filesTable[i].name` is an array, so its comparison with `NULL` is always true and
    every entry, free or not, counts as checked. -/
def indexOfFile (t : FilesTable) (file : BasicFile) : Option Nat :=
  Scan.countedScan (fun _ => True) (fun i => streql (t.getBasicFileName file)
    (t.filesTable i).name = true) t.numFiles.toNat maxFiles

def destroyBasicFile (t : FilesTable) (pages : PageStack) (file : BasicFile) :
    Int × FilesTable × PageStack :=
  if !isValidFile file then (-1, t, pages)
  else
    match t.indexOfFile file with
    | none => (-1, t, pages)
    | some index =>
      let f := t.entry file
      let pages := if f.place = .HEAP then (pages.pageManager .PUSH_PAGE f.stream).1 else pages
      let t := t.setEntry index .zero
      (0, { t with numFiles := t.numFiles - 1 }, pages)

end FilesTable

end TP2Kernel
