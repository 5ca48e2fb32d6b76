import TP2Kernel.Memory.Bytes

/-! # The module packer (`Toolchain/ModulePacker/main.c`)

    The image of the system is the kernel, the number of the modules and the modules, each
    behind its size.  Files are lists of bytes; they are copied in rounds of at most
    `BUFFER_SIZE` bytes, until a read has come to the end of the file.
-/

namespace TP2Kernel

def BUFFER_SIZE : Nat := 128

/-- The rounds of `write_file`: the end of the file is noticed by a read that gets less
    than it asked for. -/
def writeRounds : Nat → List UInt8 → Option (List UInt8)
  | 0, _ => none
  | rounds + 1, source =>
    let read := source.take BUFFER_SIZE
    if read.length < BUFFER_SIZE then some read
    else (writeRounds rounds (source.drop BUFFER_SIZE)).map (read ++ ·)

/-- What `write_file` appends to the target. -/
def write_file (source : List UInt8) : Option (List UInt8) :=
  writeRounds (source.length + 1) source

def write_size (file : List UInt8) : List UInt8 := encodeWord (UInt32.ofNat file.length)

/-- The loop of `buildImage` over the modules. -/
def writeModules : List (List UInt8) → Option (List UInt8)
  | [] => some []
  | file :: files =>
    (write_file file).bind fun out => (writeModules files).map (write_size file ++ out ++ ·)

/-- `buildImage`: the kernel comes first. -/
def buildImage (kernel : List UInt8) (modules : List (List UInt8)) : Option (List UInt8) :=
  (write_file kernel).bind fun out =>
    (writeModules modules).map (out ++ encodeWord (UInt32.ofNat modules.length) ++ ·)

/-! ### What is written -/

/-- The modules, one after the other. -/
def packed (modules : List (List UInt8)) : List UInt8 :=
  modules.flatMap fun file => write_size file ++ file

/-- What comes behind the kernel. -/
def payload (modules : List (List UInt8)) : List UInt8 :=
  encodeWord (UInt32.ofNat modules.length) ++ packed modules

theorem writeRounds_eq {source : List UInt8} {rounds : Nat} (h : source.length < rounds) :
    writeRounds rounds source = some source := by
  induction rounds generalizing source with
  | zero => omega
  | succ rounds ih =>
    unfold writeRounds
    dsimp only
    split
    · next hend =>
      rw [List.length_take] at hend
      rw [List.take_of_length_le (by omega)]
    · next hmore =>
      rw [List.length_take, BUFFER_SIZE] at hmore
      rw [ih (by rw [List.length_drop, BUFFER_SIZE]; omega), Option.map_some,
        List.take_append_drop]

/-- A file is copied as it is. -/
theorem write_file_eq (source : List UInt8) : write_file source = some source :=
  writeRounds_eq (Nat.lt_succ_self _)

theorem writeModules_eq (modules : List (List UInt8)) :
    writeModules modules = some (packed modules) := by
  induction modules with
  | nil => rfl
  | cons file files ih =>
    rw [writeModules, write_file_eq, ih]
    rfl

theorem buildImage_eq (kernel : List UInt8) (modules : List (List UInt8)) :
    buildImage kernel modules = some (kernel ++ payload modules) := by
  rw [buildImage, write_file_eq, Option.bind_some, writeModules_eq, Option.map_some,
    List.append_assoc, payload]

end TP2Kernel
