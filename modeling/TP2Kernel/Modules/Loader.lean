import TP2Kernel.Framework.Recorded
import TP2Kernel.Memory.Copies
import TP2Kernel.Modules.Packer

/-! # The module loader (`Kernel/c/moduleLoader.c`)

    The kernel finds the modules behind itself and copies each to its place.  It goes
    through the image with one pointer, which the packer's sizes move on.  What it reads,
    and what it says on the console, are events; the console's own memory is not part of
    this model.
-/

namespace TP2Kernel

open Recorded

inductive LoaderEvent where
  | readUint32 (address : Addr)
  | memcpy (destination source : Addr) (length : UInt64)
  | ncPrint (text : String)
  | ncPrintHex (value : UInt64)
  | ncPrintDec (value : UInt64)
  | ncNewline

/-- The bytes that are read there. -/
def LoaderEvent.Reads : LoaderEvent → Addr → Prop
  | .readUint32 address, x => (x - address).toNat < 4
  | .memcpy destination source length, x => MemcpyElements destination source length source x
  | _, _ => False

/-- The number, and the pointer behind it. -/
def readUint32 (m : Memory) (address : Addr) : Recorded LoaderEvent (UInt32 × Addr) := do
  emit (.readUint32 address)
  pure (m.readUInt32 address, address + 4)

/-- `loadModule`: the memory, and the pointer to the next module. -/
def loadModule (s : Memory × Addr) (targetModuleAddress : Addr) :
    Recorded LoaderEvent (Memory × Addr) := do
  let (moduleSize, module) ← readUint32 s.1 s.2
  emit (.ncPrint "  Will copy module at 0x")
  emit (.ncPrintHex module)
  emit (.ncPrint " to 0x")
  emit (.ncPrintHex targetModuleAddress)
  emit (.ncPrint " (")
  emit (.ncPrintDec moduleSize.toUInt64)
  emit (.ncPrint " bytes)")
  emit (.memcpy targetModuleAddress module moduleSize.toUInt64)
  emit (.ncPrint " [Done]")
  emit .ncNewline
  pure (memcpy s.1 targetModuleAddress module moduleSize.toUInt64, module + moduleSize.toUInt64)

/-- `loadModules`.  There is nothing to be said about a table that is too short. -/
def loadModules (m : Memory) (payloadStart : Addr) (targetModuleAddress : List Addr) :
    Recorded LoaderEvent Memory := do
  let (moduleCount, currentModule) ← readUint32 m payloadStart
  let s ← forRange (fun i s =>
    match targetModuleAddress[i]? with
    | some target => loadModule s target
    | none => never) moduleCount.toNat (m, currentModule)
  pure s.1

/-! ### Ranges of memory -/

/-- One of the `n` bytes from `a` on. -/
def InRange (a : Addr) (n : Nat) (x : Addr) : Prop := (x - a).toNat < n

/-- No byte is in both ranges. -/
def RangesApart (a : Addr) (n : Nat) (b : Addr) (k : Nat) : Prop :=
  ∀ x, InRange a n x → ¬ InRange b k x

variable {a b x : Addr} {n k : Nat}

theorem inRange_add (a : Addr) (h : k < n) : InRange a n (a + UInt64.ofNat k) := by
  have hmod : (UInt64.ofNat k).toNat ≤ k := by
    rw [UInt64.toNat_ofNat']
    exact Nat.mod_le _ _
  rw [InRange, add_sub_cancel_left]
  omega

/-- A range inside of another. -/
theorem InRange.inside {offset size : Nat} (h : InRange (a + UInt64.ofNat offset) k x)
    (hsize : offset + k ≤ size) : InRange a size x := by
  have hx : x = a + UInt64.ofNat (offset + (x - (a + UInt64.ofNat offset)).toNat) := by
    rw [UInt64.ofNat_add, UInt64.ofNat_toNat]
    grind
  rw [InRange] at h
  rw [hx]
  exact inRange_add a (by omega)

/-- Bytes are still there when their range has been kept. -/
theorem LiesAt.kept {m m' : Memory} {bytes : List UInt8} (h : LiesAt m a bytes)
    (hkept : ∀ x, InRange a bytes.length x → m' x = m x) : LiesAt m' a bytes := by
  intro i hi
  rw [hkept _ (inRange_add a hi)]
  exact h i hi

/-- `memcpy` from bytes that lie apart. -/
theorem liesAt_memcpy {m : Memory} {bytes : List UInt8} {length : UInt64}
    (hlength : length.toNat = bytes.length) (h : LiesAt m b bytes)
    (hapart : RangesApart b bytes.length a bytes.length) :
    LiesAt (memcpy m a b length) a bytes := by
  intro i hi
  have hlt := length.toNat_lt
  have hoffset : a + UInt64.ofNat i - a = UInt64.ofNat i := add_sub_cancel_left _ _
  have hin : (a + UInt64.ofNat i - a).toNat < length.toNat := by
    rw [hlength]
    exact inRange_add a hi
  rw [memcpy_apply hin, hoffset]
  · exact h i hi
  · rw [hoffset, hlength]
    exact hapart _ (inRange_add b hi)

/-! ### The round trip -/

/-- What the modules and their places have to be like: sizes that fit in their fields, a
    place for each module, and no place that shares a byte with another or with the
    payload. -/
structure Placed (targets : List Addr) (modules : List (List UInt8)) (payloadStart : Addr) :
    Prop where
  count : modules.length < 2 ^ 31
  sizes : ∀ file ∈ modules, file.length < 2 ^ 32
  enough : modules.length ≤ targets.length
  apart : (targets.zip modules).Pairwise fun p q => RangesApart p.1 p.2.length q.1 q.2.length
  payload : ∀ p ∈ targets.zip modules,
    RangesApart payloadStart (payload modules).length p.1 p.2.length

/-- The first `n` modules are where they belong, and the pointer behind the last of them. -/
structure Unpacked (m : Memory) (targets : List Addr) (modules : List (List UInt8))
    (payloadStart : Addr) (n : Nat) (s : Memory × Addr) : Prop where
  pointer : s.2 = payloadStart + UInt64.ofNat (4 + (packed (modules.take n)).length)
  stored : ∀ p ∈ (targets.zip modules).take n, LiesAt s.1 p.1 p.2
  kept : ∀ x, (∀ p ∈ (targets.zip modules).take n, ¬ InRange p.1 p.2.length x) → s.1 x = m x

/-- No byte is read from outside of the payload. -/
def ReadsPayload (payloadStart : Addr) (modules : List (List UInt8)) (e : LoaderEvent) : Prop :=
  ∀ x, e.Reads x → InRange payloadStart (payload modules).length x

variable {m : Memory} {targets : List Addr} {modules : List (List UInt8)} {file : List UInt8}
  {payloadStart target : Addr} {s : Memory × Addr}

theorem packed_split (h : modules[n]? = some file) :
    packed modules = packed (modules.take n) ++
      (write_size file ++ (file ++ packed (modules.drop (n + 1)))) := by
  obtain ⟨hn, rfl⟩ := List.getElem?_eq_some_iff.mp h
  conv_lhs => rw [← List.take_append_drop n modules, List.drop_eq_getElem_cons hn]
  rw [packed, List.flatMap_append, List.flatMap_cons, List.append_assoc (write_size _)]
  rfl

theorem packed_take_succ (h : modules[n]? = some file) :
    (packed (modules.take (n + 1))).length =
      (packed (modules.take n)).length + 4 + file.length := by
  obtain ⟨hn, rfl⟩ := List.getElem?_eq_some_iff.mp h
  rw [List.take_succ_eq_append_getElem hn, packed, List.flatMap_append, List.flatMap_singleton,
    List.length_append, List.length_append, ← Nat.add_assoc]
  rfl

theorem length_payload (h : modules[n]? = some file) :
    4 + (packed (modules.take n)).length + 4 + file.length ≤ (payload modules).length := by
  rw [payload, packed_split h]
  simp only [List.length_append, length_encodeWord, write_size]
  omega

/-- The payload is still there. -/
theorem Unpacked.payload_kept (h : Placed targets modules payloadStart)
    (hload : LiesAt m payloadStart (payload modules))
    (hs : Unpacked m targets modules payloadStart n s) :
    LiesAt s.1 payloadStart (payload modules) :=
  hload.kept fun x hx => hs.kept x fun p hp => h.payload p (List.mem_of_mem_take hp) x hx

/-- What the pointer points to. -/
theorem Unpacked.next (h : Placed targets modules payloadStart)
    (hload : LiesAt m payloadStart (payload modules))
    (hs : Unpacked m targets modules payloadStart n s) (hfile : modules[n]? = some file) :
    LiesAt s.1 s.2 (write_size file) ∧ LiesAt s.1 (s.2 + 4) file := by
  have hstill := hs.payload_kept h hload
  rw [payload, packed_split hfile] at hstill
  have hrest := (liesAt_append.mp (liesAt_append.mp hstill).2).2
  rw [length_encodeWord, UInt64.add_assoc, ← UInt64.ofNat_add, ← hs.pointer] at hrest
  obtain ⟨hsize, hrest⟩ := liesAt_append.mp hrest
  exact ⟨hsize, (liesAt_append.mp hrest).1⟩

theorem readUint32_meets {P : LoaderEvent → Prop} {address : Addr} {value : UInt32}
    (h : LiesAt m address (encodeWord value)) (hP : P (.readUint32 address)) :
    (readUint32 m address).Meets P fun r => r = (value, address + 4) := by
  refine .bind (.emit hP) fun _ _ => .pure ?_
  rw [readUInt32_encodeWord h]

/-- The size that is read. -/
def sizeOf (file : List UInt8) : UInt64 := (UInt32.ofNat file.length).toUInt64

theorem toNat_sizeOf (h : file.length < 2 ^ 32) : (sizeOf file).toNat = file.length := by
  rw [sizeOf, UInt32.toNat_toUInt64, UInt32.toNat_ofNat_of_lt' h]

theorem Unpacked.source_eq (hs : Unpacked m targets modules payloadStart n s) :
    s.2 + 4 = payloadStart + UInt64.ofNat (4 + (packed (modules.take n)).length + 4) := by
  rw [hs.pointer, UInt64.add_assoc, UInt64.ofNat_add _ 4]
  rfl

/-- The copy of one more module. -/
theorem Unpacked.copied (h : Placed targets modules payloadStart)
    (hload : LiesAt m payloadStart (payload modules))
    (hs : Unpacked m targets modules payloadStart n s) (hfile : modules[n]? = some file)
    (htarget : targets[n]? = some target) :
    Unpacked m targets modules payloadStart (n + 1)
      (memcpy s.1 target (s.2 + 4) (sizeOf file), s.2 + 4 + sizeOf file) := by
  have hsmall := h.sizes file (List.mem_of_getElem? hfile)
  have hlength := toNat_sizeOf hsmall
  have hpair : (targets.zip modules)[n]? = some (target, file) := by
    rw [List.getElem?_zip_eq_some]
    exact ⟨htarget, hfile⟩
  obtain ⟨hn, hget⟩ := List.getElem?_eq_some_iff.mp hpair
  have htake : (targets.zip modules).take (n + 1) =
      (targets.zip modules).take n ++ [(target, file)] := by
    rw [List.take_succ_eq_append_getElem hn, hget]
  -- the copy changes the bytes of its target alone
  have houtside : ∀ x, ¬ InRange target file.length x →
      memcpy s.1 target (s.2 + 4) (sizeOf file) x = s.1 x := by
    intro x hx
    apply memcpy_frame
    rwa [hlength]
  constructor
  · have hnext : sizeOf file = UInt64.ofNat file.length := by
      rw [← UInt64.toNat_inj, hlength, UInt64.toNat_ofNat_of_lt']
      show file.length < 2 ^ 64
      omega
    have hbehind : 4 + ((packed (modules.take n)).length + 4 + file.length) =
        4 + (packed (modules.take n)).length + 4 + file.length := by omega
    rw [packed_take_succ hfile, hbehind, hs.source_eq, hnext, UInt64.add_assoc,
      ← UInt64.ofNat_add]
  · intro p hp
    rw [htake, List.mem_append, List.mem_singleton] at hp
    obtain hp | rfl := hp
    · refine (hs.stored p hp).kept fun x hx => houtside x ?_
      have happart := h.apart
      rw [← List.take_append_drop n (targets.zip modules), List.pairwise_append] at happart
      refine happart.2.2 p hp (target, file) ?_ x hx
      rw [List.drop_eq_getElem_cons hn, hget]
      exact List.mem_cons_self
    · apply liesAt_memcpy hlength (hs.next h hload hfile).2
      intro x hx
      rw [hs.source_eq] at hx
      exact h.payload (target, file) (List.mem_of_getElem? hpair) x
        (hx.inside (length_payload hfile))
  · intro x hx
    rw [htake] at hx
    have hfrom : memcpy s.1 target (s.2 + 4) (sizeOf file) x = s.1 x :=
      houtside x (hx (target, file) (by simp))
    exact hfrom.trans (hs.kept x fun p hp => hx p (List.mem_append_left _ hp))

/-- One module. -/
theorem Unpacked.loadModule (h : Placed targets modules payloadStart)
    (hload : LiesAt m payloadStart (payload modules))
    (hs : Unpacked m targets modules payloadStart n s) (hfile : modules[n]? = some file)
    (htarget : targets[n]? = some target) :
    (loadModule s target).Meets (ReadsPayload payloadStart modules)
      (Unpacked m targets modules payloadStart (n + 1)) := by
  have hroom := length_payload hfile
  have hquiet : ∀ e : LoaderEvent, (∀ x, ¬ e.Reads x) → ReadsPayload payloadStart modules e :=
    fun e he x hx => absurd hx (he x)
  have hsize : ReadsPayload payloadStart modules (.readUint32 s.2) := by
    intro x hx
    have hin : InRange s.2 4 x := hx
    rw [hs.pointer] at hin
    exact hin.inside (by omega)
  have hcopy : ReadsPayload payloadStart modules (.memcpy target (s.2 + 4) (sizeOf file)) := by
    intro x hx
    have hin : InRange (s.2 + 4) file.length x := by
      rw [InRange, ← toNat_sizeOf (h.sizes file (List.mem_of_getElem? hfile))]
      exact memcpyElements_iff.mp hx
    rw [hs.source_eq] at hin
    exact hin.inside hroom
  unfold TP2Kernel.loadModule
  refine (readUint32_meets (hs.next h hload hfile).1 hsize).bind ?_
  rintro _ rfl
  refine .bind (.emit (hquiet _ fun _ => id)) fun _ _ => ?_
  refine .bind (.emit (hquiet _ fun _ => id)) fun _ _ => ?_
  refine .bind (.emit (hquiet _ fun _ => id)) fun _ _ => ?_
  refine .bind (.emit (hquiet _ fun _ => id)) fun _ _ => ?_
  refine .bind (.emit (hquiet _ fun _ => id)) fun _ _ => ?_
  refine .bind (.emit (hquiet _ fun _ => id)) fun _ _ => ?_
  refine .bind (.emit (hquiet _ fun _ => id)) fun _ _ => ?_
  refine .bind (.emit hcopy) fun _ _ => ?_
  refine .bind (.emit (hquiet _ fun _ => id)) fun _ _ => ?_
  refine .bind (.emit (hquiet _ fun _ => id)) fun _ _ => .pure ?_
  exact hs.copied h hload hfile htarget

/-- All modules, one after the other. -/
theorem loadModules_meets (h : Placed targets modules payloadStart)
    (hload : LiesAt m payloadStart (payload modules)) :
    (loadModules m payloadStart targets).Meets (ReadsPayload payloadStart modules) fun m' =>
      (∀ p ∈ targets.zip modules, LiesAt m' p.1 p.2) ∧
      ∀ x, (∀ p ∈ targets.zip modules, ¬ InRange p.1 p.2.length x) → m' x = m x := by
  have hcount : (UInt32.ofNat modules.length).toNat = modules.length := by
    have := h.count
    exact UInt32.toNat_ofNat_of_lt' (by show modules.length < 2 ^ 32; omega)
  have hlength : 4 ≤ (payload modules).length := by
    rw [payload, List.length_append, length_encodeWord]
    omega
  have hall : (targets.zip modules).take modules.length = targets.zip modules := by
    apply List.take_of_length_le
    rw [List.length_zip]
    exact Nat.min_le_right _ _
  unfold loadModules
  refine (readUint32_meets (liesAt_append.mp hload).1 ?_).bind ?_
  · intro x hx
    have hin : InRange payloadStart 4 x := hx
    exact Nat.lt_of_lt_of_le hin hlength
  rintro _ rfl
  dsimp only
  rw [hcount]
  refine (Meets.forRange (I := Unpacked m targets modules payloadStart) ?_ ?_).bind ?_
  · intro n hn s hs
    have hn' : n < targets.length := Nat.lt_of_lt_of_le hn h.enough
    have htarget : targets[n]? = some targets[n] := List.getElem?_eq_getElem hn'
    rw [htarget]
    exact hs.loadModule h hload (List.getElem?_eq_getElem hn) htarget
  · exact ⟨rfl, fun p hp => absurd hp List.not_mem_nil, fun _ _ => rfl⟩
  · intro s hs
    obtain ⟨-, hstored, hkept⟩ := hs
    rw [hall] at hstored hkept
    exact .pure ⟨hstored, hkept⟩

/-- **Packed modules are unpacked where they belong.**  `buildImage` writes an image; when
    it is in memory, `loadModules` finds the modules behind the kernel, stores each at its
    place and nothing anywhere else, and reads nothing behind the last one. -/
theorem modules_unpacked (kernel : List UInt8) (base : Addr)
    (h : Placed targets modules (base + UInt64.ofNat kernel.length)) :
    ∃ image, buildImage kernel modules = some image ∧ ∀ m, LiesAt m base image →
      ∃ trace m', loadModules m (base + UInt64.ofNat kernel.length) targets = ⟨trace, some m'⟩ ∧
        (∀ p ∈ targets.zip modules, LiesAt m' p.1 p.2) ∧
        (∀ x, (∀ p ∈ targets.zip modules, ¬ InRange p.1 p.2.length x) → m' x = m x) ∧
        ∀ e ∈ trace, ∀ x, e.Reads x →
          InRange (base + UInt64.ofNat kernel.length) (image.length - kernel.length) x := by
  refine ⟨_, buildImage_eq kernel modules, fun m hload => ?_⟩
  obtain ⟨m', hresult, ⟨hstored, hkept⟩, htrace⟩ :=
    loadModules_meets h (liesAt_append.mp hload).2
  refine ⟨_, m', by rw [← hresult], hstored, hkept, ?_⟩
  rw [List.length_append, Nat.add_sub_cancel_left]
  exact htrace

/-- The table of `initializeKernelBinary`: the code module, the data module and the image. -/
def moduleAddresses : List Addr := [0x400000, 0x500000, 0x600000]

/-- A range below another. -/
theorem rangesApart_of_le (hab : a.toNat + n ≤ b.toNat) (hb : b.toNat + k ≤ 2 ^ 64) :
    RangesApart a n b k := by
  have hlt := b.toNat_lt
  intro x hx hx'
  rw [InRange, addr_sub_toNat_lt_iff (by omega)] at hx
  rw [InRange, addr_sub_toNat_lt_iff hb] at hx'
  omega

/-- Two modules of one and two bytes. -/
theorem modules_unpacked_two : ∃ m trace m',
    loadModules m (0x100000 + UInt64.ofNat 3) moduleAddresses = ⟨trace, some m'⟩ ∧
    LiesAt m' 0x400000 [9] ∧ LiesAt m' 0x500000 [8, 7] := by
  have hplaced : Placed moduleAddresses [[9], [8, 7]] (0x100000 + UInt64.ofNat 3) := by
    refine ⟨by decide, by decide, by decide, ?_, ?_⟩
    · refine List.pairwise_pair.mpr (rangesApart_of_le (by decide) (by decide))
    · intro p hp
      obtain rfl | rfl : p = (0x400000, [9]) ∨ p = (0x500000, [8, 7]) := by
        simpa [moduleAddresses] using hp
      · exact rangesApart_of_le (by decide) (by decide)
      · exact rangesApart_of_le (by decide) (by decide)
  obtain ⟨image, himage, hload⟩ := modules_unpacked [1, 2, 3] 0x100000 hplaced
  have hlength : image.length ≤ 2 ^ 64 := by
    rw [← Option.some.inj himage]
    decide
  obtain ⟨trace, m', hcall, hstored, -, -⟩ :=
    hload _ (liesAt_imageAt 0x100000 hlength)
  exact ⟨_, trace, m', hcall, hstored (0x400000, [9]) (by decide),
    hstored (0x500000, [8, 7]) (by decide)⟩

end TP2Kernel
