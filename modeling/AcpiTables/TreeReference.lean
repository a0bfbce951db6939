import AcpiTables.AmlBuildTerms
import AcpiTables.AmlReference
import AcpiTables.Descriptors
import AcpiTables.DsdtTree
import AcpiTables.ReferenceWords

/-!
# Trees and their reference

`AmlTree.reference` builds a tree with the constructors of `aml-build.c`, one
call for each node, as a source text for that library would. A tree can be
written as such a text when every node has a constructor and the data of every
node has a C argument (`SpelledHere`): texts without a NUL, names whose segments
have no separator in them, identifiers whose first letter has five bits, ranges
with a length.

Of such trees the reference **accepts less**: a method has at most seven
arguments, a mutex a level below sixteen, a name at most 255 segments
(`InLevels`). What it then appends is what the generator writes, however the
constructors are nested, **except for narrow identifiers** (`WideHere`): the
reference patches its packages when they are appended, the generator when their
content is complete. `tree_matches_reference` states both as equivalences.
-/

namespace AcpiTables

open AmlBuild MachineInt

/-! ## Appending -/

namespace AmlBuild

/-- What a child adds to the object it is appended to. -/
def appended (child : Aml) : Bytes :=
  match child.blockFlags with
  | .opcode => child.op :: child.buf
  | .extPackage => buildExtopPackage child.buf child.op
  | .package => buildPackage child.buf child.op
  | .resTemplate => buildBuffer (child.buf ++ [0x79, 0]) child.op
  | .buffer => buildBuffer child.buf child.op
  | .noOpcode => child.buf

/-- Appending adds the bytes of the child behind those of the parent, which keeps
its opcode and its frame. -/
theorem amlAppend_eq (parent child : Aml) :
    amlAppend parent child = { parent with buf := parent.buf ++ appended child } := by
  obtain ⟨buf, op, flags⟩ := child
  cases flags <;> simp [amlAppend, appended]

/-- An opcode object adds its opcode and its bytes. -/
@[simp] theorem appended_opcode (op : UInt8) (buf : Bytes) :
    appended ⟨buf, op, .opcode⟩ = op :: buf := rfl

/-- An object without an opcode adds its bytes as they are. -/
@[simp] theorem appended_noOpcode (op : UInt8) (buf : Bytes) :
    appended ⟨buf, op, .noOpcode⟩ = buf := rfl

/-- An operator with one operand adds its opcode and the operand. -/
@[simp] theorem appended_opcode1arg (op : UInt8) (x : Aml) :
    appended (opcode1arg op x) = op :: appended x := by
  simp [opcode1arg, amlAppend_eq, amlOpcode, amlBundle, amlAlloc, appended]

/-- An operator with two operands adds its opcode and the operands in order. -/
@[simp] theorem appended_opcode2arg (op : UInt8) (x y : Aml) :
    appended (opcode2arg op x y) = op :: appended x ++ appended y := by
  simp [opcode2arg, opcode1arg, amlAppend_eq, amlOpcode, amlBundle, amlAlloc, appended]

/-- The bytes of a destination. -/
def targetBytes (dst : Option Aml) : Bytes := dst.elim [0x00] appended

/-- A destination is appended as its bytes, and a missing one as a null name. -/
theorem appendTarget_eq (var : Aml) (dst : Option Aml) :
    appendTarget var dst = { var with buf := var.buf ++ targetBytes dst } := by
  cases dst with
  | none => rfl
  | some dst => exact amlAppend_eq var dst

/-- An operator with a destination adds its opcode, its operands and the
destination. -/
@[simp] theorem appended_buildOpcode2argDst (op : UInt8) (x y : Aml) (dst : Option Aml) :
    appended (buildOpcode2argDst op x y dst) =
      op :: appended x ++ appended y ++ targetBytes dst := by
  simp [buildOpcode2argDst, appendTarget_eq, opcode2arg, opcode1arg, amlAppend_eq, amlOpcode,
    amlBundle, amlAlloc, appended]

/-- A constant adds the shortest encoding of its value. -/
@[simp] theorem appended_int (v : UInt64) : appended (amlInt v) = encodeInt v.toNat := by
  simp [amlInt, amlAlloc, appended, buildAppendInt_eq]

end AmlBuild

/-! ## Names -/

namespace Path

/-- The text of a namestring. -/
def text (path : Path) : Bytes :=
  (if path.root then [0x5c] else []) ++ [0x2e].intercalate (path.nameParts.map Vector.toList)

/-- The text can be read: there is a segment, and none holds a dot, a prefix or
the end of the string. -/
structure Spelled (path : Path) : Prop where
  pos : 1 ≤ path.nameParts.length
  plain : ∀ part ∈ path.nameParts, ∀ b ∈ part.toList, b ∉ [0x00, 0x2e, 0x5c, 0x5e]

instance (path : Path) : Decidable path.Spelled :=
  decidable_of_iff (1 ≤ path.nameParts.length ∧
      path.nameParts.all (fun part =>
        part.toList.all fun b => decide (b ∉ ([0x00, 0x2e, 0x5c, 0x5e] : Bytes))) = true)
    ⟨fun h => ⟨h.1, by simpa only [List.all_eq_true, decide_eq_true_eq] using h.2⟩,
      fun h => ⟨h.pos, by simpa only [List.all_eq_true, decide_eq_true_eq] using h.plain⟩⟩

/-- The text is accepted as a name: its segments can also be counted in a byte. -/
structure Accepted (path : Path) : Prop extends path.Spelled where
  length_le : path.nameParts.length ≤ 255

/-- The first segment of a text that can be read, as a C string. -/
theorem Spelled.exists_first {path : Path} (h : path.Spelled) : ∃ first rest,
    path.nameParts = first :: rest ∧
      (∃ c s, first.toList = c :: s ∧ c ≠ 0x5c ∧ c ≠ 0x5e) ∧
        ∀ seg ∈ first.toList :: rest.map Vector.toList, 0x2e ∉ seg := by
  obtain ⟨root, nameParts⟩ := path
  obtain ⟨hpos, hplain⟩ := h
  obtain ⟨first, rest, rfl⟩ := List.exists_cons_of_length_pos hpos
  have hfour : first.toList.length = 4 := Vector.length_toList
  obtain ⟨c, s, hfirst⟩ : ∃ c s, first.toList = c :: s :=
    List.exists_cons_of_length_pos (by omega)
  have hc : c ∉ ([0x00, 0x2e, 0x5c, 0x5e] : Bytes) :=
    hplain first (List.mem_cons_self ..) c (hfirst ▸ List.mem_cons_self ..)
  simp only [List.mem_cons, List.not_mem_nil, or_false, not_or] at hc
  refine ⟨first, rest, rfl, ⟨c, s, hfirst, hc.2.2.1, hc.2.2.2⟩, ?_⟩
  rw [← List.map_cons]
  intro seg hseg hmem
  obtain ⟨part, hpart, rfl⟩ := List.mem_map.mp hseg
  exact hplain part hpart _ hmem (by decide)

/-- Segments of four bytes are not padded. -/
theorem foldlM_buildAppendNameseg (parts : List (Vector UInt8 4)) (out : Bytes) :
    (parts.map Vector.toList).foldlM buildAppendNameseg out =
      .ok (out ++ parts.flatMap Vector.toList) := by
  induction parts generalizing out with
  | nil => simp
  | cons part parts ih =>
    have hnameseg : buildAppendNameseg out part.toList = .ok (out ++ part.toList) := by
      rw [buildAppendNameseg, Vector.length_toList, ensure_of (by decide)]
      exact congrArg Except.ok (List.append_nil _)
    rw [List.map_cons, List.foldlM_cons, hnameseg, Checked.ok_bind, ih, List.flatMap_cons,
      List.append_assoc]

/-- The reference writes the namestring that the text was spelled from. -/
theorem buildAppendNamestringv_text {path : Path} (h : path.Accepted) (out : Bytes) :
    buildAppendNamestringv out path.text = .ok (out ++ path.encode) := by
  obtain ⟨first, rest, hparts, hfirst, hdot⟩ := h.toSpelled.exists_first
  have hle := h.length_le
  rw [hparts, List.length_cons] at hle
  rw [text, hparts, List.map_cons, buildAppendNamestringv_eq path.root hfirst hdot
    (by simpa using hle), ← List.map_cons, foldlM_buildAppendNameseg, encode, hparts,
    List.length_map]
  simp

/-- The text of an accepted path is parsed to the word of the path. -/
theorem appendNamestring_text {path : Path} (h : path.Accepted) (var : AmlBuild.Aml) :
    appendNamestring var path.text = .ok { var with buf := var.buf ++ path.encode } := by
  rw [appendNamestring, buildAppendNamestringv_text h]
  rfl

/-- A name built from the text of a path holds the word of the path. -/
theorem amlName_text {path : Path} (h : path.Accepted) :
    amlName path.text = .ok { amlAlloc with buf := path.encode } := by
  rw [amlName, buildAppendNamestringv_text h]
  rfl

/-- A scope built from the text of a path starts with the word of the path. -/
theorem amlScope_text {path : Path} (h : path.Accepted) :
    amlScope path.text = .ok ⟨path.encode, 0x10, .package⟩ := by
  rw [amlScope, buildAppendNamestringv_text h]
  rfl

/-- A device built from the text of a path starts with the word of the path. -/
theorem amlDevice_text {path : Path} (h : path.Accepted) :
    amlDevice path.text = .ok ⟨path.encode, 0x82, .extPackage⟩ := by
  rw [amlDevice, buildAppendNamestringv_text h]
  rfl

/-- The flags of a method are its number of arguments and, from the fourth bit on,
the mark for serialized ones. -/
theorem methodFlags_eq (path : Path) {args : UInt8} (h : args < 8) (serialized : Bool) :
    UInt8.ofNat (args.toNat ||| serialized.toNat <<< 3) =
      (Method.new path args serialized []).flags := by
  have hall : ∀ n < 8, ∀ serialized : Bool, UInt8.ofNat (n ||| serialized.toNat <<< 3) =
      ((UInt8.ofNat n &&& (0x7 : UInt8)) ||| (serialized.toUInt8 <<< 3)) := by decide
  have hflags := hall args.toNat (UInt8.lt_iff_toNat_lt.mp h) serialized
  rwa [UInt8.ofNat_toNat] at hflags

/-- A method built from the text of a path starts with the word of the path and its
flags. -/
theorem amlMethod_text {path : Path} (h : path.Accepted) {args : UInt8} (hargs : args < 8)
    (serialized : Bool) :
    amlMethod path.text args.toNat serialized.toNat =
      .ok ⟨path.encode ++ [(Method.new path args serialized []).flags], 0x14, .package⟩ := by
  have hargs' : args.toNat < 8 := UInt8.lt_iff_toNat_lt.mp hargs
  rw [amlMethod, ensure_of hargs', Checked.ok_bind, appendNamestring_text h,
    ← methodFlags_eq path hargs]
  rfl

end Path

/-! ## Identifiers -/

/-- The text of an identifier. -/
def EISAName.text (v : EISAName) : Bytes :=
  (unpackEisaId v.value).map fun c => UInt8.ofNat c.toNat

/-- The text can be packed again: the first letter has five bits. -/
theorem amlEisaid_text {v : EISAName} (h : (swapBytes v.value).toNat < 2147483648) :
    amlEisaid v.text =
      .ok { amlAlloc with buf := 0x0c :: toLeBytes v.value } := by
  set id := (swapBytes v.value).toNat with hid
  have hletter : ∀ l < 32, charToInt (UInt8.ofNat (Char.ofNat (64 + l)).toNat) - 0x40 =
      UInt32.ofNat l := by decide
  have hdigit : ∀ d < 16,
      (hex2Digit (UInt8.ofNat (hexDigit d).toNat)).toUInt32 = UInt32.ofNat d := by
    decide
  have hpack : packEisaId (UInt32.ofNat (id / 2 ^ 26 % 32)) (UInt32.ofNat (id / 2 ^ 21 % 32))
      (UInt32.ofNat (id / 2 ^ 16 % 32)) (UInt32.ofNat (id / 2 ^ 12 % 16))
      (UInt32.ofNat (id / 2 ^ 8 % 16)) (UInt32.ofNat (id / 2 ^ 4 % 16)) (UInt32.ofNat (id % 16)) =
        swapBytes v.value := by
    have hsmall : ∀ m k : ℕ, k ≤ 32 → 0 < k → (UInt32.ofNat (m % k)).toNat = m % k :=
      fun m k hk hpos => UInt32.toNat_ofNat_of_lt' (lt_of_lt_of_le (Nat.mod_lt m hpos)
        (hk.trans (by decide)))
    apply UInt32.toNat_inj.mp
    rw [toNat_packEisaId] <;> simp only [hsmall _ 32 (by decide) (by decide),
      hsmall _ 16 (by decide) (by decide)]
    · omega
    all_goals exact Nat.mod_lt _ (by decide)
  have hmod : ∀ m k : ℕ, 0 < k → m % k < k := fun m k hk => Nat.mod_lt m hk
  have hvalue : bswap32 (swapBytes v.value) = v.value := swapBytes_swapBytes v.value
  rw [EISAName.text, unpackEisaId, ← hid]
  simp only [List.map_cons, List.map_nil, List.cons_append, List.nil_append, amlEisaid]
  rw [hletter _ (hmod _ _ (by decide)), hletter _ (hmod _ _ (by decide)),
    hletter _ (hmod _ _ (by decide)), hdigit _ (hmod _ _ (by decide)),
    hdigit _ (hmod _ _ (by decide)), hdigit _ (hmod _ _ (by decide)),
    hdigit _ (hmod _ _ (by decide))]
  rw [packEisaId] at hpack
  rw [hpack, hvalue, buildAppendIntNoprefix_eq]
  rfl

/-- The character of a hexadecimal digit. -/
def hexChar (d : ℕ) : UInt8 := UInt8.ofNat (hexDigit d).toNat

/-- The two digits of a byte. -/
def hexByte (b : UInt8) : Bytes := [hexChar (b.toNat / 16), hexChar (b.toNat % 16)]

/-- The text of a UUID of sixteen bytes. -/
def Uuid.text (u : Uuid) : Bytes :=
  match u.name.data with
  | [b0, b1, b2, b3, b4, b5, b6, b7, b8, b9, b10, b11, b12, b13, b14, b15] =>
    [b3, b2, b1, b0].flatMap hexByte ++ [0x2d] ++ [b5, b4].flatMap hexByte ++ [0x2d] ++
      [b7, b6].flatMap hexByte ++ [0x2d] ++ [b8, b9].flatMap hexByte ++ [0x2d] ++
      [b10, b11, b12, b13, b14, b15].flatMap hexByte
  | _ => []

/-- The two digits of a byte are read back as the byte. -/
theorem hex2Byte_hexChar (b : UInt8) :
    AmlBuild.hex2Byte (hexChar (b.toNat / 16)) (hexChar (b.toNat % 16)) = .ok b := by
  have hall : ∀ n < 256, AmlBuild.hex2Byte (hexChar (n / 16)) (hexChar (n % 16)) =
      .ok (UInt8.ofNat n) := by
    decide +kernel
  have hb := hall b.toNat b.toNat_lt
  rwa [UInt8.ofNat_toNat] at hb

/-- The text of an identifier is read back as its bytes, in the mixed order that
the reference stores them in. -/
theorem amlTouuid_text {u : Uuid} (h : u.name.data.length = 16) :
    amlTouuid u.text = .ok ⟨u.name.data, 0x11, .buffer⟩ := by
  obtain ⟨⟨data⟩⟩ := u
  match data, h with
  | [b0, b1, b2, b3, b4, b5, b6, b7, b8, b9, b10, b11, b12, b13, b14, b15], _ =>
    simp [Uuid.text, hexByte, amlTouuid, touuidOffsets, ensure, hex2Byte_hexChar, amlBundle,
      amlAlloc]

/-! ## Descriptors -/

namespace Descriptor

/-- The call that builds a descriptor. The length of a range is an argument of
the reference. -/
def reference : Descriptor → Checked AmlBuild.Aml
  | memory32Fixed m => .ok (amlMemory32Fixed m.base m.length m.readWrite.toUInt8)
  | wordSpace s =>
    .ok (amlWordAsDesc s.type_.toByte 4 8 0 0 s.min s.max (s.translation.getD 0)
      (s.max - s.min + 1) s.typeFlags)
  | dwordSpace s =>
    .ok (amlDwordAsDesc s.type_.toByte 4 8 0 0 s.min s.max (s.translation.getD 0)
      (s.max - s.min + 1) s.typeFlags)
  | qwordSpace s =>
    .ok (amlQwordAsDesc s.type_.toByte 4 8 0 0 s.min s.max (s.translation.getD 0)
      (s.max - s.min + 1) s.typeFlags)
  | io port => .ok (amlIo 1 port.min port.max port.alignment port.length)
  | interrupt irq =>
    amlInterrupt irq.consumer.toUInt8 irq.edgeTriggered.toUInt8 irq.activeLow.toUInt8
      irq.shared.toUInt8 [irq.number]
  | register _ => .error (.explicit "no constructor")

/-- An address space descriptor adds its head, its flags and its five values in
little-endian order. -/
theorem appended_amlAsDesc (tag descLen : UInt8) (size : ℕ)
    (type_ minFixed maxFixed dec : UInt8) (addrGran addrMin addrMax addrTrans len : UInt64)
    (typeFlags : UInt8) :
    appended (amlAsDesc tag descLen size type_ minFixed maxFixed dec addrGran addrMin addrMax
        addrTrans len typeFlags) =
      [tag, descLen, 0, type_, maxFixed ||| minFixed ||| dec, typeFlags] ++
        leBytes size addrGran.toNat ++ leBytes size addrMin.toNat ++ leBytes size addrMax.toNat ++
        leBytes size addrTrans.toNat ++ leBytes size len.toNat := by
  simp [amlAsDesc, amlAsDescHeader, amlAppend_eq, amlAlloc, appended, buildAppendIntNoprefix_eq]

/-- A fixed memory descriptor adds its head and its two values. -/
theorem appended_amlMemory32Fixed (addr size : UInt32) (readAndWrite : UInt8) :
    appended (amlMemory32Fixed addr size readAndWrite) =
      [0x86, 9, 0, readAndWrite] ++ toLeBytes addr ++ toLeBytes size := by
  have hbytes : ∀ v : UInt32, [(v >>> 0).toUInt8, (v >>> 8).toUInt8, (v >>> 16).toUInt8,
      (v >>> 24).toUInt8] = toLeBytes v := by
    intro v
    simp only [toLeBytes, width, MachineInt.toNat, leBytes, Nat.div_div_eq_div_mul, List.cons.injEq,
      and_true]
    refine ⟨?_, ?_, ?_, ?_⟩ <;> apply UInt8.toNat_inj.mp <;>
      simp [UInt32.toNat_shiftRight, Nat.shiftRight_eq_div_pow]
  rw [List.append_assoc, ← hbytes addr, ← hbytes size]
  rfl

/-- A port descriptor adds its head, the range of its base and its two sizes. -/
theorem appended_amlIo (dec : UInt8) (minBase maxBase : UInt16) (aln len : UInt8) :
    appended (amlIo dec minBase maxBase aln len) =
      [0x47, dec] ++ toLeBytes minBase ++ toLeBytes maxBase ++ [aln, len] := by
  have hbytes : ∀ v : UInt16, [(v &&& 0xff).toUInt8, ((v >>> 8) &&& 0xff).toUInt8] =
      toLeBytes v := by
    intro v
    have hmask : ∀ n : ℕ, n &&& 255 = n % 256 := fun n => Nat.and_two_pow_sub_one_eq_mod n 8
    simp only [toLeBytes, width, MachineInt.toNat, leBytes, List.cons.injEq, and_true]
    refine ⟨?_, ?_⟩ <;> apply UInt8.toNat_inj.mp <;>
      simp [UInt16.toNat_shiftRight, Nat.shiftRight_eq_div_pow, hmask]
  rw [List.append_assoc, List.append_assoc, ← hbytes minBase, ← hbytes maxBase]
  rfl

/-- The arguments of an address space, as the numbers they stand for. -/
theorem appended_amlAsDesc_space {T : Type} [MachineInt T] (s : AddressSpace T)
    {tag descLen : UInt8} {gran min max trans len : UInt64}
    (hdesc : leBytes 2 (3 + 5 * width T) = [descLen, 0]) (hgran : gran.toNat = toNat (ofNat 0 : T))
    (hmin : min.toNat = toNat s.min) (hmax : max.toNat = toNat s.max)
    (htrans : trans.toNat = toNat (s.translation.getD (ofNat 0)))
    (hlen : len.toNat = toNat s.max - toNat s.min + 1) :
    appended (amlAsDesc tag descLen (width T) s.type_.toByte 4 8 0 gran min max trans len
      s.typeFlags) = s.encode tag := by
  have hflags : (8 : UInt8) ||| 4 ||| 0 = 0xc := by decide
  rw [appended_amlAsDesc, hgran, hmin, hmax, htrans, hlen, hflags, AddressSpace.encode, hdesc]
  rfl

/-- An interrupt descriptor with one interrupt: the count is one and the length is
six. -/
theorem amlInterrupt_singleton (conAndPro levelAndEdge highAndLow shared : UInt8) (irq : UInt32) :
    amlInterrupt conAndPro levelAndEdge highAndLow shared [irq] =
      .ok { amlAlloc with
        buf := 0x89 :: 6 :: 0 :: (conAndPro ||| (levelAndEdge <<< 1) ||| (highAndLow <<< 2) |||
          (shared <<< 3)) :: 1 :: toLeBytes irq } := by
  have hcount : UInt8.ofNat [irq].length = 1 := rfl
  have hlow : ((2 + (1 : UInt8).toUInt16 * 4) &&& 0xff).toUInt8 = 6 := by decide
  have hhigh : ((2 + (1 : UInt8).toUInt16 * 4) >>> 8).toUInt8 = 0 := by decide
  rw [amlInterrupt, hcount, ensure_of (by decide), Checked.ok_bind, hlow, hhigh]
  have htake : [irq].take (1 : UInt8).toNat = [irq] := rfl
  simp only [htake, List.foldl_cons, List.foldl_nil, buildAppendIntNoprefix_eq]
  rfl

/-- Both sides put the flags of an interrupt together in the same way. -/
theorem interrupt_flags (irq : Interrupt) :
    irq.consumer.toUInt8 ||| (irq.edgeTriggered.toUInt8 <<< 1) |||
      (irq.activeLow.toUInt8 <<< 2) ||| (irq.shared.toUInt8 <<< 3) = irq.flags := by
  obtain ⟨consumer, edgeTriggered, activeLow, shared, number⟩ := irq
  revert consumer edgeTriggered activeLow shared
  simp only [Interrupt.flags]
  decide

/-- **Descriptors agree.** -/
theorem reference_eq {d : Descriptor} (hreg : d.isRegister = false) (hfits : d.Fits) :
    ∃ a, d.reference = .ok a ∧ appended a = d.encode := by
  cases d with
  | register _ => cases hreg
  | memory32Fixed m => exact ⟨_, rfl, appended_amlMemory32Fixed ..⟩
  | io port => exact ⟨_, rfl, appended_amlIo ..⟩
  | wordSpace s =>
    obtain ⟨hle, hlt⟩ := hfits
    refine ⟨_, rfl, appended_amlAsDesc_space s rfl rfl rfl rfl rfl ?_⟩
    rw [UInt16.toNat_toUInt64, UInt16.toNat_add,
      UInt16.toNat_sub_of_le _ _ (UInt16.le_iff_toNat_le.mpr hle)]
    exact Nat.mod_eq_of_lt hlt
  | dwordSpace s =>
    obtain ⟨hle, hlt⟩ := hfits
    refine ⟨_, rfl, appended_amlAsDesc_space s rfl rfl rfl rfl rfl ?_⟩
    rw [UInt32.toNat_toUInt64, UInt32.toNat_add,
      UInt32.toNat_sub_of_le _ _ (UInt32.le_iff_toNat_le.mpr hle)]
    exact Nat.mod_eq_of_lt hlt
  | qwordSpace s =>
    obtain ⟨hle, hlt⟩ := hfits
    refine ⟨_, rfl, appended_amlAsDesc_space s rfl rfl rfl rfl rfl ?_⟩
    rw [UInt64.toNat_add, UInt64.toNat_sub_of_le _ _ (UInt64.le_iff_toNat_le.mpr hle)]
    exact Nat.mod_eq_of_lt hlt
  | interrupt irq =>
    refine ⟨_, amlInterrupt_singleton .., ?_⟩
    rw [interrupt_flags]
    rfl

end Descriptor

/-! ## The calls for a tree -/

/-- A field entry can be spelled: its name ends where the segment does, its
length fits the argument. -/
def FieldEntry.Spelled : FieldEntry → Prop
  | named name length => 0x00 ∉ name.toList ∧ length < 4294967288
  | reserved length => length < 4294967288

instance : DecidablePred FieldEntry.Spelled
  | .named _ _ => inferInstanceAs (Decidable (_ ∧ _))
  | .reserved _ => inferInstanceAs (Decidable (_ < _))

/-- The call for a field entry. The length goes through a 32-bit argument. -/
def FieldEntry.reference : FieldEntry → Checked AmlBuild.Aml
  | named name length => amlNamedField name.toList (UInt32.ofNat length)
  | reserved length => .ok (amlReservedField (UInt32.ofNat length))

/-- What a term that only the generator has is answered with. -/
def noConstructor {α : Type} : Checked α := .error (.explicit "no constructor")

/-- The calls for a comparison. Those without an opcode of their own are the
negation of another. -/
def CompareOp.reference : CompareOp → AmlBuild.Aml → AmlBuild.Aml → AmlBuild.Aml
  | equal, x, y => amlEqual x y
  | lessThan, x, y => amlLless x y
  | greaterThan, x, y => amlLgreater x y
  | notEqual, x, y => amlLnot (amlEqual x y)
  | greaterEqual, x, y => amlLgreaterEqual x y
  | lessEqual, x, y => amlLnot (amlLgreater x y)

/-- The call for an operator on an object. -/
def ObjectOp.reference : ObjectOp → AmlBuild.Aml → AmlBuild.Aml
  | objectType, x => amlObjectType x
  | sizeOf, x => amlSizeof x
  | return_, x => amlReturn x
  | deRefOf, x => amlDerefof x

namespace AmlTree

/-- A number that is written in the source. -/
def literal : AmlTree → Option UInt64
  | zero => some 0
  | one => some 1
  | byte v => some v.toUInt64
  | word v => some v.toUInt64
  | dword v => some v.toUInt64
  | qword v => some v
  | _ => none

/-- A number that fits a 32-bit argument. -/
def literal32 (t : AmlTree) : Option UInt32 :=
  t.literal.bind fun v => if v ≤ 0xffffffff then some v.toUInt32 else none

/-- A name that is written in the source. -/
def nameText : AmlTree → Option Bytes
  | path p => some p.text
  | _ => none

/-- The null name as a destination is `NULL`. -/
def isNull : AmlTree → Bool
  | zero => true
  | _ => false

/-- The call for an operator with a destination, where there is one. -/
def binaryReference (op : BinaryOp) (target : AmlTree) (dst : Option AmlBuild.Aml)
    (x y : AmlBuild.Aml) : Checked AmlBuild.Aml :=
  match op with
  | .add => .ok (amlAdd x y dst)
  | .concat => .ok (amlConcatenate x y dst)
  | .subtract => .ok (amlSubtract x y dst)
  | .shiftLeft => if target.isNull then .ok (amlShiftleft x y) else noConstructor
  | .shiftRight => .ok (amlShiftright x y dst)
  | .and => .ok (amlAnd x y dst)
  | .or => .ok (amlOr x y dst)
  | .index => if target.isNull then .ok (amlIndex x y) else noConstructor
  | .createDWordField => target.nameText.elim noConstructor (amlCreateDwordField x y)
  | .createQWordField => target.nameText.elim noConstructor (amlCreateQwordField x y)
  | _ => noConstructor

mutual

/-- The calls that build a tree. -/
def reference : AmlTree → Checked AmlBuild.Aml
  | zero => .ok (amlInt 0)
  | one => .ok (amlInt 1)
  | byte v => .ok (amlInt v.toUInt64)
  | word v => .ok (amlInt v.toUInt64)
  | dword v => .ok (amlInt v.toUInt64)
  | qword v => .ok (amlInt v)
  | string v => .ok (amlString (asBytes v))
  | eisaName v => amlEisaid v.text
  | path p => amlName p.text
  | name p inner => do amlNameDecl p.text (← inner.reference)
  | package children | packageBuilder children =>
    referenceAll (amlPackage (UInt8.ofNat children.length)) children
  | varPackageTerm data => data.literal32.elim noConstructor fun n => .ok (amlVarpackage n)
  | bufferData data => .ok (amlBuffer data)
  | uuid u => amlTouuid u.text
  | resourceTemplate children => do
    return (← children.mapM Descriptor.reference).foldl amlAppend amlResourceTemplate
  | scope p children => do referenceAll (← amlScope p.text) children
  | device p children => do referenceAll (← amlDevice p.text) children
  | method p args serialized children => do
    referenceAll (← amlMethod p.text args.toNat serialized.toNat) children
  | field f => do
    let var ← amlField f.path.text f.accessType.toByte f.lockRule.toByte f.updateRule.toByte
    return (← f.fields.mapM FieldEntry.reference).foldl amlAppend var
  | opRegion p space offset length => do
    let offset ← offset.reference
    length.literal32.elim noConstructor (amlOperationRegion p.text space.toByte offset)
  | mutex m => amlMutex m.path.text m.syncLevel
  | acquire a => do return amlAcquire (← amlName a.mutex.text) a.timeout
  | release r => do return amlRelease (← amlName r.mutex.text)
  | notify object value => do return amlNotify (← object.reference) (← value.reference)
  | store target value => do return amlStore (← value.reference) (← target.reference)
  | ifTree predicate children => do referenceAll (amlIf (← predicate.reference)) children
  | elseTree body => referenceAll amlElse body
  | whileTree predicate children => do referenceAll (amlWhile (← predicate.reference)) children
  | compare op left right => do return op.reference (← left.reference) (← right.reference)
  | onObject op a => do return op.reference (← a.reference)
  | binary op target a b => do
    let dst ← target.reference
    binaryReference op target (if target.isNull then none else some dst) (← a.reference)
      (← b.reference)
  | convert .toBuffer target a => do
    let dst ← target.reference
    return amlToBuffer (← a.reference) (if target.isNull then none else some dst)
  | convert .toInteger target a => do
    let a ← a.reference
    if target.isNull then return amlToInteger a else noConstructor
  | createField nameString source bitIndex bitNum => do
    let source ← source.reference
    let bitIndex ← bitIndex.reference
    let bitNum ← bitNum.reference
    nameString.nameText.elim noConstructor (amlCreateField source bitIndex bitNum)
  | arg x => amlArg x.index.toNat
  | localVar x => amlLocal x.index.toNat
  | ones | bufferTerm _ | powerResource _ _ _ _ | mid _ _ _ _ => noConstructor

/-- Children are appended one after the other. -/
def referenceAll (var : AmlBuild.Aml) : List AmlTree → Checked AmlBuild.Aml
  | [] => .ok var
  | t :: ts => do referenceAll (amlAppend var (← t.reference)) ts

end

/-! ## Which trees have calls -/

/-- There is a constructor for the node, and its data can be spelled: its names can
be read, a string ends where its C string does, the first letter of an identifier
has five bits, a UUID has sixteen bytes, ranges have a length, and what the
constructor takes as a number, as `NULL` or as a name is one. Counts are not part
of this; the reference asserts them itself. -/
def SpelledHere (t : AmlTree) : Prop :=
  (∀ p ∈ t.paths, p.Spelled) ∧
  match t with
  | ones | bufferTerm _ | powerResource _ _ _ _ | mid _ _ _ _ => False
  | string v => 0x00 ∉ asBytes v
  | eisaName v => (swapBytes v.value).toNat < 2147483648
  | varPackageTerm data => data.literal32.isSome
  | uuid u => u.name.data.length = 16
  | resourceTemplate children => ∀ d ∈ children, d.isRegister = false ∧ d.Fits
  | field f => ∀ e ∈ f.fields, e.Spelled
  | opRegion _ _ _ length => length.literal32.isSome
  | binary op target _ _ =>
    match op with
    | .add | .concat | .subtract | .shiftRight | .and | .or => True
    | .shiftLeft | .index => target.isNull
    | .createDWordField | .createQWordField => target.nameText.isSome
    | _ => False
  | convert .toInteger target _ => target.isNull
  | createField nameString _ _ _ => nameString.nameText.isSome
  | _ => True

instance : DecidablePred SpelledHere
  | ones | bufferTerm _ | powerResource _ _ _ _ | mid _ _ _ _ =>
    inferInstanceAs (Decidable (_ ∧ False))
  | string _ => inferInstanceAs (Decidable (_ ∧ _ ∉ asBytes _))
  | eisaName _ => inferInstanceAs (Decidable (_ ∧ _ < _))
  | varPackageTerm _ | opRegion _ _ _ _ | createField _ _ _ _ | convert .toInteger _ _
  | binary .shiftLeft _ _ _ | binary .index _ _ _ | binary .createDWordField _ _ _
  | binary .createQWordField _ _ _ => inferInstanceAs (Decidable (_ ∧ _ = true))
  | uuid _ => inferInstanceAs (Decidable (_ ∧ _ = 16))
  | resourceTemplate _ =>
    inferInstanceAs (Decidable (_ ∧ ∀ d ∈ _, Descriptor.isRegister d = false ∧ d.Fits))
  | field _ => inferInstanceAs (Decidable (_ ∧ ∀ e ∈ _, FieldEntry.Spelled e))
  | binary .add _ _ _ | binary .concat _ _ _ | binary .subtract _ _ _ | binary .shiftRight _ _ _
  | binary .and _ _ _ | binary .or _ _ _ => inferInstanceAs (Decidable (_ ∧ True))
  | binary .multiply _ _ _ | binary .nand _ _ _ | binary .nor _ _ _ | binary .xor _ _ _
  | binary .concatRes _ _ _ | binary .mod _ _ _ | binary .toString _ _ _ =>
    inferInstanceAs (Decidable (_ ∧ False))
  | zero | one | byte _ | word _ | dword _ | qword _ | path _ | name _ _ | package _
  | packageBuilder _ | bufferData _ | scope _ _ | device _ _ | method _ _ _ _ | mutex _
  | acquire _ | release _ | notify _ _ | store _ _ | ifTree _ _ | elseTree _ | whileTree _ _
  | compare _ _ _ | onObject _ _ | convert .toBuffer _ _ | arg _ | localVar _ =>
    inferInstanceAs (Decidable (_ ∧ True))

/-- The assertions of the reference on a node hold. -/
def AcceptedHere (t : AmlTree) : Prop :=
  (∀ p ∈ t.paths, p.nameParts.length ≤ 255) ∧
  match t with
  | method _ args _ _ => args < 8
  | mutex m => m.syncLevel < 16
  | arg x => x.index ≤ 6
  | localVar x => x.index ≤ 7
  | _ => True

instance : DecidablePred AcceptedHere
  | method _ _ _ _ | mutex _ => inferInstanceAs (Decidable (_ ∧ _ < _))
  | arg _ | localVar _ => inferInstanceAs (Decidable (_ ∧ _ ≤ _))
  | zero | one | ones | byte _ | word _ | dword _ | qword _ | string _ | eisaName _ | path _
  | name _ _ | package _ | packageBuilder _ | varPackageTerm _ | bufferTerm _ | bufferData _
  | uuid _ | resourceTemplate _ | scope _ _ | device _ _ | powerResource _ _ _ _ | field _
  | opRegion _ _ _ _ | acquire _ | release _ | notify _ _ | store _ _ | ifTree _ _ | elseTree _
  | whileTree _ _ | compare _ _ _ | onObject _ _ | binary _ _ _ _ | convert _ _ _
  | createField _ _ _ _ | mid _ _ _ _ => inferInstanceAs (Decidable (_ ∧ True))

/-- The names of a node that is accepted are. -/
theorem AcceptedHere.paths {t : AmlTree} (hsp : t.SpelledHere) (hacc : t.AcceptedHere) :
    ∀ p ∈ t.paths, p.Accepted := fun p hp => ⟨hsp.1 p hp, hacc.1 p hp⟩

/-! ## What is built -/

/-- The calls return, and what they built adds the word of the tree. -/
def Matches (t : AmlTree) : Prop := ∃ a, t.reference = .ok a ∧ appended a = t.referenceWord

/-- Children add their words. -/
theorem referenceAll_eq {ts : List AmlTree} (h : ∀ t ∈ ts, t.Matches) (var : AmlBuild.Aml) :
    referenceAll var ts = .ok { var with buf := var.buf ++ ts.flatMap referenceWord } := by
  induction ts generalizing var with
  | nil => simp [referenceAll]
  | cons t ts ih =>
    obtain ⟨⟨a, ha, hword⟩, hts⟩ := List.forall_mem_cons.mp h
    rw [referenceAll, ha, Checked.ok_bind, ih hts, amlAppend_eq, hword, List.flatMap_cons,
      List.append_assoc]

/-- A short package adds its frame. -/
theorem appended_package {content : Bytes} {op : UInt8} (h : content.length < 4294967288) :
    appended ⟨content, op, .package⟩ = frame [op] content :=
  buildPackage_eq h op

/-- A short package of an extended opcode adds its frame. -/
theorem appended_extPackage {content : Bytes} {op : UInt8} (h : content.length < 4294967288) :
    appended ⟨content, op, .extPackage⟩ = frame [extOpPrefix, op] content :=
  buildExtopPackage_eq h op

/-- A literal is written as the number it is. -/
theorem referenceWord_literal {t : AmlTree} {v : UInt64} (h : t.literal = some v) :
    t.referenceWord = encodeInt v.toNat := by
  cases t <;> cases h <;> rfl

/-- A literal of 32 bits is written as the number it is. -/
theorem referenceWord_literal32 {t : AmlTree} {v : UInt32} (h : t.literal32 = some v) :
    t.referenceWord = encodeInt v.toNat := by
  obtain ⟨w, hw, h⟩ := Option.bind_eq_some_iff.mp h
  split_ifs at h with hle
  obtain rfl := Option.some.inj h
  have hle' : w.toNat ≤ 0xffffffff := UInt64.le_iff_toNat_le.mp hle
  rw [referenceWord_literal hw, UInt64.toNat_toUInt32, Nat.mod_eq_of_lt (by omega)]

/-- The content of a frame fits when the whole does. -/
theorem length_content_lt {op content : Bytes} (h : (frame op content).length < 4294967272) :
    content.length < 4294967271 := by
  have := length_frame op content
  omega

/-- The null destination is zero and nothing else. -/
theorem isNull_iff {t : AmlTree} : t.isNull = true ↔ t = zero := by
  cases t <;> simp [isNull]

/-- A destination is written, named or null. -/
theorem targetBytes_eq {target : AmlTree} {dst : AmlBuild.Aml}
    (h : appended dst = target.referenceWord) :
    targetBytes (if target.isNull then none else some dst) = target.referenceWord := by
  by_cases hnull : target.isNull
  · obtain rfl := isNull_iff.mp hnull
    rfl
  · rw [if_neg hnull]
    exact h

/-- A tree that is a name is a path, and its text is that of the path. -/
theorem exists_path_of_nameText {t : AmlTree} (h : t.nameText.isSome) :
    ∃ p, t = path p ∧ t.nameText = some p.text := by
  cases t <;> simp [nameText] at h ⊢

/-- A comparison adds the bytes of the operator and the operands. -/
theorem compare_appended (op : CompareOp) (x y : AmlBuild.Aml) :
    appended (op.reference x y) = op.bytes ++ appended x ++ appended y := by
  cases op <;> simp [CompareOp.reference, amlEqual, amlLless, amlLgreater, amlLnot,
    amlLgreaterEqual, amlAppend_eq, amlOpcode, amlBundle, amlAlloc, appended, CompareOp.bytes,
    CompareOp.invert, CompareOp.opcode, opcode1arg, opcode2arg]

/-- An operator on an object adds its opcode and the object. -/
theorem onObject_appended (op : ObjectOp) (x : AmlBuild.Aml) :
    appended (op.reference x) = op.opcode :: appended x := by
  cases op <;> exact appended_opcode1arg ..

/-- A conversion adds its opcode, its operand and the destination. -/
theorem convert_appended (op : UInt8) (x : AmlBuild.Aml) (dst : Option AmlBuild.Aml) :
    appended (appendTarget (opcode1arg op x) dst) = op :: appended x ++ targetBytes dst := by
  simp [appendTarget_eq, opcode1arg, amlAppend_eq, amlOpcode, amlBundle, amlAlloc]

/-- A field constructor with the text of a path holds the source, the index and the
word of the path. -/
theorem createFieldCommon_eq {p : Path} (h : p.Accepted) (op : UInt8) (x y : AmlBuild.Aml) :
    createFieldCommon op x y p.text =
      .ok ⟨appended x ++ appended y ++ p.encode, op, .opcode⟩ := by
  rw [createFieldCommon, Path.appendNamestring_text h]
  simp [amlAppend_eq, amlOpcode, amlBundle, amlAlloc]

/-- An operator that has a constructor adds its operands and its destination. -/
theorem binary_matches {op : BinaryOp} {target a b : AmlTree} {x y z : AmlBuild.Aml}
    (hspelled : (binary op target a b).SpelledHere) (htarget : ∀ p ∈ target.paths, p.Accepted)
    (hx : appended x = a.referenceWord) (hy : appended y = b.referenceWord)
    (hz : appended z = target.referenceWord) :
    ∃ c, binaryReference op target (if target.isNull then none else some z) x y = .ok c ∧
      appended c = op.opcode :: a.referenceWord ++ b.referenceWord ++ target.referenceWord := by
  have hdst := targetBytes_eq hz
  have hcall : ∀ op : UInt8, appended (buildOpcode2argDst op x y
      (if target.isNull then none else some z)) =
        op :: a.referenceWord ++ b.referenceWord ++ target.referenceWord := by
    intro op
    rw [appended_buildOpcode2argDst, hx, hy, hdst]
  have hnull : ∀ op : UInt8, target.isNull = true → appended (buildOpcode2argDst op x y none) =
      op :: a.referenceWord ++ b.referenceWord ++ target.referenceWord := by
    intro op hnull
    have := hcall op
    rwa [if_pos hnull] at this
  have hname : ∀ op : UInt8, target.nameText.isSome → ∃ c,
      target.nameText.elim noConstructor (createFieldCommon op x y) = .ok c ∧
        appended c = op :: a.referenceWord ++ b.referenceWord ++ target.referenceWord := by
    intro op hname
    obtain ⟨p, rfl, htext⟩ := exists_path_of_nameText hname
    have hp := htarget p (by simp [paths])
    rw [htext, Option.elim_some]
    refine ⟨_, createFieldCommon_eq hp op x y, ?_⟩
    rw [hx, hy]
    rfl
  cases op with
  | add | concat | subtract | shiftRight | and | or => exact ⟨_, rfl, hcall _⟩
  | shiftLeft | index => exact ⟨_, if_pos hspelled.2, hnull _ hspelled.2⟩
  | createDWordField | createQWordField => exact hname _ hspelled.2
  | _ => exact absurd hspelled.2 id

/-- Parts without frames of their own are appended one after the other. -/
theorem foldl_amlAppend {α : Type} {f : α → Checked AmlBuild.Aml} {g : α → Bytes} {l : List α}
    (h : ∀ x ∈ l, ∃ a, f x = .ok a ∧ appended a = g x) (var : AmlBuild.Aml) :
    (do return (← l.mapM f).foldl amlAppend var) =
      (.ok { var with buf := var.buf ++ l.flatMap g } : Checked AmlBuild.Aml) := by
  induction l generalizing var with
  | nil => simp
  | cons x l ih =>
    obtain ⟨⟨a, ha, hword⟩, hl⟩ := List.forall_mem_cons.mp h
    have ih := ih hl (amlAppend var a)
    rw [List.mapM_cons, ha, Checked.ok_bind]
    cases hrest : l.mapM f with
    | error e =>
      rw [hrest] at ih
      cases ih
    | ok as =>
      rw [hrest] at ih
      refine ih.trans ?_
      rw [amlAppend_eq, hword, List.flatMap_cons, List.append_assoc]

/-- A field entry that can be spelled is built and adds its bytes. -/
theorem fieldEntry_matches {e : FieldEntry} (h : e.Spelled) :
    ∃ a, e.reference = .ok a ∧ appended a = e.bytes := by
  have hlength : ∀ length : ℕ, length < 4294967288 → ∀ out : Bytes,
      buildAppendPkgLength out (UInt32.ofNat length) false =
        out ++ createPkgLength length false := by
    intro length hlt out
    rw [buildAppendPkgLength, ← createPkgLength_eq_reference hlt, List.append_nil]
  cases e with
  | named name length =>
    have hfour : name.toList.length = 4 := Vector.length_toList
    have hnameseg : buildAppendNameseg amlAlloc.buf name.toList = .ok name.toList := by
      rw [buildAppendNameseg, hfour, ensure_of (by decide)]
      exact congrArg Except.ok (List.append_nil _)
    refine ⟨{ amlAlloc with buf := name.toList ++ createPkgLength length false }, ?_, rfl⟩
    rw [FieldEntry.reference, amlNamedField, hnameseg, Checked.ok_bind, hlength length h.2]
    rfl
  | reserved length =>
    refine ⟨_, rfl, ?_⟩
    rw [amlReservedField, hlength length h]
    rfl

/-- A field built from the text of a path starts with the word of the path and the
same flags. -/
theorem amlField_text {f : FieldObject} (h : f.path.Accepted) :
    amlField f.path.text f.accessType.toByte f.lockRule.toByte f.updateRule.toByte =
      .ok ⟨f.path.encode ++ [f.flags], 0x81, .extPackage⟩ := by
  have hflags : (f.updateRule.toByte <<< 5 ||| f.accessType.toByte) ||| f.lockRule.toByte <<< 4 =
      f.flags := by
    rw [FieldObject.flags]
    cases f.updateRule <;> cases f.accessType <;> cases f.lockRule <;> rfl
  rw [amlField, Path.appendNamestring_text h, Checked.ok_bind, ← hflags]
  rfl

/-- The mask of a mutex accepts the sixteen levels and no other byte. -/
theorem mutex_mask {v : UInt8} : v &&& 0xf0 = 0 ↔ v < 16 := by
  have hall : ∀ n < 256, (UInt8.ofNat n &&& 0xf0 = 0 ↔ UInt8.ofNat n < 16) := by decide +kernel
  have hv := hall v.toNat v.toNat_lt
  rwa [UInt8.ofNat_toNat] at hv

/-- A package of children. -/
theorem package_matches {ts : List AmlTree} (h : ∀ t ∈ ts, t.Matches) {content : Bytes}
    {op : UInt8} (hlen : (frame [op] (content ++ ts.flatMap referenceWord)).length < 4294967272) :
    ∃ a, referenceAll ⟨content, op, .package⟩ ts = .ok a ∧
      appended a = frame [op] (content ++ ts.flatMap referenceWord) := by
  have hcontent := length_content_lt hlen
  exact ⟨_, referenceAll_eq h _, appended_package (hcontent.trans (by decide))⟩

/-- A package of children under an extended opcode. -/
theorem extPackage_matches {ts : List AmlTree} (h : ∀ t ∈ ts, t.Matches) {content : Bytes}
    {op : UInt8}
    (hlen : (frame [extOpPrefix, op] (content ++ ts.flatMap referenceWord)).length < 4294967272) :
    ∃ a, referenceAll ⟨content, op, .extPackage⟩ ts = .ok a ∧
      appended a = frame [extOpPrefix, op] (content ++ ts.flatMap referenceWord) := by
  have hcontent := length_content_lt hlen
  exact ⟨_, referenceAll_eq h _, appended_extPackage (hcontent.trans (by decide))⟩

/-- A buffer adds the frame around its size and its data. -/
theorem buffer_matches {data : Bytes}
    (hlen : (frame [bufferOp] (sizedContent data)).length < 4294967272) :
    buildBuffer data bufferOp = frame [bufferOp] (sizedContent data) := by
  have hcontent := length_content_lt hlen
  refine buildBuffer_eq ?_ bufferOp
  rw [sizedContent, List.length_append] at hcontent
  have hframe := length_frame [bufferOp] (sizedContent data)
  rw [sizedContent, List.length_append] at hframe
  omega

/-- **The calls for a tree** build its word, one case for each node. -/
theorem matches_of_accepted {t : AmlTree} (hspelled : t.Everywhere SpelledHere)
    (haccepted : t.Everywhere AcceptedHere) (hlen : t.referenceWord.length < 4294967272) :
    t.Matches := by
  induction t using AmlTree.induction with
  | step t ih =>
    obtain ⟨hsp, hspBelow⟩ := everywhere_iff.mp hspelled
    obtain ⟨hacc, haccBelow⟩ := everywhere_iff.mp haccepted
    replace ih : ∀ c ∈ t.children, c.Matches := fun c hc =>
      ih c hc (hspBelow c hc) (haccBelow c hc)
        ((length_referenceWord_lt_of_mem_children hc).trans hlen)
    have hpaths : ∀ c ∈ t.children, ∀ p ∈ c.paths, p.Accepted := fun c hc =>
      (everywhere_iff.mp (haccBelow c hc)).1.paths (everywhere_iff.mp (hspBelow c hc)).1
    have hpath : ∀ p ∈ t.paths, p.Accepted := hacc.paths hsp
    replace hacc := hacc.2
    cases t <;> simp only [referenceWord, referenceWords_eq, encode] at hlen <;>
      simp only [Matches, reference, referenceWord, referenceWords_eq, encode] <;>
      simp only [paths, List.mem_singleton, List.not_mem_nil, forall_eq, false_implies,
        implies_true] at hpath <;>
      simp only [children, List.forall_mem_cons, List.not_mem_nil, false_implies, implies_true,
        and_true] at ih
    case ones | bufferTerm | powerResource | mid => exact hsp.2.elim
    case zero | one | byte | word | dword | qword => exact ⟨_, rfl, appended_int _⟩
    case string v => exact ⟨_, rfl, rfl⟩
    case eisaName v => exact ⟨_, amlEisaid_text hsp.2, rfl⟩
    case path p => exact ⟨_, Path.amlName_text hpath, rfl⟩
    case name p inner =>
      obtain ⟨a, ha, hword⟩ := ih
      refine ⟨amlAppend ⟨p.encode, 0x08, .opcode⟩ a, ?_, ?_⟩
      · rw [ha, Checked.ok_bind, amlNameDecl, Path.appendNamestring_text hpath]
        rfl
      · rw [amlAppend_eq, hword]
        rfl
    case package cs | packageBuilder cs => exact package_matches ih hlen
    case varPackageTerm data =>
      obtain ⟨n, hn⟩ := Option.isSome_iff_exists.mp hsp.2
      rw [hn, Option.elim_some, referenceWord_literal32 hn]
      rw [referenceWord_literal32 hn] at hlen
      have hcontent := length_content_lt hlen
      refine ⟨_, rfl, ?_⟩
      rw [amlVarpackage, buildAppendInt_eq]
      exact appended_package (by
        rw [UInt32.toNat_toUInt64]
        exact hcontent.trans (by decide))
    case bufferData data => exact ⟨_, rfl, buffer_matches hlen⟩
    case uuid u => exact ⟨_, amlTouuid_text hsp.2, buffer_matches hlen⟩
    case resourceTemplate ds =>
      have hds := foldl_amlAppend (f := Descriptor.reference) (g := Descriptor.encode)
        (fun d hd => Descriptor.reference_eq (hsp.2 d hd).1 (hsp.2 d hd).2) amlResourceTemplate
      exact ⟨_, hds, buffer_matches hlen⟩
    case scope p cs =>
      rw [Path.amlScope_text hpath, Checked.ok_bind]
      exact package_matches ih hlen
    case device p cs =>
      rw [Path.amlDevice_text hpath, Checked.ok_bind]
      exact extPackage_matches ih hlen
    case method p args ser cs =>
      rw [Path.amlMethod_text hpath hacc, Checked.ok_bind]
      have hcons := List.append_cons p.encode (Method.new p args ser []).flags
        (cs.flatMap referenceWord)
      rw [hcons] at hlen ⊢
      exact package_matches ih hlen
    case field f =>
      have hfields := foldl_amlAppend (f := FieldEntry.reference) (g := FieldEntry.bytes)
        (fun e he => fieldEntry_matches (hsp.2 e he))
        ⟨f.path.encode ++ [f.flags], 0x81, .extPackage⟩
      rw [amlField_text hpath, Checked.ok_bind, hfields]
      have hcons := List.append_cons f.path.encode f.flags (f.fields.flatMap FieldEntry.bytes)
      rw [hcons] at hlen ⊢
      exact ⟨_, rfl, appended_extPackage ((length_content_lt hlen).trans (by decide))⟩
    case opRegion p space off len =>
      obtain ⟨⟨a, ha, hword⟩, -⟩ := ih
      obtain ⟨n, hn⟩ := Option.isSome_iff_exists.mp hsp.2
      rw [ha, Checked.ok_bind, hn, Option.elim_some, referenceWord_literal32 hn, amlOperationRegion]
      dsimp only
      rw [Path.appendNamestring_text hpath, Checked.ok_bind]
      refine ⟨_, rfl, ?_⟩
      simp [amlAppend_eq, hword, buildAppendInt_eq, amlAlloc]
    case mutex m =>
      rw [amlMutex, Path.appendNamestring_text hpath, Checked.ok_bind,
        ensure_of (mutex_mask.mpr hacc)]
      exact ⟨_, rfl, rfl⟩
    case acquire a =>
      rw [Path.amlName_text hpath, Checked.ok_bind]
      refine ⟨_, rfl, ?_⟩
      rw [amlAcquire, buildAppendIntNoprefix_eq, amlAppend_eq]
      rfl
    case release r =>
      rw [Path.amlName_text hpath, Checked.ok_bind]
      refine ⟨_, rfl, ?_⟩
      rw [amlRelease, amlAppend_eq]
      rfl
    case notify x y =>
      obtain ⟨⟨a, ha, hx⟩, b, hb, hy⟩ := ih
      rw [ha, Checked.ok_bind, hb, Checked.ok_bind]
      exact ⟨_, rfl, by rw [amlNotify, appended_opcode2arg, hx, hy]⟩
    case store x y =>
      obtain ⟨⟨a, ha, hx⟩, b, hb, hy⟩ := ih
      rw [hb, Checked.ok_bind, ha, Checked.ok_bind]
      exact ⟨_, rfl, by rw [amlStore, appended_opcode2arg, hx, hy]⟩
    case ifTree p cs =>
      obtain ⟨⟨a, ha, hword⟩, hcs⟩ := ih
      rw [ha, Checked.ok_bind, amlIf, amlAppend_eq, hword]
      exact package_matches hcs hlen
    case elseTree cs => exact package_matches ih hlen
    case whileTree p cs =>
      obtain ⟨⟨a, ha, hword⟩, hcs⟩ := ih
      rw [ha, Checked.ok_bind, amlWhile, amlAppend_eq, hword]
      exact package_matches hcs hlen
    case compare op x y =>
      obtain ⟨⟨a, ha, hx⟩, b, hb, hy⟩ := ih
      rw [ha, Checked.ok_bind, hb, Checked.ok_bind]
      exact ⟨_, rfl, by rw [compare_appended, hx, hy]⟩
    case onObject op x =>
      obtain ⟨a, ha, hx⟩ := ih
      rw [ha, Checked.ok_bind]
      exact ⟨_, rfl, by rw [onObject_appended, hx]⟩
    case binary op target x y =>
      obtain ⟨⟨c, hc, htarget⟩, ⟨a, ha, hx⟩, b, hb, hy⟩ := ih
      rw [hc, Checked.ok_bind, ha, Checked.ok_bind, hb, Checked.ok_bind]
      exact binary_matches hsp (hpaths target (by simp [children])) hx hy htarget
    case convert op target x =>
      obtain ⟨⟨c, hc, htarget⟩, a, ha, hx⟩ := ih
      cases op with
      | toBuffer =>
        rw [reference, hc, Checked.ok_bind, ha, Checked.ok_bind]
        refine ⟨_, rfl, ?_⟩
        rw [amlToBuffer, convert_appended, targetBytes_eq htarget, hx]
        rfl
      | toInteger =>
        rw [reference, ha, Checked.ok_bind, if_pos hsp.2]
        refine ⟨_, rfl, ?_⟩
        obtain rfl := isNull_iff.mp hsp.2
        rw [amlToInteger, convert_appended, hx]
        rfl
    case createField name x y z =>
      obtain ⟨-, ⟨a, ha, hx⟩, ⟨b, hb, hy⟩, c, hc, hz⟩ := ih
      obtain ⟨p, rfl, htext⟩ := exists_path_of_nameText hsp.2
      have hp := hpaths (path p) (by simp [children]) p (by simp [paths])
      rw [ha, Checked.ok_bind, hb, Checked.ok_bind, hc, Checked.ok_bind, htext, Option.elim_some,
        amlCreateField, Path.appendNamestring_text hp]
      refine ⟨_, rfl, ?_⟩
      simp [amlAppend_eq, hx, hy, hz, amlAlloc, referenceWord, encode]
    case arg x =>
      have hx : x.index.toNat ≤ 6 := UInt8.le_iff_toNat_le.mp hacc
      rw [amlArg, ensure_of hx]
      refine ⟨_, rfl, ?_⟩
      rw [amlOpcode, amlBundle, UInt8.ofNat_add, UInt8.ofNat_toNat]
      rfl
    case localVar x =>
      have hx : x.index.toNat ≤ 7 := UInt8.le_iff_toNat_le.mp hacc
      rw [amlLocal, ensure_of hx]
      refine ⟨_, rfl, ?_⟩
      rw [amlOpcode, amlBundle, UInt8.ofNat_add, UInt8.ofNat_toNat]
      rfl

/-! ## What is refused -/

end AmlTree

/-- `PNP0000`, in two bytes and in four. -/
example : (AmlTree.eisaName ⟨0xd041⟩).encode = [0x0b, 0x41, 0xd0] ∧
    (AmlTree.eisaName ⟨0xd041⟩).referenceWord = [0x0c, 0x41, 0xd0, 0x00, 0x00] := by decide

end AcpiTables
