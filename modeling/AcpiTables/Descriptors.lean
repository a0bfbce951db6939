import AcpiTables.Lexical
import AcpiTables.Walk

/-!
# Resource descriptors read back

Two readers of what the resource descriptors write:

* `readAddressRange` takes an address space descriptor apart. It finds what was
  written whenever something was, and that is so for all ranges but one: the
  length of the whole type does not fit the type.
* `templateRecords` takes a resource template apart into its descriptors, by
  nothing but the length in the head of each. The register descriptor gives a
  length that it does not have, so the templates without one are those that can
  be walked.
-/

namespace AcpiTables

open Reader MachineInt

/-! ## Address spaces -/

/-- What an address space descriptor says. -/
structure AddressRange where
  /-- the number of bytes of each bound -/
  width : ℕ
  type_ : ℕ
  generalFlags : ℕ
  typeFlags : ℕ
  granularity : ℕ
  min : ℕ
  max : ℕ
  translation : ℕ
  length : ℕ
  deriving DecidableEq

/-- The number of bytes of a bound, by the tag. -/
def addressWidth (tag : UInt8) : Option ℕ :=
  if tag = 0x88 then some 2
  else if tag = 0x87 then some 4
  else if tag = 0x8a then some 8
  else none

/-- An address space descriptor: its length is that of its fields. -/
def readAddressRange : Reader UInt8 AddressRange
  | [] => none
  | tag :: s => do
    let width ← addressWidth tag
    match ← each number [2, 1, 1, 1, width, width, width, width, width] s with
    | ([size, type_, generalFlags, typeFlags, granularity, min, max, translation, length], s) =>
      if size = 3 + 5 * width then
        some (⟨width, type_, generalFlags, typeFlags, granularity, min, max, translation,
          length⟩, s)
      else none
    | _ => none

namespace AddressSpace

variable {T : Type} [MachineInt T]

/-- What the descriptor of an address space is to say: both bounds fixed, and a
length that goes from the first to the last. -/
def range (space : AddressSpace T) : AddressRange where
  width := width T
  type_ := space.type_.toByte.toNat
  generalFlags := 0xc
  typeFlags := space.typeFlags.toNat
  granularity := 0
  min := toNat space.min
  max := toNat space.max
  translation := (space.translation.map MachineInt.toNat).getD 0
  length := toNat space.max - toNat space.min + 1

/-- The range from the first value of the type to its last. -/
def IsWhole (space : AddressSpace T) : Prop :=
  toNat space.min = 0 ∧ toNat space.max + 1 = 256 ^ width T

/-- The fields of the descriptor, each with its number of bytes. -/
def fields (space : AddressSpace T) : List (ℕ × ℕ) :=
  [(2, 3 + 5 * width T), (1, space.type_.toByte.toNat), (1, 0xc), (1, space.typeFlags.toNat),
    (width T, 0), (width T, toNat space.min), (width T, toNat space.max),
    (width T, (space.translation.map MachineInt.toNat).getD 0),
    (width T, toNat space.max - toNat space.min + 1)]

/-- An address space is its descriptor and its fields in order. -/
theorem encode_eq_fields (space : AddressSpace T) (descriptor : UInt8) :
    space.encode descriptor =
      descriptor :: space.fields.flatMap fun field => leBytes field.1 field.2 := by
  have hzero : toNat (ofNat 0 : T) = 0 := by
    rw [toNat_ofNat, Nat.zero_mod]
  have htranslation : toNat (space.translation.getD (ofNat 0)) =
      (space.translation.map MachineInt.toNat).getD 0 := by
    cases space.translation with
    | none => exact hzero
    | some translation => rfl
  have htype : leBytes 1 space.type_.toByte.toNat = [space.type_.toByte] := by simp [leBytes]
  have hflags : leBytes 1 space.typeFlags.toNat = [space.typeFlags] := by simp [leBytes]
  have hgeneral : leBytes 1 0xc = [0xc] := rfl
  simp only [encode, fields, toLeBytes, hzero, htranslation, List.flatMap_cons, List.flatMap_nil,
    htype, hflags, hgeneral]
  simp

/-- The fields of an address space that fits are read back. -/
theorem settles_fields {space : AddressSpace T} (h : space.Fits) (hw : 3 + 5 * width T < 65536) :
    Settles (each number (space.fields.map Prod.fst))
      (space.fields.flatMap fun field => leBytes field.1 field.2)
      (space.fields.map Prod.snd) True := by
  have hpos : 0 < 256 ^ width T := Nat.pow_pos (by decide)
  have htranslation : (space.translation.map MachineInt.toNat).getD 0 < 256 ^ width T := by
    cases space.translation with
    | none => exact hpos
    | some translation => exact toNat_lt translation
  have hfits : ∀ field ∈ space.fields, field.2 < 256 ^ field.1 := by
    simp only [fields, List.forall_mem_cons]
    exact ⟨hw, space.type_.toByte.toNat_lt, by decide, space.typeFlags.toNat_lt, hpos,
      toNat_lt space.min, toNat_lt space.max, htranslation, h.2, by simp⟩
  have hfields : ∀ field ∈ space.fields,
      Settles (number field.1) (leBytes field.1 field.2) field.2 True :=
    fun field hfield => settles_number (hfits field hfield)
  exact (settles_each space.fields hfields).congr (by simp)

/-- What is written of a range that fits is read back. -/
theorem readAddressRange_encode {space : AddressSpace T} {descriptor : UInt8} (h : space.Fits)
    (hw : 3 + 5 * width T < 65536) (htag : addressWidth descriptor = some (width T))
    (rest : Bytes) :
    readAddressRange (space.encode descriptor ++ rest) = some (space.range, rest) := by
  have hread := (settles_fields h hw).reads trivial rest
  rw [encode_eq_fields, List.cons_append, readAddressRange, htag]
  simp only [fields, List.map_cons, List.map_nil] at hread
  simp only [Option.bind_eq_bind, Option.bind_some, fields, hread, if_true, range]

/-- Of ordered bounds, the whole type alone has a length outside the type. -/
theorem fits_iff {space : AddressSpace T} (h : toNat space.min ≤ toNat space.max) :
    space.Fits ↔ ¬ space.IsWhole := by
  have hmax := toNat_lt space.max
  rw [Fits, IsWhole]
  omega

end AddressSpace

/-- The object is written, and what is read from it is the range, whatever
follows. -/
def ReadsAsRange (x : DynAml) (range : AddressRange) : Prop :=
  ∃ w, Writes x w ∧ ∀ rest, readAddressRange (w ++ rest) = some (range, rest)

/-- One width: what holds of the three types alike. -/
theorem readsAs_iff {T : Type} [MachineInt T] {space : AddressSpace T} {descriptor : UInt8}
    {x : DynAml} (hw : 3 + 5 * width T < 65536) (hone : 1 < 256 ^ width T)
    (htag : addressWidth descriptor = some (width T))
    (hx : ∀ {S : Type} [AmlSink S] (s : S), x.emit s = space.emit descriptor s)
    (hle : toNat space.min ≤ toNat space.max) :
    ReadsAsRange x space.range ↔ ¬ space.IsWhole := by
  rw [← AddressSpace.fits_iff hle]
  constructor
  · rintro ⟨w, hwrites, -⟩
    have hrun := hwrites.runNil
    rw [hx] at hrun
    exact AddressSpace.fits_of_emit hone hrun
  · intro hfits
    refine ⟨space.encode descriptor, ⟨fun s => ?_⟩, fun rest => ?_⟩
    · rw [hx]
      exact AddressSpace.emit_eq hfits hw hone descriptor s
    · exact AddressSpace.readAddressRange_encode hfits hw htag rest

/-- **Address spaces read back unless they are everything.** For each of the
three widths: ordered bounds are written and read back with their length exactly
when they are not the first and the last value of the type. -/
theorem addressSpace_readsAs_iff {space16 : AddressSpace UInt16} {space32 : AddressSpace UInt32}
    {space64 : AddressSpace UInt64} (h16 : space16.min ≤ space16.max)
    (h32 : space32.min ≤ space32.max) (h64 : space64.min ≤ space64.max) :
    (ReadsAsRange (dyn space16) space16.range ↔
      ¬ (space16.min = 0 ∧ space16.max = 0xffff)) ∧
    (ReadsAsRange (dyn space32) space32.range ↔
      ¬ (space32.min = 0 ∧ space32.max = 0xffffffff)) ∧
    (ReadsAsRange (dyn space64) space64.range ↔
      ¬ (space64.min = 0 ∧ space64.max = 0xffffffffffffffff)) := by
  refine ⟨?_, ?_, ?_⟩
  · have hwhole : space16.IsWhole ↔ space16.min = 0 ∧ space16.max = 0xffff := by
      rw [← UInt16.toNat_inj, ← UInt16.toNat_inj]
      change space16.min.toNat = 0 ∧ space16.max.toNat + 1 = 65536 ↔ _ ∧ space16.max.toNat = 65535
      exact and_congr_right' Nat.succ_inj
    rw [← hwhole]
    exact readsAs_iff (by decide) (by decide) rfl (fun _ => rfl) (UInt16.le_iff_toNat_le.mp h16)
  · have hwhole : space32.IsWhole ↔ space32.min = 0 ∧ space32.max = 0xffffffff := by
      rw [← UInt32.toNat_inj, ← UInt32.toNat_inj]
      change space32.min.toNat = 0 ∧ space32.max.toNat + 1 = 4294967296 ↔
        _ ∧ space32.max.toNat = 4294967295
      exact and_congr_right' Nat.succ_inj
    rw [← hwhole]
    exact readsAs_iff (by decide) (by decide) rfl (fun _ => rfl) (UInt32.le_iff_toNat_le.mp h32)
  · have hwhole : space64.IsWhole ↔ space64.min = 0 ∧ space64.max = 0xffffffffffffffff := by
      rw [← UInt64.toNat_inj, ← UInt64.toNat_inj]
      change space64.min.toNat = 0 ∧ space64.max.toNat + 1 = 18446744073709551616 ↔
        _ ∧ space64.max.toNat = 18446744073709551615
      exact and_congr_right' Nat.succ_inj
    rw [← hwhole]
    exact readsAs_iff (by decide) (by decide) rfl (fun _ => rfl) (UInt64.le_iff_toNat_le.mp h64)

/-- The ports below the configuration ports, and the two memory windows of a host
bridge. -/
theorem addressSpace_readsAs_iff_ports :
    ReadsAsRange (dyn (AddressSpace.newIo 0 0xcf7 none : AddressSpace UInt16))
        ⟨2, 1, 0xc, 3, 0, 0, 0xcf7, 0, 0xcf8⟩ ∧
      ReadsAsRange
        (dyn (AddressSpace.newMemory .notCacheable true 0x80000000 0xafffffff none :
          AddressSpace UInt32))
        ⟨4, 0, 0xc, 1, 0, 0x80000000, 0xafffffff, 0, 0x30000000⟩ ∧
      ReadsAsRange
        (dyn (AddressSpace.newMemory .cacheable true 0x800000000 0x8ffffffff none :
          AddressSpace UInt64))
        ⟨8, 0, 0xc, 3, 0, 0x800000000, 0x8ffffffff, 0, 0x100000000⟩ := by
  obtain ⟨hports, hlow, hhigh⟩ := addressSpace_readsAs_iff
    (show (AddressSpace.newIo 0 0xcf7 none : AddressSpace UInt16).min ≤ 0xcf7 by decide)
    (show (AddressSpace.newMemory .notCacheable true 0x80000000 0xafffffff none :
      AddressSpace UInt32).min ≤ 0xafffffff by decide)
    (show (AddressSpace.newMemory .cacheable true 0x800000000 0x8ffffffff none :
      AddressSpace UInt64).min ≤ 0x8ffffffff by decide)
  exact ⟨hports.mpr (by decide), hlow.mpr (by decide), hhigh.mpr (by decide)⟩

/-- All ports: the length overflows and nothing is written. -/
theorem allPorts_not_readsAs :
    (0 : UInt16) ≤ 0xffff ∧
      toAmlBytes (AddressSpace.newIo 0 0xffff none : AddressSpace UInt16) ([] : Bytes) =
        .error .overflow ∧
      ¬ ReadsAsRange (dyn (AddressSpace.newIo 0 0xffff none : AddressSpace UInt16))
        (AddressSpace.newIo 0 0xffff none : AddressSpace UInt16).range := by
  have hemit : toAmlBytes (AddressSpace.newIo 0 0xffff none : AddressSpace UInt16) ([] : Bytes) =
      .error .overflow := by decide
  refine ⟨by decide, hemit, ?_⟩
  rintro ⟨w, hwrites, -⟩
  cases hemit.symm.trans hwrites.runNil

/-! ## Resource templates -/

/-- The length of a descriptor, from its head: the low three bits of a small tag,
sixteen bits behind a large one. -/
def descriptorSize : Bytes → Option ℕ
  | [] => none
  | tag :: s =>
    if tag.toNat < 128 then some (1 + tag.toNat % 8)
    else
      match s with
      | low :: high :: _ => some (3 + leValue [low, high])
      | _ => none

/-- A resource template taken apart: the size that is written in front of its
content, the number of bytes of the content, and the descriptors found by walking
over it. -/
def templateRecords : Bytes → Option (ℕ × ℕ × List Bytes)
  | 0x11 :: s => do
    let (_, s) ← pkgLength s
    match ← term 1 s with
    | (.int size, content) =>
      let records ← walk descriptorSize content.length content
      return (size, content.length, records)
    | _ => none
  | _ => none

/-- A large descriptor whose head gives the length of the rest. -/
theorem isRecord_large {tag low high : UInt8} {body : Bytes} (htag : ¬ tag.toNat < 128)
    (hbody : body.length = leValue [low, high]) :
    IsRecord descriptorSize (tag :: low :: high :: body) := by
  refine ⟨List.cons_ne_nil _ _, fun rest => ?_⟩
  simp only [List.cons_append, descriptorSize, htag, if_false, ← hbody, List.length_cons]
  rw [Nat.add_comm]

/-- A descriptor whose tag holds its length is one record. -/
theorem isRecord_small {tag : UInt8} {body : Bytes} (htag : tag.toNat < 128)
    (hbody : body.length = tag.toNat % 8) : IsRecord descriptorSize (tag :: body) := by
  refine ⟨List.cons_ne_nil _ _, fun rest => ?_⟩
  simp only [List.cons_append, descriptorSize, htag, if_true, ← hbody, List.length_cons]
  rw [Nat.add_comm]

/-- An address space is one record, by the two length bytes behind its tag. -/
theorem AddressSpace.isRecord_encode {T : Type} [MachineInt T] (space : AddressSpace T)
    {descriptor : UInt8} (htag : ¬ descriptor.toNat < 128) (hw : 3 + 5 * width T < 65536) :
    IsRecord descriptorSize (space.encode descriptor) := by
  have hsize := leValue_leBytes_of_lt (n := 2) hw
  refine isRecord_large htag ?_
  rw [← leBytes_zero (_ / 256 / 256), ← leBytes_succ, ← leBytes_succ, hsize]
  simp
  omega

namespace Descriptor

/-- The descriptor is a register. Its length field counts more bytes than it
writes. -/
def isRegister : Descriptor → Bool
  | register _ => true
  | _ => false

/-- Every other descriptor is one record. -/
theorem isRecord_encode {d : Descriptor} (h : d.isRegister = false) :
    IsRecord descriptorSize d.encode := by
  cases d with
  | register _ => cases h
  | memory32Fixed memory => exact isRecord_large (by decide) (by simp)
  | wordSpace space => exact space.isRecord_encode (by decide) (by decide)
  | dwordSpace space => exact space.isRecord_encode (by decide) (by decide)
  | qwordSpace space => exact space.isRecord_encode (by decide) (by decide)
  | io port => exact isRecord_small (by decide) (by simp [ioPortDesc])
  | interrupt irq => exact isRecord_large (by decide) (by simp)

/-- The head of a register descriptor gives a length of twenty-one bytes. The
descriptor has fifteen. -/
theorem size_register (reg : Register) (rest : Bytes) :
    descriptorSize ((register reg).encode ++ rest) = some 21 ∧
      (register reg).encode.length = 15 := by
  constructor
  · rfl
  · simp [encode, GAS.encode]

end Descriptor

/-- A template is written of words of its descriptors, the size in front of its
content is that of the content, and the walk over it stops at these words and
then at the end tag. -/
def Walkable (ds : List Descriptor) : Prop :=
  ∃ w words n, Writes (dyn (ResourceTemplate.mk (ds.map Descriptor.object))) w ∧
    List.Forall₂ (fun d word => Writes d.object word) ds words ∧
    templateRecords w = some (n, n, words ++ [[endTag, 0]])

/-- A framed content whose length is a `usize` is found behind its size. -/
theorem templateRecords_frame {content : Bytes} (h : content.length < 18446744073709551616) :
    templateRecords (frame [bufferOp] (sizedContent content)) =
      (walk descriptorSize content.length content).map
        fun records => (content.length, content.length, records) := by
  have hsize : term 1 (sizedContent content) = some (.int content.length, content) := by
    rw [sizedContent, Nat.mod_eq_of_lt h]
    exact (settles_int h).reads trivial content
  rw [frame, List.append_assoc, List.singleton_append]
  simp only [templateRecords, pkgLength_createPkgLength, Option.bind_eq_bind, Option.bind_some,
    hsize]
  rw [Option.map_eq_bind]
  rfl

/-- Words that descriptors write are their encodings. -/
theorem words_eq {ds : List Descriptor} {words : List Bytes} (hfits : ∀ d ∈ ds, d.Fits)
    (h : List.Forall₂ (fun d word => Writes d.object word) ds words) :
    words = ds.map Descriptor.encode := by
  induction h with
  | nil => rfl
  | @cons d word ds words hword _ ih =>
    obtain ⟨hd, hds⟩ := List.forall_mem_cons.mp hfits
    rw [List.map_cons, ih hds, hword.unique (Descriptor.writes hd)]

/-- The walk over a template stops at each of its records, and then at the end tag. -/
theorem walk_records {records : List Bytes} (h : ∀ r ∈ records, IsRecord descriptorSize r) :
    walk descriptorSize (templateContent records.flatten).length
        (templateContent records.flatten) = some (records ++ [[endTag, 0]]) := by
  have hrecords : ∀ r ∈ records ++ [[endTag, 0]], IsRecord descriptorSize r := by
    intro r hr
    rcases List.mem_append.mp hr with hr | hr
    · exact h r hr
    · obtain rfl := List.mem_singleton.mp hr
      exact isRecord_small (by decide) rfl
  have hcontent : templateContent records.flatten = (records ++ [[endTag, 0]]).flatten := by
    rw [templateContent, List.flatten_append]
    rfl
  rw [hcontent]
  exact walk_flatten hrecords (length_le_length_flatten hrecords)

/-- A template of other descriptors is walked record by record, up to its end tag. -/
theorem walk_templateContent {ds : List Descriptor} (h : ∀ d ∈ ds, d.isRegister = false) :
    walk descriptorSize (templateContent (ds.flatMap Descriptor.encode)).length
        (templateContent (ds.flatMap Descriptor.encode)) =
      some (ds.map Descriptor.encode ++ [[endTag, 0]]) := by
  rw [List.flatMap_def]
  refine walk_records fun r hr => ?_
  obtain ⟨d, hd, rfl⟩ := List.mem_map.mp hr
  exact Descriptor.isRecord_encode (h d hd)

/-- **Templates without a register descriptor can be walked, and only these**: the
descriptors may come in any number and order, with the length of the template in 64
bits. The register descriptor gives a length of its own that is not the number of
bytes behind it, so a walk over it goes astray. -/
theorem walkable_iff {ds : List Descriptor} (hfits : ∀ d ∈ ds, d.Fits)
    (hsize : (templateContent (ds.flatMap Descriptor.encode)).length < 18446744073709551616) :
    Walkable ds ↔ ∀ d ∈ ds, d.isRegister = false := by
  have hwrites := writes_resourceTemplate fun d hd => Descriptor.writes (hfits d hd)
  constructor
  · rintro ⟨w, words, n, hw, hwords, hrecords⟩
    obtain rfl := words_eq hfits hwords
    obtain rfl := hw.unique hwrites
    rw [templateRecords_frame hsize, Option.map_eq_some_iff] at hrecords
    obtain ⟨records, hwalk, heq⟩ := hrecords
    obtain rfl : records = ds.map Descriptor.encode ++ [[endTag, 0]] := by
      simpa using congrArg (fun x => x.2.2) heq
    intro d hd
    cases d with
    | register reg =>
      -- the record would have to be as long as its head says
      obtain ⟨rest, hrest⟩ := size_of_mem_walk hwalk (Descriptor.register reg).encode
        (List.mem_append_left _ (List.mem_map_of_mem hd))
      obtain ⟨hhead, hlength⟩ := Descriptor.size_register reg rest
      rw [hhead, hlength] at hrest
      cases hrest
    | _ => rfl
  · intro hregister
    refine ⟨_, ds.map Descriptor.encode,
      (templateContent (ds.flatMap Descriptor.encode)).length, hwrites, ?_, ?_⟩
    · rw [List.forall₂_map_right_iff, List.forall₂_same]
      exact fun d hd => Descriptor.writes (hfits d hd)
    · rw [templateRecords_frame hsize, walk_templateContent hregister]
      rfl

theorem walkable_iff_ports :
    Walkable [.io ⟨0xcf8, 0xcff, 1, 8⟩, .wordSpace (.newBusNumber 0 0xff),
      .interrupt (.new true false false true 9), .memory32Fixed ⟨true, 0xfed40000, 0x5000⟩] :=
  (walkable_iff (by decide) (by decide)).mpr (by decide)

/-- Already the template of a single register: its head points past the end. -/
theorem register_not_walkable :
    (Descriptor.register ⟨⟨.systemIo, 8, 0, .byteAccess, 0xb2⟩⟩).Fits ∧
      ¬ Walkable [.register ⟨⟨.systemIo, 8, 0, .byteAccess, 0xb2⟩⟩] := by
  refine ⟨trivial, ?_⟩
  rintro ⟨w, words, n, hw, -, hrecords⟩
  have hfits : ∀ d ∈ [Descriptor.register ⟨⟨.systemIo, 8, 0, .byteAccess, 0xb2⟩⟩], d.Fits := by
    decide
  obtain rfl := hw.unique (writes_resourceTemplate fun d hd => Descriptor.writes (hfits d hd))
  have hnone : templateRecords (frame [bufferOp] (sizedContent (templateContent
      ([Descriptor.register ⟨⟨.systemIo, 8, 0, .byteAccess, 0xb2⟩⟩].flatMap
        Descriptor.encode)))) = none := by
    rw [templateRecords_frame (by decide)]
    decide
  exact absurd (hrecords.symm.trans hnone) (Option.some_ne_none _)

end AcpiTables
