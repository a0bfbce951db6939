import AcpiTables.AmlReference

/-!
# The frame of the reference tables

`acpi_table_begin` appends the header of a table to the array of all tables, the
builder appends the body, and `acpi_table_end` fills in the length. The sum of
the table is left to the linker: its requests are kept beside the array.

`tableBody` is what a reader of the array takes for the body of the table at an
offset, and `acpiTableEnd_body` says that it is what the builder appended.
-/

namespace AcpiTables.AmlBuild

open MachineInt

/-! ## The machine -/

/-- `CpuInstanceProperties`: the ids are signed. -/
structure CpuInstanceProperties where
  nodeId : ℤ
  socketId : ℤ
  clusterId : ℤ
  coreId : ℤ
  deriving DecidableEq

/-- `CPUArchId`. -/
structure CPUArchId where
  archId : UInt64
  props : CpuInstanceProperties
  deriving DecidableEq

/-! ## Builders -/

/-- `AcpiTable`: what the header says of a table. The strings are without their
terminators. -/
structure AcpiTable where
  sig : Bytes
  rev : UInt8
  oemId : Bytes
  oemTableId : Bytes

/-- A call of `bios_linker_loader_add_checksum` for the array of the tables. -/
structure AddChecksum where
  startOffset : ℕ
  size : UInt32
  checksumOffset : ℕ
  deriving DecidableEq

/-- `build_append_padded_str`: the text, filled up to its field. -/
def buildAppendPaddedStr (array str : Bytes) (maxlen : ℕ) (pad : UInt8) : Checked Bytes := do
  ensure (str.length ≤ maxlen) .assertion
  return array ++ str ++ List.replicate (maxlen - str.length) pad

/-- `appname` stands for `ACPI_BUILD_APPNAME8`. The offset of the table is the
length of the array that this starts with. -/
def acpiTableBegin (appname : Vector UInt8 8) (desc : AcpiTable) (array : Bytes) :
    Checked Bytes := do
  ensure (desc.sig.length = 4) .assertion
  let array := array ++ desc.sig
  let array := buildAppendIntNoprefix array 0 4
  let array := buildAppendIntNoprefix array desc.rev.toUInt64 1
  let array := buildAppendIntNoprefix array 0 1
  let array ← buildAppendPaddedStr array desc.oemId 6 0
  let array ← buildAppendPaddedStr array desc.oemTableId 8 0
  let array := buildAppendIntNoprefix array 1 4
  let array := array ++ appname.toList.take 4
  return buildAppendIntNoprefix array 1 4

/-- `acpi_table_end`: the length is filled in, and the checksum is left to the
linker. -/
def acpiTableEnd (linker : List AddChecksum) (tableOffset : ℕ) (array : Bytes) :
    Bytes × List AddChecksum :=
  let tableLen := UInt32.ofNat (array.length - tableOffset)
  (patch array (tableOffset + 4) (toLeBytes tableLen),
    linker ++ [⟨tableOffset, tableLen, tableOffset + 9⟩])

/-! ## Readers -/

/-- The body of the table that starts at an offset, as long as its header says. -/
def tableBody (array : Bytes) (start : ℕ) : Bytes :=
  slice array (start + 36) (leValue (slice array (start + 4) 4) - 36)

/-! ## The frame -/

/-- A text that fits its field is appended with the field's length. -/
theorem buildAppendPaddedStr_eq_ok {array str out : Bytes} {maxlen : ℕ} {pad : UInt8}
    (h : buildAppendPaddedStr array str maxlen pad = .ok out) :
    ∃ text, text.length = maxlen ∧ out = array ++ text := by
  obtain ⟨_, hlen, h⟩ := Checked.bind_eq_ok.mp h
  rw [ensure_eq_ok] at hlen
  refine ⟨str ++ List.replicate (maxlen - str.length) pad, ?_, ?_⟩
  · rw [List.length_append, List.length_replicate, Nat.add_sub_of_le hlen]
  · rw [← List.append_assoc]
    exact (Except.ok.inj h).symm

/-- What is appended first: four bytes, the place of the length, and the rest of
the header. -/
theorem acpiTableBegin_eq_ok {appname : Vector UInt8 8} {desc : AcpiTable} {array out : Bytes}
    (h : acpiTableBegin appname desc array = .ok out) :
    ∃ rest, desc.sig.length = 4 ∧ rest.length = 28 ∧
      out = array ++ desc.sig ++ leBytes 4 0 ++ rest := by
  obtain ⟨_, hsig, h⟩ := Checked.bind_eq_ok.mp h
  obtain ⟨array₁, h₁, h⟩ := Checked.bind_eq_ok.mp h
  obtain ⟨array₂, h₂, h⟩ := Checked.bind_eq_ok.mp h
  rw [ensure_eq_ok] at hsig
  obtain ⟨oemId, hoemId, rfl⟩ := buildAppendPaddedStr_eq_ok h₁
  obtain ⟨oemTableId, hoemTableId, rfl⟩ := buildAppendPaddedStr_eq_ok h₂
  rw [← Except.ok.inj h]
  simp only [buildAppendIntNoprefix_eq]
  refine ⟨leBytes 1 desc.rev.toUInt64.toNat ++ leBytes 1 0 ++ oemId ++ oemTableId ++
    leBytes 4 1 ++ appname.toList.take 4 ++ leBytes 4 1, hsig, ?_, ?_⟩
  · simp [hoemId, hoemTableId]
  · simp only [List.append_assoc]
    rfl

/-- Beginning a table appends a header. -/
theorem length_acpiTableBegin {appname : Vector UInt8 8} {desc : AcpiTable} {array out : Bytes}
    (h : acpiTableBegin appname desc array = .ok out) : out.length = array.length + 36 := by
  obtain ⟨rest, hsig, hrest, rfl⟩ := acpiTableBegin_eq_ok h
  simp [hsig, hrest]

/-- A header is written whenever its strings have room. -/
theorem acpiTableBegin_isOk {desc : AcpiTable} (appname : Vector UInt8 8) (array : Bytes)
    (hsig : desc.sig.length = 4) (hoemId : desc.oemId.length ≤ 6)
    (hoemTableId : desc.oemTableId.length ≤ 8) :
    ∃ out, acpiTableBegin appname desc array = .ok out := by
  simp [acpiTableBegin, buildAppendPaddedStr, ensure_of hsig, ensure_of hoemId,
    ensure_of hoemTableId]

/-- **The body is found again**: it is what was appended between the beginning
and the end of the table, in an array of less than 4 GiB. -/
theorem acpiTableEnd_body {appname : Vector UInt8 8} {desc : AcpiTable} {array front : Bytes}
    (h : acpiTableBegin appname desc array = .ok front) (linker : List AddChecksum) (body : Bytes)
    (hlen : (acpiTableEnd linker array.length (front ++ body)).1.length < 4294967296) :
    tableBody (acpiTableEnd linker array.length (front ++ body)).1 array.length = body := by
  obtain ⟨rest, hsig, hrest, rfl⟩ := acpiTableBegin_eq_ok h
  have hpatch : (acpiTableEnd linker array.length
      (array ++ desc.sig ++ leBytes 4 0 ++ rest ++ body)).1 =
        array ++ desc.sig ++ toLeBytes (UInt32.ofNat (36 + body.length)) ++ (rest ++ body) := by
    have hfront : array.length + 4 = (array ++ desc.sig).length := by
      rw [List.length_append, hsig]
    have htotal : (array ++ desc.sig ++ leBytes 4 0 ++ rest ++ body).length - array.length =
        36 + body.length := by
      simp only [List.length_append, length_leBytes, hsig, hrest]
      omega
    rw [acpiTableEnd]
    dsimp only
    rw [htotal, List.append_assoc _ rest body, hfront,
      patch_mid (by rw [length_toLeBytes, length_leBytes]; rfl)]
  rw [hpatch] at hlen ⊢
  have hlength : leValue (slice (array ++ desc.sig ++
      toLeBytes (UInt32.ofNat (36 + body.length)) ++ (rest ++ body)) (array.length + 4) 4) =
        36 + body.length := by
    have hmid := slice_mid (array ++ desc.sig) (toLeBytes (UInt32.ofNat (36 + body.length)))
      (rest ++ body)
    rw [List.length_append, hsig, length_toLeBytes, width_u32] at hmid
    rw [hmid, leValue_toLeBytes]
    apply toNat_ofNat_u32
    simp only [List.length_append, length_toLeBytes, width_u32] at hlen
    omega
  have hbody := slice_mid (array ++ desc.sig ++ toLeBytes (UInt32.ofNat (36 + body.length)) ++ rest)
    body []
  simp only [List.length_append, length_toLeBytes, width_u32, hsig, hrest, List.append_nil] at hbody
  rw [tableBody, hlength, Nat.add_sub_cancel_left, ← List.append_assoc]
  exact hbody

/-- A builder returned when the length of what it returned can be told. -/
theorem exists_of_length {build : Checked (Bytes × List AddChecksum)} {len : ℕ}
    (h : build.toOption.map (fun r => r.1.length) = some len) :
    ∃ file linker, build = .ok (file, linker) ∧ file.length = len := by
  obtain ⟨⟨file, linker⟩, hr, rfl⟩ := Option.map_eq_some_iff.mp h
  refine ⟨file, linker, ?_, rfl⟩
  cases build with
  | error e => cases hr
  | ok r => exact congrArg Except.ok (Option.some.inj hr)

end AcpiTables.AmlBuild
