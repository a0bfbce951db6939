import AcpiTables.Blob
import AcpiTables.Dsdt
import AcpiTables.Fadt
import AcpiTables.Tables

/-!
# The whole build

`buildMinimalAcpi` appends every table of a configuration to one blob, with the
tables it points at in front of the pointers, and ends with the RSDT. Some tables
are there only when the configuration asks for them, and most of those are only
reserved.

The keys of the directory are the signatures as `from_utf8_lossy` reads them, so
that its decoder is here too, with the replacement of what is not UTF-8.
-/

namespace AcpiTables

open MachineInt

/-! ## Text of a signature -/

/-- A character that has begun: how many bytes are missing, the bounds of the
next one, and the bits so far. -/
structure Utf8Pending where
  missing : ℕ
  lower : UInt8
  upper : UInt8
  bits : ℕ

/-- The bytes that begin a character of more than one byte, by the standard's
table. -/
def utf8Lead (b : UInt8) : Option Utf8Pending :=
  if 0xc2 ≤ b ∧ b ≤ 0xdf then some ⟨1, 0x80, 0xbf, b.toNat % 32⟩
  else if b = 0xe0 then some ⟨2, 0xa0, 0xbf, 0⟩
  else if b = 0xed then some ⟨2, 0x80, 0x9f, 13⟩
  else if 0xe1 ≤ b ∧ b ≤ 0xef then some ⟨2, 0x80, 0xbf, b.toNat % 16⟩
  else if b = 0xf0 then some ⟨3, 0x90, 0xbf, 0⟩
  else if 0xf1 ≤ b ∧ b ≤ 0xf3 then some ⟨3, 0x80, 0xbf, b.toNat % 8⟩
  else if b = 0xf4 then some ⟨3, 0x80, 0x8f, 4⟩
  else none

/-- U+FFFD. -/
def replacementCharacter : Char := Char.ofNat 0xfffd

/-- A byte that begins a character: an ASCII one is complete, any other lead byte
leaves a character pending. -/
def utf8Start (b : UInt8) : List Char × Option Utf8Pending :=
  if b < 0x80 then ([Char.ofNat b.toNat], none)
  else
    match utf8Lead b with
    | some pending => ([], some pending)
    | none => ([replacementCharacter], none)

/-- A byte that cannot go on with a character ends it and begins the next. -/
def utf8Step : Option Utf8Pending → UInt8 → List Char × Option Utf8Pending
  | none, b => utf8Start b
  | some p, b =>
    if p.lower ≤ b ∧ b ≤ p.upper then
      let bits := p.bits * 64 + b.toNat % 64
      if p.missing = 1 then ([Char.ofNat bits], none)
      else ([], some ⟨p.missing - 1, 0x80, 0xbf, bits⟩)
    else
      let (chars, pending) := utf8Start b
      (replacementCharacter :: chars, pending)

/-- The characters of the bytes. What is pending at the end is replaced. -/
def utf8Lossy (pending : Option Utf8Pending) : Bytes → List Char
  | [] => if pending.isSome then [replacementCharacter] else []
  | b :: bs =>
    let (chars, pending) := utf8Step pending b
    chars ++ utf8Lossy pending bs

/-- `from_utf8_lossy`: what is not UTF-8 becomes replacement characters. -/
def fromUtf8Lossy (bytes : Bytes) : String := String.ofList (utf8Lossy none bytes)

/-! ## The result -/

/-- What the layout says of a table: where it lies, and where its checksum does. -/
structure TableLayout where
  offset : UInt32
  length : UInt32
  checksumOffset : UInt32
  deriving DecidableEq

/-- What a build returns: the blob, the root pointer and the layout. -/
structure BuiltBlob where
  blob : AcpiBlob
  rsdp : Bytes
  layout : Std.TreeMap String TableLayout

/-! ## Lengths of the reserved tables -/

/-- The length of a reserved table. -/
def optionalTableLen (signature : Vector UInt8 4) (config : PlatformConfig) : Checked UInt32 :=
  if signature = bstr "TCPA" then return 50
  else if signature = bstr "TPM2" then return 52
  else if signature = bstr "SRAT" then do
    let cpuLen ← config.cpuApicIds.foldlM
      (fun sum apicId => checkedAdd sum (if apicId < 255 then (16 : UInt32) else 24)) 0
    checkedAdd (48 : UInt32) cpuLen
  else if signature = bstr "SLIT" then return 45
  else if signature = bstr "HMAT" then return 40
  else if signature = bstr "MCFG" then return 60
  else if signature = bstr "DMAR" then return 60
  else if signature = bstr "IVRS" then return 64
  else if signature = bstr "VIOT" then return 48
  else if signature = bstr "NFIT" then return 40
  else if signature = bstr "CEDT" then return 36
  else if signature = bstr "SSDT" then return 202
  else return 36

/-! ## The build -/

/-- Reserve a table of the length its signature has. -/
def reserveTable (blob : AcpiBlobBuilder) (signature : Vector UInt8 4) (config : PlatformConfig) :
    Checked (Option UInt32 × AcpiBlobBuilder) := do
  let (offset, blob) := blob.appendPlaceholderTable signature (← optionalTableLen signature config)
  return (some offset, blob)

/-- Append a table that was built. -/
def addTable (blob : AcpiBlobBuilder) (signature : Vector UInt8 4) (bytes : Bytes) :
    Checked (Option UInt32 × AcpiBlobBuilder) :=
  let (offset, blob) := blob.appendTable signature bytes
  return (some offset, blob)

/-- No table. -/
def skipTable (blob : AcpiBlobBuilder) : Checked (Option UInt32 × AcpiBlobBuilder) :=
  return (none, blob)

/-- Push the address of a table, if it is there. -/
def pushAddress (blob : AcpiBlobBuilder) (entries : List UInt64) :
    Option UInt32 → Checked (List UInt64)
  | some offset => return entries ++ [← blob.addressOf offset]
  | none => return entries

/-- A table is entered under the text of its signature. -/
def insertLayout (layout : Std.TreeMap String TableLayout) (table : TableRef) :
    Checked (Std.TreeMap String TableLayout) := do
  let checksumOffset ← checkedAdd table.offset 9
  return layout.insert (fromUtf8Lossy table.signature.toList)
    ⟨table.offset, table.length, checksumOffset⟩

/-- The build: FACS and DSDT first, then the listed tables, and the root table
last. -/
def buildMinimalAcpi (config : PlatformConfig) : Checked BuiltBlob := do
  let blob := AcpiBlobBuilder.new config.blobBaseAddress
  let blob := if 0 < config.frontPadding then blob.reserveFront config.frontPadding.toNat else blob
  let (facsOffset, blob) := blob.appendTable (bstr "FACS") (← buildFacs)
  let dsdt ← buildDsdt config
  let (dsdtOffset, blob) := blob.appendTable (bstr "DSDT") dsdt
  let fadt ← buildFadtWithFacs config (← blob.addressOf facsOffset) (← blob.addressOf dsdtOffset)
  let (fadtOffset, blob) := blob.appendTable (bstr "FACP") fadt
  let madt ← buildMadt config
  let (madtOffset, blob) := blob.appendTable (bstr "APIC") madt
  let (vmgenidOffset, blob) ←
    (if config.hasVmgenid then reserveTable blob (bstr "SSDT") config else skipTable blob)
  let (hpetOffset, blob) ←
    (if config.hasHpet then addTable blob (bstr "HPET") (buildHpet config) else skipTable blob)
  let (tcpaOffset, blob) ←
    (match config.tpmKind with
    | some .tcpa => reserveTable blob (bstr "TCPA") config
    | some .tpm2 => reserveTable blob (bstr "TPM2") config
    | none => skipTable blob)
  let (sratOffset, blob) ←
    (if config.hasNuma then reserveTable blob (bstr "SRAT") config else skipTable blob)
  let (slitOffset, blob) ←
    (if config.hasSlit then reserveTable blob (bstr "SLIT") config else skipTable blob)
  let (hmatOffset, blob) ←
    (if config.hasHmat then reserveTable blob (bstr "HMAT") config else skipTable blob)
  let (mcfgOffset, blob) ←
    (if config.hasMcfg then addTable blob (bstr "MCFG") (buildMcfg config) else skipTable blob)
  let (iommuOffset, blob) ←
    (match config.iommuKind with
    | some .dmar => reserveTable blob (bstr "DMAR") config
    | some .ivrs => reserveTable blob (bstr "IVRS") config
    | some .viot => reserveTable blob (bstr "VIOT") config
    | none => skipTable blob)
  let (nfitOffset, blob) ←
    (if config.nvdimmEnabled then reserveTable blob (bstr "NFIT") config else skipTable blob)
  let (cedtOffset, blob) ←
    (if config.cxlEnabled then reserveTable blob (bstr "CEDT") config else skipTable blob)
  let (waetOffset, blob) := blob.appendTable (bstr "WAET") (buildWaet config)
  let rsdtEntries := [← blob.addressOf fadtOffset, ← blob.addressOf madtOffset]
  let rsdtEntries ← pushAddress blob rsdtEntries vmgenidOffset
  let rsdtEntries ← pushAddress blob rsdtEntries hpetOffset
  let rsdtEntries ← pushAddress blob rsdtEntries tcpaOffset
  let rsdtEntries ← pushAddress blob rsdtEntries sratOffset
  let rsdtEntries ← pushAddress blob rsdtEntries slitOffset
  let rsdtEntries ← pushAddress blob rsdtEntries hmatOffset
  let rsdtEntries ← pushAddress blob rsdtEntries mcfgOffset
  let rsdtEntries ← pushAddress blob rsdtEntries iommuOffset
  let rsdtEntries ← pushAddress blob rsdtEntries nfitOffset
  let rsdtEntries ← pushAddress blob rsdtEntries cedtOffset
  let rsdtEntries ← pushAddress blob rsdtEntries (some waetOffset)
  let rsdt := buildRsdt config rsdtEntries
  let (rsdtOffset, blob) := blob.appendTable (bstr "RSDT") rsdt
  let rsdp := buildRsdp config (← blob.addressOf rsdtOffset)
  let blob := blob.finish
  let layout ← blob.tables.foldlM insertLayout ∅
  return ⟨blob, rsdp, layout⟩

end AcpiTables
