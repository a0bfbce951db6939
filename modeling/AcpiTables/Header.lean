import AcpiTables.Config
import Mathlib.Tactic.Ring

/-!
# Headers, checksums and finished tables

Every table is a 36-byte header and a body. `finalizeTable` puts the two
together and sets the checksum byte so that the bytes of the table sum to zero.

`ValidTable signature bytes` says what a reader of tables relies on: the
signature in front, the length at offset 4, the sum zero. `finalizeTable` gives
valid tables, of a length that the body alone determines
(`validTable_finalizeTable`, `length_finalizeTable`), and none of its readers has to
look at how the header is filled: behind it is the body (`drop_finalizeTable`).
-/

namespace AcpiTables

open MachineInt

/-- `acpi_checksum`: the byte that brings the sum of the data to zero. -/
def acpiChecksum (data : Bytes) : UInt8 :=
  0 - data.foldl (fun acc byte => acc + byte) 0

/-- The length of a header. -/
abbrev acpiHeaderLen : ℕ := 36

/-- The fields of a header that its table does not determine. -/
structure AcpiHeader where
  signature : Vector UInt8 4
  revision : UInt8
  oemId : Vector UInt8 6
  oemTableId : Vector UInt8 8
  oemRevision : UInt32
  creatorId : Vector UInt8 4
  creatorRevision : UInt32

/-- The header of a table: its signature and revision, and the identification
that all tables take from the configuration. -/
def PlatformConfig.header (config : PlatformConfig) (signature : Vector UInt8 4)
    (revision : UInt8) : AcpiHeader :=
  { signature, revision, oemId := config.oemId, oemTableId := config.oemTableId,
    oemRevision := config.oemRevision, creatorId := config.creatorId,
    creatorRevision := config.creatorRevision }

/-- Fill the header in place, field by field. -/
def AcpiHeader.encode (header : AcpiHeader) (totalLen : UInt32) : Bytes :=
  patchAll (List.replicate acpiHeaderLen 0)
    [(0, header.signature.toList), (4, toLeBytes totalLen), (8, [header.revision]), (9, [0]),
      (10, header.oemId.toList), (16, header.oemTableId.toList), (24, toLeBytes header.oemRevision),
      (28, header.creatorId.toList), (32, toLeBytes header.creatorRevision)]

/-- A header and a body, with the length and the checksum filled in. -/
def finalizeTable (header : AcpiHeader) (body : Bytes) : Bytes :=
  let totalLen := UInt32.ofNat (acpiHeaderLen + body.length)
  let out := header.encode totalLen
  let out := out ++ body
  patch out 9 [acpiChecksum out]

/-! ## What a reader of tables relies on -/

/-- A table that a reader accepts: its signature, its length in the header, and
bytes that sum to zero. -/
structure ValidTable (signature bytes : Bytes) : Prop where
  signature_eq : slice bytes 0 4 = signature
  length_eq : leValue (slice bytes 4 4) = bytes.length
  sum_eq : bytes.sum = 0

/-- The loop over the bytes computes their sum, on top of what it starts from. -/
theorem foldl_add_eq_sum (data : Bytes) (acc : UInt8) :
    data.foldl (fun acc byte => acc + byte) acc = acc + data.sum := by
  induction data generalizing acc with
  | nil => simp
  | cons b data ih => rw [List.foldl_cons, ih, List.sum_cons, add_assoc]

/-- The checksum is what brings the sum to zero. -/
theorem acpiChecksum_eq (data : Bytes) : acpiChecksum data = -data.sum := by
  rw [acpiChecksum, foldl_add_eq_sum, zero_add, zero_sub]

namespace AcpiHeader

/-- The fields of a header, one after the other. -/
theorem encode_eq (header : AcpiHeader) (totalLen : UInt32) :
    header.encode totalLen =
      header.signature.toList ++ toLeBytes totalLen ++ [header.revision, 0] ++
        (header.oemId.toList ++ header.oemTableId.toList ++ toLeBytes header.oemRevision ++
          header.creatorId.toList ++ toLeBytes header.creatorRevision) := by
  rw [encode, patchAll_cover (by simp [Consecutive]) (by simp)]
  simp

/-- A header takes 36 bytes. -/
@[simp] theorem length_encode (header : AcpiHeader) (totalLen : UInt32) :
    (header.encode totalLen).length = 36 := by
  simp [encode_eq]

end AcpiHeader

variable (header : AcpiHeader) (body : Bytes)

/-- A finished table: the header up to its checksum, the checksum, the rest. -/
theorem finalizeTable_eq :
    finalizeTable header body =
      header.signature.toList ++ toLeBytes (UInt32.ofNat (36 + body.length)) ++
        [header.revision, acpiChecksum (header.encode (UInt32.ofNat (36 + body.length)) ++ body)] ++
        (header.oemId.toList ++ header.oemTableId.toList ++ toLeBytes header.oemRevision ++
          header.creatorId.toList ++ toLeBytes header.creatorRevision) ++ body := by
  simp only [finalizeTable, acpiHeaderLen]
  generalize acpiChecksum (header.encode (UInt32.ofNat (36 + body.length)) ++ body) = checksum
  have hencode : header.encode (UInt32.ofNat (36 + body.length)) ++ body =
      header.signature.toList ++ toLeBytes (UInt32.ofNat (36 + body.length)) ++
        [header.revision] ++ [0] ++ (header.oemId.toList ++ header.oemTableId.toList ++
          toLeBytes header.oemRevision ++ header.creatorId.toList ++
          toLeBytes header.creatorRevision ++ body) := by
    rw [AcpiHeader.encode_eq]
    simp
  have hlen : (header.signature.toList ++ toLeBytes (UInt32.ofNat (36 + body.length)) ++
      [header.revision]).length = 9 := by simp
  rw [hencode, ← hlen, patch_mid (by simp)]
  simp

/-- A table is 36 bytes longer than its body. -/
@[simp] theorem length_finalizeTable : (finalizeTable header body).length = 36 + body.length := by
  simp [finalizeTable_eq]
  omega

/-- Behind the header of a table is its body. -/
theorem drop_finalizeTable : (finalizeTable header body).drop 36 = body := by
  rw [finalizeTable_eq]
  exact List.drop_left' (by simp)

/-- The bytes of a table behind its header. -/
theorem slice_finalizeTable (start len : ℕ) :
    slice (finalizeTable header body) (36 + start) len = slice body start len := by
  rw [slice, ← List.drop_drop, drop_finalizeTable, slice]

/-- A finished table sums to zero. -/
theorem sum_finalizeTable : (finalizeTable header body).sum = 0 := by
  rw [finalizeTable_eq, acpiChecksum_eq, AcpiHeader.encode_eq]
  simp only [List.sum_append, List.sum_cons, List.sum_nil]
  grind

/-- **Finished tables are valid**, as long as their length fits the header. -/
theorem validTable_finalizeTable (h : 36 + body.length < 4294967296) :
    ValidTable header.signature.toList (finalizeTable header body) where
  signature_eq := by
    rw [finalizeTable_eq]
    simp only [List.append_assoc]
    have := slice_prefix header.signature.toList
    rw [Vector.length_toList] at this
    exact this _
  length_eq := by
    have hmid := slice_mid header.signature.toList (toLeBytes (UInt32.ofNat (36 + body.length)))
    rw [Vector.length_toList, length_toLeBytes, width_u32] at hmid
    rw [length_finalizeTable, finalizeTable_eq]
    simp only [List.append_assoc] at hmid ⊢
    rw [hmid, leValue_toLeBytes]
    simpa [MachineInt.toNat] using h
  sum_eq := sum_finalizeTable header body

end AcpiTables
