import AcpiTables.Tables

/-!
# Tables read back

What a reader takes from a finished table: the header, field by field at its
ACPI offset, and the body. `finalizeTable_readsBack`: both are what the table was
made from, and no byte of the table can be replaced alone without the sum of the
table showing it. The RSDP, which has no header, comes at the end.

A header is its fields, each filled, one after the other without a gap
(`consecutive_filling`), so one lemma on consecutive writes reads all of them
(`slice_of_consecutive`). A sum of bytes with one of them replaced differs by the
difference of the two (`sum_set_ne`).
-/

namespace AcpiTables

open MachineInt

/-! ## Numbers and arrays in a buffer -/

/-- A number that was read where it was written. -/
theorem ofNat_leValue {T : Type} [MachineInt T] {bs : Bytes} {x : T} (h : bs = toLeBytes x) :
    ofNat (leValue bs) = x := by
  rw [h, leValue_toLeBytes, ofNat_toNat]

/-- The bytes of an array. What has another length is no array. -/
def arrayOf (n : ℕ) (bs : Bytes) : Vector UInt8 n :=
  if h : bs.length = n then ⟨bs.toArray, by simpa using h⟩ else Vector.replicate n 0

/-- Bytes that are those of a field are read as it. -/
theorem arrayOf_of_eq {n : ℕ} {bs : Bytes} {v : Vector UInt8 n} (h : bs = v.toList) :
    arrayOf n bs = v := by
  have hlength : bs.length = n := by rw [h, Vector.length_toList]
  rw [arrayOf, dif_pos hlength]
  apply Vector.toList_inj.mp
  exact h

/-- Consecutive writes are found where they were written, whatever follows. -/
theorem slice_of_consecutive {ws : List (ℕ × Bytes)} {w : ℕ × Bytes} {front rest : Bytes}
    (h : Consecutive front.length ws) (hw : w ∈ ws) :
    slice (front ++ ws.flatMap Prod.snd ++ rest) w.1 w.2.length = w.2 := by
  induction ws generalizing front with
  | nil => cases hw
  | cons v ws ih =>
    obtain ⟨hv, hws⟩ := h
    rw [List.flatMap_cons, ← List.append_assoc front]
    rcases List.mem_cons.mp hw with rfl | hw
    · rw [hv, List.append_assoc]
      exact slice_mid ..
    · apply ih _ hw
      rwa [List.length_append]

/-! ## The header -/

/-- The fields of a header. -/
inductive HeaderField where
  | signature | length | revision | checksum | oemId | oemTableId | oemRevision | creatorId
  | creatorRevision
  deriving DecidableEq

namespace HeaderField

/-- The offset and the number of bytes of a field. -/
def range : HeaderField → ℕ × ℕ
  | signature => (0, 4)
  | length => (4, 4)
  | revision => (8, 1)
  | checksum => (9, 1)
  | oemId => (10, 6)
  | oemTableId => (16, 8)
  | oemRevision => (24, 4)
  | creatorId => (28, 4)
  | creatorRevision => (32, 4)

/-- No byte of the header belongs to two fields. -/
def apart (f g : HeaderField) : Prop :=
  f.range.1 + f.range.2 ≤ g.range.1 ∨ g.range.1 + g.range.2 ≤ f.range.1

/-- Different fields of the header do not overlap. -/
theorem apart_of_ne {f g : HeaderField} (h : f ≠ g) : f.apart g := by
  unfold apart
  cases f <;> cases g <;> first | contradiction | decide

/-- What a reader finds in a field. -/
def read (table : Bytes) (f : HeaderField) : Bytes := slice table f.range.1 f.range.2

/-- The fields in the order of their offsets. -/
def all : List HeaderField :=
  [signature, length, revision, checksum, oemId, oemTableId, oemRevision, creatorId,
    creatorRevision]

/-- The list of fields is complete. -/
theorem mem_all (f : HeaderField) : f ∈ all := by
  cases f <;> decide

/-- What a field is filled with. -/
def filling (header : AcpiHeader) (totalLen : UInt32) (sum : UInt8) : HeaderField → Bytes
  | signature => header.signature.toList
  | length => toLeBytes totalLen
  | revision => toLeBytes header.revision
  | checksum => [sum]
  | oemId => header.oemId.toList
  | oemTableId => header.oemTableId.toList
  | oemRevision => toLeBytes header.oemRevision
  | creatorId => header.creatorId.toList
  | creatorRevision => toLeBytes header.creatorRevision

section

variable (header : AcpiHeader) (totalLen : UInt32) (sum : UInt8)

/-- What fills a field has its length. -/
theorem length_filling (f : HeaderField) : (f.filling header totalLen sum).length = f.range.2 := by
  cases f <;> simp [filling, range]

/-- The filled fields leave no gap. -/
theorem consecutive_filling :
    Consecutive 0 (all.map fun f => (f.range.1, f.filling header totalLen sum)) := by
  simp [all, Consecutive, length_filling, range]

end

end HeaderField

/-- The header that a reader sees. -/
def readHeader (table : Bytes) : AcpiHeader where
  signature := arrayOf 4 (HeaderField.signature.read table)
  revision := ofNat (leValue (HeaderField.revision.read table))
  oemId := arrayOf 6 (HeaderField.oemId.read table)
  oemTableId := arrayOf 8 (HeaderField.oemTableId.read table)
  oemRevision := ofNat (leValue (HeaderField.oemRevision.read table))
  creatorId := arrayOf 4 (HeaderField.creatorId.read table)
  creatorRevision := ofNat (leValue (HeaderField.creatorRevision.read table))

/-- A finished table: its fields, each filled, and the body. -/
theorem finalizeTable_filling (header : AcpiHeader) (body : Bytes) :
    ∃ sum, finalizeTable header body = HeaderField.all.flatMap
      (HeaderField.filling header (UInt32.ofNat (36 + body.length)) sum) ++ body := by
  refine ⟨acpiChecksum (header.encode (UInt32.ofNat (36 + body.length)) ++ body), ?_⟩
  rw [finalizeTable_eq]
  have hrevision : toLeBytes header.revision = [header.revision] := by
    simp [toLeBytes, leBytes, MachineInt.toNat]
  simp only [HeaderField.all, HeaderField.filling, List.flatMap_cons, List.flatMap_nil, hrevision]
  simp

/-- Each field of a finished table holds what it is filled with, for some checksum. -/
theorem read_finalizeTable (header : AcpiHeader) (body : Bytes) :
    ∃ sum, ∀ f : HeaderField, f.read (finalizeTable header body) =
      f.filling header (UInt32.ofNat (36 + body.length)) sum := by
  obtain ⟨sum, heq⟩ := finalizeTable_filling header body
  refine ⟨sum, fun f => ?_⟩
  have hslice := @slice_of_consecutive _ _ [] body
    (HeaderField.consecutive_filling header (UInt32.ofNat (36 + body.length)) sum)
    (List.mem_map_of_mem (HeaderField.mem_all f))
  rw [HeaderField.length_filling, List.flatMap_map, List.nil_append] at hslice
  rw [heq]
  exact hslice

/-- The header of a finished table is read back. -/
theorem readHeader_finalizeTable (header : AcpiHeader) (body : Bytes) :
    readHeader (finalizeTable header body) = header := by
  obtain ⟨sum, hread⟩ := read_finalizeTable header body
  rw [readHeader, arrayOf_of_eq (hread .signature), ofNat_leValue (hread .revision),
    arrayOf_of_eq (hread .oemId), arrayOf_of_eq (hread .oemTableId),
    ofNat_leValue (hread .oemRevision), arrayOf_of_eq (hread .creatorId),
    ofNat_leValue (hread .creatorRevision)]

/-! ## The sum -/

/-- One other byte, one other sum. -/
theorem sum_set_ne {bs : Bytes} {i : ℕ} (hi : i < bs.length) {b : UInt8} (hb : b ≠ bs[i]) :
    (bs.set i b).sum ≠ bs.sum := by
  have hset : bs.set i b = bs.take i ++ b :: bs.drop (i + 1) :=
    List.set_eq_take_append_cons_drop.trans (if_pos hi)
  have hsplit : bs = bs.take i ++ bs[i] :: bs.drop (i + 1) := by
    rw [List.getElem_cons_drop, List.take_append_drop]
  rw [hset]
  conv_rhs => rw [hsplit]
  simp only [List.sum_append, List.sum_cons]
  intro hsum
  exact hb (add_right_cancel (add_left_cancel hsum))

/-- What a reader can rely on in a table made from a header and a body. -/
structure ReadsBack (header : AcpiHeader) (body table : Bytes) : Prop where
  header_eq : readHeader table = header
  body_eq : table.drop 36 = body
  length_eq : leValue (HeaderField.length.read table) = table.length
  sum_eq : table.sum = 0
  /-- a byte that was replaced alone shows -/
  sum_set_ne : ∀ (i : ℕ) (hi : i < table.length) (b : UInt8), b ≠ table[i] →
    (table.set i b).sum ≠ 0

/-! ## The RSDP -/

/-- The identification that the RSDP carries. -/
def readRsdpOemId (rsdp : Bytes) : Vector UInt8 6 := arrayOf 6 (slice rsdp 9 6)

/-- The address that the RSDP points at. -/
def readRsdtAddress (rsdp : Bytes) : ℕ := leValue (slice rsdp 16 4)

section

variable (config : PlatformConfig) (rsdtAddress : UInt64)

/-- The bytes of the root pointer sum to zero. -/
theorem sum_buildRsdp : (buildRsdp config rsdtAddress).sum = 0 := by
  set tail := config.oemId.toList ++ [0] ++ toLeBytes rsdtAddress.toUInt32 with htail
  have hunsigned : asBytes "RSD PTR " ++ [0] ++ config.oemId.toList ++ [0] ++
      toLeBytes rsdtAddress.toUInt32 = asBytes "RSD PTR " ++ [0] ++ tail := by
    simp only [htail, List.append_assoc]
  -- the sum is taken while the checksum byte is zero
  have hmid : patch (asBytes "RSD PTR " ++ [0] ++ tail) 8 _ = _ :=
    @patch_mid (asBytes "RSD PTR ") [0] tail
      [acpiChecksum (asBytes "RSD PTR " ++ [0] ++ tail)] rfl
  rw [buildRsdp, hunsigned, hmid, acpiChecksum_eq]
  simp only [List.sum_append, List.sum_cons, List.sum_nil]
  grind

/-- The id in the root pointer is read back. -/
theorem readRsdpOemId_buildRsdp : readRsdpOemId (buildRsdp config rsdtAddress) = config.oemId := by
  obtain ⟨checksum, heq⟩ := buildRsdp_eq config rsdtAddress
  have hfront : (asBytes "RSD PTR " ++ [checksum]).length = 9 := rfl
  have hmid := slice_mid (asBytes "RSD PTR " ++ [checksum]) config.oemId.toList
    ([0] ++ toLeBytes rsdtAddress.toUInt32)
  rw [hfront, Vector.length_toList] at hmid
  apply arrayOf_of_eq
  rw [heq, List.append_assoc]
  exact hmid

/-- The address in the root pointer is read back, when it lies below 4 GiB. -/
theorem readRsdtAddress_buildRsdp (h : rsdtAddress.toNat < 4294967296) :
    readRsdtAddress (buildRsdp config rsdtAddress) = rsdtAddress.toNat := by
  rw [readRsdtAddress, slice_buildRsdp, toLeBytes_toUInt32 h]
  exact leValue_leBytes_of_lt h

end

/-- **Finishing a table is a codec that checks itself.** The header fields keep
apart and read back, with the body and the length; the bytes sum to zero and no
other byte in any one place does. The RSDP reads back as well. -/
theorem finalizeTable_readsBack :
    (∀ f g : HeaderField, f ≠ g → f.apart g) ∧
    (∀ (header : AcpiHeader) (body : Bytes), body.length < 4294967296 - 36 →
      ReadsBack header body (finalizeTable header body)) ∧
    (∀ (config : PlatformConfig) (rsdtAddress : UInt64), rsdtAddress.toNat < 4294967296 →
      (buildRsdp config rsdtAddress).length = 20 ∧ (buildRsdp config rsdtAddress).sum = 0 ∧
      readRsdpOemId (buildRsdp config rsdtAddress) = config.oemId ∧
      readRsdtAddress (buildRsdp config rsdtAddress) = rsdtAddress.toNat) := by
  refine ⟨fun f g => HeaderField.apart_of_ne, fun header body hbody => ?_,
    fun config rsdtAddress haddress => ?_⟩
  · have hsum := sum_finalizeTable header body
    have hvalid := validTable_finalizeTable header body (by omega)
    refine ⟨readHeader_finalizeTable header body, drop_finalizeTable header body,
      hvalid.length_eq, hsum, fun i hi b hb => ?_⟩
    rw [← hsum]
    exact sum_set_ne hi hb
  · exact ⟨length_buildRsdp config rsdtAddress, sum_buildRsdp config rsdtAddress,
      readRsdpOemId_buildRsdp config rsdtAddress,
      readRsdtAddress_buildRsdp config rsdtAddress haddress⟩

theorem finalizeTable_readsBack_waet :
    ReadsBack ((PlatformConfig.intelTdxQ35 2).header (bstr "WAET") 1) [2, 0, 0, 0]
      (finalizeTable ((PlatformConfig.intelTdxQ35 2).header (bstr "WAET") 1) [2, 0, 0, 0]) ∧
    (HeaderField.checksum).apart .oemId ∧
    readRsdtAddress (buildRsdp (.intelTdxQ35 2) 0x1000) = 0x1000 :=
  ⟨finalizeTable_readsBack.2.1 _ _ (by decide), finalizeTable_readsBack.1 _ _ (by decide),
    (finalizeTable_readsBack.2.2 _ _ (by decide)).2.2.2⟩

end AcpiTables
