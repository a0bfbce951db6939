import AcpiTables.Srat

/-!
# The structures of an SRAT

A processor and a piece of memory have a structure each. What the functions append
are these structures (`foldl_sratProcessor`, `buildSratMemory_eq`); each gives its
own length, so a walk stops at all of them, and a reader finds the same fields
again.

A processor has one of two structures, by its id. Neither is taken for a piece of
memory, nor the other way round, since the types differ
(`readMemoryAffinity_processorRecord`, `readProcessor_record`).
-/

namespace AcpiTables.AmlBuild

open MachineInt

/-! ## Structures -/

/-- The node of a processor, as 32 bits hold it. -/
def CPUArchId.domain (cpu : CPUArchId) : ℕ := (cpu.props.nodeId % 4294967296).toNat

/-- The structure of a processor: a short one with an 8-bit id below 255, and one
for an x2APIC from there on. -/
def processorRecord (cpu : CPUArchId) : Bytes :=
  if cpu.archId.toUInt32 < 255 then
    packFields [(1, 0), (1, 16), (1, cpu.domain), (1, cpu.archId.toUInt32.toNat), (4, 1), (1, 0),
      (3, 0), (4, 0)]
  else
    packFields [(1, 2), (1, 24), (2, 0), (4, cpu.domain), (4, cpu.archId.toUInt32.toNat), (4, 1),
      (4, 0), (4, 0)]

/-- The structure of a piece of memory, field by field. -/
def MemoryAffinity.record (e : MemoryAffinity) : Bytes :=
  packFields [(1, 1), (1, 40), (4, e.domain), (2, 0), (8, e.base), (8, e.length), (4, 0),
    (4, e.flags), (8, 0)]

/-- The numbers of an entry fit their places. -/
structure MemoryAffinity.Fits (e : MemoryAffinity) : Prop where
  domain : e.domain < 4294967296
  base : e.base < 18446744073709551616
  length : e.length < 18446744073709551616
  flags : e.flags < 4294967296

/-- What `build_srat_memory` appends, as an entry. -/
def memoryAffinity (base len : UInt64) (node : ℤ) (flags : UInt32) : MemoryAffinity :=
  ⟨(node % 4294967296).toNat, base.toNat, len.toNat, flags.toNat⟩

/-- What is written of a piece of memory fits its fields, so reading finds the same
numbers. -/
theorem fits_memoryAffinity (base len : UInt64) (node : ℤ) (flags : UInt32) :
    (memoryAffinity base len node flags).Fits where
  domain := by
    rw [memoryAffinity]
    dsimp only
    omega
  base := base.toNat_lt
  length := len.toNat_lt
  flags := flags.toNat_lt

/-- Of a signed number only the lower bytes are written: numbers that agree on 32
bits give the same bytes. -/
theorem leBytes_ofInt {n : ℕ} (hn : n ≤ 4) {x y : ℤ} (h : x % 4294967296 = y % 4294967296) :
    leBytes n (UInt64.ofInt x).toNat = leBytes n (y % 4294967296).toNat := by
  have hmod : (UInt64.ofInt x).toNat % 4294967296 = (y % 4294967296).toNat % 4294967296 := by
    rw [UInt64.ofInt, UInt64.toNat_ofNat']
    omega
  have hdvd : 256 ^ n ∣ 4294967296 := Nat.pow_dvd_pow 256 hn
  rw [← leBytes_mod n (UInt64.ofInt x).toNat, ← Nat.mod_mod_of_dvd _ hdvd, hmod,
    Nat.mod_mod_of_dvd _ hdvd, leBytes_mod]

/-- `build_srat_memory` appends one structure for memory and changes nothing else. -/
theorem buildSratMemory_eq (tableData : Bytes) (base len : UInt64) (node : ℤ) (flags : UInt32) :
    buildSratMemory tableData base len node flags =
      tableData ++ (memoryAffinity base len node flags).record := by
  have hhalves (x : UInt64) :
      leBytes 8 x.toNat = leBytes 4 x.toNat ++ leBytes 4 (x >>> 32).toNat := by
    have hhigh : (x >>> 32).toNat = x.toNat / 256 ^ 4 := by
      rw [UInt64.toNat_shiftRight]
      exact Nat.shiftRight_eq_div_pow _ _
    rw [hhigh]
    exact leBytes_add 4 4 x.toNat
  simp only [buildSratMemory, buildAppendIntNoprefix_eq, MemoryAffinity.record, memoryAffinity,
    packFields_cons, packFields_nil, hhalves base, hhalves len, leBytes_ofInt (Nat.le_refl 4) rfl,
    UInt32.toNat_toUInt64, List.append_assoc, List.append_nil]
  rfl

/-- The loop over the processors appends one structure for each of them. -/
theorem sratProcessor_eq (tableData : Bytes) (cpu : CPUArchId) :
    sratProcessor tableData cpu = tableData ++ processorRecord cpu := by
  have hint : (Int32.ofInt cpu.props.nodeId).toInt % 4294967296 =
      cpu.props.nodeId % 4294967296 := by
    rw [Int32.toInt_ofInt]
    exact Int.bmod_emod
  have hdomain (n : ℕ) (hn : n ≤ 4) :
      leBytes n (UInt64.ofInt (Int32.ofInt cpu.props.nodeId).toInt).toNat = leBytes n cpu.domain :=
    leBytes_ofInt hn hint
  unfold sratProcessor processorRecord
  simp only [buildAppendIntNoprefix_eq, packFields_cons, packFields_nil, hdomain 1 (by decide),
    hdomain 4 (Nat.le_refl 4), UInt32.toNat_toUInt64, List.append_assoc, List.append_nil]
  by_cases hshort : cpu.archId.toUInt32 < 255
  · rw [if_pos hshort, if_pos hshort]
    rfl
  · rw [if_neg hshort, if_neg hshort]
    rfl

/-- The whole loop over the processors appends their structures in order. -/
theorem foldl_sratProcessor (tableData : Bytes) (cpus : List CPUArchId) :
    cpus.foldl sratProcessor tableData = tableData ++ (cpus.map processorRecord).flatten := by
  induction cpus generalizing tableData with
  | nil => exact (List.append_nil _).symm
  | cons cpu cpus ih =>
    rw [List.foldl_cons, ih, sratProcessor_eq, List.map_cons, List.flatten_cons,
      List.append_assoc]

/-! ## Reading structures -/

/-- Fields behind a type and a length make a structure, when the length is that of
all fields. -/
theorem isRecord_packFields {type length : ℕ} {fields : List (ℕ × ℕ)} (hlength : length < 256)
    (h : 2 + (fields.map Prod.fst).sum = length) :
    IsRecord structureSize (packFields ((1, type) :: (1, length) :: fields)) := by
  refine isRecord_of_length (UInt8.ofNat type) (UInt8.ofNat length) rfl ?_
  rw [length_packFields, UInt8.toNat_ofNat_of_lt' hlength, ← h]
  simp only [List.map_cons, List.sum_cons]
  omega

/-- A processor's structure gives its own length, so a walk stops behind it. -/
theorem isRecord_processorRecord (cpu : CPUArchId) :
    IsRecord structureSize (processorRecord cpu) := by
  unfold processorRecord
  split
  · exact isRecord_packFields (by decide) rfl
  · exact isRecord_packFields (by decide) rfl

/-- So does that of a piece of memory. -/
theorem isRecord_record (e : MemoryAffinity) : IsRecord structureSize e.record :=
  isRecord_packFields (by decide) rfl

/-- An entry for memory is read as it was. -/
theorem readMemoryAffinity_record {e : MemoryAffinity} (h : e.Fits) :
    readMemoryAffinity e.record = some e := by
  have hread := readFields_packFields_of_fit [(1, 1), (1, 40), (4, e.domain), (2, 0),
    (8, e.base), (8, e.length), (4, 0), (4, e.flags), (8, 0)]
    (by simpa using ⟨h.domain, h.base, h.length, h.flags⟩) []
  rw [List.append_nil] at hread
  simp only [List.map_cons, List.map_nil] at hread
  rw [readMemoryAffinity, MemoryAffinity.record, hread]
  rfl

/-- A processor is not mistaken for memory: the type is another one. -/
theorem readMemoryAffinity_processorRecord (cpu : CPUArchId) :
    readMemoryAffinity (processorRecord cpu) = none := by
  unfold processorRecord
  split
  · rfl
  · rfl

/-- Eight bits of the node are kept of a processor with a short id. -/
def CPUArchId.affinity (cpu : CPUArchId) : ProcessorAffinity where
  apicId := cpu.archId.toUInt32.toNat
  domain := if cpu.archId.toUInt32 < 255 then cpu.domain % 256 else cpu.domain
  flags := 1

/-- The proximity domain is written with 32 bits, so it is below `2 ^ 32`. -/
theorem domain_lt (cpu : CPUArchId) : cpu.domain < 4294967296 := by
  rw [CPUArchId.domain]
  omega

/-- A processor is read back with its id, its domain and its flag, from whichever
of the two structures it was written to. -/
theorem readApicAffinity_processorRecord (cpu : CPUArchId) :
    (readApicAffinity (processorRecord cpu) <|> readX2apicAffinity (processorRecord cpu)) =
      some cpu.affinity := by
  by_cases hshort : cpu.archId.toUInt32 < 255
  · have hread := readFields_packFields [(1, 0), (1, 16), (1, cpu.domain),
      (1, cpu.archId.toUInt32.toNat), (4, 1), (1, 0), (3, 0), (4, 0)] []
    have hid : cpu.archId.toUInt32.toNat < 255 := hshort
    rw [List.append_nil] at hread
    simp only [List.map_cons, List.map_nil] at hread
    rw [processorRecord, if_pos hshort, readApicAffinity, hread, CPUArchId.affinity,
      if_pos hshort]
    simp only [Nat.pow_one, Nat.mod_eq_of_lt (Nat.lt_trans hid (by decide : 255 < 256))]
    rfl
  · have hread := readFields_packFields_of_fit [(1, 2), (1, 24), (2, 0), (4, cpu.domain),
      (4, cpu.archId.toUInt32.toNat), (4, 1), (4, 0), (4, 0)]
      (by simpa using ⟨domain_lt cpu, cpu.archId.toUInt32.toNat_lt⟩) []
    rw [List.append_nil] at hread
    simp only [List.map_cons, List.map_nil] at hread
    rw [processorRecord, if_neg hshort, readX2apicAffinity, hread, CPUArchId.affinity,
      if_neg hshort]
    rfl

/-- Memory is not mistaken for a processor. -/
theorem readProcessor_record (e : MemoryAffinity) :
    (readApicAffinity e.record <|> readX2apicAffinity e.record) = none := rfl

end AcpiTables.AmlBuild
