import AcpiTables.Tables
import AcpiTables.Walk

/-!
# Reading the MADT back

The structures of a MADT follow one another behind byte 44; the second byte of
each is its length. `madtProcessors` reads the processor entries among them, as
an operating system does.

The table is `madtTable`: its header, the two fields and the entries `madtRecords`,
each of which is one structure, so that the walk finds them all
(`madtStructures_madtTable`). A processor entry keeps one byte of the index and one
of the APIC id (`madtProcessors_buildMadt`); so the CPUs are told apart exactly
when both fit, `madt_describes_iff`, and the 257th CPU looks like the first
(`madt_257_duplicates`).
-/

namespace AcpiTables

open MachineInt

/-! ## The reader -/

/-- The length of the structure in front. -/
def structureSize : Bytes → Option ℕ
  | _ :: length :: _ => some length.toNat
  | _ => none

/-- The structures behind the header and the two fields of the table. -/
def madtStructures (madt : Bytes) : Option (List Bytes) :=
  walk structureSize madt.length (madt.drop 44)

/-- What an entry says of a processor. -/
structure ProcessorEntry where
  uid : ℕ
  apicId : ℕ
  enabled : Bool
  deriving DecidableEq

/-- Read a structure of type 0. -/
def readProcessor (s : Bytes) : ProcessorEntry where
  uid := leValue (slice s 2 1)
  apicId := leValue (slice s 3 1)
  enabled := leValue (slice s 4 4) % 2 = 1

/-- The processor entries, in order. -/
def madtProcessors (madt : Bytes) : Option (List ProcessorEntry) :=
  (madtStructures madt).map fun structures =>
    (structures.filter fun s => s.head? == some 0).map readProcessor

/-! ## The structures of a table -/

/-- The entry of the I/O interrupt controller. -/
def madtIoApic (config : PlatformConfig) : Bytes :=
  [1] ++ [12] ++ [config.ioapicId] ++ [0] ++ toLeBytes config.ioapicAddress ++
    toLeBytes config.ioapicGsiBase

/-- The entry of the power management interrupt. -/
def madtSciOverride (config : PlatformConfig) : Bytes :=
  [2] ++ [10] ++ [0] ++ [config.sciIrq.toUInt8] ++ toLeBytes config.sciIrq.toUInt32 ++
    toLeBytes (0x000d : UInt16)

/-- The processor entries that are written, one for each CPU. -/
def madtCpus (config : PlatformConfig) : List Bytes :=
  config.cpuApicIds.zipIdx.map fun (apicId, uid) => madtProcessor uid apicId

/-- What a MADT is made of, with so many entries of filling. -/
def madtRecords (config : PlatformConfig) (count : ℕ) : List Bytes :=
  madtCpus config ++ [madtIoApic config, madtSciOverride config] ++ List.replicate count madtNmi

/-- Bytes are one structure when their second byte is their length. -/
theorem isRecord_of_length {s : Bytes} (type length : UInt8)
    (hs : s = type :: length :: s.drop 2) (h : s.length = length.toNat) :
    IsRecord structureSize s := by
  refine ⟨fun hnil => ?_, fun rest => ?_⟩
  · rw [hnil] at hs
    cases hs
  · rw [h, hs]
    rfl

/-- Every entry of the table is one structure. -/
theorem isRecord_madtRecords (config : PlatformConfig) (count : ℕ) :
    ∀ s ∈ madtRecords config count, IsRecord structureSize s := by
  intro s hs
  rw [madtRecords, madtCpus] at hs
  rcases List.mem_append.mp hs with hs | hs
  · rcases List.mem_append.mp hs with hs | hs
    · obtain ⟨⟨apicId, uid⟩, -, rfl⟩ := List.mem_map.mp hs
      exact isRecord_of_length 0 8 rfl (length_madtProcessor uid apicId)
    · rcases List.mem_pair.mp hs with rfl | rfl
      · exact isRecord_of_length 1 12 rfl (by simp [madtIoApic])
      · exact isRecord_of_length 2 10 rfl (by simp [madtSciOverride])
  · obtain rfl := List.eq_of_mem_replicate hs
    exact isRecord_of_length 4 6 rfl rfl

/-- The table whose filling has so many entries. -/
def madtTable (config : PlatformConfig) (count : ℕ) : Bytes :=
  finalizeTable (config.header (bstr "APIC") 3)
    (madtFront config ++ (List.replicate count madtNmi).flatten)

/-- Behind its header and its fields the table is its entries. -/
theorem drop_madtTable (config : PlatformConfig) (count : ℕ) :
    (madtTable config count).drop 44 = (madtRecords config count).flatten := by
  have hhead : (toLeBytes config.localApicAddress ++ toLeBytes madtFlagPcatCompat).length = 8 := by
    simp
  have h44 : (44 : ℕ) = 36 + 8 := rfl
  rw [madtTable, h44, ← List.drop_drop, drop_finalizeTable, madtFront]
  simp only [List.append_assoc]
  rw [← List.append_assoc, List.drop_left' hhead, madtRecords, List.flatten_append,
    List.flatten_append, madtCpus, ← List.flatMap_def, madtIoApic, madtSciOverride]
  simp only [List.flatten_cons, List.flatten_nil, List.append_assoc, List.append_nil]

/-- **The structures of a MADT are found again.** -/
theorem madtStructures_madtTable (config : PlatformConfig) (count : ℕ) :
    madtStructures (madtTable config count) = some (madtRecords config count) := by
  have hdrop := drop_madtTable config count
  have hrecords := isRecord_madtRecords config count
  have hlength := length_le_length_flatten hrecords
  rw [madtStructures, hdrop]
  refine walk_flatten hrecords ?_
  rw [← hdrop, List.length_drop] at hlength
  omega

section

variable {config : PlatformConfig} {madt : Bytes} (h : buildMadt config = .ok madt)

include h

/-- The entries of the table are read back, with some number of filling ones. -/
theorem madtStructures_buildMadt :
    ∃ count, madtStructures madt = some (madtRecords config count) := by
  obtain ⟨count, htable⟩ := buildMadt_eq_ok h
  rw [← madtTable] at htable
  rw [htable]
  exact ⟨count, madtStructures_madtTable config count⟩

omit h in

/-- A processor entry is read back as its two ids, each cut to a byte. -/
theorem readProcessor_madtProcessor (uid : ℕ) (apicId : UInt32) :
    readProcessor (madtProcessor uid apicId) = ⟨uid % 256, apicId.toNat % 256, true⟩ := by
  have huid : leValue [UInt8.ofNat uid] = uid % 256 := by
    rw [leValue_cons, leValue_nil, Nat.mul_zero, Nat.add_zero, UInt8.toNat_ofNat']
  have hapicId : leValue [apicId.toUInt8] = apicId.toNat % 256 := by
    rw [leValue_cons, leValue_nil, Nat.mul_zero, Nat.add_zero, UInt32.toNat_toUInt8]
  rw [← huid, ← hapicId]
  rfl

/-- The processor entries keep the last byte of each number. -/
theorem madtProcessors_buildMadt :
    madtProcessors madt = some (config.cpuApicIds.zipIdx.map fun (apicId, uid) =>
      ⟨uid % 256, apicId.toNat % 256, true⟩) := by
  obtain ⟨count, hstructures⟩ := madtStructures_buildMadt h
  have hcpus : ∀ s ∈ madtCpus config, (s.head? == some 0) = true := by
    intro s hs
    obtain ⟨x, -, rfl⟩ := List.mem_map.mp hs
    rfl
  have hfill : ∀ s ∈ List.replicate count madtNmi, ¬(s.head? == some 0) = true := by
    intro s hs
    obtain rfl := List.eq_of_mem_replicate hs
    decide
  have hfixed : [madtIoApic config, madtSciOverride config].filter
      (fun s => s.head? == some 0) = [] := rfl
  rw [madtProcessors, hstructures, Option.map_some, madtRecords, List.filter_append,
    List.filter_append, List.filter_eq_self.mpr hcpus, List.filter_eq_nil_iff.mpr hfill, hfixed,
    List.append_nil, List.append_nil, madtCpus, List.map_map]
  exact congrArg some (List.map_congr_left fun x _ => readProcessor_madtProcessor x.2 x.1)

end

/-! ## Faithfulness -/

/-- The entries that describe the CPUs: each has its index and its id. -/
def faithfulEntries (config : PlatformConfig) : List ProcessorEntry :=
  config.cpuApicIds.zipIdx.map fun (apicId, uid) => ⟨uid, apicId.toNat, true⟩

/-- **The MADT describes its CPUs** exactly when indices and ids fit in a byte: at
most 256 CPUs, and no id above 255. Past that the builder still returns, with the
low byte of the index or of the id in the entry. -/
theorem madt_describes_iff (config : PlatformConfig) :
    (∃ madt, buildMadt config = .ok madt ∧
      madtProcessors madt = some (faithfulEntries config)) ↔
      config.cpuApicIds.length ≤ 256 ∧ ∀ apicId ∈ config.cpuApicIds, apicId.toNat < 256 := by
  constructor
  · rintro ⟨madt, hmadt, hfaithful⟩
    rw [madtProcessors_buildMadt hmadt] at hfaithful
    have hentries := List.map_inj_left.mp (Option.some.inj hfaithful)
    refine ⟨?_, fun apicId hmem => ?_⟩
    · -- the last CPU has the largest index
      by_contra hlong
      have hlt : 256 < config.cpuApicIds.length := Nat.lt_of_not_le hlong
      have hmem : (config.cpuApicIds[256], 256) ∈ config.cpuApicIds.zipIdx :=
        List.mem_zipIdx_iff_getElem?.mpr (List.getElem?_eq_getElem hlt)
      have huid : 256 % 256 = 256 := congrArg ProcessorEntry.uid (hentries _ hmem)
      exact absurd huid (by decide)
    · obtain ⟨uid, huid⟩ := List.mem_iff_getElem?.mp hmem
      have hid := congrArg ProcessorEntry.apicId
        (hentries (apicId, uid) (List.mem_zipIdx_iff_getElem?.mpr huid))
      exact (Nat.mod_eq_iff_lt (by decide)).mp hid
  · rintro ⟨hlength, hids⟩
    obtain ⟨madt, hmadt, -⟩ := @buildMadt_isOk config (by omega)
    refine ⟨madt, hmadt, ?_⟩
    rw [madtProcessors_buildMadt hmadt]
    refine congrArg some (List.map_congr_left ?_)
    rintro ⟨apicId, uid⟩ hmem
    have huid := List.snd_lt_of_mem_zipIdx hmem
    have hid := hids apicId (List.fst_mem_of_mem_zipIdx hmem)
    dsimp only
    rw [Nat.mod_eq_of_lt (by omega), Nat.mod_eq_of_lt hid]

/-- With 257 CPUs, the last one looks like the first. -/
theorem madt_257_duplicates :
    ∃ madt entries, buildMadt (.intelTdxQ35 257) = .ok madt ∧
      madtProcessors madt = some entries ∧ entries ≠ faithfulEntries (.intelTdxQ35 257) ∧
      entries[256]? = some ⟨0, 0, true⟩ ∧ entries[0]? = some ⟨0, 0, true⟩ := by
  have hlength : (PlatformConfig.intelTdxQ35 257).cpuApicIds.length = 257 := by
    simp [PlatformConfig.intelTdxQ35]
  obtain ⟨madt, hmadt, -⟩ := @buildMadt_isOk (.intelTdxQ35 257) (by omega)
  have hentry : ∀ i < 257, (PlatformConfig.intelTdxQ35 257).cpuApicIds.zipIdx[i]? =
      some (UInt32.ofNat i, i) := by
    intro i hi
    simp [PlatformConfig.intelTdxQ35, List.getElem?_range hi]
  refine ⟨madt, _, hmadt, madtProcessors_buildMadt hmadt, fun heq => ?_, ?_, ?_⟩
  · have hlast := congrArg (fun entries => entries[256]?) heq
    simp only [faithfulEntries, List.getElem?_map, hentry 256 (by decide)] at hlast
    exact absurd hlast (by decide)
  · rw [List.getElem?_map, hentry 256 (by decide)]
    rfl
  · rw [List.getElem?_map, hentry 0 (by decide)]
    rfl

end AcpiTables
