import AcpiTables.BuildTables

/-!
# Switches

A switch of the configuration turns one optional table on. `turnOn_inserts`: the
build then has one table more, the tables behind it move by its length, and the
RSDT has one entry more.

The builds with and without the table are made of the same parts, because DSDT,
FADT and MADT do not look at the switches (`buildDsdt_turnOn` and the lemmas behind
it), so their chunks differ by one in the middle. What follows for the tables in
front and behind is said of any two such lists of chunks (`sameTable_before`,
`sameTable_after`, `inserted_of_chunks`), and no switch is looked at again.
-/

namespace AcpiTables

open MachineInt

/-- The switches, with what they are turned to. -/
inductive Switch where
  | vmgenid
  | tpm (kind : TpmKind)
  | numa
  | slit
  | hmat
  | mcfg
  | iommu (kind : IommuKind)
  | nvdimm
  | cxl

namespace Switch

/-- The switch is off in the configuration. -/
def IsOff (config : PlatformConfig) : Switch → Prop
  | vmgenid => config.hasVmgenid = false
  | tpm _ => config.tpmKind = none
  | numa => config.hasNuma = false
  | slit => config.hasSlit = false
  | hmat => config.hasHmat = false
  | mcfg => config.hasMcfg = false
  | iommu _ => config.iommuKind = none
  | nvdimm => config.nvdimmEnabled = false
  | cxl => config.cxlEnabled = false

/-- The configuration with the switch on, and everything else as it was. -/
def turnOn (config : PlatformConfig) : Switch → PlatformConfig
  | vmgenid => { config with hasVmgenid := true }
  | tpm kind => { config with tpmKind := some kind }
  | numa => { config with hasNuma := true }
  | slit => { config with hasSlit := true }
  | hmat => { config with hasHmat := true }
  | mcfg => { config with hasMcfg := true }
  | iommu kind => { config with iommuKind := some kind }
  | nvdimm => { config with nvdimmEnabled := true }
  | cxl => { config with cxlEnabled := true }

/-- The table of a switch. -/
def chunk (config : PlatformConfig) : Switch → Chunk
  | vmgenid => reservedChunk (bstr "SSDT") config
  | tpm .tcpa => reservedChunk (bstr "TCPA") config
  | tpm .tpm2 => reservedChunk (bstr "TPM2") config
  | numa => reservedChunk (bstr "SRAT") config
  | slit => reservedChunk (bstr "SLIT") config
  | hmat => reservedChunk (bstr "HMAT") config
  | mcfg => (bstr "MCFG", buildMcfg config)
  | iommu .dmar => reservedChunk (bstr "DMAR") config
  | iommu .ivrs => reservedChunk (bstr "IVRS") config
  | iommu .viot => reservedChunk (bstr "VIOT") config
  | nvdimm => reservedChunk (bstr "NFIT") config
  | cxl => reservedChunk (bstr "CEDT") config

/-- The section of a switch among the optional ones. -/
def index : Switch → ℕ
  | vmgenid => 0
  | tpm _ => 2
  | numa => 3
  | slit => 4
  | hmat => 5
  | mcfg => 6
  | iommu _ => 7
  | nvdimm => 8
  | cxl => 9

section

variable (config : PlatformConfig) (sw : Switch)

/-- Turning a switch on fills its section of the optional tables. -/
theorem optionalSections_turnOn :
    optionalSections (sw.turnOn config) =
      (optionalSections config).set sw.index [sw.chunk config] := by
  rcases sw with - | (- | -) | - | - | - | - | (- | - | -) | - | - <;> rfl

variable {config sw} in

/-- The section of a switch that is off is empty. -/
theorem optionalSections_off (h : sw.IsOff config) :
    (optionalSections config)[sw.index]? = some [] := by
  cases sw with
  | tpm kind =>
    have h : config.tpmKind = none := h
    simp [optionalSections, index, tpmSection, h]
  | iommu kind =>
    have h : config.iommuKind = none := h
    simp [optionalSections, index, iommuSection, h]
  | _ =>
    simp only [IsOff] at h
    simp [optionalSections, index, h]

/-- The DSDT does not depend on the switches. -/
theorem buildDsdt_turnOn : buildDsdt (sw.turnOn config) = buildDsdt config := by
  cases sw <;> rfl

/-- The MADT does not depend on the switches. -/
theorem buildMadt_turnOn : buildMadt (sw.turnOn config) = buildMadt config := by
  cases sw <;> rfl

/-- The FADT does not depend on the switches. -/
theorem buildFadt_turnOn (facsAddress dsdtAddress : UInt64) :
    buildFadtWithFacs (sw.turnOn config) facsAddress dsdtAddress =
      buildFadtWithFacs config facsAddress dsdtAddress := by
  cases sw <;> rfl

end

end Switch

/-! ## A table between others -/

/-- A section that is empty is filled. -/
theorem exists_flatten_set {α : Type} {xss : List (List α)} {i : ℕ} (c : α)
    (h : xss[i]? = some []) :
    ∃ pre post, xss.flatten = pre ++ post ∧ (xss.set i [c]).flatten = pre ++ c :: post := by
  induction xss generalizing i with
  | nil => cases h
  | cons xs xss ih =>
    cases i with
    | zero =>
      obtain rfl := Option.some.inj h
      exact ⟨[], xss.flatten, rfl, rfl⟩
    | succ i =>
      obtain ⟨pre, post, hflat, hset⟩ := ih h
      refine ⟨xs ++ pre, post, ?_, ?_⟩
      · rw [List.flatten_cons, hflat, List.append_assoc]
      · rw [List.set_cons_succ, List.flatten_cons, hset, List.append_assoc]

/-- A table of one build is found in another, further on by a distance. -/
structure SameTable (d : ℕ) (data data' : Bytes) (t t' : TableRef) : Prop where
  signature_eq : t'.signature = t.signature
  length_eq : t'.length = t.length
  offset_eq : t'.offset.toNat = t.offset.toNat + d
  bytes_eq : slice data' t'.offset.toNat t'.length.toNat = slice data t.offset.toNat t.length.toNat

section

variable {front : Bytes} {xs ys rest rest' : List Chunk} {c : Chunk} {start : ℕ}
  (hfront : front.length = start)

include hfront

/-- The tables in front of the new one keep their bytes and their offsets. -/
theorem sameTable_before
    (hfit : (front ++ layChunks (xs ++ rest)).length < 4294967296) :
    List.Forall₂ (SameTable 0 (front ++ layChunks (xs ++ rest)) (front ++ layChunks (xs ++ rest')))
      (tableRefs start xs) (tableRefs start xs) := by
  refine List.forall₂_same.mpr fun t ht => ⟨rfl, rfl, rfl, ?_⟩
  rw [layChunks_append, List.length_append, List.length_append] at hfit
  obtain ⟨p, hp, -, hoffset, hlength⟩ := mem_tableRefs ht (by omega)
  have hbounds := (bounds_of_mem_place hp).2
  have hin : t.offset.toNat + t.length.toNat ≤ (front ++ layChunks xs).length := by
    rw [List.length_append]
    omega
  rw [layChunks_append, layChunks_append, ← List.append_assoc, ← List.append_assoc,
    slice_append_left hin, slice_append_left hin]

/-- The tables behind the new one keep their bytes, and are moved by its length. -/
theorem sameTable_after
    (hfit : (front ++ layChunks (xs ++ c :: (ys ++ rest'))).length < 4294967296) :
    List.Forall₂ (SameTable c.2.length (front ++ layChunks (xs ++ (ys ++ rest)))
        (front ++ layChunks (xs ++ c :: (ys ++ rest'))))
      (tableRefs (start + (layChunks xs).length) ys)
      (tableRefs (start + (layChunks xs).length + c.2.length) ys) := by
  have hmove := place_add (start + (layChunks xs).length) c.2.length ys
  rw [tableRefs, tableRefs, hmove, List.map_map, List.forall₂_map_left_iff,
    List.forall₂_map_right_iff]
  refine List.forall₂_same.mpr fun p hp => ?_
  rw [layChunks_append, layChunks_cons, layChunks_append, List.length_append, List.length_append,
    List.length_append, List.length_append] at hfit
  have hbounds := bounds_of_mem_place hp
  have hoffset := @toNat_offset_ofPlaced p (by omega)
  have hlength := @toNat_length_ofPlaced p (by omega)
  have hmoved := @toNat_offset_ofPlaced (p.shift c.2.length) (by rw [Placed.shift_offset]; omega)
  have hmovedLength := @toNat_length_ofPlaced (p.shift c.2.length)
    (by rw [Placed.shift_length]; omega)
  rw [Function.comp_apply]
  refine ⟨rfl, rfl, ?_, ?_⟩
  · rw [hmoved, hoffset, Placed.shift_offset]
  · rw [hmoved, hoffset, hlength, hmovedLength, Placed.shift_offset, Placed.shift_length]
    -- both read the same bytes of the tables behind
    obtain ⟨k, hk⟩ := Nat.exists_eq_add_of_le hbounds.1
    have hin : k + p.length ≤ (layChunks ys).length := by omega
    have hnew : p.offset + c.2.length = (front ++ layChunks xs ++ c.2).length + k := by
      rw [List.length_append, List.length_append]
      omega
    have hold : p.offset = (front ++ layChunks xs).length + k := by
      rw [List.length_append]
      omega
    have hdata : front ++ layChunks (xs ++ (ys ++ rest)) =
        front ++ layChunks xs ++ (layChunks ys ++ layChunks rest) := by
      simp only [layChunks_append, List.append_assoc]
    have hdata' : front ++ layChunks (xs ++ c :: (ys ++ rest')) =
        front ++ layChunks xs ++ c.2 ++ (layChunks ys ++ layChunks rest') := by
      simp only [layChunks_append, layChunks_cons, List.append_assoc]
    rw [hnew, hold, hdata, hdata', slice_append_right, slice_append_right, slice_append_left hin,
      slice_append_left hin]

end

/-! ## One table more -/

/-- The listed tables of two lists, one after the other. -/
theorem listedTables_append (ts us : List TableRef) :
    listedTables (ts ++ us) = listedTables ts ++ listedTables us :=
  List.filter_append ..

/-- A table of any other signature than these three is listed. -/
theorem listedTables_cons {t : TableRef} (ts : List TableRef)
    (h : t.signature ∉ [bstr "FACS", bstr "DSDT", bstr "RSDT"]) :
    listedTables (t :: ts) = t :: listedTables ts :=
  List.filter_cons_of_pos (decide_eq_true h)

/-- The root table does not list itself. -/
theorem listedTables_rsdt {t : TableRef} (h : t.signature = bstr "RSDT") : listedTables [t] = [] :=
  List.filter_cons_of_neg (by rw [h]; decide)

/-- A build has one table more than another, with the bytes of `c`: the tables in
front of it stay, the tables behind it move by its length, and the RSDT, which is
the last, has one more entry, at its rank. -/
structure Inserted (config : PlatformConfig) (c : Chunk) (built built' : BuiltBlob)
    (before after after' : List TableRef) (new rsdt rsdt' : TableRef) : Prop where
  tables_eq : built.blob.tables = before ++ after ++ [rsdt]
  tables_eq' : built'.blob.tables = before ++ new :: after' ++ [rsdt']
  length_data : built'.blob.data.length = built.blob.data.length + c.2.length + 4
  before_same :
    List.Forall₂ (SameTable 0 built.blob.data built'.blob.data) before before
  after_same :
    List.Forall₂ (SameTable c.2.length built.blob.data built'.blob.data) after after'
  new_signature : new.signature = c.1
  new_length : new.length.toNat = c.2.length
  new_bytes : slice built'.blob.data new.offset.toNat new.length.toNat = c.2
  rsdt_signature : rsdt.signature = bstr "RSDT" ∧ rsdt'.signature = bstr "RSDT"
  rsdt_offset : rsdt'.offset.toNat = rsdt.offset.toNat + c.2.length
  rsdt_length : rsdt'.length.toNat = rsdt.length.toNat + 4
  entries :
    slice built.blob.data (rsdt.offset.toNat + 36) (rsdt.length.toNat - 36) =
      ((listedTables before).flatMap fun t => leBytes 4 (tableAddress config t)) ++
        (listedTables after).flatMap fun t => leBytes 4 (tableAddress config t)
  entries' :
    slice built'.blob.data (rsdt'.offset.toNat + 36) (rsdt'.length.toNat - 36) =
      ((listedTables before).flatMap fun t => leBytes 4 (tableAddress config t)) ++
        leBytes 4 (tableAddress config new) ++
          (listedTables after').flatMap fun t => leBytes 4 (tableAddress config t)

namespace Switch

/-- The table of a switch is one that is listed. -/
theorem signature_chunk (config : PlatformConfig) (sw : Switch) :
    (sw.chunk config).1 ∉ [bstr "FACS", bstr "DSDT", bstr "RSDT"] := by
  have hmem : (sw.chunk config).1 ∈ optionalSignatures.flatten := by
    rcases sw with - | (- | -) | - | - | - | - | (- | - | -) | - | - <;>
      simp [chunk, reservedChunk, optionalSignatures]
  exact signature_listed _ (List.mem_append_left _ (List.mem_append_right _ hmem))

/-- Turning a switch on adds its table at one place among the listed ones. -/
theorem exists_listedChunks {config : PlatformConfig} {sw : Switch} (h : sw.IsOff config)
    (fadt madt : Bytes) :
    ∃ pre post, listedChunks config fadt madt = pre ++ post ∧
      listedChunks (sw.turnOn config) fadt madt = pre ++ sw.chunk config :: post := by
  obtain ⟨pre, post, hflat, hset⟩ := exists_flatten_set (sw.chunk config) (optionalSections_off h)
  have hwaet : buildWaet (sw.turnOn config) = buildWaet config := by cases sw <;> rfl
  refine ⟨[(bstr "FACP", fadt), (bstr "APIC", madt)] ++ pre,
    post ++ [(bstr "WAET", buildWaet config)],
    ?_, ?_⟩
  · rw [listedChunks, hflat]
    simp only [List.append_assoc]
  · rw [listedChunks, optionalSections_turnOn, hset, hwaet]
    simp only [List.append_assoc, List.cons_append]

/-- The switch does not move the blob. -/
theorem blobBaseAddress_turnOn (config : PlatformConfig) (sw : Switch) :
    (sw.turnOn config).blobBaseAddress = config.blobBaseAddress := by
  cases sw <;> rfl

/-- The switch does not change what is in front of the tables. -/
theorem frontBytes_turnOn (config : PlatformConfig) (sw : Switch) :
    frontBytes (sw.turnOn config) = frontBytes config := by
  cases sw <;> rfl

/-- The switch does not change the address of an offset. -/
theorem addressAt_turnOn (config : PlatformConfig) (sw : Switch) (offset : UInt32) :
    addressAt (sw.turnOn config) offset = addressAt config offset := by
  rw [addressAt, addressAt, blobBaseAddress_turnOn]

/-- The build with a switch turned on, by the same parts. -/
theorem exists_builtFrom_turnOn {config : PlatformConfig} {parts : BuildParts} {built : BuiltBlob}
    {sw : Switch} (hoff : sw.IsOff config) (h : BuiltFrom config parts built)
    (hfit : config.blobBaseAddress.toNat +
      (built.blob.data.length + (sw.chunk config).2.length + 4) < 4294967296) :
    ∃ parts' built', BuiltFrom (sw.turnOn config) parts' built' ∧ parts'.dsdt = parts.dsdt ∧
      parts'.fadt = parts.fadt ∧ parts'.madt = parts.madt ∧
      built'.blob.data.length = built.blob.data.length + (sw.chunk config).2.length + 4 := by
  obtain ⟨pre, post, hlisted, hlisted'⟩ := exists_listedChunks hoff parts.fadt parts.madt
  have hentries := length_of_addressesAt h.entries_ok
  have hlength := h.length_data
  rw [allChunks, mainChunks, hlisted] at hlength
  rw [hlisted] at hentries
  simp only [layChunks_append, layChunks_cons, layChunks_nil, List.length_append, List.append_nil,
    length_buildRsdt, length_facsBytes] at hlength hentries
  refine exists_builtFrom (by rw [buildDsdt_turnOn, h.dsdt_ok])
    (by rw [addressAt_turnOn, frontBytes_turnOn, h.facsAddress_ok])
    (by rw [addressAt_turnOn, frontBytes_turnOn, h.dsdtAddress_ok])
    (by rw [buildFadt_turnOn, h.fadt_ok]) (by rw [buildMadt_turnOn, h.madt_ok]) ?_ (by omega)
    (by rw [blobBaseAddress_turnOn]; omega)
  rw [frontBytes_turnOn, mainChunks, hlisted']
  simp only [layChunks_append, layChunks_cons, layChunks_nil, List.length_append, List.append_nil,
    length_facsBytes, List.length_cons]
  omega

end Switch

section

variable {config config' : PlatformConfig} {parts parts' : BuildParts} {built built' : BuiltBlob}
  {xs ys : List Chunk} {c : Chunk} {r r' : Bytes}

/-- Two builds whose chunks differ by one in the middle, and in the RSDT. -/
theorem inserted_of_chunks (h : BuiltFrom config parts built)
    (h' : BuiltFrom config' parts' built') (hfront : frontBytes config' = frontBytes config)
    (hbase : config'.blobBaseAddress = config.blobBaseAddress)
    (hall : allChunks config parts = xs ++ (ys ++ [(bstr "RSDT", r)]))
    (hall' : allChunks config' parts' = xs ++ c :: (ys ++ [(bstr "RSDT", r')]))
    (hc : c.1 ∉ [bstr "FACS", bstr "DSDT", bstr "RSDT"])
    (hlength : built'.blob.data.length = built.blob.data.length + c.2.length + 4)
    (hfit : config.blobBaseAddress.toNat + built'.blob.data.length < 4294967296) :
    ∃ before after after' new rsdt rsdt',
      Inserted config c built built' before after after' new rsdt rsdt' := by
  have hdata := h.data_eq
  have hdata' := h'.data_eq
  have hsize := h.length_data
  have hsize' := h'.length_data
  rw [hall] at hdata hsize
  rw [hall', hfront] at hdata' hsize'
  simp only [layChunks_append, layChunks_cons, layChunks_nil, List.length_append,
    List.append_nil] at hsize hsize'
  set front := (frontBytes config).length with hfrontLength
  -- the tables in front of the new one stay, those behind move by its length
  have htables : built.blob.tables = tableRefs front xs ++
      tableRefs (front + (layChunks xs).length) ys ++
      [.ofPlaced
        ⟨bstr "RSDT", front + (layChunks xs).length + (layChunks ys).length, r.length⟩] := by
    rw [h.tables_eq, hall, tableRefs_append, tableRefs_append, ← List.append_assoc]
    rfl
  have htables' : built'.blob.tables = tableRefs front xs ++
      .ofPlaced ⟨c.1, front + (layChunks xs).length, c.2.length⟩ ::
        tableRefs (front + (layChunks xs).length + c.2.length) ys ++
      [.ofPlaced ⟨bstr "RSDT", front + (layChunks xs).length + c.2.length + (layChunks ys).length,
        r'.length⟩] := by
    have hrest := tableRefs_append (front + (layChunks xs).length + c.2.length) ys
      [(bstr "RSDT", r')]
    have hcons : ∀ start ds, tableRefs start (c :: ds) =
      .ofPlaced ⟨c.1, start, c.2.length⟩ :: tableRefs (start + c.2.length) ds := fun _ _ => rfl
    rw [h'.tables_eq, hall', hfront, tableRefs_append, hcons, hrest, List.append_assoc]
    rfl
  refine ⟨tableRefs front xs, tableRefs (front + (layChunks xs).length) ys,
    tableRefs (front + (layChunks xs).length + c.2.length) ys, _, _, _, ⟨htables, htables', hlength,
      ?_, ?_, rfl, ?_, ?_, ⟨rfl, rfl⟩, ?_, ?_, ?_, ?_⟩⟩
  · rw [hdata, hdata']
    exact sameTable_before rfl (by rw [← hdata]; omega)
  · rw [hdata, hdata']
    exact sameTable_after rfl (by rw [← hdata']; omega)
  · exact toNat_length_ofPlaced (by dsimp only; omega)
  · rw [toNat_offset_ofPlaced (by dsimp only; omega), toNat_length_ofPlaced (by dsimp only; omega),
      hdata', slice_layChunks]
  · rw [toNat_offset_ofPlaced (by dsimp only; omega), toNat_offset_ofPlaced (by dsimp only; omega)]
    dsimp only
    omega
  · rw [toNat_length_ofPlaced (by dsimp only; omega), toNat_length_ofPlaced (by dsimp only; omega)]
    dsimp only
    omega
  · rw [h.rsdt_payload (by omega) (by rw [htables]; simp) rfl, htables, listedTables_append,
      listedTables_append, listedTables_rsdt rfl, List.append_nil, List.flatMap_append]
  · have haddress : tableAddress config' = tableAddress config := by
      funext t
      rw [tableAddress, tableAddress, hbase]
    rw [h'.rsdt_payload (by rw [hbase]; omega) (by rw [htables']; simp) rfl, htables', haddress,
      listedTables_append, listedTables_append, listedTables_rsdt rfl, List.append_nil,
      listedTables_cons _ hc, List.flatMap_append, List.flatMap_cons, List.append_assoc]

end

/-- **One switch, one table.** Turning on a switch that is off, with the new blob
still below 2^32, gives a build again, with one table more: the tables in front of
it keep their bytes and their offsets, those behind it keep their bytes and move
by its length, and the RSDT has one more entry, at the rank of the table. -/
theorem turnOn_inserts {config : PlatformConfig} {built : BuiltBlob} {sw : Switch}
    (hoff : sw.IsOff config) (h : buildMinimalAcpi config = .ok built)
    (hfit : config.blobBaseAddress.toNat +
      (built.blob.data.length + (sw.chunk config).2.length + 4) < 4294967296) :
    ∃ built', buildMinimalAcpi (sw.turnOn config) = .ok built' ∧
      ∃ before after after' new rsdt rsdt',
        Inserted config (sw.chunk config) built built' before after after' new rsdt rsdt' := by
  obtain ⟨parts, hparts⟩ := buildMinimalAcpi_eq_ok.mp h
  obtain ⟨parts', built', hparts', hdsdt, hfadt, hmadt, hlength⟩ :=
    Switch.exists_builtFrom_turnOn hoff hparts hfit
  refine ⟨built', buildMinimalAcpi_eq_ok.mpr ⟨parts', hparts'⟩, ?_⟩
  obtain ⟨pre, post, hlisted, hlisted'⟩ :=
    Switch.exists_listedChunks hoff parts.fadt parts.madt
  have hall : allChunks config parts =
      [(bstr "FACS", facsBytes), (bstr "DSDT", parts.dsdt)] ++ pre ++
      (post ++ [(bstr "RSDT", buildRsdt config parts.entries)]) := by
    rw [allChunks, mainChunks, hlisted]
    simp only [List.append_assoc]
  have hall' : allChunks (sw.turnOn config) parts' =
      [(bstr "FACS", facsBytes), (bstr "DSDT", parts.dsdt)] ++ pre ++ sw.chunk config ::
        (post ++ [(bstr "RSDT", buildRsdt (sw.turnOn config) parts'.entries)]) := by
    rw [allChunks, mainChunks, hdsdt, hfadt, hmadt, hlisted']
    simp only [List.append_assoc, List.cons_append]
  exact inserted_of_chunks hparts hparts' (Switch.frontBytes_turnOn config sw)
    (Switch.blobBaseAddress_turnOn config sw) hall hall' (Switch.signature_chunk config sw) hlength
    (by omega)

theorem turnOn_inserts_twoDisks :
    ∃ built built', buildMinimalAcpi .twoDisks = .ok built ∧
      buildMinimalAcpi { PlatformConfig.twoDisks with hasNuma := true } = .ok built' ∧
      ∃ before after after' new rsdt rsdt',
        Inserted .twoDisks (Switch.numa.chunk .twoDisks) built built' before after after' new rsdt
          rsdt' := by
  obtain ⟨built, hbuilt, hlength⟩ := buildMinimalAcpi_twoDisks
  have hbase : PlatformConfig.twoDisks.blobBaseAddress.toNat = 0 := rfl
  have hcpus : PlatformConfig.twoDisks.cpuApicIds.length ≤ 1000 := by decide
  have hchunk : (Switch.numa.chunk .twoDisks).2.length ≤ 24048 := by
    change (reservedBytes (bstr "SRAT") .twoDisks).length ≤ 24048
    exact (length_reservedBytes (bstr "SRAT") hcpus).2
  obtain ⟨built', hbuilt', hinserted⟩ :=
    @turnOn_inserts .twoDisks built .numa rfl hbuilt (by omega)
  exact ⟨built, built', hbuilt, hbuilt', hinserted⟩

end AcpiTables
