import AcpiTables.BuildChunks

/-!
# The parts of a build

What a build that returned went through is a `BuildParts`; `BuiltFrom` says how
the result comes from it. Conversely `buildMinimalAcpi_isOk`: with its DSDT, its
ports and its addresses in range a build returns, and its size is known up to
what the optional tables can take.

`buildMinimalAcpi_eq_ok` is the only place where the steps of the build are taken
apart. From there on what holds of every build is said of its parts, and a build is
known to return when they are given (`exists_builtFrom`). `blobBound` is a size
that no blob exceeds, whichever tables are in it.
-/

namespace AcpiTables

open MachineInt

/-! ## What a build went through -/

/-- The tables and addresses that can fail. -/
structure BuildParts where
  facsAddress : UInt64
  dsdtAddress : UInt64
  rsdtAddress : UInt64
  dsdt : Bytes
  fadt : Bytes
  madt : Bytes
  entries : List UInt64

/-- Everything that is appended. -/
def allChunks (config : PlatformConfig) (parts : BuildParts) : List Chunk :=
  mainChunks config parts.dsdt parts.fadt parts.madt ++
    [(bstr "RSDT", buildRsdt config parts.entries)]

/-- The parts belong to one build: each is what its builder returns at the
addresses that the parts before it fix. -/
structure BuiltFrom (config : PlatformConfig) (parts : BuildParts) (built : BuiltBlob) : Prop where
  dsdt_ok : buildDsdt config = .ok parts.dsdt
  facsAddress_ok :
    addressAt config (UInt32.ofNat (frontBytes config).length) = .ok parts.facsAddress
  dsdtAddress_ok :
    addressAt config (UInt32.ofNat ((frontBytes config).length + 64)) = .ok parts.dsdtAddress
  fadt_ok : buildFadtWithFacs config parts.facsAddress parts.dsdtAddress = .ok parts.fadt
  madt_ok : buildMadt config = .ok parts.madt
  entries_ok :
    addressesAt config.blobBaseAddress ((frontBytes config).length + (64 + parts.dsdt.length))
      (listedChunks config parts.fadt parts.madt) = .ok parts.entries
  rsdtAddress_ok :
    addressAt config (UInt32.ofNat ((frontBytes config).length +
      (layChunks (mainChunks config parts.dsdt parts.fadt parts.madt)).length)) =
      .ok parts.rsdtAddress
  data_eq : built.blob.data = frontBytes config ++ layChunks (allChunks config parts)
  tables_eq : built.blob.tables = tableRefs (frontBytes config).length (allChunks config parts)
  rsdp_eq : built.rsdp = buildRsdp config parts.rsdtAddress
  layout_ok : built.blob.tables.foldlM insertLayout ∅ = .ok built.layout

/-- A build returns exactly when all its parts are there. -/
theorem buildMinimalAcpi_eq_ok {config : PlatformConfig} {built : BuiltBlob} :
    buildMinimalAcpi config = .ok built ↔ ∃ parts, BuiltFrom config parts built := by
  rw [buildMinimalAcpi_eq]
  constructor
  · intro h
    obtain ⟨dsdt, hdsdt, h⟩ := Checked.bind_eq_ok.mp h
    obtain ⟨facsAddress, hfacs, h⟩ := Checked.bind_eq_ok.mp h
    obtain ⟨dsdtAddress, hdsdtAddress, h⟩ := Checked.bind_eq_ok.mp h
    obtain ⟨fadt, hfadt, h⟩ := Checked.bind_eq_ok.mp h
    obtain ⟨madt, hmadt, h⟩ := Checked.bind_eq_ok.mp h
    obtain ⟨entries, hentries, h⟩ := Checked.bind_eq_ok.mp h
    obtain ⟨rsdtAddress, hrsdt, h⟩ := Checked.bind_eq_ok.mp h
    obtain ⟨layout, hlayout, h⟩ := Checked.bind_eq_ok.mp h
    cases h
    exact ⟨⟨facsAddress, dsdtAddress, rsdtAddress, dsdt, fadt, madt, entries⟩, hdsdt, hfacs,
      hdsdtAddress, hfadt, hmadt, hentries, hrsdt, rfl, rfl, rfl, hlayout⟩
  · rintro ⟨parts, h⟩
    have hlayout := h.layout_ok
    rw [h.tables_eq] at hlayout
    have hblob : built.blob = ⟨frontBytes config ++ layChunks (allChunks config parts),
        tableRefs (frontBytes config).length (allChunks config parts)⟩ := by
      rw [← h.data_eq, ← h.tables_eq]
    refine Checked.bind_eq_ok.mpr ⟨_, h.dsdt_ok, ?_⟩
    refine Checked.bind_eq_ok.mpr ⟨_, h.facsAddress_ok, ?_⟩
    refine Checked.bind_eq_ok.mpr ⟨_, h.dsdtAddress_ok, ?_⟩
    refine Checked.bind_eq_ok.mpr ⟨_, h.fadt_ok, ?_⟩
    refine Checked.bind_eq_ok.mpr ⟨_, h.madt_ok, ?_⟩
    refine Checked.bind_eq_ok.mpr ⟨_, h.entries_ok, ?_⟩
    refine Checked.bind_eq_ok.mpr ⟨_, h.rsdtAddress_ok, ?_⟩
    refine Checked.bind_eq_ok.mpr ⟨_, hlayout, ?_⟩
    change Except.ok (BuiltBlob.mk ⟨_, _⟩ _ _) = _
    rw [← h.rsdp_eq]
    exact congrArg (fun blob => Except.ok (BuiltBlob.mk blob built.rsdp built.layout)) hblob.symm

/-! ## Lists of checked values -/

/-- A map in `Checked` returns when each of its calls does. -/
theorem mapM_isOk {α γ : Type} {f : α → Checked γ} {xs : List α} (h : ∀ x ∈ xs, ∃ y, f x = .ok y) :
    ∃ ys, xs.mapM f = .ok ys := by
  induction xs with
  | nil => exact ⟨[], rfl⟩
  | cons x xs ih =>
    obtain ⟨⟨y, hy⟩, hxs⟩ := List.forall_mem_cons.mp h
    obtain ⟨ys, hys⟩ := ih hxs
    exact ⟨y :: ys, by rw [List.mapM_cons, hy, Checked.ok_bind, hys]; rfl⟩

/-- The layout takes every list of tables whose checksum bytes lie below 4 GiB. -/
theorem foldlM_insertLayout_isOk {tables : List TableRef}
    (h : ∀ t ∈ tables, t.offset.toNat + 9 < 4294967296) (layout : Std.TreeMap String TableLayout) :
    ∃ layout', tables.foldlM insertLayout layout = .ok layout' := by
  induction tables generalizing layout with
  | nil => exact ⟨layout, rfl⟩
  | cons t tables ih =>
    obtain ⟨ht, htables⟩ := List.forall_mem_cons.mp h
    have h9 : toNat (9 : UInt32) = 9 := rfl
    have hoffset : toNat t.offset = t.offset.toNat := rfl
    obtain ⟨checksumOffset, hsum, -⟩ := checkedAdd_isOk (x := t.offset) (y := (9 : UInt32))
      (by rw [width_u32, h9, hoffset]; omega)
    obtain ⟨layout', hrun⟩ := ih htables (layout.insert (fromUtf8Lossy t.signature.toList)
      ⟨t.offset, t.length, checksumOffset⟩)
    refine ⟨layout', ?_⟩
    rw [List.foldlM_cons, insertLayout, hsum, Checked.ok_bind]
    exact hrun

/-! ## Sizes -/

/-- Chunks of at most `n` bytes each take at most `n` times as many bytes. -/
theorem length_layChunks_le {chunks : List Chunk} {n : ℕ} (h : ∀ c ∈ chunks, c.2.length ≤ n) :
    (layChunks chunks).length ≤ chunks.length * n := by
  induction chunks with
  | nil => exact Nat.zero_le _
  | cons c chunks ih =>
    obtain ⟨hc, hchunks⟩ := List.forall_mem_cons.mp h
    have := ih hchunks
    rw [layChunks_cons, List.length_append, List.length_cons, Nat.succ_mul]
    omega

/-- There are at most ten optional tables, over all sections. -/
theorem length_flatten_optionalSections (config : PlatformConfig) :
    (optionalSections config).flatten.length ≤ 10 := by
  have hsum : ∀ {secs : List (List Chunk)}, (∀ sec ∈ secs, sec.length ≤ 1) →
      secs.flatten.length ≤ secs.length := by
    intro secs
    induction secs with
    | nil => exact fun _ => Nat.le_refl 0
    | cons sec secs ih =>
      intro h
      obtain ⟨hsec, hsecs⟩ := List.forall_mem_cons.mp h
      have := ih hsecs
      rw [List.flatten_cons, List.length_append, List.length_cons]
      omega
  exact hsum (length_optionalSections config)

/-- The tables that the root table lists take at most 250764 bytes. This is their
share of `blobBound`. -/
theorem length_listedChunks_le {config : PlatformConfig} {fadt madt : Bytes}
    (hcpus : config.cpuApicIds.length ≤ 1000) (hfadt : fadt.length = 244)
    (hmadt : madt.length ≤ 10000) :
    (layChunks (listedChunks config fadt madt)).length ≤ 250764 := by
  have hoptional : ∀ c ∈ (optionalSections config).flatten, c.2.length ≤ 24048 := by
    intro c hc
    rcases mem_optionalSections hc with rfl | rfl | ⟨signature, -, rfl⟩
    · rw [length_buildHpet]
      decide
    · rw [length_buildMcfg]
      decide
    · exact (length_reservedBytes signature hcpus).2
  have hsize := length_layChunks_le hoptional
  have hcount := length_flatten_optionalSections config
  have hwaet := length_buildWaet config
  rw [listedChunks, layChunks_append, layChunks_append, List.length_append, List.length_append,
    layChunks_cons, layChunks_cons, layChunks_cons, layChunks_nil, List.length_append,
    List.length_append, List.length_append]
  simp only [List.length_nil]
  omega

/-- The FADT, the MADT, the HPET table and the optional ones make at most thirteen
entries. -/
theorem length_listedChunks_le_count (config : PlatformConfig) (fadt madt : Bytes) :
    (listedChunks config fadt madt).length ≤ 13 := by
  have hoptional := length_flatten_optionalSections config
  rw [listedChunks, List.length_append, List.length_append]
  simp only [List.length_cons, List.length_nil]
  omega

/-! ## When a build returns -/

/-- An address returns when base and offset fit in 64 bits. -/
theorem addressAt_isOk {config : PlatformConfig} {n : ℕ}
    (h : config.blobBaseAddress.toNat + n < 18446744073709551616) :
    ∃ address, addressAt config (UInt32.ofNat n) = .ok address := by
  have hle : (UInt32.ofNat n).toNat ≤ n := by
    rw [UInt32.toNat_ofNat']
    exact Nat.mod_le ..
  have hoffset : toNat (UInt32.ofNat n).toUInt64 = (UInt32.ofNat n).toNat :=
    UInt32.toNat_toUInt64 _
  have hbase : toNat config.blobBaseAddress = config.blobBaseAddress.toNat := rfl
  obtain ⟨address, haddress, -⟩ := checkedAdd_isOk (x := config.blobBaseAddress)
    (y := (UInt32.ofNat n).toUInt64) (by rw [width_u64, hoffset, hbase]; omega)
  exact ⟨address, haddress⟩

/-- The addresses of a run of chunks return when the address behind the last one
fits in 64 bits. -/
theorem addressesAt_isOk {config : PlatformConfig} {start : ℕ} {chunks : List Chunk}
    (h : config.blobBaseAddress.toNat + start + (layChunks chunks).length < 18446744073709551616) :
    ∃ entries, addressesAt config.blobBaseAddress start chunks = .ok entries := by
  refine mapM_isOk fun o ho => ?_
  obtain ⟨t, ht, rfl⟩ := List.mem_map.mp ho
  obtain ⟨p, hp, rfl⟩ := List.mem_map.mp ht
  have := bounds_of_mem_place hp
  exact addressAt_isOk (by omega)

/-- There is one address for each chunk. -/
theorem length_of_addressesAt {base : UInt64} {start : ℕ} {chunks : List Chunk}
    {entries : List UInt64} (h : addressesAt base start chunks = .ok entries) :
    entries.length = chunks.length := by
  rw [← (mapM_eq_ok h).length_eq, List.length_map, tableRefs, List.length_map, length_place]

/-- Tables that are long enough to be patched can be laid out. -/
theorem insertLayout_isOk {front : Bytes} {chunks : List Chunk}
    (hlong : ∀ c ∈ chunks, 36 ≤ c.2.length)
    (hfit : (front ++ layChunks chunks).length < 4294967296) :
    ∃ layout, (tableRefs front.length chunks).foldlM insertLayout ∅ = .ok layout := by
  apply foldlM_insertLayout_isOk
  intro t ht
  obtain ⟨p, hp, rfl⟩ := List.mem_map.mp ht
  have hbounds := bounds_of_mem_place hp
  have hp36 : 36 ≤ p.length := by
    have hlength := @length_slice (front ++ layChunks chunks) p.offset p.length
      (by rw [List.length_append]; exact hbounds.2)
    rw [← hlength]
    exact hlong _ (mem_of_mem_place hp)
  have hle : (UInt32.ofNat p.offset).toNat ≤ p.offset := by
    rw [UInt32.toNat_ofNat']
    exact Nat.mod_le ..
  rw [List.length_append] at hfit
  change (UInt32.ofNat p.offset).toNat + 9 < _
  omega

/-- The padding in front is as long as the configuration asks for. -/
theorem length_frontBytes (config : PlatformConfig) :
    (frontBytes config).length = config.frontPadding.toNat :=
  List.length_replicate

/-- What is appended is never shorter than a header. -/
theorem length_chunk_ge {config : PlatformConfig} {parts : BuildParts}
    (hcpus : config.cpuApicIds.length ≤ 1000) (hdsdt : 36 ≤ parts.dsdt.length)
    (hfadt : 36 ≤ parts.fadt.length) (hmadt : 36 ≤ parts.madt.length) :
    ∀ c ∈ allChunks config parts, 36 ≤ c.2.length := by
  intro c hc
  rw [allChunks, mainChunks, listedChunks] at hc
  simp only [List.mem_append, List.mem_cons, List.not_mem_nil, or_false] at hc
  rcases hc with ((rfl | rfl) | ((rfl | rfl) | hc) | rfl) | rfl
  · rw [length_facsBytes]
    decide
  · exact hdsdt
  · exact hfadt
  · exact hmadt
  · rcases mem_optionalSections hc with rfl | rfl | ⟨signature, -, rfl⟩
    · rw [length_buildHpet]
      decide
    · rw [length_buildMcfg]
      decide
    · exact (length_reservedBytes signature hcpus).1
  · rw [length_buildWaet]
    decide
  · rw [length_buildRsdt]
    exact Nat.le_add_right ..

section

variable {config : PlatformConfig} {facsAddress dsdtAddress : UInt64} {dsdt fadt madt : Bytes}

/-- The tables of a build have a header each. -/
theorem length_built_ge (hdsdt : buildDsdt config = .ok dsdt)
    (hfadt : buildFadtWithFacs config facsAddress dsdtAddress = .ok fadt)
    (hmadt : buildMadt config = .ok madt) :
    36 ≤ dsdt.length ∧ 36 ≤ fadt.length ∧ 36 ≤ madt.length := by
  refine ⟨?_, ?_, ?_⟩
  · obtain ⟨-, padLen, hdsdt⟩ := buildDsdt_eq_ok hdsdt
    rw [hdsdt, length_finalizeTable]
    exact Nat.le_add_right ..
  · rw [(pointers_of_buildFadt hfadt).1]
    decide
  · obtain ⟨count, hmadt⟩ := buildMadt_eq_ok hmadt
    rw [hmadt, length_finalizeTable]
    exact Nat.le_add_right ..

/-- The chunks before the root table: the FACS, the DSDT and the listed tables. -/
theorem length_mainChunks (config : PlatformConfig) (dsdt fadt madt : Bytes) :
    (layChunks (mainChunks config dsdt fadt madt)).length =
      64 + dsdt.length + (layChunks (listedChunks config fadt madt)).length := by
  rw [mainChunks, layChunks_append, List.length_append, length_unlistedChunks]

/-- The root table takes 36 bytes and four for each entry. -/
theorem length_allChunks (config : PlatformConfig) (parts : BuildParts) :
    (layChunks (allChunks config parts)).length =
      (layChunks (mainChunks config parts.dsdt parts.fadt parts.madt)).length +
        (36 + 4 * parts.entries.length) := by
  rw [allChunks, layChunks_append, List.length_append, layChunks_cons, layChunks_nil,
    List.append_nil, length_buildRsdt]

/-- The FADT is built if the addresses in it do not overflow. -/
theorem exists_fadt (hio : config.pmIoBase.toNat + 8 < 65536)
    (h : config.blobBaseAddress.toNat + ((frontBytes config).length + 64) <
      18446744073709551616) :
    ∃ facsAddress dsdtAddress fadt,
      addressAt config (UInt32.ofNat (frontBytes config).length) = .ok facsAddress ∧
      addressAt config (UInt32.ofNat ((frontBytes config).length + 64)) = .ok dsdtAddress ∧
      buildFadtWithFacs config facsAddress dsdtAddress = .ok fadt := by
  obtain ⟨facsAddress, hfacs⟩ := @addressAt_isOk config (frontBytes config).length (by omega)
  obtain ⟨dsdtAddress, hdsdt⟩ := addressAt_isOk h
  obtain ⟨fadt, hfadt⟩ := @buildFadtWithFacs_isOk config facsAddress dsdtAddress hio
  exact ⟨facsAddress, dsdtAddress, fadt, hfacs, hdsdt, hfadt⟩

/-- With its tables built and its sizes in range, a build returns. -/
theorem exists_builtFrom (hdsdt : buildDsdt config = .ok dsdt)
    (hfacsAddress : addressAt config (UInt32.ofNat (frontBytes config).length) = .ok facsAddress)
    (hdsdtAddress : addressAt config (UInt32.ofNat ((frontBytes config).length + 64)) =
      .ok dsdtAddress)
    (hfadt : buildFadtWithFacs config facsAddress dsdtAddress = .ok fadt)
    (hmadt : buildMadt config = .ok madt) {total : ℕ}
    (htotal : (frontBytes config).length + (layChunks (mainChunks config dsdt fadt madt)).length +
      (36 + 4 * (listedChunks config fadt madt).length) = total)
    (hsize : total < 4294967296)
    (hbase : config.blobBaseAddress.toNat + total < 18446744073709551616) :
    ∃ parts built, BuiltFrom config parts built ∧ parts.dsdt = dsdt ∧ parts.fadt = fadt ∧
      parts.madt = madt ∧ built.blob.data.length = total := by
  have hmain := length_mainChunks config dsdt fadt madt
  obtain ⟨entries, hentries⟩ := @addressesAt_isOk config
    ((frontBytes config).length + (64 + dsdt.length)) (listedChunks config fadt madt) (by omega)
  obtain ⟨rsdtAddress, hrsdt⟩ := @addressAt_isOk config ((frontBytes config).length +
    (layChunks (mainChunks config dsdt fadt madt)).length) (by omega)
  have hcount := length_of_addressesAt hentries
  set parts : BuildParts := ⟨facsAddress, dsdtAddress, rsdtAddress, dsdt, fadt, madt, entries⟩
  have hall : (frontBytes config ++ layChunks (allChunks config parts)).length = total := by
    rw [List.length_append, length_allChunks, hcount, ← htotal, Nat.add_assoc]
  obtain ⟨hdsdt36, hfadt36, hmadt36⟩ := length_built_ge hdsdt hfadt hmadt
  have hlong := @length_chunk_ge config parts (buildDsdt_eq_ok hdsdt).1 hdsdt36 hfadt36 hmadt36
  obtain ⟨layout, hlayout⟩ := insertLayout_isOk hlong (hall ▸ hsize)
  exact ⟨parts, ⟨⟨frontBytes config ++ layChunks (allChunks config parts),
    tableRefs (frontBytes config).length (allChunks config parts)⟩, buildRsdp config rsdtAddress,
    layout⟩, ⟨hdsdt, hfacsAddress, hdsdtAddress, hfadt, hmadt, hentries, hrsdt, rfl, rfl, rfl,
    hlayout⟩, rfl, rfl, rfl, hall⟩

end

/-- **A build with its sizes in range returns.** -/
theorem buildMinimalAcpi_isOk {config : PlatformConfig} {dsdt : Bytes}
    (hdsdt : buildDsdt config = .ok dsdt) (hio : config.pmIoBase.toNat + 8 < 65536)
    (hsize : config.frontPadding.toNat + dsdt.length + 251000 ≤ 4294967296)
    (hbase : config.blobBaseAddress.toNat + config.frontPadding.toNat + dsdt.length + 251000 ≤
      18446744073709551616) :
    ∃ built, buildMinimalAcpi config = .ok built ∧
      built.blob.data.length ≤ config.frontPadding.toNat + dsdt.length + 251000 := by
  have hcpus := (buildDsdt_eq_ok hdsdt).1
  have hfront := length_frontBytes config
  obtain ⟨facsAddress, dsdtAddress, fadt, hfacs, hdsdtAddress, hfadt⟩ :=
    exists_fadt hio (by omega)
  obtain ⟨madt, hmadt, hmadtLength⟩ := @buildMadt_isOk config hcpus
  have hlisted := length_listedChunks_le hcpus (pointers_of_buildFadt hfadt).1 hmadtLength
  have hmain := length_mainChunks config dsdt fadt madt
  have hcount := length_listedChunks_le_count config fadt madt
  obtain ⟨parts, built, hbuilt, -, -, -, hlength⟩ :=
    exists_builtFrom hdsdt hfacs hdsdtAddress hfadt hmadt rfl (by omega) (by omega)
  exact ⟨built, buildMinimalAcpi_eq_ok.mpr ⟨parts, hbuilt⟩, by omega⟩

/-- What the blob of a configuration may take. -/
def blobBound (config : PlatformConfig) : ℕ :=
  config.frontPadding.toNat + 291400 + 322 * config.cpuApicIds.length + rootBusLength config +
    34 * config.pciDevices.length

/-- The build returns, with a blob inside `blobBound`, when there are at most a
thousand CPUs, the ports of the power management block fit in 16 bits, and the
bound fits above the base address. -/
theorem buildMinimalAcpi_total {config : PlatformConfig} (hcpus : config.cpuApicIds.length ≤ 1000)
    (hio : config.pmIoBase.toNat + 8 < 65536) (hsize : blobBound config ≤ 4294967296)
    (hbase : config.blobBaseAddress.toNat + blobBound config ≤ 18446744073709551616) :
    ∃ built, buildMinimalAcpi config = .ok built ∧
      built.blob.data.length ≤ blobBound config := by
  rw [blobBound] at hsize hbase ⊢
  obtain ⟨dsdt, hdsdt, hlength⟩ := buildDsdt_isOk hcpus (by omega)
  obtain ⟨built, hbuilt, hdata⟩ := buildMinimalAcpi_isOk hdsdt hio (by omega) (by omega)
  exact ⟨built, hbuilt, by omega⟩

theorem buildMinimalAcpi_twoDisks :
    ∃ built, buildMinimalAcpi .twoDisks = .ok built ∧ built.blob.data.length < 300000 := by
  have hbound : blobBound .twoDisks < 300000 := by decide
  have hbase : PlatformConfig.twoDisks.blobBaseAddress.toNat = 0 := rfl
  obtain ⟨built, hbuilt, hlength⟩ := @buildMinimalAcpi_total .twoDisks (by decide) (by decide)
    (by omega) (by omega)
  exact ⟨built, hbuilt, by omega⟩

end AcpiTables
