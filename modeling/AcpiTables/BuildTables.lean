import AcpiTables.BuildGraph

/-!
# The tables in their places

Every table of a build is either finished, with a header, a length and a
checksum, or only reserved: zeros of the length that the directory records. The
FACS is the exception: it has no header and no checksum.

`BuiltFrom.chunk_cases` says which of the three a chunk is. From there
`BuiltFrom.tableInPlace` finds it in the blob and in the directory, and
`BuiltFrom.valid_of_finished` and `BuiltFrom.zero_of_reserved` say what its bytes
are; `buildMinimalAcpi_tables` puts the parts together. A reserved table is no
table for whoever follows the RSDT to it: `reservedSrat_invalid`.
-/

namespace AcpiTables

open MachineInt

/-- A table that was finished for its signature. -/
def IsFinished (config : PlatformConfig) (c : Chunk) : Prop :=
  ∃ revision body, c.2 = finalizeTable (config.header c.1 revision) body

/-- The signatures of the tables that are finished. -/
def finishedSignatures : List (Vector UInt8 4) :=
  [bstr "DSDT", bstr "FACP", bstr "APIC", bstr "HPET", bstr "MCFG", bstr "WAET", bstr "RSDT"]

/-- No finished table is a reserved one. -/
theorem not_reserved_of_finished : ∀ signature ∈ finishedSignatures,
    signature ∉ reservedSignatures := forall_mem_of_all (by decide +kernel)

/-- The FACS has no checksum, some tables are reserved, the others are finished. -/
theorem BuiltFrom.chunk_cases {config : PlatformConfig} {parts : BuildParts} {built : BuiltBlob}
    (h : BuiltFrom config parts built) {c : Chunk} (hc : c ∈ allChunks config parts) :
    c = (bstr "FACS", facsBytes) ∨
      (∃ signature ∈ reservedSignatures, c = reservedChunk signature config) ∨
      c.1 ∉ reservedSignatures ∧ IsFinished config c := by
  rw [allChunks, mainChunks, listedChunks] at hc
  simp only [List.mem_append, List.mem_cons, List.not_mem_nil, or_false] at hc
  rcases hc with ((rfl | rfl) | ((rfl | rfl) | hc) | rfl) | rfl
  · exact .inl rfl
  · obtain ⟨-, padLen, hdsdt⟩ := buildDsdt_eq_ok h.dsdt_ok
    exact .inr (.inr ⟨not_reserved_of_finished _ (by simp [finishedSignatures]), 1, _, hdsdt⟩)
  · obtain ⟨pm1aCnt, pmTmr, hfadt⟩ := buildFadtWithFacs_eq_ok h.fadt_ok
    exact .inr (.inr ⟨not_reserved_of_finished _ (by simp [finishedSignatures]), 3, _, hfadt⟩)
  · obtain ⟨count, hmadt⟩ := buildMadt_eq_ok h.madt_ok
    exact .inr (.inr ⟨not_reserved_of_finished _ (by simp [finishedSignatures]), 3, _, hmadt⟩)
  · rcases mem_optionalSections hc with rfl | rfl | hreserved
    · exact .inr (.inr ⟨not_reserved_of_finished _ (by simp [finishedSignatures]), 1, _, rfl⟩)
    · exact .inr (.inr ⟨not_reserved_of_finished _ (by simp [finishedSignatures]), 1, _, rfl⟩)
    · exact .inr (.inl hreserved)
  · exact .inr (.inr ⟨not_reserved_of_finished _ (by simp [finishedSignatures]), 1, _, rfl⟩)
  · exact .inr (.inr ⟨not_reserved_of_finished _ (by simp [finishedSignatures]), 1, _, rfl⟩)

/-- The directory knows a table at its place, with its checksum byte in it. -/
structure TableInPlace (built : BuiltBlob) (t : TableRef) : Prop where
  inside : t.offset.toNat + t.length.toNat ≤ built.blob.data.length
  find : built.layout[layoutKey t.signature]? = some (tableLayout t)
  key : asBytes (layoutKey t.signature) = t.signature.toList
  checksum : (tableLayout t).checksumOffset.toNat = t.offset.toNat + 9 ∧ 9 < t.length.toNat

/-- The key of a table is the text of its signature. -/
theorem asBytes_layoutKey : ∀ signature ∈ allSignatures,
    asBytes (layoutKey signature) = signature.toList := forall_mem_of_all (by decide +kernel)

section

variable {config : PlatformConfig} {parts : BuildParts} {built : BuiltBlob}
  (h : BuiltFrom config parts built) (hfit : built.blob.data.length < 4294967296)

include h hfit

/-- Every table of a build lies where it is noted. -/
theorem BuiltFrom.tableInPlace {t : TableRef} (ht : t ∈ built.blob.tables) :
    TableInPlace built t := by
  obtain ⟨hchunk, hinside⟩ := h.mem_allChunks hfit ht
  have hsignature : t.signature ∈ allSignatures :=
    (sublist_allSignatures config parts).subset (List.mem_map_of_mem hchunk)
  have hlong : 36 ≤ t.length.toNat := by
    rw [← length_slice hinside]
    exact h.length_chunk hchunk
  refine ⟨hinside, h.directory.find t ht, asBytes_layoutKey _ hsignature, ?_, by omega⟩
  change (t.offset + 9).toNat = _
  rw [UInt32.toNat_add]
  exact Nat.mod_eq_of_lt (by change t.offset.toNat + 9 < _; omega)

/-- A reserved table is zero, as long as its signature asks for. -/
theorem BuiltFrom.zero_of_reserved {t : TableRef} (ht : t ∈ built.blob.tables)
    (hreserved : t.signature ∈ reservedSignatures) :
    slice built.blob.data t.offset.toNat t.length.toNat = List.replicate t.length.toNat 0 ∧
      optionalTableLen t.signature config = .ok t.length := by
  obtain ⟨hchunk, hinside⟩ := h.mem_allChunks hfit ht
  have hlength := length_slice hinside
  rcases h.chunk_cases hchunk with heq | ⟨signature, -, heq⟩ | ⟨hfinished, -⟩
  · rw [(Prod.mk.inj heq).1] at hreserved
    exact absurd hreserved (by decide)
  · obtain ⟨rfl, hbytes⟩ := Prod.mk.inj heq
    obtain ⟨length, hok, -⟩ := isTableLen_optionalTableLen t.signature h.cpus_le
    rw [reservedBytes, hok] at hbytes
    rw [hbytes, List.length_replicate, UInt32.toNat_inj] at hlength
    rw [hbytes, hlength]
    exact ⟨rfl, hlength ▸ hok⟩
  · exact absurd hreserved hfinished

/-- Every finished table of a build is valid. -/
theorem BuiltFrom.valid_of_finished {t : TableRef} (ht : t ∈ built.blob.tables)
    (hfacs : t.signature ≠ bstr "FACS") (hfinished : t.signature ∉ reservedSignatures) :
    ValidTable t.signature.toList (slice built.blob.data t.offset.toNat t.length.toNat) := by
  obtain ⟨hchunk, hinside⟩ := h.mem_allChunks hfit ht
  rcases h.chunk_cases hchunk with heq | ⟨signature, hreserved, heq⟩ | ⟨-, revision, body, hbytes⟩
  · exact absurd (Prod.mk.inj heq).1 hfacs
  · exact absurd ((Prod.mk.inj heq).1 ▸ hreserved) hfinished
  · dsimp only at hbytes
    have hsize := congrArg List.length hbytes
    rw [length_slice hinside, length_finalizeTable] at hsize
    rw [hbytes]
    exact @validTable_finalizeTable (config.header t.signature revision) body (by omega)

end

/-- **Every table of a build** but the FACS is in its place: the directory knows
its offset, its length and the place of its checksum. It is a valid table, whose
signature and length are those recorded and whose bytes sum to zero, or it is one
of those that are only reserved: then all of its bytes are zero. -/
theorem buildMinimalAcpi_tables {config : PlatformConfig} {built : BuiltBlob}
    (h : buildMinimalAcpi config = .ok built) (hfit : built.blob.data.length < 4294967296) :
    ∀ t ∈ built.blob.tables, t.signature ≠ bstr "FACS" →
      TableInPlace built t ∧
        if t.signature ∈ reservedSignatures then
          slice built.blob.data t.offset.toNat t.length.toNat = List.replicate t.length.toNat 0 ∧
            optionalTableLen t.signature config = .ok t.length
        else
          ValidTable t.signature.toList (slice built.blob.data t.offset.toNat t.length.toNat) := by
  intro t ht hfacs
  obtain ⟨parts, hparts⟩ := buildMinimalAcpi_eq_ok.mp h
  refine ⟨hparts.tableInPlace hfit ht, ?_⟩
  split
  · next hreserved => exact hparts.zero_of_reserved hfit ht hreserved
  · next hfinished => exact hparts.valid_of_finished hfit ht hfacs hfinished

theorem buildMinimalAcpi_tables_twoDisks :
    ∃ built, buildMinimalAcpi .twoDisks = .ok built ∧
      ∀ t ∈ built.blob.tables, t.signature = bstr "HPET" →
        TableInPlace built t ∧ ValidTable (asBytes "HPET")
          (slice built.blob.data t.offset.toNat t.length.toNat) := by
  obtain ⟨built, hbuilt, hlength⟩ := buildMinimalAcpi_twoDisks
  refine ⟨built, hbuilt, fun t ht hsignature => ?_⟩
  obtain ⟨hplace, htable⟩ := buildMinimalAcpi_tables hbuilt (by omega) t ht
    (by rw [hsignature]; decide)
  rw [if_neg (by rw [hsignature]; decide), hsignature] at htable
  exact ⟨hplace, htable⟩

/-- With NUMA on, the SRAT is listed but is no table. -/
theorem reservedSrat_invalid :
    ∃ built, buildMinimalAcpi { PlatformConfig.twoDisks with hasNuma := true } = .ok built ∧
      built.blob.data.length < 4294967296 ∧
      ∃ t ∈ built.blob.tables, t.signature = bstr "SRAT" ∧ t ∈ listedTables built.blob.tables ∧
        ¬ValidTable t.signature.toList
          (slice built.blob.data t.offset.toNat t.length.toNat) := by
  set config : PlatformConfig := { PlatformConfig.twoDisks with hasNuma := true } with hconfig
  have hbound : blobBound config < 300000 := by decide
  have hbase : config.blobBaseAddress.toNat = 0 := rfl
  obtain ⟨built, hbuilt, hlength⟩ := @buildMinimalAcpi_total config (by decide) (by decide)
    (by omega) (by omega)
  obtain ⟨parts, hparts⟩ := buildMinimalAcpi_eq_ok.mp hbuilt
  have hsection : reservedChunk (bstr "SRAT") config ∈ (optionalSections config).flatten :=
    List.mem_flatten.mpr ⟨[reservedChunk (bstr "SRAT") config], by simp [optionalSections, hconfig],
      List.mem_singleton.mpr rfl⟩
  have hchunk : reservedChunk (bstr "SRAT") config ∈ allChunks config parts := by
    rw [allChunks, mainChunks, listedChunks]
    simp only [List.mem_append]
    exact .inl (.inr (.inl (.inr hsection)))
  have hmem : bstr "SRAT" ∈ built.blob.tables.map TableRef.signature := by
    rw [hparts.signatures_eq]
    exact List.mem_map_of_mem hchunk
  obtain ⟨t, ht, hsignature⟩ := List.mem_map.mp hmem
  refine ⟨built, hbuilt, by omega, t, ht, hsignature, ?_, ?_⟩
  · exact List.mem_filter.mpr ⟨ht, by rw [hsignature]; decide⟩
  · intro hvalid
    -- the bytes are all zero, and a signature is not
    have hzero := (hparts.zero_of_reserved (by omega) ht (by rw [hsignature]; decide)).1
    have hfirst : (0x53 : UInt8) ∈ slice (List.replicate t.length.toNat 0) 0 4 := by
      rw [← hzero, hvalid.signature_eq, hsignature]
      decide
    exact absurd (List.eq_of_mem_replicate (List.mem_of_mem_drop (List.mem_of_mem_take hfirst)))
      (by decide)

end AcpiTables
