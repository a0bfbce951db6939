import AcpiTables.BuildParts

/-!
# The graph of pointers

When the addresses of a build fit in 32 bits, `PointerGraph` holds of the result:
each pointer names the table it is meant for, the RSDT lists every table but
three, and the directory has every table once (`buildMinimalAcpi_pointers`).

* **the directory**: no two tables of a build have the same signature
  (`nodup_keys_allChunks`), because the tables that are built are among
  `allSignatures`, in order. So entering them one by one loses none
  (`isDirectory_of_foldlM`);
* **the references**: each chunk has a `TableRef` that finds its bytes
  (`BuiltFrom.mem_allChunks`, `BuiltFrom.exists_ref`);
* **the pointers**: the payload of the RSDT and the fields of the FADT are the
  addresses of these references. Below 2^32 none of them is cut.
-/

namespace AcpiTables

open MachineInt

/-! ## Signatures -/

/-- The signatures that each optional section can have. -/
def optionalSignatures : List (List (Vector UInt8 4)) :=
  [[bstr "SSDT"], [bstr "HPET"], [bstr "TCPA", bstr "TPM2"], [bstr "SRAT"], [bstr "SLIT"],
    [bstr "HMAT"], [bstr "MCFG"], [bstr "DMAR", bstr "IVRS", bstr "VIOT"], [bstr "NFIT"],
    [bstr "CEDT"]]

/-- All signatures in the order in which their tables stand in the blob. -/
def allSignatures : List (Vector UInt8 4) :=
  [bstr "FACS", bstr "DSDT"] ++ ([bstr "FACP", bstr "APIC"] ++ optionalSignatures.flatten ++
    [bstr "WAET"]) ++ [bstr "RSDT"]

/-- The key of a table in the directory. -/
def layoutKey (signature : Vector UInt8 4) : String := fromUtf8Lossy signature.toList

/-- No two tables have the same name in the directory. -/
theorem nodup_layoutKeys : (allSignatures.map layoutKey).Nodup := by decide +kernel

/-- Sublists one by one make a sublist of the whole. -/
theorem sublist_flatten {α : Type} {xss yss : List (List α)}
    (h : List.Forall₂ List.Sublist xss yss) : xss.flatten.Sublist yss.flatten := by
  induction h with
  | nil => exact .slnil
  | cons hhead _ ih => exact hhead.append ih

/-- The optional tables that are built are among the optional ones, in order. -/
theorem sublist_optionalSignatures (config : PlatformConfig) :
    ((optionalSections config).flatten.map Prod.fst).Sublist optionalSignatures.flatten := by
  have hif : ∀ (switch : Bool) (c : Chunk) (signature : Vector UInt8 4), c.1 = signature →
      ((if switch then [c] else []).map Prod.fst).Sublist [signature] := by
    rintro (_ | _) c signature rfl
    · exact List.nil_sublist _
    · exact List.Sublist.refl _
  have htpm : ((tpmSection config).map Prod.fst).Sublist [bstr "TCPA", bstr "TPM2"] := by
    rw [tpmSection]
    rcases config.tpmKind with - | (- | -)
    · exact List.nil_sublist _
    · exact .cons_cons _ (List.nil_sublist _)
    · exact .cons _ (.refl _)
  have hiommu : ((iommuSection config).map Prod.fst).Sublist
      [bstr "DMAR", bstr "IVRS", bstr "VIOT"] := by
    rw [iommuSection]
    rcases config.iommuKind with - | (- | - | -)
    · exact List.nil_sublist _
    · exact .cons_cons _ (List.nil_sublist _)
    · exact .cons _ (.cons_cons _ (List.nil_sublist _))
    · exact .cons _ (.cons _ (.refl _))
  rw [List.map_flatten]
  apply sublist_flatten
  rw [optionalSections, optionalSignatures]
  exact .cons (hif _ _ _ rfl) <| .cons (hif _ _ _ rfl) <| .cons htpm <| .cons (hif _ _ _ rfl) <|
    .cons (hif _ _ _ rfl) <| .cons (hif _ _ _ rfl) <| .cons (hif _ _ _ rfl) <| .cons hiommu <|
    .cons (hif _ _ _ rfl) <| .cons (hif _ _ _ rfl) .nil

/-- The tables that are built are among all tables, in order. -/
theorem sublist_allSignatures (config : PlatformConfig) (parts : BuildParts) :
    ((allChunks config parts).map Prod.fst).Sublist allSignatures := by
  rw [allChunks, mainChunks, listedChunks, allSignatures]
  simp only [List.map_append]
  exact ((List.Sublist.refl _).append
    (((List.Sublist.refl _).append (sublist_optionalSignatures config)).append (.refl _))).append
    (.refl _)

/-- No two tables have the same key. -/
theorem nodup_keys_allChunks (config : PlatformConfig) (parts : BuildParts) :
    (((allChunks config parts).map Prod.fst).map layoutKey).Nodup :=
  nodup_layoutKeys.sublist ((sublist_allSignatures config parts).map layoutKey)

/-! ## The directory -/

/-- What the directory keeps of a table. -/
def tableLayout (table : TableRef) : TableLayout where
  offset := table.offset
  length := table.length
  checksumOffset := table.offset + 9

/-- Every table is found under its own key, and nothing else is there. -/
structure IsDirectory (tables : List TableRef) (layout : Std.TreeMap String TableLayout) :
    Prop where
  find : ∀ t ∈ tables, layout[layoutKey t.signature]? = some (tableLayout t)
  size : layout.size = tables.length

/-- A table that is entered is entered under its name, with its place. -/
theorem insertLayout_eq_ok {layout layout' : Std.TreeMap String TableLayout} {table : TableRef}
    (h : insertLayout layout table = .ok layout') :
    layout' = layout.insert (layoutKey table.signature) (tableLayout table) := by
  obtain ⟨checksumOffset, hoffset, h⟩ := Checked.bind_eq_ok.mp h
  have hsum : checksumOffset = table.offset + 9 := by
    have hvalue := checkedAdd_eq_ok hoffset
    have h9 : toNat (9 : UInt32) = 9 := rfl
    have hlt : checksumOffset.toNat < 4294967296 := checksumOffset.toNat_lt
    have hvalue : checksumOffset.toNat = table.offset.toNat + 9 := by
      rw [h9] at hvalue
      exact hvalue
    apply UInt32.toNat_inj.mp
    rw [UInt32.toNat_add, hvalue]
    exact (Nat.mod_eq_of_lt (hvalue ▸ hlt)).symm
  cases h
  rw [hsum]
  rfl

/-- The tables are entered one after the other: what is there stays. -/
theorem foldlM_insertLayout {tables : List TableRef}
    {layout layout' : Std.TreeMap String TableLayout}
    (h : tables.foldlM insertLayout layout = .ok layout')
    (hkeys : (tables.map fun t => layoutKey t.signature).Nodup)
    (hnew : ∀ t ∈ tables, layoutKey t.signature ∉ layout) :
    (∀ t ∈ tables, layout'[layoutKey t.signature]? = some (tableLayout t)) ∧
      (∀ key ∈ layout, layout'[key]? = layout[key]?) ∧
      layout'.size = layout.size + tables.length := by
  induction tables generalizing layout with
  | nil =>
    cases h
    exact ⟨nofun, fun _ _ => rfl, rfl⟩
  | cons table tables ih =>
    rw [List.foldlM_cons] at h
    obtain ⟨next, hnext, h⟩ := Checked.bind_eq_ok.mp h
    obtain rfl := insertLayout_eq_ok hnext
    obtain ⟨hfirst, hkeys⟩ := List.nodup_cons.mp hkeys
    obtain ⟨htable, hnew⟩ := List.forall_mem_cons.mp hnew
    -- no later table has the key of this one
    have hne : ∀ t ∈ tables, layoutKey table.signature ≠ layoutKey t.signature := by
      intro t ht heq
      exact hfirst (List.mem_map.mpr ⟨t, ht, heq.symm⟩)
    obtain ⟨hfind, hkept, hsize⟩ := ih h hkeys fun t ht hmem => by
      rcases Std.TreeMap.mem_insert.mp hmem with heq | hmem
      · exact hne t ht (Std.compare_eq_iff_eq.mp heq)
      · exact hnew t ht hmem
    refine ⟨List.forall_mem_cons.mpr ⟨?_, hfind⟩, ?_, ?_⟩
    · rw [hkept _ (Std.TreeMap.mem_insert_self ..), Std.TreeMap.getElem?_insert_self]
    · intro key hkey
      have hother : layoutKey table.signature ≠ key := by
        rintro rfl
        exact htable hkey
      rw [hkept _ (Std.TreeMap.mem_insert.mpr (.inr hkey)), Std.TreeMap.getElem?_insert,
        if_neg fun heq => hother (Std.compare_eq_iff_eq.mp heq)]
    · rw [hsize, Std.TreeMap.size_insert, if_neg (htable ∘ Std.TreeMap.contains_iff_mem.mp),
        List.length_cons]
      omega

/-- Tables with distinct names, entered one by one, make a directory of all of
them. -/
theorem isDirectory_of_foldlM {tables : List TableRef} {layout : Std.TreeMap String TableLayout}
    (h : tables.foldlM insertLayout ∅ = .ok layout)
    (hkeys : (tables.map fun t => layoutKey t.signature).Nodup) : IsDirectory tables layout := by
  obtain ⟨hfind, -, hsize⟩ := foldlM_insertLayout h hkeys fun _ _ => Std.TreeMap.not_mem_emptyc
  exact ⟨hfind, by rw [hsize, Std.TreeMap.size_emptyc, Nat.zero_add]⟩

/-! ## References -/

/-- A reference has the signature of a chunk. -/
theorem signature_of_mem_tableRefs {start : ℕ} {chunks : List Chunk} {t : TableRef}
    (h : t ∈ tableRefs start chunks) : ∃ c ∈ chunks, t.signature = c.1 := by
  obtain ⟨p, hp, rfl⟩ := List.mem_map.mp h
  have hkey : p.key ∈ chunks.map Prod.fst := by
    rw [← keys_place start]
    exact List.mem_map_of_mem hp
  obtain ⟨c, hc, hkey⟩ := List.mem_map.mp hkey
  exact ⟨c, hc, hkey.symm⟩

/-- A table of the blob is a chunk at its place, when the blob is below 4 GiB. -/
theorem mem_tableRefs {start : ℕ} {chunks : List Chunk} {t : TableRef}
    (h : t ∈ tableRefs start chunks) (hfit : start + (layChunks chunks).length < 4294967296) :
    ∃ p ∈ place start chunks,
      t.signature = p.key ∧ t.offset.toNat = p.offset ∧ t.length.toNat = p.length := by
  obtain ⟨p, hp, rfl⟩ := List.mem_map.mp h
  have hbounds := bounds_of_mem_place hp
  exact ⟨p, hp, rfl, toNat_offset_ofPlaced (by omega), toNat_length_ofPlaced (by omega)⟩

section

variable {config : PlatformConfig} {parts : BuildParts} {built : BuiltBlob}

/-- The blob is as long as its front and its chunks. -/
theorem BuiltFrom.length_data (h : BuiltFrom config parts built) :
    built.blob.data.length =
      (frontBytes config).length + (layChunks (allChunks config parts)).length := by
  rw [h.data_eq, List.length_append]

variable (h : BuiltFrom config parts built) (hfit : built.blob.data.length < 4294967296)

include h hfit

/-- A reference finds the bytes of its table. -/
theorem BuiltFrom.mem_allChunks {t : TableRef} (ht : t ∈ built.blob.tables) :
    (t.signature, slice built.blob.data t.offset.toNat t.length.toNat) ∈ allChunks config parts ∧
      t.offset.toNat + t.length.toNat ≤ built.blob.data.length := by
  have hlength := h.length_data
  rw [h.tables_eq] at ht
  obtain ⟨p, hp, hkey, hoffset, hlen⟩ := mem_tableRefs ht (by omega)
  have hbounds := bounds_of_mem_place hp
  rw [hkey, hoffset, hlen, h.data_eq]
  refine ⟨mem_of_mem_place hp, ?_⟩
  rw [List.length_append]
  omega

/-- A table has a reference, behind the tables in front of it. -/
theorem BuiltFrom.exists_ref (cs : List Chunk) (c : Chunk) {ds : List Chunk}
    (hsplit : allChunks config parts = cs ++ c :: ds) :
    ∃ t ∈ built.blob.tables, t.signature = c.1 ∧
      t.offset.toNat = (frontBytes config).length + (layChunks cs).length ∧
      t.length.toNat = c.2.length ∧
      slice built.blob.data t.offset.toNat t.length.toNat = c.2 := by
  have hlength := h.length_data
  rw [hsplit, layChunks_append, layChunks_cons, List.length_append, List.length_append] at hlength
  set p : Placed (Vector UInt8 4) :=
    ⟨c.1, (frontBytes config).length + (layChunks cs).length, c.2.length⟩ with hp
  have hoffset := @toNat_offset_ofPlaced p (by rw [hp]; dsimp only; omega)
  have hlen := @toNat_length_ofPlaced p (by rw [hp]; dsimp only; omega)
  refine ⟨.ofPlaced p, ?_, rfl, hoffset, hlen, ?_⟩
  · rw [h.tables_eq, hsplit, tableRefs, place_insert, List.map_append, List.map_cons]
    exact List.mem_append_right _ (List.mem_cons_self ..)
  · rw [hoffset, hlen, h.data_eq, hsplit, slice_layChunks]

end

/-- The tables that the RSDT is meant to list. -/
def listedTables (tables : List TableRef) : List TableRef :=
  tables.filter fun t => t.signature ∉ [bstr "FACS", bstr "DSDT", bstr "RSDT"]

/-- No table of a listed signature is FACS, DSDT or RSDT. -/
theorem signature_listed :
    ∀ signature ∈ [bstr "FACP", bstr "APIC"] ++ optionalSignatures.flatten ++ [bstr "WAET"],
      signature ∉ ([bstr "FACS", bstr "DSDT", bstr "RSDT"] : List (Vector UInt8 4)) :=
  forall_mem_of_all (by decide +kernel)

/-- No listed table is FACS, DSDT or RSDT. -/
theorem signature_listedChunks {config : PlatformConfig} {fadt madt : Bytes} {c : Chunk}
    (h : c ∈ listedChunks config fadt madt) :
    c.1 ∉ [bstr "FACS", bstr "DSDT", bstr "RSDT"] := by
  have hsub : ((listedChunks config fadt madt).map Prod.fst).Sublist
      ([bstr "FACP", bstr "APIC"] ++ optionalSignatures.flatten ++ [bstr "WAET"]) := by
    rw [listedChunks, List.map_append, List.map_append]
    exact ((List.Sublist.refl _).append (sublist_optionalSignatures config)).append (.refl _)
  exact signature_listed _ (hsub.subset (List.mem_map_of_mem h))

/-- The tables that the root table lists stand behind the DSDT, in order. -/
theorem BuiltFrom.listedTables_eq {config : PlatformConfig} {parts : BuildParts}
    {built : BuiltBlob} (h : BuiltFrom config parts built) :
    listedTables built.blob.tables =
      tableRefs ((frontBytes config).length + (64 + parts.dsdt.length))
        (listedChunks config parts.fadt parts.madt) := by
  have hpre := length_unlistedChunks parts.dsdt
  have hfront : ∀ t ∈ tableRefs (frontBytes config).length
      ([(bstr "FACS", facsBytes), (bstr "DSDT", parts.dsdt)] : List Chunk),
      ¬decide (t.signature ∉ [bstr "FACS", bstr "DSDT", bstr "RSDT"]) = true := by
    intro t ht
    obtain ⟨c, hc, hkey⟩ := signature_of_mem_tableRefs ht
    rw [decide_eq_true_eq, hkey, not_not]
    rcases List.mem_pair.mp hc with rfl | rfl
    · exact List.mem_cons_self ..
    · exact List.mem_cons_of_mem _ (List.mem_cons_self ..)
  have hback : ∀ start, ∀ t ∈ tableRefs start [(bstr "RSDT", buildRsdt config parts.entries)],
      ¬decide (t.signature ∉ [bstr "FACS", bstr "DSDT", bstr "RSDT"]) = true := by
    intro start t ht
    obtain ⟨c, hc, hkey⟩ := signature_of_mem_tableRefs ht
    obtain rfl := List.mem_singleton.mp hc
    rw [decide_eq_true_eq, hkey, not_not]
    exact List.mem_cons_of_mem _ (List.mem_cons_of_mem _ (List.mem_cons_self ..))
  have hlisted : ∀ t ∈ tableRefs ((frontBytes config).length + (64 + parts.dsdt.length))
      (listedChunks config parts.fadt parts.madt),
      decide (t.signature ∉ [bstr "FACS", bstr "DSDT", bstr "RSDT"]) = true := by
    intro t ht
    obtain ⟨c, hc, hkey⟩ := signature_of_mem_tableRefs ht
    rw [decide_eq_true_eq, hkey]
    exact signature_listedChunks hc
  rw [listedTables, h.tables_eq, allChunks, mainChunks, tableRefs_append, tableRefs_append,
    List.filter_append, List.filter_append, hpre, List.filter_eq_nil_iff.mpr hfront,
    List.filter_eq_self.mpr hlisted, List.filter_eq_nil_iff.mpr (hback _), List.nil_append,
    List.append_nil]

/-! ## The pointers -/

/-- Where a table is in memory. -/
def tableAddress (config : PlatformConfig) (table : TableRef) : ℕ :=
  config.blobBaseAddress.toNat + table.offset.toNat

/-- The address of a table is the base plus its offset, without overflow. -/
theorem addressAt_eq_ok {config : PlatformConfig} {offset : UInt32} {address : UInt64}
    (h : addressAt config offset = .ok address) :
    address.toNat = config.blobBaseAddress.toNat + offset.toNat := by
  have hvalue := checkedAdd_eq_ok h
  have hoffset : toNat offset.toUInt64 = offset.toNat := UInt32.toNat_toUInt64 offset
  rw [hoffset] at hvalue
  exact hvalue

/-- The payload of the RSDT is made of the addresses of the tables. -/
theorem rsdtBody_eq {config : PlatformConfig} {refs : List TableRef} {entries : List UInt64}
    (h : List.Forall₂ (fun o a => checkedAdd config.blobBaseAddress o.toUInt64 = .ok a)
      (refs.map TableRef.offset) entries)
    (hfit : ∀ t ∈ refs, tableAddress config t < 4294967296) :
    rsdtBody entries = refs.flatMap fun t => leBytes 4 (tableAddress config t) := by
  induction refs generalizing entries with
  | nil =>
    cases h
    rfl
  | cons t refs ih =>
    rw [List.map_cons] at h
    cases h with
    | cons haddress h =>
      obtain ⟨ht, hfit⟩ := List.forall_mem_cons.mp hfit
      have hvalue := addressAt_eq_ok haddress
      rw [rsdtBody, List.flatMap_cons, List.flatMap_cons, ← rsdtBody, ih h hfit,
        toLeBytes_toUInt32 (hvalue ▸ ht), hvalue]
      rfl

/-- **The graph**: what points where. -/
structure PointerGraph (config : PlatformConfig) (built : BuiltBlob) : Prop where
  /-- no two tables have the same signature -/
  nodup : (built.blob.tables.map TableRef.signature).Nodup
  /-- the tables lie in the data -/
  inside : ∀ t ∈ built.blob.tables, t.offset.toNat + t.length.toNat ≤ built.blob.data.length
  /-- the RSDP points at the RSDT, whose payload is one entry for each listed table, in order -/
  rsdt : ∃ rsdt ∈ built.blob.tables, rsdt.signature = bstr "RSDT" ∧
    leValue (slice built.rsdp 16 4) = tableAddress config rsdt ∧
    rsdt.length.toNat = 36 + 4 * (listedTables built.blob.tables).length ∧
    slice built.blob.data (rsdt.offset.toNat + 36) (rsdt.length.toNat - 36) =
      (listedTables built.blob.tables).flatMap fun t => leBytes 4 (tableAddress config t)
  /-- no address is listed twice -/
  nodup_entries : ((listedTables built.blob.tables).map (tableAddress config)).Nodup
  /-- the FADT points at the FACS, and in two fields at the DSDT -/
  fadt : ∃ fadt ∈ built.blob.tables, fadt.signature = bstr "FACP" ∧
    ∃ facs ∈ built.blob.tables, facs.signature = bstr "FACS" ∧
    ∃ dsdt ∈ built.blob.tables, dsdt.signature = bstr "DSDT" ∧
      leValue (slice built.blob.data (fadt.offset.toNat + 36) 4) = tableAddress config facs ∧
      leValue (slice built.blob.data (fadt.offset.toNat + 40) 4) = tableAddress config dsdt ∧
      leValue (slice built.blob.data (fadt.offset.toNat + 140) 8) = tableAddress config dsdt
  /-- the directory has every table once -/
  directory : IsDirectory built.blob.tables built.layout

section

variable {config : PlatformConfig} {parts : BuildParts} {built : BuiltBlob}

/-- The signatures of the blob's tables are those of its chunks. -/
theorem BuiltFrom.signatures_eq (h : BuiltFrom config parts built) :
    built.blob.tables.map TableRef.signature = (allChunks config parts).map Prod.fst := by
  rw [h.tables_eq, tableRefs, List.map_map, ← keys_place (frontBytes config).length]
  rfl

/-- The layout of a build is the directory of its tables. -/
theorem BuiltFrom.directory (h : BuiltFrom config parts built) :
    IsDirectory built.blob.tables built.layout := by
  have hkeys := nodup_keys_allChunks config parts
  rw [← h.signatures_eq, List.map_map] at hkeys
  exact isDirectory_of_foldlM h.layout_ok hkeys

/-- A build has at most a thousand CPUs. -/
theorem BuiltFrom.cpus_le (h : BuiltFrom config parts built) : config.cpuApicIds.length ≤ 1000 :=
  (buildDsdt_eq_ok h.dsdt_ok).1

/-- Every table is longer than a header. -/
theorem BuiltFrom.length_chunk (h : BuiltFrom config parts built) {c : Chunk}
    (hc : c ∈ allChunks config parts) : 36 ≤ c.2.length := by
  obtain ⟨hdsdt, hfadt, hmadt⟩ := length_built_ge h.dsdt_ok h.fadt_ok h.madt_ok
  exact length_chunk_ge h.cpus_le hdsdt hfadt hmadt c hc

variable (h : BuiltFrom config parts built)
  (hfit : config.blobBaseAddress.toNat + built.blob.data.length < 4294967296)

include h hfit

/-- The tables lie below 4 GiB. -/
theorem BuiltFrom.tableAddress_lt {t : TableRef} (ht : t ∈ built.blob.tables) :
    tableAddress config t < 4294967296 := by
  have := (h.mem_allChunks (by omega) ht).2
  rw [tableAddress]
  omega

/-- The root table lists no address twice. -/
theorem BuiltFrom.nodup_entries :
    ((listedTables built.blob.tables).map (tableAddress config)).Nodup := by
  have hlength := h.length_data
  have hincreasing := @pairwise_offset_lt _ ((frontBytes config).length + (64 + parts.dsdt.length))
    (listedChunks config parts.fadt parts.madt) fun c hc hempty => by
      have := h.length_chunk (List.mem_append_left _ (List.mem_append_right _ hc))
      rw [hempty] at this
      exact absurd this (by decide)
  have hchunks : (layChunks (allChunks config parts)).length =
      64 + parts.dsdt.length + (layChunks (listedChunks config parts.fadt parts.madt)).length +
        (36 + 4 * parts.entries.length) := by
    rw [length_allChunks, length_mainChunks]
  rw [h.listedTables_eq, tableRefs, List.map_map, List.Nodup, List.pairwise_map]
  refine hincreasing.imp_of_mem fun {p q} hp hq hlt => ?_
  have hpEnd := (bounds_of_mem_place hp).2
  have hqEnd := (bounds_of_mem_place hq).2
  have hpNat := @toNat_offset_ofPlaced p (by omega)
  have hqNat := @toNat_offset_ofPlaced q (by omega)
  rw [Function.comp_apply, Function.comp_apply, tableAddress, tableAddress, hpNat, hqNat]
  omega

/-- The root table holds the addresses of the listed tables, in 32 bits each. -/
theorem BuiltFrom.rsdtBody_entries :
    rsdtBody parts.entries =
      (listedTables built.blob.tables).flatMap fun t => leBytes 4 (tableAddress config t) := by
  refine rsdtBody_eq ?_ fun t ht => h.tableAddress_lt hfit (List.mem_filter.mp ht).1
  rw [h.listedTables_eq]
  exact mapM_eq_ok h.entries_ok

/-- The RSDT and what points at it. -/
theorem BuiltFrom.rsdt : ∃ rsdt ∈ built.blob.tables, rsdt.signature = bstr "RSDT" ∧
    leValue (slice built.rsdp 16 4) = tableAddress config rsdt ∧
    rsdt.length.toNat = 36 + 4 * (listedTables built.blob.tables).length ∧
    slice built.blob.data (rsdt.offset.toNat + 36) (rsdt.length.toNat - 36) =
      (listedTables built.blob.tables).flatMap fun t => leBytes 4 (tableAddress config t) := by
  obtain ⟨rsdt, hmem, hsignature, hoffset, hlength, hslice⟩ :=
    h.exists_ref (by omega) _ (bstr "RSDT", buildRsdt config parts.entries) rfl
  have hentries : parts.entries.length = (listedTables built.blob.tables).length := by
    rw [h.listedTables_eq, ← (mapM_eq_ok h.entries_ok).length_eq, List.length_map]
  have hsize := length_buildRsdt config parts.entries
  have hbytes : slice built.blob.data rsdt.offset.toNat rsdt.length.toNat =
      buildRsdt config parts.entries := hslice
  refine ⟨rsdt, hmem, hsignature, ?_, ?_, ?_⟩
  · have hlt := h.tableAddress_lt hfit hmem
    have hvalue : parts.rsdtAddress.toNat = tableAddress config rsdt := by
      have hrsdt := addressAt_eq_ok h.rsdtAddress_ok
      rwa [← hoffset, UInt32.ofNat_toNat] at hrsdt
    rw [h.rsdp_eq, slice_buildRsdp, toLeBytes_toUInt32 (hvalue ▸ hlt), hvalue,
      leValue_leBytes_of_lt hlt]
  · rw [hlength, hsize, hentries]
  · rw [← h.rsdtBody_entries hfit, ← drop_buildRsdt config parts.entries, ← hbytes, slice, slice,
      List.drop_take, List.drop_drop]

/-- The payload of the RSDT, whichever reference names it. -/
theorem BuiltFrom.rsdt_payload {t : TableRef} (ht : t ∈ built.blob.tables)
    (hsignature : t.signature = bstr "RSDT") :
    slice built.blob.data (t.offset.toNat + 36) (t.length.toNat - 36) =
      (listedTables built.blob.tables).flatMap fun t => leBytes 4 (tableAddress config t) := by
  obtain ⟨rsdt, hmem, hsignature', -, -, hpayload⟩ := h.rsdt hfit
  have hnodup : (built.blob.tables.map TableRef.signature).Nodup := by
    rw [h.signatures_eq]
    exact (nodup_keys_allChunks config parts).of_map
  obtain rfl := List.inj_on_of_nodup_map hnodup ht hmem (hsignature.trans hsignature'.symm)
  exact hpayload

/-- The FADT and what it points at. -/
theorem BuiltFrom.fadt : ∃ fadt ∈ built.blob.tables, fadt.signature = bstr "FACP" ∧
    ∃ facs ∈ built.blob.tables, facs.signature = bstr "FACS" ∧
    ∃ dsdt ∈ built.blob.tables, dsdt.signature = bstr "DSDT" ∧
      leValue (slice built.blob.data (fadt.offset.toNat + 36) 4) = tableAddress config facs ∧
      leValue (slice built.blob.data (fadt.offset.toNat + 40) 4) = tableAddress config dsdt ∧
      leValue (slice built.blob.data (fadt.offset.toNat + 140) 8) = tableAddress config dsdt := by
  obtain ⟨hlength, hfacsField, hdsdtField, hxDsdtField⟩ := pointers_of_buildFadt h.fadt_ok
  obtain ⟨facs, hfacs, hfacsSig, hfacsOffset, -, -⟩ := h.exists_ref (by omega)
    [] (bstr "FACS", facsBytes) rfl
  obtain ⟨dsdt, hdsdt, hdsdtSig, hdsdtOffset, -, -⟩ := h.exists_ref (by omega)
    [(bstr "FACS", facsBytes)] (bstr "DSDT", parts.dsdt) rfl
  obtain ⟨fadt, hfadt, hfadtSig, -, hfadtLength, hfadtSlice⟩ := h.exists_ref (by omega)
    [(bstr "FACS", facsBytes), (bstr "DSDT", parts.dsdt)] (bstr "FACP", parts.fadt) rfl
  have hfacsValue : parts.facsAddress.toNat = tableAddress config facs := by
    have hvalue := addressAt_eq_ok h.facsAddress_ok
    have hoffset : (frontBytes config).length = facs.offset.toNat := hfacsOffset.symm
    rwa [hoffset, UInt32.ofNat_toNat] at hvalue
  have hdsdtValue : parts.dsdtAddress.toNat = tableAddress config dsdt := by
    have hvalue := addressAt_eq_ok h.dsdtAddress_ok
    have hoffset : (frontBytes config).length + 64 = dsdt.offset.toNat := hdsdtOffset.symm
    rwa [hoffset, UInt32.ofNat_toNat] at hvalue
  have hfacsLt := h.tableAddress_lt hfit hfacs
  have hdsdtLt := h.tableAddress_lt hfit hdsdt
  -- what is read at the offset of the FADT is in the FADT
  have hread : ∀ start len, start + len ≤ 244 →
      slice built.blob.data (fadt.offset.toNat + start) len = slice parts.fadt start len := by
    intro start len hle
    have hle : start + len ≤ fadt.length.toNat := by
      rw [hfadtLength, hlength]
      exact hle
    rw [← slice_slice hle, hfadtSlice]
  refine ⟨fadt, hfadt, hfadtSig, facs, hfacs, hfacsSig, dsdt, hdsdt, hdsdtSig, ?_, ?_, ?_⟩
  · rw [hread 36 4 (by decide), hfacsField, toLeBytes_toUInt32 (hfacsValue ▸ hfacsLt), hfacsValue,
      leValue_leBytes_of_lt hfacsLt]
  · rw [hread 40 4 (by decide), hdsdtField, toLeBytes_toUInt32 (hdsdtValue ▸ hdsdtLt), hdsdtValue,
      leValue_leBytes_of_lt hdsdtLt]
  · rw [hread 140 8 (by decide), hxDsdtField, leValue_toLeBytes]
    exact hdsdtValue

/-- A build has the whole graph of pointers. -/
theorem BuiltFrom.pointerGraph : PointerGraph config built where
  nodup := by
    rw [h.signatures_eq]
    exact (nodup_keys_allChunks config parts).of_map
  inside _ ht := (h.mem_allChunks (by omega) ht).2
  rsdt := h.rsdt hfit
  nodup_entries := h.nodup_entries hfit
  fadt := h.fadt hfit
  directory := h.directory

end

/-- **The pointers of every build**, when the base and the data stay below 2^32:
the RSDP points at the RSDT, which has one entry for each listed table, in the
order of the blob and none twice; the FADT points at the FACS and, in both its
fields, at the DSDT; and the directory has each table once. -/
theorem buildMinimalAcpi_pointers {config : PlatformConfig} {built : BuiltBlob}
    (h : buildMinimalAcpi config = .ok built)
    (hfit : config.blobBaseAddress.toNat + built.blob.data.length < 4294967296) :
    PointerGraph config built := by
  obtain ⟨parts, hparts⟩ := buildMinimalAcpi_eq_ok.mp h
  exact hparts.pointerGraph hfit

theorem buildMinimalAcpi_pointers_twoDisks :
    ∃ built, buildMinimalAcpi .twoDisks = .ok built ∧ PointerGraph .twoDisks built := by
  obtain ⟨built, hbuilt, hlength⟩ := buildMinimalAcpi_twoDisks
  have hbase : PlatformConfig.twoDisks.blobBaseAddress.toNat = 0 := rfl
  exact ⟨built, hbuilt, buildMinimalAcpi_pointers hbuilt (by omega)⟩

end AcpiTables
