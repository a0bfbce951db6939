import AcpiTables.Build
import AcpiTables.DsdtLength

/-!
# The build as chunks in their places

What `buildMinimalAcpi` appends is a list of chunks, `mainChunks`, and the RSDT
behind it: a chunk is the signature of a table and its bytes. `buildMinimalAcpi_eq`
is the build in these terms: the tables that can fail to be built, the addresses
that have to be computed, and nothing else.

* a section is an optional table that is there or not; `Appends` says that a step
  of the build appends its section to whatever was laid before, and the lemmas
  `appends_skip`, `appends_add`, `appends_reserve` are the three ways to do so;
* `Appends.bind` takes one such step off the front of the build. The whole build
  is peeled by it section by section, so that no combination of switches has to be
  looked at;
* `pushSection_bind` and its companions do the same for the addresses that the
  RSDT lists.
-/

namespace AcpiTables

open MachineInt

/-! ## Sections -/

/-- The padding in front of the tables. -/
def frontBytes (config : PlatformConfig) : Bytes := List.replicate config.frontPadding.toNat 1

/-- A reserved table: zeros, as many as its length. -/
def reservedBytes (signature : Vector UInt8 4) (config : PlatformConfig) : Bytes :=
  match optionalTableLen signature config with
  | .ok length => List.replicate length.toNat 0
  | .error _ => []

/-- A reserved table under its signature. -/
def reservedChunk (signature : Vector UInt8 4) (config : PlatformConfig) : Chunk :=
  (signature, reservedBytes signature config)

/-- The table of the TPM, by its kind. -/
def tpmSection (config : PlatformConfig) : List Chunk :=
  match config.tpmKind with
  | some .tcpa => [reservedChunk (bstr "TCPA") config]
  | some .tpm2 => [reservedChunk (bstr "TPM2") config]
  | none => []

/-- The table of the IOMMU, by its kind. -/
def iommuSection (config : PlatformConfig) : List Chunk :=
  match config.iommuKind with
  | some .dmar => [reservedChunk (bstr "DMAR") config]
  | some .ivrs => [reservedChunk (bstr "IVRS") config]
  | some .viot => [reservedChunk (bstr "VIOT") config]
  | none => []

/-- The optional tables, each there or not. -/
def optionalSections (config : PlatformConfig) : List (List Chunk) :=
  [if config.hasVmgenid then [reservedChunk (bstr "SSDT") config] else [],
    if config.hasHpet then [(bstr "HPET", buildHpet config)] else [],
    tpmSection config,
    if config.hasNuma then [reservedChunk (bstr "SRAT") config] else [],
    if config.hasSlit then [reservedChunk (bstr "SLIT") config] else [],
    if config.hasHmat then [reservedChunk (bstr "HMAT") config] else [],
    if config.hasMcfg then [(bstr "MCFG", buildMcfg config)] else [],
    iommuSection config,
    if config.nvdimmEnabled then [reservedChunk (bstr "NFIT") config] else [],
    if config.cxlEnabled then [reservedChunk (bstr "CEDT") config] else []]

/-- The tables that the RSDT points at. -/
def listedChunks (config : PlatformConfig) (fadt madt : Bytes) : List Chunk :=
  [(bstr "FACP", fadt), (bstr "APIC", madt)] ++ (optionalSections config).flatten ++
    [(bstr "WAET", buildWaet config)]

/-- The tables in front of the RSDT. -/
def mainChunks (config : PlatformConfig) (dsdt fadt madt : Bytes) : List Chunk :=
  [(bstr "FACS", facsBytes), (bstr "DSDT", dsdt)] ++ listedChunks config fadt madt

/-- Each section holds at most one table. -/
theorem length_optionalSections (config : PlatformConfig) :
    ∀ sec ∈ optionalSections config, sec.length ≤ 1 := by
  have hif : ∀ (switch : Bool) (c : Chunk), (if switch then [c] else []).length ≤ 1 := by
    rintro (_ | _) c
    · exact Nat.zero_le 1
    · exact Nat.le_refl 1
  have htpm : (tpmSection config).length ≤ 1 := by
    rw [tpmSection]
    rcases config.tpmKind with - | (- | -)
    · exact Nat.zero_le 1
    · exact Nat.le_refl 1
    · exact Nat.le_refl 1
  have hiommu : (iommuSection config).length ≤ 1 := by
    rw [iommuSection]
    rcases config.iommuKind with - | (- | - | -)
    · exact Nat.zero_le 1
    · exact Nat.le_refl 1
    · exact Nat.le_refl 1
    · exact Nat.le_refl 1
  simp only [optionalSections, List.forall_mem_cons]
  exact ⟨hif _ _, hif _ _, htpm, hif _ _, hif _ _, hif _ _, hif _ _, hiommu, hif _ _, hif _ _,
    List.forall_mem_nil _⟩

/-- The two tables that are not listed take the 64 bytes of FACS and those of the
DSDT. -/
theorem length_unlistedChunks (dsdt : Bytes) :
    (layChunks ([(bstr "FACS", facsBytes), (bstr "DSDT", dsdt)] : List Chunk)).length =
      64 + dsdt.length := by
  rw [layChunks_cons, layChunks_cons, layChunks_nil, List.append_nil, List.length_append,
    length_facsBytes]

/-! ## One optional table -/

/-- The offset of what a section appends. -/
def sectionOffset (start : ℕ) : List Chunk → Option UInt32
  | [] => none
  | _ :: _ => some (UInt32.ofNat start)

/-- A step of the build that appends a section to whatever was laid before. -/
def Appends (m : AcpiBlobBuilder → Checked (Option UInt32 × AcpiBlobBuilder))
    (sec : List Chunk) : Prop :=
  ∀ base front chunks, m (laid base front chunks) =
    .ok (sectionOffset (front.length + (layChunks chunks).length) sec,
      laid base front (chunks ++ sec))

/-- Skipping a table appends nothing. -/
theorem appends_skip : Appends skipTable [] := by
  intro base front chunks
  rw [List.append_nil]
  rfl

/-- Adding a table appends it. -/
theorem appends_add (signature : Vector UInt8 4) (bytes : Bytes) :
    Appends (fun blob => addTable blob signature bytes) [(signature, bytes)] := by
  intro base front chunks
  change addTable _ _ _ = _
  rw [addTable, appendTable_laid]
  rfl

/-- Reserving a table appends its zeros. -/
theorem appends_reserve {signature : Vector UInt8 4} {config : PlatformConfig} {length : UInt32}
    (h : optionalTableLen signature config = .ok length) :
    Appends (fun blob => reserveTable blob signature config) [reservedChunk signature config] := by
  intro base front chunks
  change reserveTable _ _ _ = _
  rw [reserveTable, h, Checked.ok_bind, appendPlaceholderTable_laid, reservedChunk, reservedBytes,
    h]
  rfl

/-- A switch appends a section or nothing. -/
theorem Appends.ite {m : AcpiBlobBuilder → Checked (Option UInt32 × AcpiBlobBuilder)}
    {sec : List Chunk} (h : Appends m sec) (switch : Bool) :
    Appends (fun blob => if switch then m blob else skipTable blob)
      (if switch then sec else []) := by
  cases switch with
  | false => exact appends_skip
  | true => exact h

section

variable {config : PlatformConfig} (h : ∀ signature,
  Appends (fun blob => reserveTable blob signature config) [reservedChunk signature config])

include h

/-- The branches over the kind of TPM append its section. -/
theorem appends_tpm : Appends (fun blob => match config.tpmKind with
    | some .tcpa => reserveTable blob (bstr "TCPA") config
    | some .tpm2 => reserveTable blob (bstr "TPM2") config
    | none => skipTable blob) (tpmSection config) := by
  rw [tpmSection]
  cases config.tpmKind with
  | none => exact appends_skip
  | some kind => cases kind <;> exact h _

/-- The branches over the kind of IOMMU append its section. -/
theorem appends_iommu : Appends (fun blob => match config.iommuKind with
    | some .dmar => reserveTable blob (bstr "DMAR") config
    | some .ivrs => reserveTable blob (bstr "IVRS") config
    | some .viot => reserveTable blob (bstr "VIOT") config
    | none => skipTable blob) (iommuSection config) := by
  rw [iommuSection]
  cases config.iommuKind with
  | none => exact appends_skip
  | some kind => cases kind <;> exact h _

end

/-- A length of the table of lengths. -/
def IsTableLen (x : Checked UInt32) : Prop :=
  ∃ length, x = .ok length ∧ 36 ≤ length.toNat ∧ length.toNat ≤ 24048

/-- Both branches of a length are lengths of tables. -/
theorem isTableLen_ite {p : Prop} [Decidable p] {x y : Checked UInt32} (hx : IsTableLen x)
    (hy : IsTableLen y) : IsTableLen (if p then x else y) := by
  split
  · exact hx
  · exact hy

/-- A number in the range is a length of a table. -/
theorem isTableLen_pure {length : UInt32} (h : 36 ≤ length.toNat ∧ length.toNat ≤ 24048) :
    IsTableLen (pure length) :=
  ⟨length, rfl, h⟩

/-- The sum of the entries of the SRAT fits for at most a thousand CPUs. -/
theorem sratEntries_isOk (ids : List UInt32) {sum : UInt32}
    (hfit : sum.toNat + 24 * ids.length < 4294967296) :
    ∃ total, ids.foldlM
      (fun sum apicId => checkedAdd sum (if apicId < 255 then (16 : UInt32) else 24)) sum =
        .ok total ∧ total.toNat ≤ sum.toNat + 24 * ids.length := by
  induction ids generalizing sum with
  | nil => exact ⟨sum, rfl, by simp⟩
  | cons apicId ids ih =>
    rw [List.length_cons] at hfit ⊢
    have hentry : toNat (if apicId < 255 then (16 : UInt32) else 24) ≤ 24 := by
      split <;> decide
    have hsum : toNat sum = sum.toNat := rfl
    obtain ⟨next, hnext, hvalue⟩ := checkedAdd_isOk (x := sum)
      (y := if apicId < 255 then (16 : UInt32) else 24) (by rw [width_u32, hsum]; omega)
    have hnextNat : toNat next = next.toNat := rfl
    obtain ⟨total, htotal, hle⟩ := @ih next (by omega)
    refine ⟨total, ?_, by omega⟩
    rw [List.foldlM_cons, hnext]
    exact htotal

/-- Every reserved table has a header and at most 24048 bytes, with at most a
thousand CPUs. -/
theorem isTableLen_optionalTableLen (signature : Vector UInt8 4) {config : PlatformConfig}
    (hcpus : config.cpuApicIds.length ≤ 1000) :
    IsTableLen (optionalTableLen signature config) := by
  have hsrat : IsTableLen (do
      let cpuLen ← config.cpuApicIds.foldlM
        (fun sum apicId => checkedAdd sum (if apicId < 255 then (16 : UInt32) else 24)) 0
      checkedAdd (48 : UInt32) cpuLen) := by
    have hzero : (0 : UInt32).toNat = 0 := rfl
    have h48 : toNat (48 : UInt32) = 48 := rfl
    obtain ⟨cpuLen, hcpuLen, hle⟩ := @sratEntries_isOk config.cpuApicIds 0 (by omega)
    have hcpuNat : toNat cpuLen = cpuLen.toNat := rfl
    obtain ⟨length, hlength, hvalue⟩ := checkedAdd_isOk (x := (48 : UInt32)) (y := cpuLen)
      (by rw [width_u32, h48, hcpuNat]; omega)
    have hlengthNat : toNat length = length.toNat := rfl
    refine ⟨length, ?_, by omega, by omega⟩
    rw [hcpuLen, Checked.ok_bind, hlength]
  rw [optionalTableLen]
  exact isTableLen_ite (isTableLen_pure (by decide)) <|
    isTableLen_ite (isTableLen_pure (by decide)) <| isTableLen_ite hsrat <|
    isTableLen_ite (isTableLen_pure (by decide)) <| isTableLen_ite (isTableLen_pure (by decide)) <|
    isTableLen_ite (isTableLen_pure (by decide)) <| isTableLen_ite (isTableLen_pure (by decide)) <|
    isTableLen_ite (isTableLen_pure (by decide)) <| isTableLen_ite (isTableLen_pure (by decide)) <|
    isTableLen_ite (isTableLen_pure (by decide)) <| isTableLen_ite (isTableLen_pure (by decide)) <|
    isTableLen_ite (isTableLen_pure (by decide)) (isTableLen_pure (by decide))

/-- So its zeros are as many. -/
theorem length_reservedBytes (signature : Vector UInt8 4) {config : PlatformConfig}
    (hcpus : config.cpuApicIds.length ≤ 1000) :
    36 ≤ (reservedBytes signature config).length ∧
      (reservedBytes signature config).length ≤ 24048 := by
  obtain ⟨length, hlength, hbounds⟩ := isTableLen_optionalTableLen signature hcpus
  rw [reservedBytes, hlength, List.length_replicate]
  exact hbounds

/-- The signatures of the tables that are only reserved. -/
def reservedSignatures : List (Vector UInt8 4) :=
  [bstr "SSDT", bstr "TCPA", bstr "TPM2", bstr "SRAT", bstr "SLIT", bstr "HMAT", bstr "DMAR",
    bstr "IVRS", bstr "VIOT", bstr "NFIT", bstr "CEDT"]

/-- An optional table is built or reserved. -/
theorem mem_optionalSections {config : PlatformConfig} {c : Chunk}
    (h : c ∈ (optionalSections config).flatten) :
    c = (bstr "HPET", buildHpet config) ∨ c = (bstr "MCFG", buildMcfg config) ∨
      ∃ signature ∈ reservedSignatures, c = reservedChunk signature config := by
  have hif : ∀ {switch : Bool} {d : Chunk}, c ∈ (if switch then [d] else []) → c = d := by
    rintro (_ | _) d h
    · cases h
    · exact List.mem_singleton.mp h
  obtain ⟨sec, hsec, hc⟩ := List.mem_flatten.mp h
  simp only [optionalSections, List.mem_cons, List.not_mem_nil, or_false] at hsec
  rcases hsec with rfl | rfl | rfl | rfl | rfl | rfl | rfl | rfl | rfl | rfl
  · exact .inr (.inr ⟨bstr "SSDT", by simp [reservedSignatures], hif hc⟩)
  · exact .inl (hif hc)
  · rw [tpmSection] at hc
    split at hc
    · exact .inr (.inr ⟨bstr "TCPA", by simp [reservedSignatures], List.mem_singleton.mp hc⟩)
    · exact .inr (.inr ⟨bstr "TPM2", by simp [reservedSignatures], List.mem_singleton.mp hc⟩)
    · cases hc
  · exact .inr (.inr ⟨bstr "SRAT", by simp [reservedSignatures], hif hc⟩)
  · exact .inr (.inr ⟨bstr "SLIT", by simp [reservedSignatures], hif hc⟩)
  · exact .inr (.inr ⟨bstr "HMAT", by simp [reservedSignatures], hif hc⟩)
  · exact .inr (.inl (hif hc))
  · rw [iommuSection] at hc
    split at hc
    · exact .inr (.inr ⟨bstr "DMAR", by simp [reservedSignatures], List.mem_singleton.mp hc⟩)
    · exact .inr (.inr ⟨bstr "IVRS", by simp [reservedSignatures], List.mem_singleton.mp hc⟩)
    · exact .inr (.inr ⟨bstr "VIOT", by simp [reservedSignatures], List.mem_singleton.mp hc⟩)
    · cases hc
  · exact .inr (.inr ⟨bstr "NFIT", by simp [reservedSignatures], hif hc⟩)
  · exact .inr (.inr ⟨bstr "CEDT", by simp [reservedSignatures], hif hc⟩)

/-! ## The whole build -/

section

variable {β : Type} {base : UInt64} {front : Bytes} {pre listed sec : List Chunk}

/-- What a section does to the rest of the build, when the first tables are not
listed. -/
theorem Appends.bind {m : AcpiBlobBuilder → Checked (Option UInt32 × AcpiBlobBuilder)}
    (h : Appends m sec) (k : Option UInt32 × AcpiBlobBuilder → Checked β) :
    (m (laid base front (pre ++ listed)) >>= k) =
      k (sectionOffset (front.length + (layChunks (pre ++ listed)).length) sec,
        laid base front (pre ++ (listed ++ sec))) := by
  rw [h, Checked.ok_bind, List.append_assoc]

/-- A listed table behind the tables that are not listed. -/
theorem appendTable_listed (signature : Vector UInt8 4) (bytes : Bytes) :
    (laid base front (pre ++ listed)).appendTable signature bytes =
      (UInt32.ofNat (front.length + (layChunks (pre ++ listed)).length),
        laid base front (pre ++ (listed ++ [(signature, bytes)]))) := by
  rw [appendTable_laid, List.append_assoc]

/-- Two runs agree when they agree after every value of their common first part. -/
theorem bind_congr_of_ok {α : Type} {x : Checked α} {f g : α → Checked β}
    (h : ∀ a, x = .ok a → f a = g a) : (x >>= f) = (x >>= g) := by
  cases x with
  | error e => rfl
  | ok a => exact h a rfl

end

/-- The address of an offset. -/
def addressAt (config : PlatformConfig) (offset : UInt32) : Checked UInt64 :=
  checkedAdd config.blobBaseAddress offset.toUInt64

/-- The blob starts empty or with the padding in front, which is the same as a blob
with these bytes laid out. -/
theorem start_eq_laid (config : PlatformConfig) :
    (if 0 < config.frontPadding then
      (AcpiBlobBuilder.new config.blobBaseAddress).reserveFront config.frontPadding.toNat
    else .new config.blobBaseAddress) = laid config.blobBaseAddress (frontBytes config) [] := by
  split
  · rename_i h
    exact reserveFront_new _ (UInt32.lt_iff_toNat_lt.mp h)
  · rename_i h
    have hzero : config.frontPadding.toNat = 0 := by
      have := UInt32.not_lt.mp h
      simpa using UInt32.le_iff_toNat_le.mp this
    rw [frontBytes, hzero]
    rfl

/-- An address that is pushed is the address of one more offset. -/
theorem pushAddress_bind {β : Type} {base : UInt64} {front : Bytes} {chunks : List Chunk}
    (offsets : List UInt32) (offset : Option UInt32) (k : List UInt64 → Checked β) :
    (offsets.mapM (fun o => checkedAdd base o.toUInt64) >>= fun entries =>
        pushAddress (laid base front chunks) entries offset >>= k) =
      ((offsets ++ offset.toList).mapM (fun o => checkedAdd base o.toUInt64) >>= k) := by
  rw [List.mapM_append, bind_assoc]
  apply bind_congr
  intro entries
  rw [bind_assoc]
  cases offset with
  | none =>
    change k entries = k (entries ++ [])
    rw [List.append_nil]
  | some o =>
    change ((checkedAdd base o.toUInt64 >>= fun a => pure (entries ++ [a])) >>= k) = _
    rw [Option.toList_some, List.mapM_cons]
    simp only [bind_assoc, pure_bind, List.mapM_nil]

/-- A section of at most one table has the offset of its references. -/
theorem toList_sectionOffset {start : ℕ} {sec : List Chunk} (h : sec.length ≤ 1) :
    (sectionOffset start sec).toList = (tableRefs start sec).map TableRef.offset := by
  match sec, h with
  | [], _ => rfl
  | [c], _ => rfl

/-- The addresses of listed tables. -/
def addressesAt (base : UInt64) (start : ℕ) (listed : List Chunk) : Checked (List UInt64) :=
  ((tableRefs start listed).map TableRef.offset).mapM fun o => checkedAdd base o.toUInt64

/-- What a section adds to the addresses. -/
theorem pushSection_bind {β : Type} {base : UInt64} {front : Bytes} {chunks : List Chunk}
    (pre listed : List Chunk) {sec : List Chunk} (h : sec.length ≤ 1)
    (k : List UInt64 → Checked β) :
    (addressesAt base (front.length + (layChunks pre).length) listed >>= fun entries =>
        pushAddress (laid base front chunks) entries
          (sectionOffset (front.length + (layChunks (pre ++ listed)).length) sec) >>= k) =
      (addressesAt base (front.length + (layChunks pre).length) (listed ++ sec) >>= k) := by
  rw [addressesAt, addressesAt, pushAddress_bind, toList_sectionOffset h, layChunks_append,
    List.length_append, ← Nat.add_assoc, ← List.map_append, ← tableRefs_append]

/-- What a table that is always there adds to the addresses. -/
theorem pushTable_bind {β : Type} {base : UInt64} {front : Bytes} {chunks : List Chunk}
    (pre listed : List Chunk) (c : Chunk) (k : List UInt64 → Checked β) :
    (addressesAt base (front.length + (layChunks pre).length) listed >>= fun entries =>
        pushAddress (laid base front chunks) entries
          (some (UInt32.ofNat (front.length + (layChunks (pre ++ listed)).length))) >>= k) =
      (addressesAt base (front.length + (layChunks pre).length) (listed ++ [c]) >>= k) := by
  have hc : [c].length ≤ 1 := Nat.le_refl 1
  exact pushSection_bind pre listed hc k

/-- The first push, behind the two tables that are always there. -/
theorem pushFirst_bind {β : Type} {base : UInt64} {front : Bytes} {chunks : List Chunk}
    (pre : List Chunk) (a b : Chunk) {sec : List Chunk} (h : sec.length ≤ 1)
    (k : List UInt64 → Checked β) :
    ((laid base front chunks).addressOf (UInt32.ofNat (front.length + (layChunks pre).length)) >>=
        fun x => (laid base front chunks).addressOf
          (UInt32.ofNat (front.length + (layChunks (pre ++ [a])).length)) >>= fun y =>
        pushAddress (laid base front chunks) [x, y]
          (sectionOffset (front.length + (layChunks (pre ++ [a, b])).length) sec) >>= k) =
      (addressesAt base (front.length + (layChunks pre).length) ([a, b] ++ sec) >>= k) := by
  rw [← @pushSection_bind β base front chunks pre [a, b] sec h k, addressesAt]
  have hsecond : front.length + (layChunks (pre ++ [a])).length =
      front.length + (layChunks pre).length + a.2.length := by
    rw [layChunks_append, List.length_append, layChunks_cons, layChunks_nil, List.append_nil,
      Nat.add_assoc]
  rw [hsecond]
  simp only [addressOf_laid, tableRefs, place, List.map_cons, List.map_nil, TableRef.ofPlaced,
    List.mapM_cons, List.mapM_nil, bind_assoc, pure_bind]

/-- **The build, in terms of its chunks.** -/
theorem buildMinimalAcpi_eq (config : PlatformConfig) :
    buildMinimalAcpi config = do
      let dsdt ← buildDsdt config
      let start := (frontBytes config).length
      let facsAddress ← addressAt config (UInt32.ofNat start)
      let dsdtAddress ← addressAt config (UInt32.ofNat (start + 64))
      let fadt ← buildFadtWithFacs config facsAddress dsdtAddress
      let madt ← buildMadt config
      let entries ← addressesAt config.blobBaseAddress (start + (64 + dsdt.length))
        (listedChunks config fadt madt)
      let chunks := mainChunks config dsdt fadt madt
      let rsdtAddress ← addressAt config (UInt32.ofNat (start + (layChunks chunks).length))
      let chunks := chunks ++ [(bstr "RSDT", buildRsdt config entries)]
      let layout ← (tableRefs start chunks).foldlM insertLayout ∅
      return ⟨⟨frontBytes config ++ layChunks chunks, tableRefs start chunks⟩,
        buildRsdp config rsdtAddress, layout⟩ := by
  have hfacs : (layChunks ([] ++ [((bstr "FACS" : Vector UInt8 4), facsBytes)])).length = 64 := by
    rw [List.nil_append, layChunks_cons, layChunks_nil, List.append_nil, length_facsBytes]
  unfold buildMinimalAcpi
  dsimp only
  -- the tables that are always there, up to the MADT
  rw [start_eq_laid, buildFacs_eq, Checked.ok_bind, appendTable_laid]
  dsimp only
  refine bind_congr_of_ok fun dsdt hdsdt => ?_
  have hcpus := (buildDsdt_eq_ok hdsdt).1
  have hreserve : ∀ signature, Appends (fun blob => reserveTable blob signature config)
      [reservedChunk signature config] := fun signature => by
    obtain ⟨length, hlength, -, -⟩ := isTableLen_optionalTableLen signature hcpus
    exact appends_reserve hlength
  rw [appendTable_laid, hfacs]
  dsimp only
  refine bind_congr_of_ok fun facsAddress _ => bind_congr_of_ok fun dsdtAddress _ =>
    bind_congr_of_ok fun fadt _ => ?_
  rw [appendTable_laid]
  dsimp only
  refine bind_congr_of_ok fun madt _ => ?_
  have hpre : ([] ++ [((bstr "FACS" : Vector UInt8 4), facsBytes)] ++ [(bstr "DSDT", dsdt)] ++
      [(bstr "FACP", fadt)] ++ [(bstr "APIC", madt)] : List Chunk) =
      [(bstr "FACS", facsBytes), (bstr "DSDT", dsdt)] ++
        [(bstr "FACP", fadt), (bstr "APIC", madt)] := rfl
  rw [appendTable_laid, hpre]
  dsimp only
  have htpm := appends_tpm hreserve
  have hiommu := appends_iommu hreserve
  -- each optional table appends its section, which may be empty
  refine (((hreserve (bstr "SSDT")).ite config.hasVmgenid).bind _).trans ?_
  refine (((appends_add (bstr "HPET") (buildHpet config)).ite config.hasHpet).bind _).trans ?_
  refine (htpm.bind _).trans ?_
  refine (((hreserve (bstr "SRAT")).ite config.hasNuma).bind _).trans ?_
  refine (((hreserve (bstr "SLIT")).ite config.hasSlit).bind _).trans ?_
  refine (((hreserve (bstr "HMAT")).ite config.hasHmat).bind _).trans ?_
  refine (((appends_add (bstr "MCFG") (buildMcfg config)).ite config.hasMcfg).bind _).trans ?_
  refine (hiommu.bind _).trans ?_
  refine (((hreserve (bstr "NFIT")).ite config.nvdimmEnabled).bind _).trans ?_
  refine (((hreserve (bstr "CEDT")).ite config.cxlEnabled).bind _).trans ?_
  rw [appendTable_listed]
  dsimp only
  have hsec := length_optionalSections config
  simp only [optionalSections, List.forall_mem_cons] at hsec
  obtain ⟨hssdt, hhpet, htpm, hsrat, hslit, hhmat, hmcfg, hiommu, hnfit, hcedt, -⟩ := hsec
  -- the addresses are pushed in the order of the sections
  refine (pushFirst_bind [(bstr "FACS", facsBytes), (bstr "DSDT", dsdt)] _ _ hssdt _).trans ?_
  refine (pushSection_bind _ _ hhpet _).trans ?_
  refine (pushSection_bind _ _ htpm _).trans ?_
  refine (pushSection_bind _ _ hsrat _).trans ?_
  refine (pushSection_bind _ _ hslit _).trans ?_
  refine (pushSection_bind _ _ hhmat _).trans ?_
  refine (pushSection_bind _ _ hmcfg _).trans ?_
  refine (pushSection_bind _ _ hiommu _).trans ?_
  refine (pushSection_bind _ _ hnfit _).trans ?_
  refine (pushSection_bind _ _ hcedt _).trans ?_
  refine (pushTable_bind _ _ (bstr "WAET", buildWaet config) _).trans ?_
  have hlisted : listedChunks config fadt madt = listedChunks config fadt madt := rfl
  conv_rhs at hlisted =>
    simp only [listedChunks, optionalSections, List.flatten_cons, List.flatten_nil,
      List.append_nil, ← List.append_assoc]
  rw [← hlisted, length_unlistedChunks]
  refine bind_congr_of_ok fun entries _ => ?_
  rw [appendTable_laid]
  rfl

end AcpiTables
