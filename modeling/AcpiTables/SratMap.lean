import AcpiTables.SratMemory

/-!
# What an SRAT says

The structures of a finished SRAT are read again, and with them the node of every
byte of RAM. The offsets of a node are those of the sizes in front of it, unless
a node ends inside the hole below 1 MiB: `srat_exact_iff` says exactly when the
table describes the RAM of the machine.

* `buildSrat_structures`: the table holds the processors, the RAM of the nodes and
  the other memory, structure by structure. What the functions for NVDIMMs and SGX
  append is theirs (`Appends`);
* `srat_memory_map`: to each node the table gives the RAM of its span, and no other
  memory but that of NVDIMMs, of SGX and of the devices;
* `inSpan_exact_iff` compares the spans with the sizes, by induction on the nodes:
  behind the low hole the loop skips nothing (`inSpan_iff_inNode`), so that only
  one node can make a difference;
* `srat_processors_iff`: an id of eight bits leaves eight bits for the node.
-/

namespace AcpiTables.AmlBuild

open MachineInt

/-! ## The structures of a table -/

/-- What the two functions from elsewhere do: they append entries. -/
structure Appends (f : Bytes → Bytes) (entries : List MemoryAffinity) : Prop where
  eq : ∀ tableData, f tableData = tableData ++ entries.flatMap MemoryAffinity.record
  fits : ∀ e ∈ entries, e.Fits

/-- The entry for memory that is plugged in later, in the last node. -/
def Machine.deviceEntries (flags : MemoryAffinityFlags) (machine : Machine) :
    List MemoryAffinity :=
  machine.deviceMemory.elim [] fun m =>
    [memoryAffinity m.1 m.2 (machine.numaInfo.length - 1) (flags.hotpluggable ||| flags.enabled)]

section

variable (flags : MemoryAffinityFlags) (machine : Machine)
  (nvdimmEntries sgxEpcEntries : List MemoryAffinity)

/-- The entries behind those of the nodes, with so many of filling. -/
def otherEntries (count : ℕ) : List MemoryAffinity :=
  (if machine.nvdimmIsEnabled then nvdimmEntries else []) ++ sgxEpcEntries ++
    List.replicate count (memoryAffinity 0 0 0 flags.noflags) ++ machine.deviceEntries flags

/-- The table behind its header: two reserved fields and the structures. -/
def sratBody (count : ℕ) : Bytes :=
  leBytes 4 1 ++ leBytes 8 0 ++ (machine.apicIds.map processorRecord ++
    (ramEntries flags machine 0 0 machine.numaInfo ++
      otherEntries flags machine nvdimmEntries sgxEpcEntries count).map
        MemoryAffinity.record).flatten

variable {flags machine nvdimmEntries sgxEpcEntries}

/-- The loop that fills up appends as many disabled entries as it has turns. -/
theorem iterate_buildSratMemory (flags : UInt32) (count : ℕ) (tableData : Bytes) :
    (buildSratMemory · 0 0 0 flags)^[count] tableData =
      tableData ++ (List.replicate count (memoryAffinity 0 0 0 flags)).flatMap
        MemoryAffinity.record := by
  induction count generalizing tableData with
  | zero => exact (List.append_nil _).symm
  | succ count ih =>
    rw [Function.iterate_succ_apply, ih, buildSratMemory_eq, List.replicate_succ,
      List.flatMap_cons, List.append_assoc]

variable {appname : Vector UInt8 8} {nvdimmBuildSrat sgxEpcBuildSrat : Bytes → Bytes}
  {tableData file : Bytes} {linker linker' : List AddChecksum}

/-- What the builder returns: the header, and a body with the fixed structures and
those of NVDIMMs and SGX. -/
theorem buildSrat_eq_ok (hnvdimm : Appends nvdimmBuildSrat nvdimmEntries)
    (hsgxEpc : Appends sgxEpcBuildSrat sgxEpcEntries)
    (h : buildSrat flags appname nvdimmBuildSrat sgxEpcBuildSrat machine tableData linker =
      .ok (file, linker')) :
    ∃ table front count, acpiTableBegin appname table tableData = .ok front ∧
      (file, linker') = acpiTableEnd linker tableData.length
        (front ++ sratBody flags machine nvdimmEntries sgxEpcEntries count) := by
  obtain ⟨front, hfront, h⟩ := Checked.bind_eq_ok.mp h
  have hdevice (t : Bytes) : (machine.deviceMemory.elim t fun m =>
      buildSratMemory t m.1 m.2 (machine.numaInfo.length - 1)
        (flags.hotpluggable ||| flags.enabled)) =
      t ++ (machine.deviceEntries flags).flatMap MemoryAffinity.record := by
    rw [Machine.deviceEntries]
    cases machine.deviceMemory with
    | none => exact (List.append_nil t).symm
    | some m => simp only [Option.elim_some, buildSratMemory_eq, List.flatMap_singleton]
  have hnv (t : Bytes) : (if machine.nvdimmIsEnabled then nvdimmBuildSrat t else t) =
      t ++ (if machine.nvdimmIsEnabled then nvdimmEntries else []).flatMap
        MemoryAffinity.record := by
    split
    · exact hnvdimm.eq t
    · exact (List.append_nil _).symm
  dsimp only at h
  generalize hnodes : List.foldl _ _ machine.numaInfo.zipIdx = nodes at h
  obtain ⟨nodesData, next⟩ := nodes
  have hfst := congrArg Prod.fst hnodes
  rw [foldl_sratNode] at hfst
  dsimp only at h hfst
  generalize machine.numaInfo.length + 2 - _ = count at h
  refine ⟨_, front, count, hfront, ?_⟩
  rw [← Except.ok.inj h, hdevice, iterate_buildSratMemory, hsgxEpc.eq, hnv, ← hfst]
  simp only [foldl_sratProcessor, buildAppendIntNoprefix_eq, sratBody, otherEntries,
    List.flatten_append, List.map_append, ← List.flatMap_def, List.append_assoc]
  rfl

/-- The entries of the nodes fit their places. -/
theorem fits_ramEntries (sizes : List UInt64) (i : ℕ) (base : UInt64) :
    ∀ e ∈ ramEntries flags machine i base sizes, e.Fits := by
  have hpiece (i : ℕ) (memBase memLen : UInt64) :
      ∀ e ∈ pieceEntries flags i memBase memLen, e.Fits := by
    intro e he
    unfold pieceEntries at he
    split at he
    · obtain rfl := List.mem_singleton.mp he
      exact fits_memoryAffinity ..
    · cases he
  have hpci (i : ℕ) (memBase memLen nextBase : UInt64) :
      ∀ e ∈ (pciHoleEntries flags machine i memBase memLen nextBase).1, e.Fits := by
    intro e he
    unfold pciHoleEntries at he
    split at he
    · rcases List.mem_append.mp he with he | he
      · exact hpiece _ _ _ e he
      · exact hpiece _ _ _ e he
    · exact hpiece _ _ _ e he
  induction sizes generalizing i base with
  | nil => exact fun e he => nomatch he
  | cons nodeMem sizes ih =>
    intro e he
    rcases List.mem_append.mp he with he | he
    · simp only [nodeEntries] at he
      split at he
      · split at he
        · exact hpiece _ _ _ e he
        · rcases List.mem_append.mp he with he | he
          · exact hpiece _ _ _ e he
          · exact hpci _ _ _ _ e he
      · exact hpci _ _ _ _ e he
    · exact ih _ _ e he

/-- The entries of the filling, of the devices, of NVDIMMs and of SGX fit their
places. -/
theorem fits_otherEntries (hnvdimm : ∀ e ∈ nvdimmEntries, e.Fits)
    (hsgxEpc : ∀ e ∈ sgxEpcEntries, e.Fits) (count : ℕ) :
    ∀ e ∈ otherEntries flags machine nvdimmEntries sgxEpcEntries count, e.Fits := by
  intro e he
  simp only [otherEntries, List.mem_append] at he
  rcases he with ((he | he) | he) | he
  · split at he
    · exact hnvdimm e he
    · cases he
  · exact hsgxEpc e he
  · obtain rfl := List.eq_of_mem_replicate he
    exact fits_memoryAffinity ..
  · rw [Machine.deviceEntries] at he
    cases hdevice : machine.deviceMemory with
    | none => simp [hdevice] at he
    | some m =>
      rw [hdevice] at he
      obtain rfl := List.mem_singleton.mp he
      exact fits_memoryAffinity ..

/-- The structures of the table are read back, each as the bytes it was written as. -/
theorem sratStructures_sratBody (count : ℕ) :
    sratStructures (sratBody flags machine nvdimmEntries sgxEpcEntries count) =
      some (machine.apicIds.map processorRecord ++
        (ramEntries flags machine 0 0 machine.numaInfo ++
          otherEntries flags machine nvdimmEntries sgxEpcEntries count).map
            MemoryAffinity.record) := by
  have hrecords : ∀ r ∈ machine.apicIds.map processorRecord ++
      (ramEntries flags machine 0 0 machine.numaInfo ++
        otherEntries flags machine nvdimmEntries sgxEpcEntries count).map
          MemoryAffinity.record, IsRecord structureSize r := by
    intro r hr
    rcases List.mem_append.mp hr with hr | hr
    · obtain ⟨cpu, -, rfl⟩ := List.mem_map.mp hr
      exact isRecord_processorRecord cpu
    · obtain ⟨e, -, rfl⟩ := List.mem_map.mp hr
      exact isRecord_record e
  have hfront : (leBytes 4 1 ++ leBytes 8 0).length = 12 := rfl
  rw [sratStructures, sratBody, List.drop_left' hfront]
  refine walk_flatten hrecords (Nat.le_trans (length_le_length_flatten hrecords) ?_)
  rw [List.length_append]
  exact Nat.le_add_left ..

/-- **The structures of a finished SRAT.** -/
theorem buildSrat_structures (hnvdimm : Appends nvdimmBuildSrat nvdimmEntries)
    (hsgxEpc : Appends sgxEpcBuildSrat sgxEpcEntries)
    (h : buildSrat flags appname nvdimmBuildSrat sgxEpcBuildSrat machine tableData linker =
      .ok (file, linker')) (hlen : file.length < 4294967296) :
    ∃ count, sratStructures (tableBody file tableData.length) =
      some (machine.apicIds.map processorRecord ++
        (ramEntries flags machine 0 0 machine.numaInfo ++
          otherEntries flags machine nvdimmEntries sgxEpcEntries count).map
            MemoryAffinity.record) := by
  obtain ⟨table, front, count, hfront, heq⟩ := buildSrat_eq_ok hnvdimm hsgxEpc h
  have hfile : file = _ := congrArg Prod.fst heq
  refine ⟨count, ?_⟩
  rw [hfile] at hlen ⊢
  rw [acpiTableEnd_body hfront linker _ hlen]
  exact sratStructures_sratBody count

/-- The memory entries of the table are read back: those of the nodes, then the
others. -/
theorem buildSrat_memory (hnvdimm : Appends nvdimmBuildSrat nvdimmEntries)
    (hsgxEpc : Appends sgxEpcBuildSrat sgxEpcEntries)
    (h : buildSrat flags appname nvdimmBuildSrat sgxEpcBuildSrat machine tableData linker =
      .ok (file, linker')) (hlen : file.length < 4294967296) :
    ∃ count, sratMemory (tableBody file tableData.length) =
      some (ramEntries flags machine 0 0 machine.numaInfo ++
        otherEntries flags machine nvdimmEntries sgxEpcEntries count) := by
  obtain ⟨count, hstructures⟩ := buildSrat_structures hnvdimm hsgxEpc h hlen
  have hfits : ∀ e ∈ ramEntries flags machine 0 0 machine.numaInfo ++
      otherEntries flags machine nvdimmEntries sgxEpcEntries count, e.Fits := by
    intro e he
    rcases List.mem_append.mp he with he | he
    · exact fits_ramEntries _ _ _ e he
    · exact fits_otherEntries hnvdimm.fits hsgxEpc.fits count e he
  have hcpus : (machine.apicIds.map processorRecord).filterMap readMemoryAffinity = [] := by
    rw [List.filterMap_eq_nil_iff]
    intro s hs
    obtain ⟨cpu, -, rfl⟩ := List.mem_map.mp hs
    exact readMemoryAffinity_processorRecord cpu
  refine ⟨count, ?_⟩
  rw [sratMemory, hstructures, Option.map_some, List.filterMap_append, hcpus, List.nil_append,
    List.filterMap_map]
  exact congrArg some ((List.filterMap_congr fun e he =>
    readMemoryAffinity_record (hfits e he)).trans List.filterMap_some)

/-! ## The nodes of the memory -/

/-- The memory of the devices belongs to the last node. -/
theorem assigned_deviceEntries (hsound : machine.Sound) (a k : ℕ) :
    Assigned (machine.deviceEntries flags) a k ↔ ∃ base size,
      machine.deviceMemory = some (base, size) ∧ k + 1 = machine.numaInfo.length ∧
        base.toNat ≤ a ∧ a < base.toNat + size.toNat := by
  have hnodes := hsound.nodes
  have hset : (flags.hotpluggable ||| flags.enabled).toNat % 2 = 1 := by
    rw [UInt32.toNat_or, Nat.or_mod_two_eq_one]
    exact Or.inr flags.enabled_set
  rw [Machine.deviceEntries]
  cases machine.deviceMemory with
  | none => simp
  | some m =>
    have hdomain : (((machine.numaInfo.length : ℤ) - 1) % 4294967296).toNat = k ↔
        k + 1 = machine.numaInfo.length := by omega
    simp only [Option.elim_some, Assigned, List.mem_singleton, exists_eq_left, memoryAffinity,
      hset, true_and, hdomain, Option.some.injEq]
    constructor
    · exact fun h => ⟨m.1, m.2, rfl, h⟩
    · rintro ⟨base, size, rfl, h⟩
      exact h

/-- The other entries assign the memory of NVDIMMs, of SGX and of the devices. The
filling is disabled and assigns nothing. -/
theorem assigned_otherEntries (hsound : machine.Sound) (count a k : ℕ) :
    Assigned (otherEntries flags machine nvdimmEntries sgxEpcEntries count) a k ↔
      machine.nvdimmIsEnabled = true ∧ Assigned nvdimmEntries a k ∨ Assigned sgxEpcEntries a k ∨
        ∃ base size, machine.deviceMemory = some (base, size) ∧
          k + 1 = machine.numaInfo.length ∧ base.toNat ≤ a ∧ a < base.toNat + size.toNat := by
  have hfilling : ¬Assigned (List.replicate count (memoryAffinity 0 0 0 flags.noflags)) a k := by
    rintro ⟨e, he, hflags, -⟩
    obtain rfl := List.eq_of_mem_replicate he
    have hclear : (memoryAffinity 0 0 0 flags.noflags).flags % 2 = 0 := flags.noflags_clear
    omega
  have hnvdimm : Assigned (if machine.nvdimmIsEnabled then nvdimmEntries else []) a k ↔
      machine.nvdimmIsEnabled = true ∧ Assigned nvdimmEntries a k := by
    split
    · next h => simp [h]
    · next h => simp [h]
  rw [otherEntries, assigned_append, assigned_append, assigned_append, hnvdimm,
    assigned_deviceEntries hsound, or_iff_left hfilling, or_assoc]

/-- **The memory map of an SRAT.** Read back, the table gives to each node the RAM
of its span, in entries that ascend and do not overlap; the other memory it
assigns is that of the NVDIMMs, of SGX and of the devices. -/
theorem srat_memory_map (hsound : machine.Sound) (hnvdimm : Appends nvdimmBuildSrat nvdimmEntries)
    (hsgxEpc : Appends sgxEpcBuildSrat sgxEpcEntries)
    (h : buildSrat flags appname nvdimmBuildSrat sgxEpcBuildSrat machine tableData linker =
      .ok (file, linker')) (hlen : file.length < 4294967296) :
    ∃ ram others, sratMemory (tableBody file tableData.length) = some (ram ++ others) ∧
      (ram.Pairwise fun e f => e.base + e.length ≤ f.base) ∧
      (∀ a k, Assigned ram a k ↔
        ∃ span, (nodeSpans 0 machine.sizes)[k]? = some span ∧ machine.Holds span a) ∧
      ∀ a k, Assigned others a k ↔
        machine.nvdimmIsEnabled = true ∧ Assigned nvdimmEntries a k ∨ Assigned sgxEpcEntries a k ∨
          ∃ base size, machine.deviceMemory = some (base, size) ∧
            k + 1 = machine.numaInfo.length ∧ base.toNat ≤ a ∧ a < base.toNat + size.toNat := by
  obtain ⟨count, hmemory⟩ := buildSrat_memory hnvdimm hsgxEpc h hlen
  obtain ⟨hassigned, hsorted⟩ := ramEntries_all flags hsound
  exact ⟨_, _, hmemory, hsorted, hassigned, assigned_otherEntries hsound count⟩

end

/-- Two nodes of 2 GiB, the hole of PCI at 3 GiB. -/
def twoNodes : Machine where
  oemId := asBytes "BOCHS "
  oemTableId := asBytes "BXPC    "
  apicIds := [⟨0, ⟨0, 0, 0, 0⟩⟩, ⟨300, ⟨1, 1, 0, 0⟩⟩]
  numaInfo := [0x80000000, 0x80000000]
  below4gMemSize := 0xc0000000
  above4gMemStart := 0x100000000
  nvdimmIsEnabled := false
  deviceMemory := some (0x200000000, 0x40000000)

/-- Flags as the specification numbers them. -/
def affinityFlags : MemoryAffinityFlags := ⟨0, 1, 2, rfl, rfl⟩

/-- The machine of two nodes is sound. -/
theorem sound_twoNodes : twoNodes.Sound := ⟨by decide, by decide, by decide, by decide⟩

/-- A builder that adds nothing appends no entries. -/
theorem appends_id : Appends id [] :=
  ⟨fun t => (List.append_nil t).symm, fun _ he => absurd he List.not_mem_nil⟩

/-- The builder without NVDIMMs and SGX, in front of an empty file. -/
def srat (machine : Machine) : Checked (Bytes × List AddChecksum) :=
  buildSrat affinityFlags (bstr "BXPC    ") id id machine [] []

theorem srat_memory_map_twoNodes : ∃ file linker', srat twoNodes = .ok (file, linker') ∧
    ∃ ram others, sratMemory (tableBody file ([] : Bytes).length) = some (ram ++ others) ∧
      (ram.Pairwise fun e f => e.base + e.length ≤ f.base) ∧
      (∀ a k, Assigned ram a k ↔
        ∃ span, (nodeSpans 0 twoNodes.sizes)[k]? = some span ∧ twoNodes.Holds span a) ∧
      ∀ a k, Assigned others a k ↔
        twoNodes.nvdimmIsEnabled = true ∧ Assigned [] a k ∨ Assigned [] a k ∨
          ∃ base size, twoNodes.deviceMemory = some (base, size) ∧
            k + 1 = twoNodes.numaInfo.length ∧ base.toNat ≤ a ∧ a < base.toNat + size.toNat := by
  obtain ⟨file, linker', h, hlen⟩ := @exists_of_length (srat twoNodes) 288 (by decide +kernel)
  refine ⟨file, linker', h, ?_⟩
  unfold srat at h
  exact srat_memory_map sound_twoNodes appends_id appends_id h (hlen ▸ by decide)

section

variable {flags : MemoryAffinityFlags} {machine : Machine}
  {nvdimmEntries sgxEpcEntries : List MemoryAffinity} {appname : Vector UInt8 8}
  {nvdimmBuildSrat sgxEpcBuildSrat : Bytes → Bytes} {tableData file : Bytes}
  {linker linker' : List AddChecksum}

/-! ## Exactness -/

/-- The byte with this offset is in the node of this number, for nodes of these
sizes one after the other from `start` on. -/
def InNode (start : ℕ) (sizes : List ℕ) (k offset : ℕ) : Prop :=
  k < sizes.length ∧ start + (sizes.take k).sum ≤ offset ∧
    offset < start + (sizes.take (k + 1)).sum

/-- The loop gives the byte to the node. -/
def InSpan (start : ℕ) (sizes : List ℕ) (k offset : ℕ) : Prop :=
  ∃ span, (nodeSpans start sizes)[k]? = some span ∧ span.1 ≤ offset ∧ offset < span.2

/-- The bytes of the first node. -/
theorem inNode_zero (start size : ℕ) (sizes : List ℕ) (offset : ℕ) :
    InNode start (size :: sizes) 0 offset ↔ start ≤ offset ∧ offset < start + size := by
  simp [InNode]

/-- The bytes of a later node are those of a node of the list behind the first. -/
theorem inNode_succ (start size : ℕ) (sizes : List ℕ) (k offset : ℕ) :
    InNode start (size :: sizes) (k + 1) offset ↔ InNode (start + size) sizes k offset := by
  simp only [InNode, List.length_cons, Nat.add_lt_add_iff_right, List.take_succ_cons,
    List.sum_cons, Nat.add_assoc]

/-- The bytes that the loop gives to the first node. -/
theorem inSpan_zero (start size : ℕ) (sizes : List ℕ) (offset : ℕ) :
    InSpan start (size :: sizes) 0 offset ↔ start ≤ offset ∧ offset < start + size := by
  simp [InSpan, nodeSpans]

/-- The loop goes on behind the first node, and behind the low hole if that is
where it ends. -/
theorem inSpan_succ (start size : ℕ) (sizes : List ℕ) (k offset : ℕ) :
    InSpan start (size :: sizes) (k + 1) offset ↔
      InSpan (skipHole (start + size)) sizes k offset := Iff.rfl

/-- Behind the low hole the loop skips nothing. -/
theorem inSpan_iff_inNode {start : ℕ} (hstart : 1048576 ≤ start) (sizes : List ℕ)
    (k offset : ℕ) : InSpan start sizes k offset ↔ InNode start sizes k offset := by
  induction sizes generalizing start k with
  | nil => simp [InSpan, InNode, nodeSpans]
  | cons size sizes ih =>
    cases k with
    | zero => rw [inSpan_zero, inNode_zero]
    | succ k =>
      have hskip : skipHole (start + size) = start + size := by
        have := skipHole_cases (start + size)
        omega
      rw [inSpan_succ, inNode_succ, hskip, ih (by omega)]

/-- Every byte is in a node. -/
theorem exists_inNode {sizes : List ℕ} {start offset : ℕ} (hstart : start ≤ offset)
    (h : offset < start + sizes.sum) : ∃ k, InNode start sizes k offset := by
  induction sizes generalizing start with
  | nil =>
    rw [List.sum_nil] at h
    omega
  | cons size sizes ih =>
    rw [List.sum_cons] at h
    by_cases hfirst : offset < start + size
    · exact ⟨0, (inNode_zero ..).mpr ⟨hstart, hfirst⟩⟩
    · obtain ⟨k, hk⟩ : ∃ k, InNode (start + size) sizes k offset := ih (by omega) (by omega)
      exact ⟨k + 1, (inNode_succ ..).mpr hk⟩

/-- A byte of a node lies before the end of all nodes. -/
theorem InNode.lt {start : ℕ} {sizes : List ℕ} {k offset : ℕ} (h : InNode start sizes k offset) :
    offset < start + sizes.sum := by
  have hsplit := List.sum_take_add_sum_drop sizes (k + 1)
  have := h.2.2
  omega

/-- A node ends inside the low hole, and there is memory behind it. -/
def EndsInHole (start : ℕ) (sizes : List ℕ) : Prop :=
  ∃ j, 655360 < start + (sizes.take j).sum ∧ start + (sizes.take j).sum < 1048576 ∧
    0 < (sizes.drop j).sum

/-- **The spans are those of the sizes**, as far as RAM can be seen, unless a node
ends inside the low hole. -/
theorem inSpan_exact_iff {start : ℕ} (hstart : start ≤ 655360 ∨ 1048576 ≤ start)
    (sizes : List ℕ) :
    (∀ k offset, ¬LowHole offset → (InSpan start sizes k offset ↔ InNode start sizes k offset)) ↔
      ¬EndsInHole start sizes := by
  induction sizes generalizing start with
  | nil => simp [InSpan, InNode, nodeSpans, EndsInHole]
  | cons size sizes ih =>
    have htail : (∀ k offset, ¬LowHole offset →
        (InSpan start (size :: sizes) k offset ↔ InNode start (size :: sizes) k offset)) ↔
      ∀ k offset, ¬LowHole offset → (InSpan (skipHole (start + size)) sizes k offset ↔
        InNode (start + size) sizes k offset) := by
      constructor
      · intro h k offset hhole
        rw [← inSpan_succ, ← inNode_succ]
        exact h (k + 1) offset hhole
      · intro h k offset hhole
        cases k with
        | zero => rw [inSpan_zero, inNode_zero]
        | succ k => rw [inSpan_succ, inNode_succ, h k offset hhole]
    have hends : EndsInHole start (size :: sizes) ↔ EndsInHole (start + size) sizes := by
      constructor
      · rintro ⟨j, hlow, hhigh, hbehind⟩
        cases j with
        | zero =>
          simp only [List.take_zero, List.sum_nil] at hlow hhigh
          omega
        | succ j =>
          simp only [List.take_succ_cons, List.sum_cons, List.drop_succ_cons] at hlow hhigh hbehind
          exact ⟨j, by omega, by omega, hbehind⟩
      · rintro ⟨j, hlow, hhigh, hbehind⟩
        refine ⟨j + 1, ?_, ?_, hbehind⟩
        all_goals
          simp only [List.take_succ_cons, List.sum_cons]
          omega
    rw [htail, hends]
    rcases skipHole_cases (start + size) with ⟨hskip, hout⟩ | ⟨hskip, hlow, hhigh⟩
    · rw [hskip, ih hout]
    · rw [hskip]
      -- the nodes behind move up to the end of the hole
      constructor
      · rintro h ⟨j, hj, hj', hbehind⟩
        have hsplit := List.sum_take_add_sum_drop sizes j
        obtain ⟨k, hk⟩ : ∃ k, InNode 1048576 sizes k (1048576 + sizes.sum - 1) :=
          exists_inNode (by omega) (by omega)
        have hplain := (h k _ (by unfold LowHole; omega)).mp
          ((inSpan_iff_inNode (Nat.le_refl _) sizes k _).mpr hk)
        have := hplain.lt
        omega
      · intro h k offset hhole
        have hempty : start + size = 1048576 ∨ sizes.sum = 0 := by
          by_contra hcon
          exact h ⟨0, by simpa using hlow, by simp; omega, by simp; omega⟩
        rw [inSpan_iff_inNode (Nat.le_refl _)]
        rcases hempty with heq | hzero
        · rw [heq]
        · constructor
          · intro hin
            have := hin.lt
            have := hin.2.1
            omega
          · intro hin
            have := hin.lt
            have := hin.2.1
            omega

/-- The RAM of a node, where it is seen. -/
def Machine.Owns (machine : Machine) (k a : ℕ) : Prop :=
  ¬LowHole a ∧ ∃ offset, InNode 0 machine.sizes k offset ∧ machine.ramAddress offset = a

/-- The hole of PCI moves no byte into the low hole, nor out of it. -/
theorem lowHole_ramAddress (hsound : machine.Sound) (offset : ℕ) :
    LowHole (machine.ramAddress offset) ↔ LowHole offset := by
  have hlow := hsound.low
  have horder := hsound.order
  unfold Machine.ramAddress LowHole
  split <;> omega

/-- Two bytes of RAM have two addresses. -/
theorem ramAddress_inj (hsound : machine.Sound) {offset offset' : ℕ}
    (h : machine.ramAddress offset = machine.ramAddress offset') : offset = offset' := by
  have horder := hsound.order
  unfold Machine.ramAddress at h
  split at h <;> split at h <;> omega

/-- **When an SRAT describes the RAM of the machine.** On a machine without other
memory, the table gives to every node exactly the RAM of that node, if and only
if no node with memory behind it ends inside the low hole. -/
theorem srat_exact_iff (hsound : machine.Sound) (hnvdimm : machine.nvdimmIsEnabled = false)
    (hdevice : machine.deviceMemory = none) (hsgxEpc : ∀ t, sgxEpcBuildSrat t = t)
    (h : buildSrat flags appname nvdimmBuildSrat sgxEpcBuildSrat machine tableData linker =
      .ok (file, linker')) (hlen : file.length < 4294967296) :
    ∃ entries, sratMemory (tableBody file tableData.length) = some entries ∧
      ((∀ a k, Assigned entries a k ↔ machine.Owns k a) ↔ ¬EndsInHole 0 machine.sizes) := by
  have hnone : Appends sgxEpcBuildSrat [] :=
    ⟨fun t => (hsgxEpc t).trans (List.append_nil t).symm, fun _ he => nomatch he⟩
  -- the function for NVDIMMs is not called
  have hcall : buildSrat flags appname id sgxEpcBuildSrat machine tableData linker =
      .ok (file, linker') := by
    rw [← h, buildSrat, buildSrat]
    simp only [hnvdimm, Bool.false_eq_true, if_false]
  have hid : Appends id [] := ⟨fun t => (List.append_nil t).symm, fun _ he => nomatch he⟩
  obtain ⟨count, hmemory⟩ := buildSrat_memory hid hnone hcall hlen
  refine ⟨_, hmemory, ?_⟩
  have hassigned (a k : ℕ) : Assigned (ramEntries flags machine 0 0 machine.numaInfo ++
      otherEntries flags machine [] [] count) a k ↔
        ¬LowHole a ∧ ∃ offset, InSpan 0 machine.sizes k offset ∧
          machine.ramAddress offset = a := by
    rw [assigned_append, (ramEntries_all flags hsound).1, assigned_otherEntries hsound, hdevice]
    simp only [assigned_nil, and_false, reduceCtorEq, false_and, exists_false, or_false,
      Machine.Holds, InSpan]
    constructor
    · rintro ⟨span, hspan, hhole, offset, hstart, hstop, haddress⟩
      exact ⟨hhole, offset, ⟨span, hspan, hstart, hstop⟩, haddress⟩
    · rintro ⟨hhole, offset, ⟨span, hspan, hstart, hstop⟩, haddress⟩
      exact ⟨span, hspan, hhole, offset, hstart, hstop, haddress⟩
  rw [← inSpan_exact_iff (Or.inl (Nat.zero_le _))]
  simp only [hassigned, Machine.Owns]
  constructor
  · intro hexact k offset hhole
    have hseen : ¬LowHole (machine.ramAddress offset) :=
      fun hlow => hhole ((lowHole_ramAddress hsound offset).mp hlow)
    constructor
    · intro hspan
      obtain ⟨-, offset', hnode, heq⟩ := (hexact _ k).mp ⟨hseen, offset, hspan, rfl⟩
      exact ramAddress_inj hsound heq ▸ hnode
    · intro hnode
      obtain ⟨-, offset', hspan, heq⟩ := (hexact _ k).mpr ⟨hseen, offset, hnode, rfl⟩
      exact ramAddress_inj hsound heq ▸ hspan
  · intro hexact a k
    refine and_congr_right fun hhole => exists_congr fun offset => and_congr_left fun haddress => ?_
    refine hexact k offset fun hlow => hhole ?_
    rw [← haddress]
    exact (lowHole_ramAddress hsound offset).mpr hlow

end

theorem srat_exact_iff_twoNodes : ∃ file linker',
    srat { twoNodes with deviceMemory := none } = .ok (file, linker') ∧
    ∃ entries, sratMemory (tableBody file ([] : Bytes).length) = some entries ∧
      ((∀ a k, Assigned entries a k ↔ ({ twoNodes with deviceMemory := none } : Machine).Owns k a) ↔
        ¬EndsInHole 0 ({ twoNodes with deviceMemory := none } : Machine).sizes) := by
  obtain ⟨file, linker', h, hlen⟩ :=
    @exists_of_length (srat { twoNodes with deviceMemory := none }) 248 (by decide +kernel)
  refine ⟨file, linker', h, ?_⟩
  unfold srat at h
  exact srat_exact_iff ⟨by decide, by decide, by decide, by decide⟩ rfl rfl (fun _ => rfl) h
    (hlen ▸ by decide)

section

variable {flags : MemoryAffinityFlags} {machine : Machine}
  {nvdimmEntries sgxEpcEntries : List MemoryAffinity} {appname : Vector UInt8 8}
  {nvdimmBuildSrat sgxEpcBuildSrat : Bytes → Bytes} {tableData file : Bytes}
  {linker linker' : List AddChecksum}

/-! ## Processors -/

/-- **The processors of an SRAT** are those of the machine, each with its node,
if and only if every processor with an id below 255 has a node below 256. -/
theorem srat_processors_iff (hnvdimm : Appends nvdimmBuildSrat nvdimmEntries)
    (hsgxEpc : Appends sgxEpcBuildSrat sgxEpcEntries)
    (h : buildSrat flags appname nvdimmBuildSrat sgxEpcBuildSrat machine tableData linker =
      .ok (file, linker')) (hlen : file.length < 4294967296) :
    sratProcessors (tableBody file tableData.length) =
      some (machine.apicIds.map fun cpu => ⟨cpu.archId.toUInt32.toNat, cpu.domain, 1⟩) ↔
    ∀ cpu ∈ machine.apicIds, cpu.archId.toUInt32 < 255 → cpu.domain < 256 := by
  obtain ⟨count, hstructures⟩ := buildSrat_structures hnvdimm hsgxEpc h hlen
  have hmemory (entries : List MemoryAffinity) :
      (entries.map MemoryAffinity.record).filterMap
        (fun s => readApicAffinity s <|> readX2apicAffinity s) = [] := by
    rw [List.filterMap_eq_nil_iff]
    intro s hs
    obtain ⟨e, -, rfl⟩ := List.mem_map.mp hs
    exact readProcessor_record e
  have hcpus : (machine.apicIds.map processorRecord).filterMap
      (fun s => readApicAffinity s <|> readX2apicAffinity s) =
        machine.apicIds.map CPUArchId.affinity := by
    rw [List.filterMap_map, ← List.filterMap_eq_map]
    exact List.filterMap_congr fun cpu _ => readApicAffinity_processorRecord cpu
  rw [sratProcessors, hstructures, Option.map_some, List.filterMap_append, hcpus, hmemory,
    List.append_nil, Option.some.injEq, List.map_inj_left]
  refine forall_congr' fun cpu => forall_congr' fun _ => ?_
  rw [CPUArchId.affinity, ProcessorAffinity.mk.injEq]
  split
  · next hshort =>
    have hmod : cpu.domain % 256 = cpu.domain ↔ cpu.domain < 256 := by omega
    simp [hshort, hmod]
  · next hlong => simp [hlong]

end

theorem srat_processors_iff_twoNodes : ∃ file linker', srat twoNodes = .ok (file, linker') ∧
    (sratProcessors (tableBody file ([] : Bytes).length) = some (twoNodes.apicIds.map fun cpu =>
      ⟨cpu.archId.toUInt32.toNat, cpu.domain, 1⟩) ↔
    ∀ cpu ∈ twoNodes.apicIds, cpu.archId.toUInt32 < 255 → cpu.domain < 256) := by
  obtain ⟨file, linker', h, hlen⟩ := @exists_of_length (srat twoNodes) 288 (by decide +kernel)
  refine ⟨file, linker', h, ?_⟩
  unfold srat at h
  exact srat_processors_iff appends_id appends_id h (hlen ▸ by decide)

end AcpiTables.AmlBuild
