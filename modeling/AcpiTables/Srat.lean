import AcpiTables.Madt
import AcpiTables.PackedFields
import AcpiTables.ReferenceTables

/-!
# The affinities of processors and memory

`build_srat` assigns the processors and the memory of a machine to its nodes. The
nodes lie one after the other in memory, which has two holes: the loop over the
nodes cuts them out as it goes. The first one is below 1 MiB; a node that ends in
it is cut there, and the next one starts behind it. The second one is that of PCI,
below 4 GiB; a node that reaches over it has an entry on either side.

The reader takes the structures of a table by their type and length, and makes of
each what an operating system does: a range of memory or a processor, and the
domain that it belongs to, if the entry is enabled.
-/

namespace AcpiTables.AmlBuild

/-! ## The builder -/

/-- The values of `MemoryAffinityFlags`, of which the first bit says that an
entry is to be looked at. -/
structure MemoryAffinityFlags where
  noflags : UInt32
  enabled : UInt32
  hotpluggable : UInt32
  noflags_clear : noflags.toNat % 2 = 0
  enabled_set : enabled.toNat % 2 = 1

/-- What `build_srat` looks at. The sizes of the nodes are in `numaInfo`. -/
structure Machine where
  oemId : Bytes
  oemTableId : Bytes
  apicIds : List CPUArchId
  numaInfo : List UInt64
  below4gMemSize : UInt64
  above4gMemStart : UInt64
  nvdimmIsEnabled : Bool
  /-- its base and its size -/
  deviceMemory : Option (UInt64 × UInt64)

/-- `HOLE_640K_START`. -/
def hole640kStart : UInt64 := 640 * 1024

/-- `HOLE_640K_END`. -/
def hole640kEnd : UInt64 := 1024 * 1024

/-- `build_srat_memory`: a memory entry is appended. -/
def buildSratMemory (tableData : Bytes) (base len : UInt64) (node : ℤ) (flags : UInt32) : Bytes :=
  let tableData := buildAppendIntNoprefix tableData 1 1
  let tableData := buildAppendIntNoprefix tableData 40 1
  let tableData := buildAppendIntNoprefix tableData (UInt64.ofInt node) 4
  let tableData := buildAppendIntNoprefix tableData 0 2
  let tableData := buildAppendIntNoprefix tableData base 4
  let tableData := buildAppendIntNoprefix tableData (base >>> 32) 4
  let tableData := buildAppendIntNoprefix tableData len 4
  let tableData := buildAppendIntNoprefix tableData (len >>> 32) 4
  let tableData := buildAppendIntNoprefix tableData 0 4
  let tableData := buildAppendIntNoprefix tableData flags.toUInt64 4
  buildAppendIntNoprefix tableData 0 8

/-- One turn of the loop over the processors. -/
def sratProcessor (tableData : Bytes) (cpu : CPUArchId) : Bytes :=
  let nodeId : UInt64 := UInt64.ofInt (Int32.ofInt cpu.props.nodeId).toInt
  let apicId := cpu.archId.toUInt32
  if apicId < 255 then
    let tableData := buildAppendIntNoprefix tableData 0 1
    let tableData := buildAppendIntNoprefix tableData 16 1
    let tableData := buildAppendIntNoprefix tableData nodeId 1
    let tableData := buildAppendIntNoprefix tableData apicId.toUInt64 1
    let tableData := buildAppendIntNoprefix tableData 1 4
    let tableData := buildAppendIntNoprefix tableData 0 1
    let tableData := buildAppendIntNoprefix tableData 0 3
    buildAppendIntNoprefix tableData 0 4
  else
    let tableData := buildAppendIntNoprefix tableData 2 1
    let tableData := buildAppendIntNoprefix tableData 24 1
    let tableData := buildAppendIntNoprefix tableData 0 2
    let tableData := buildAppendIntNoprefix tableData nodeId 4
    let tableData := buildAppendIntNoprefix tableData apicId.toUInt64 4
    let tableData := buildAppendIntNoprefix tableData 1 4
    let tableData := buildAppendIntNoprefix tableData 0 4
    buildAppendIntNoprefix tableData 0 4

/-- `build_srat_memory`, when there is memory. -/
def sratPiece (flags : MemoryAffinityFlags) (tableData : Bytes) (memBase memLen : UInt64)
    (i : ℕ) : Bytes :=
  if memLen > 0 then buildSratMemory tableData memBase memLen i flags.enabled else tableData

/-- The end of a turn of the loop over the nodes, from where the hole of PCI is
cut out: the table and the base of the next node. -/
def cutPciHole (flags : MemoryAffinityFlags) (machine : Machine) (tableData : Bytes)
    (memBase memLen nextBase : UInt64) (i : ℕ) : Bytes × UInt64 :=
  if memBase ≤ machine.below4gMemSize ∧ nextBase > machine.below4gMemSize then
    let memLen := memLen - (nextBase - machine.below4gMemSize)
    let tableData := sratPiece flags tableData memBase memLen i
    let memBase := machine.above4gMemStart
    let memLen := nextBase - machine.below4gMemSize
    let nextBase := memBase + memLen
    (sratPiece flags tableData memBase memLen i, nextBase)
  else (sratPiece flags tableData memBase memLen i, nextBase)

/-- One turn of the loop over the nodes. -/
def sratNode (flags : MemoryAffinityFlags) (machine : Machine) (state : Bytes × UInt64)
    (node : UInt64 × ℕ) : Bytes × UInt64 :=
  let (tableData, nextBase) := state
  let (nodeMem, i) := node
  let memBase := nextBase
  let memLen := nodeMem
  let nextBase := memBase + memLen
  if memBase ≤ hole640kStart ∧ nextBase > hole640kStart then
    let memLen := memLen - (nextBase - hole640kStart)
    let tableData := sratPiece flags tableData memBase memLen i
    -- 640K < RAM < 1M
    if nextBase ≤ hole640kEnd then (tableData, hole640kEnd)
    else cutPciHole flags machine tableData hole640kEnd (nextBase - hole640kEnd) nextBase i
  else cutPciHole flags machine tableData memBase memLen nextBase i

/-- `nvdimmBuildSrat` and `sgxEpcBuildSrat` stand for the functions of these
names. -/
def buildSrat (flags : MemoryAffinityFlags) (appname : Vector UInt8 8)
    (nvdimmBuildSrat sgxEpcBuildSrat : Bytes → Bytes) (machine : Machine)
    (tableData : Bytes) (linker : List AddChecksum) : Checked (Bytes × List AddChecksum) := do
  let tableOffset := tableData.length
  let table : AcpiTable :=
    { sig := asBytes "SRAT", rev := 1, oemId := machine.oemId, oemTableId := machine.oemTableId }
  let tableData ← acpiTableBegin appname table tableData
  let tableData := buildAppendIntNoprefix tableData 1 4
  let tableData := buildAppendIntNoprefix tableData 0 8
  let tableData := machine.apicIds.foldl sratProcessor tableData
  let numaMemStart := tableData.length
  let (tableData, _) := machine.numaInfo.zipIdx.foldl (sratNode flags machine) (tableData, 0)
  let tableData := if machine.nvdimmIsEnabled then nvdimmBuildSrat tableData else tableData
  let tableData := sgxEpcBuildSrat tableData
  -- at least two entries more than there are nodes
  let slots := (tableData.length - numaMemStart) / 40
  let tableData := (buildSratMemory · 0 0 0 flags.noflags)^[machine.numaInfo.length + 2 - slots]
    tableData
  let tableData := machine.deviceMemory.elim tableData fun m =>
    buildSratMemory tableData m.1 m.2 (machine.numaInfo.length - 1)
      (flags.hotpluggable ||| flags.enabled)
  return acpiTableEnd linker tableOffset tableData

/-! ## The reader -/

/-- An entry for a range of memory. -/
structure MemoryAffinity where
  domain : ℕ
  base : ℕ
  length : ℕ
  flags : ℕ
  deriving DecidableEq

/-- An entry for a processor. -/
structure ProcessorAffinity where
  apicId : ℕ
  domain : ℕ
  flags : ℕ
  deriving DecidableEq

/-- The reader of a memory entry. -/
def readMemoryAffinity (s : Bytes) : Option MemoryAffinity :=
  match readFields [1, 1, 4, 2, 8, 8, 4, 4, 8] s with
  | [1, _, domain, _, base, length, _, flags, _] => some ⟨domain, base, length, flags⟩
  | _ => none

/-- The domain of an entry with a short id is in two parts. -/
def readApicAffinity (s : Bytes) : Option ProcessorAffinity :=
  match readFields [1, 1, 1, 1, 4, 1, 3, 4] s with
  | [0, _, low, apicId, flags, _, high, _] => some ⟨apicId, low + 256 * high, flags⟩
  | _ => none

/-- The reader of a processor entry with a long id. -/
def readX2apicAffinity (s : Bytes) : Option ProcessorAffinity :=
  match readFields [1, 1, 2, 4, 4, 4, 4, 4] s with
  | [2, _, _, domain, apicId, flags, _, _] => some ⟨apicId, domain, flags⟩
  | _ => none

/-- The structures of an SRAT follow twelve bytes of the body. -/
def sratStructures (body : Bytes) : Option (List Bytes) :=
  walk structureSize body.length (body.drop 12)

/-- The memory entries of an SRAT, in order. -/
def sratMemory (body : Bytes) : Option (List MemoryAffinity) :=
  (sratStructures body).map (List.filterMap readMemoryAffinity)

/-- The processor entries of an SRAT, of both kinds and in order. -/
def sratProcessors (body : Bytes) : Option (List ProcessorAffinity) :=
  (sratStructures body).map (List.filterMap fun s => readApicAffinity s <|> readX2apicAffinity s)

/-- An address is given to a domain, by an entry that is to be looked at. -/
def Assigned (entries : List MemoryAffinity) (a k : ℕ) : Prop :=
  ∃ e ∈ entries, e.flags % 2 = 1 ∧ e.domain = k ∧ e.base ≤ a ∧ a < e.base + e.length

end AcpiTables.AmlBuild
