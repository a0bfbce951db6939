import AcpiTables.ContainerTree
import AcpiTables.Madt
import AcpiTables.PackedFields
import AcpiTables.ReferenceTables

/-!
# The topology of the processors

`build_pptt` of the reference library: a structure for every processor, and one
for every socket, cluster and core around it, in one pass over the processors.
Every structure but that of a socket names the one around it, by where that lies
in the table.

The reader goes through the structures that stand for processors, and from each
of them up to its socket.
-/

namespace AcpiTables.AmlBuild

open MachineInt

/-! ## The builder -/

/-- What `build_pptt` reads of the machine and its class. -/
structure SmpMachine where
  possibleCpus : List CPUArchId
  threads : UInt32
  clustersSupported : Bool
  hasClusters : Bool

/-- A list stands for `priv_rsrc` and `priv_num`. -/
def buildProcessorHierarchyNode (tbl : Bytes) (flags parent id : UInt32)
    (privRsrc : List UInt32) : Bytes :=
  let tbl := tbl ++ [0]
  let tbl := tbl ++ [UInt8.ofNat (20 + privRsrc.length * 4)]
  let tbl := buildAppendIntNoprefix tbl 0 2
  let tbl := buildAppendIntNoprefix tbl flags.toUInt64 4
  let tbl := buildAppendIntNoprefix tbl parent.toUInt64 4
  let tbl := buildAppendIntNoprefix tbl id.toUInt64 4
  let tbl := buildAppendIntNoprefix tbl (UInt64.ofNat privRsrc.length) 4
  privRsrc.foldl (fun tbl rsrc => buildAppendIntNoprefix tbl rsrc.toUInt64 4) tbl

/-- The variables of the loop. -/
structure PpttState where
  tableData : Bytes
  socketId : ℤ
  clusterId : ℤ
  coreId : ℤ
  socketOffset : UInt32
  clusterOffset : UInt32
  coreOffset : UInt32

/-- The socket of a processor, a part of one turn of the loop. -/
def ppttSocket (ppttStart : ℕ) (cpu : CPUArchId) (s : PpttState) : Checked PpttState := do
  if cpu.props.socketId ≠ s.socketId then
    ensure (cpu.props.socketId > s.socketId) .assertion
    return { s with
      socketId := cpu.props.socketId
      clusterId := -1
      coreId := -1
      socketOffset := UInt32.ofNat (s.tableData.length - ppttStart)
      tableData := buildProcessorHierarchyNode s.tableData 1 0
        (UInt32.ofInt cpu.props.socketId) [] }
  else return s

/-- The cluster of a processor. -/
def ppttCluster (machine : SmpMachine) (ppttStart : ℕ) (cpu : CPUArchId) (s : PpttState) :
    Checked PpttState := do
  if machine.clustersSupported ∧ machine.hasClusters then
    if cpu.props.clusterId ≠ s.clusterId then
      ensure (cpu.props.clusterId > s.clusterId) .assertion
      return { s with
        clusterId := cpu.props.clusterId
        coreId := -1
        clusterOffset := UInt32.ofNat (s.tableData.length - ppttStart)
        tableData := buildProcessorHierarchyNode s.tableData 0 s.socketOffset
          (UInt32.ofInt cpu.props.clusterId) [] }
    else return s
  else return { s with clusterOffset := s.socketOffset }

/-- The core of a processor with more than one thread. -/
def ppttCore (ppttStart : ℕ) (cpu : CPUArchId) (s : PpttState) : Checked PpttState := do
  if cpu.props.coreId ≠ s.coreId then
    ensure (cpu.props.coreId > s.coreId) .assertion
    return { s with
      coreId := cpu.props.coreId
      coreOffset := UInt32.ofNat (s.tableData.length - ppttStart)
      tableData := buildProcessorHierarchyNode s.tableData 0 s.clusterOffset
        (UInt32.ofInt cpu.props.coreId) [] }
  else return s

/-- The processor itself, in its core if that is a container. -/
def ppttProcessor (machine : SmpMachine) (ppttStart : ℕ) (cpu : CPUArchId) (n : ℕ)
    (s : PpttState) : Checked PpttState := do
  if machine.threads = 1 then
    -- ACPI Processor ID valid, Node is a Leaf
    return { s with
      tableData := buildProcessorHierarchyNode s.tableData (2 ||| 8) s.clusterOffset
        (UInt32.ofNat n) [] }
  else
    let s ← ppttCore ppttStart cpu s
    -- and Processor is a Thread
    return { s with
      tableData := buildProcessorHierarchyNode s.tableData (2 ||| 4 ||| 8) s.coreOffset
        (UInt32.ofNat n) [] }

/-- One turn of the loop. -/
def ppttCpu (machine : SmpMachine) (ppttStart : ℕ) (s : PpttState) (cpu : CPUArchId × ℕ) :
    Checked PpttState := do
  let s ← ppttSocket ppttStart cpu.1 s
  let s ← ppttCluster machine ppttStart cpu.1 s
  ppttProcessor machine ppttStart cpu.1 cpu.2 s

/-- `build_pptt`: one turn for each processor, between the header and the length. -/
def buildPptt (appname : Vector UInt8 8) (oemId oemTableId : Bytes) (machine : SmpMachine)
    (tableData : Bytes) (linker : List AddChecksum) : Checked (Bytes × List AddChecksum) := do
  let ppttStart := tableData.length
  let table : AcpiTable := { sig := asBytes "PPTT", rev := 2, oemId, oemTableId }
  let tableData ← acpiTableBegin appname table tableData
  let s : PpttState := ⟨tableData, -1, -1, -1, 0, 0, 0⟩
  let s ← machine.possibleCpus.zipIdx.foldlM (ppttCpu machine ppttStart) s
  return acpiTableEnd linker ppttStart s.tableData

/-! ## The reader -/

/-- A processor, or something around processors. -/
structure HierarchyNode where
  flags : ℕ
  parent : ℕ
  id : ℕ
  deriving DecidableEq

/-- Nothing lies in a leaf. -/
def HierarchyNode.isLeaf (node : HierarchyNode) : Bool := node.flags / 8 % 2 = 1

/-- The reader of a hierarchy node. -/
def readHierarchyNode (s : Bytes) : Option HierarchyNode :=
  match readFields [1, 1, 2, 4, 4, 4, 4] s with
  | [0, _, _, flags, parent, id, _] => some ⟨flags, parent, id⟩
  | _ => none

/-- The containers from the structure at this offset of the table up: where each
lies and its id. -/
def containersAbove (body : Bytes) : ℕ → ℕ → Option (List (ℕ × ℕ))
  | 0, offset => if offset = 0 then some [] else none
  | fuel + 1, offset =>
    if offset = 0 then some []
    else do
      let node ← readHierarchyNode (slice body (offset - 36) 20)
      let above ← containersAbove body fuel node.parent
      return (offset, node.id) :: above

/-- The processors of the table, each with its containers from the outermost on. -/
def ppttProcessors (body : Bytes) : Option (List (ℕ × List (ℕ × ℕ))) := do
  let structures ← walk structureSize body.length body
  let leaves := (structures.filterMap readHierarchyNode).filter HierarchyNode.isLeaf
  leaves.mapM fun leaf =>
    (containersAbove body body.length leaf.parent).map fun above => (leaf.id, above.reverse)

/-! ## The topology -/

/-- The ids of the containers of a processor, the socket's first. -/
def SmpMachine.containerIds (machine : SmpMachine) (cpu : CPUArchId) : List ℤ :=
  [cpu.props.socketId] ++
    (if machine.clustersSupported ∧ machine.hasClusters then [cpu.props.clusterId] else []) ++
    (if machine.threads = 1 then [] else [cpu.props.coreId])

end AcpiTables.AmlBuild
