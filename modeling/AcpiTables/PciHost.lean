import AcpiTables.AmlBuildTerms
import AcpiTables.CrsRanges

/-!
# The windows of the host bridges

`build_crs` lists what the devices of a root bus decode in the `_CRS` of its host
bridge; the loop of `build_dsdt` over the expander buses collects these ranges,
and what is left of the holes becomes the `_CRS` of `PCI0`.

The devices are data here: their regions, what `pci_bridge_get_base` and
`pci_bridge_get_limit` answer for a bridge, and the two bytes of the
configuration space that are looked at.
-/

namespace AcpiTables.AmlBuild

/-! ## Devices -/

/-- `PCIIORegion`. -/
structure PCIIORegion where
  addr : UInt64
  size : UInt64
  type_ : UInt8
  deriving DecidableEq

/-- `PCIDevice`: `PCI_NUM_REGIONS` regions, and the windows of a bridge. -/
structure PCIDevice where
  ioRegions : Vector PCIIORegion 7
  headerType : UInt8
  subordinateBus : UInt8
  ioWindow : CrsRangeEntry
  memoryWindow : CrsRangeEntry
  prefetchWindow : CrsRangeEntry
  deriving DecidableEq

/-- `PCIBus`: a device or none for each number. -/
structure PCIBus where
  num : UInt8
  devices : Vector (Option PCIDevice) 256
  deriving DecidableEq

/-- `PCI_HEADER_TYPE_BRIDGE`, whatever the multi-function bit. -/
def PCIDevice.isBridge (dev : PCIDevice) : Bool := dev.headerType &&& ~~~(0x80 : UInt8) == 0x01

/-- `PCI_BASE_ADDRESS_SPACE_IO`. -/
def PCIIORegion.isIo (r : PCIIORegion) : Bool := r.type_ &&& 0x01 != 0

/-! ## The ranges of a bus -/

/-- `CrsRangeSet`: ports, memory below 4 GiB and memory that ends above it. -/
structure CrsRangeSet where
  ioRanges : List CrsRangeEntry
  memRanges : List CrsRangeEntry
  mem64bitRanges : List CrsRangeEntry
  deriving DecidableEq

/-- `crs_range_set_init`: nothing is in use. -/
def crsRangeSetInit : CrsRangeSet := ⟨[], [], []⟩

/-- A range of ports is added. -/
def collectIo (set : CrsRangeSet) (rangeBase rangeLimit : UInt64) : CrsRangeSet :=
  { set with ioRanges := crsRangeInsert set.ioRanges rangeBase rangeLimit }

/-- Memory is sorted by whether it lies below 4 GiB. -/
def collectMemory (set : CrsRangeSet) (rangeBase rangeLimit : UInt64) : CrsRangeSet :=
  let length := rangeLimit - rangeBase + 1
  if rangeLimit ≤ 0xffffffff ∧ length ≤ 0xffffffff then
    { set with memRanges := crsRangeInsert set.memRanges rangeBase rangeLimit }
  else { set with mem64bitRanges := crsRangeInsert set.mem64bitRanges rangeBase rangeLimit }

/-- A register of a device: ports or memory, unless its base is zero or past its
limit. -/
def collectRegion (set : CrsRangeSet) (r : PCIIORegion) : CrsRangeSet :=
  let rangeBase := r.addr
  let rangeLimit := r.addr + r.size - 1
  if rangeBase = 0 ∨ rangeBase > rangeLimit then set
  else if r.isIo then collectIo set rangeBase rangeLimit
  else collectMemory set rangeBase rangeLimit

/-- A window of a bridge, unless its base is zero or past its limit. -/
def collectWindow (collect : CrsRangeSet → UInt64 → UInt64 → CrsRangeSet) (set : CrsRangeSet)
    (window : CrsRangeEntry) : CrsRangeSet :=
  if window.base ≠ 0 ∧ window.base ≤ window.limit then collect set window.base window.limit else set

/-- One turn of the loop over the devices: the ranges and the last bus so far. -/
def collectDevice (state : CrsRangeSet × UInt8) (dev : Option PCIDevice) : CrsRangeSet × UInt8 :=
  match dev with
  | none => state
  | some dev =>
    let (set, maxBus) := state
    let set := dev.ioRegions.toList.foldl collectRegion set
    if dev.isBridge then
      let maxBus := if dev.subordinateBus > maxBus then dev.subordinateBus else maxBus
      let set := collectWindow collectIo set dev.ioWindow
      let set := collectWindow collectMemory set dev.memoryWindow
      (collectWindow collectMemory set dev.prefetchWindow, maxBus)
    else (set, maxBus)

/-! ## Windows -/

/-- `aml_word_bus_number`. -/
def amlWordBusNumber (minFixed maxFixed dec : UInt8)
    (addrGran addrMin addrMax addrTrans len : UInt16) : Aml :=
  amlWordAsDesc 2 minFixed maxFixed dec addrGran addrMin addrMax addrTrans len 0

/-- `aml_word_io`. -/
def amlWordIo (minFixed maxFixed dec isaRanges : UInt8)
    (addrGran addrMin addrMax addrTrans len : UInt16) : Aml :=
  amlWordAsDesc 1 minFixed maxFixed dec addrGran addrMin addrMax addrTrans len isaRanges

/-- `aml_dword_io`. -/
def amlDwordIo (minFixed maxFixed dec isaRanges : UInt8)
    (addrGran addrMin addrMax addrTrans len : UInt32) : Aml :=
  amlDwordAsDesc 1 minFixed maxFixed dec addrGran addrMin addrMax addrTrans len isaRanges

/-- `aml_dword_memory`. -/
def amlDwordMemory (dec minFixed maxFixed cacheable readAndWrite : UInt8)
    (addrGran addrMin addrMax addrTrans len : UInt32) : Aml :=
  amlDwordAsDesc 0 minFixed maxFixed dec addrGran addrMin addrMax addrTrans len
    (readAndWrite ||| (cacheable <<< 1))

/-- `aml_qword_memory`. -/
def amlQwordMemory (dec minFixed maxFixed cacheable readAndWrite : UInt8)
    (addrGran addrMin addrMax addrTrans len : UInt64) : Aml :=
  amlQwordAsDesc 0 minFixed maxFixed dec addrGran addrMin addrMax addrTrans len
    (readAndWrite ||| (cacheable <<< 1))

/-- One turn of the loop over the ranges of ports: the resources so far, and the
ranges in use. -/
def crsIoStep (ioOffset : UInt32) (state : Aml × CrsRangeSet) (entry : CrsRangeEntry) :
    Aml × CrsRangeSet :=
  (amlAppend state.1 (amlDwordIo 4 8 0 3 0 entry.base.toUInt32 entry.limit.toUInt32 ioOffset
    (entry.limit - entry.base + 1).toUInt32),
  { state.2 with ioRanges := crsRangeInsert state.2.ioRanges entry.base entry.limit })

/-- One turn of the loop over the memory below 4 GiB, which asserts that it lies
there. -/
def crsMemStep (mmio32Offset : UInt32) (state : Aml × CrsRangeSet) (entry : CrsRangeEntry) :
    Checked (Aml × CrsRangeSet) := do
  ensure (entry.limit ≤ 0xffffffff ∧ entry.limit - entry.base + 1 ≤ 0xffffffff) .assertion
  return (amlAppend state.1 (amlDwordMemory 0 4 8 0 1 0 entry.base.toUInt32 entry.limit.toUInt32
    mmio32Offset (entry.limit - entry.base + 1).toUInt32),
  { state.2 with memRanges := crsRangeInsert state.2.memRanges entry.base entry.limit })

/-- One turn of the loop over the 64-bit memory. -/
def crsMem64Step (mmio64Offset : UInt64) (state : Aml × CrsRangeSet) (entry : CrsRangeEntry) :
    Aml × CrsRangeSet :=
  (amlAppend state.1 (amlQwordMemory 0 4 8 0 1 0 entry.base entry.limit mmio64Offset
    (entry.limit - entry.base + 1)),
  { state.2 with
    mem64bitRanges := crsRangeInsert state.2.mem64bitRanges entry.base entry.limit })

/-- `build_crs`: the resources of a host bridge, and the ranges that it adds to
those that are used. -/
def buildCrs (host : PCIBus) (rangeSet : CrsRangeSet) (ioOffset mmio32Offset : UInt32)
    (mmio64Offset : UInt64) (busNrOffset : UInt16) : Checked (Aml × CrsRangeSet) := do
  let (tempRangeSet, maxBus) := host.devices.toList.foldl collectDevice (crsRangeSetInit, host.num)
  let state := (crsRangeMerge tempRangeSet.ioRanges).foldl (crsIoStep ioOffset)
    (amlResourceTemplate, rangeSet)
  let state ← (crsRangeMerge tempRangeSet.memRanges).foldlM (crsMemStep mmio32Offset) state
  let (crs, rangeSet) := (crsRangeMerge tempRangeSet.mem64bitRanges).foldl
    (crsMem64Step mmio64Offset) state
  let crs := amlAppend crs (amlWordBusNumber 4 8 0 0 host.num.toUInt16 maxBus.toUInt16 busNrOffset
    (maxBus.toUInt16 - host.num.toUInt16 + 1))
  return (crs, rangeSet)

/-! ## The host bridges of the DSDT -/

/-- A child of the bus of the machine, with what the loop asks about it. -/
structure ChildBus where
  bus : PCIBus
  isRoot : Bool
  isCxl : Bool

/-- What the loop over the child buses has come to: the ranges in use, the last
bus that is left for `PCI0`, and the resources of the host bridges so far. -/
structure ExpanderState where
  crsRangeSet : CrsRangeSet
  rootBusLimit : ℤ
  expanders : List (PCIBus × Aml)

/-- One turn of the loop. The memory of CXL devices, `host_mr`, is in use once
there is a CXL bus. -/
def expanderStep (hostMr : PCIIORegion) (state : ExpanderState) (child : ChildBus) :
    Checked ExpanderState := do
  if !child.isRoot then return state
  let busNum := child.bus.num.toNat
  let rootBusLimit := if (busNum : ℤ) < state.rootBusLimit then (busNum : ℤ) - 1
    else state.rootBusLimit
  let (crs, crsRangeSet) ← buildCrs child.bus state.crsRangeSet 0 0 0 0
  let crsRangeSet :=
    if child.isCxl then
      { crsRangeSet with
        memRanges := crsRangeInsert crsRangeSet.memRanges hostMr.addr
          (hostMr.addr + hostMr.size - 1) }
    else crsRangeSet
  return ⟨crsRangeSet, rootBusLimit, state.expanders ++ [(child.bus, crs)]⟩

/-- The loop over the child buses, and what is reserved for the configuration
space. -/
def collectExpanders (children : List ChildBus) (hostMr : PCIIORegion)
    (mcfg : Option (UInt64 × UInt64)) : Checked ExpanderState := do
  let state ← children.foldlM (expanderStep hostMr) ⟨crsRangeSetInit, 0xff, []⟩
  match mcfg with
  | none => return state
  | some (base, size) =>
    return { state with
      crsRangeSet := { state.crsRangeSet with
        memRanges := crsRangeInsert state.crsRangeSet.memRanges base (base + size - 1) } }

/-- `PCI0._CRS`, without a TPM. A hole is its first and its last address; the
second one may be empty. -/
def pci0Crs (rangeSet : CrsRangeSet) (rootBusLimit : ℤ) (pciHole : UInt64 × UInt64)
    (pciHole64 : Option (UInt64 × UInt64)) : Aml :=
  let crs := amlResourceTemplate
  let crs := amlAppend crs (amlWordBusNumber 4 8 0 0 0 (UInt16.ofInt rootBusLimit) 0
    (UInt16.ofInt (rootBusLimit + 1)))
  let crs := amlAppend crs (amlIo 1 0x0cf8 0x0cf8 0x01 0x08)
  let crs := amlAppend crs (amlWordIo 4 8 0 3 0 0 0x0cf7 0 0x0cf8)
  let crs := (crsReplaceWithFreeRanges rangeSet.ioRanges 0x0d00 0xffff).foldl
    (fun crs entry => amlAppend crs (amlWordIo 4 8 0 3 0 entry.base.toUInt16 entry.limit.toUInt16 0
      (entry.limit - entry.base + 1).toUInt16)) crs
  let crs := amlAppend crs (amlDwordMemory 0 4 8 1 1 0 0x000a0000 0x000bffff 0 0x00020000)
  let crs := (crsReplaceWithFreeRanges rangeSet.memRanges pciHole.1 pciHole.2).foldl
    (fun crs entry => amlAppend crs (amlDwordMemory 0 4 8 0 1 0 entry.base.toUInt32
      entry.limit.toUInt32 0 (entry.limit - entry.base + 1).toUInt32)) crs
  match pciHole64 with
  | none => crs
  | some (lob, upb) =>
    (crsReplaceWithFreeRanges rangeSet.mem64bitRanges lob upb).foldl
      (fun crs entry => amlAppend crs (amlQwordMemory 0 4 8 1 1 0 entry.base entry.limit 0
        (entry.limit - entry.base + 1))) crs

end AcpiTables.AmlBuild
