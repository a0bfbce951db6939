import AcpiTables.PackedFields
import AcpiTables.ReferenceTables
import AcpiTables.Walk

/-!
# The devices of an IOMMU

`build_amd_iommu` tells the system under which number the IOMMU sees each PCI
device. `insert_ivhd` walks the tree of the buses for it: a device is selected by
its number, a bus is given by a range of numbers, and what lies behind a
conventional bus is given by a range with the number that all its requests carry.

A device is its number on the bus, and for a bridge the buses behind it.
-/

namespace AcpiTables.AmlBuild

/-! ## The builder -/

/-- A `PCIDevice` as `insert_ivhd` sees it. `secIsExpress` is `pci_bus_is_express`
of the secondary bus, `pcieBridge` says that the device is an express bridge to a
conventional bus. The devices behind a bridge come in the order of their
numbers. -/
inductive PciNode where
  | endpoint (devfn : UInt8)
  | bridge (devfn sec sub : UInt8) (secIsExpress pcieBridge : Bool) (devices : List PciNode)

/-- A host bridge with its root bus. -/
structure PciHostBridge where
  num : UInt8
  bypassIommu : Bool
  devices : List PciNode

/-- `PCI_BUILD_BDF`. -/
def pciBuildBdf (bus devfn : UInt8) : UInt32 := (bus.toUInt32 <<< 8) ||| devfn.toUInt32

/-- `PCI_DEVFN`. -/
def pciDevfn (slot func : UInt8) : UInt8 := ((slot &&& 0x1f) <<< 3) ||| (func &&& 0x07)

mutual

/-- `insert_ivhd`: the entries of a device, and of the devices behind a bridge. -/
def insertIvhd (bus : UInt8) (tableData : Bytes) : PciNode → Bytes
  | .endpoint devfn =>
    let entry := (pciBuildBdf bus devfn <<< 8) ||| 0x2
    buildAppendIntNoprefix tableData entry.toUInt64 4
  | .bridge devfn sec sub secIsExpress pcieBridge devices =>
    let entry := (pciBuildBdf bus devfn <<< 8) ||| 0x2
    let tableData := buildAppendIntNoprefix tableData entry.toUInt64 4
    if secIsExpress then
      if sec = sub then
        let entry := (pciBuildBdf sec (pciDevfn 0 0) <<< 8) ||| 0x3
        let tableData := buildAppendIntNoprefix tableData entry.toUInt64 4
        let entry := (pciBuildBdf sub (pciDevfn 31 7) <<< 8) ||| 0x4
        buildAppendIntNoprefix tableData entry.toUInt64 4
      else insertIvhdEach sec tableData devices
    else
      let devIdA := (pciBuildBdf sec (pciDevfn 0 0)).toUInt16
      let devIdB := if pcieBridge then devIdA else (pciBuildBdf bus devfn).toUInt16
      let entry := (devIdA.toUInt32 <<< 8) ||| 0x43
      let tableData := buildAppendIntNoprefix tableData entry.toUInt64 4
      let entry := (devIdB.toUInt32 <<< 8) ||| 0x0
      let tableData := buildAppendIntNoprefix tableData entry.toUInt64 4
      let entry := (pciBuildBdf sub (pciDevfn 31 7) <<< 8) ||| 0x4
      buildAppendIntNoprefix tableData entry.toUInt64 4

/-- `pci_for_each_device` with `insert_ivhd`. -/
def insertIvhdEach (bus : UInt8) (tableData : Bytes) : List PciNode → Bytes
  | [] => tableData
  | dev :: devices => insertIvhdEach bus (insertIvhd bus tableData dev) devices

end

/-- `ivrs_host_bridges`: the entries of a host bridge, unless it goes around the
IOMMU. -/
def ivrsHostBridges (ivhdBlob : Bytes) (host : PciHostBridge) : Bytes :=
  if host.bypassIommu then ivhdBlob else insertIvhdEach host.num ivhdBlob host.devices

/-- What `build_amd_iommu` takes from the machine. -/
structure AmdIommu where
  oemId : Bytes
  oemTableId : Bytes
  /-- the property `addr` -/
  addr : ℤ
  capabOffset : UInt8
  mmioAddr : UInt64
  irSupported : Bool
  hosts : List PciHostBridge

/-- The requester number of the I/O interrupt controller. -/
def ioapicSbDevid : UInt64 := (pciBuildBdf 0 (pciDevfn 0x14 0)).toUInt64

/-- The blob of `build_amd_iommu`: what the walk finds, or one entry for all
devices. -/
def ivhdBlobOf (hosts : List PciHostBridge) : Bytes :=
  let ivhdBlob := hosts.foldl ivrsHostBridges []
  if ivhdBlob.length = 0 then buildAppendIntNoprefix ivhdBlob 0x0000001 4 else ivhdBlob

/-- `build_amd_iommu`: two blocks, of which the second tells more and holds the
same entries. -/
def buildAmdIommu (appname : Vector UInt8 8) (s : AmdIommu) (tableData : Bytes)
    (linker : List AddChecksum) : Checked (Bytes × List AddChecksum) := do
  let tableOffset := tableData.length
  let table : AcpiTable :=
    { sig := asBytes "IVRS", rev := 1, oemId := s.oemId, oemTableId := s.oemTableId }
  let tableData ← acpiTableBegin appname table tableData
  let tableData := buildAppendIntNoprefix tableData ((40 : UInt64) <<< 8) 4
  let tableData := buildAppendIntNoprefix tableData 0 8
  let tableData := buildAppendIntNoprefix tableData 0x10 1
  let tableData := buildAppendIntNoprefix tableData
    (((1 : UInt64) <<< 0) ||| ((1 : UInt64) <<< 4) ||| ((1 : UInt64) <<< 6) |||
      ((1 : UInt64) <<< 7)) 1
  let ivhdBlob := ivhdBlobOf s.hosts
  let ivhdTableLen := 24 + ivhdBlob.length
  let ivhdTableLen := if s.irSupported then ivhdTableLen + 8 else ivhdTableLen
  let tableData := buildAppendIntNoprefix tableData (UInt64.ofNat ivhdTableLen) 2
  let tableData := buildAppendIntNoprefix tableData (UInt64.ofInt s.addr) 2
  let tableData := buildAppendIntNoprefix tableData s.capabOffset.toUInt64 2
  let tableData := buildAppendIntNoprefix tableData s.mmioAddr 8
  let tableData := buildAppendIntNoprefix tableData 0 2
  let tableData := buildAppendIntNoprefix tableData 0 2
  let tableData := buildAppendIntNoprefix tableData
    (((48 : UInt64) <<< 30) ||| ((48 : UInt64) <<< 28) ||| ((1 : UInt64) <<< 2) |||
      ((1 : UInt64) <<< 6)) 4
  let tableData := tableData ++ ivhdBlob
  let tableData :=
    if s.irSupported then
      buildAppendIntNoprefix tableData
        (((0x1 : UInt64) <<< 56) ||| (ioapicSbDevid <<< 40) ||| 0x48) 8
    else tableData
  return acpiTableEnd linker tableOffset tableData

/-! ## The reader -/

/-- An entry of the device list. -/
inductive IvhdEntry where
  | all
  | select (id : ℕ)
  | rangeStart (id : ℕ)
  | rangeEnd (id : ℕ)
  | aliasRangeStart (id source : ℕ)
  /-- a device that is no PCI device, with its number -/
  | special (source : ℕ)
  deriving DecidableEq

/-- Numbers from the first to the last, and the number of their requests where
it is another. -/
structure DeviceRange where
  first : ℕ
  last : ℕ
  source : Option ℕ
  deriving DecidableEq

/-- The two upper bits of its type say how long an entry is. -/
def ivhdSize : Bytes → Option ℕ
  | type :: _ => some (4 * 2 ^ (type.toNat / 64))
  | [] => none

/-- The reader of an entry, by the fields of its type. -/
def readIvhdEntry (s : Bytes) : Option IvhdEntry :=
  match readFields [1, 2] s with
  | [0x01, _] => some .all
  | [0x02, id] => some (.select id)
  | [0x03, id] => some (.rangeStart id)
  | [0x04, id] => some (.rangeEnd id)
  | [0x43, id] => some (.aliasRangeStart id (leValue (slice s 5 2)))
  | [0x48, _] => some (.special (leValue (slice s 5 2)))
  | _ => none

/-- A range is ended by the entry behind the one that starts it. -/
def deviceRanges : List IvhdEntry → Option (List DeviceRange)
  | [] => some []
  | .all :: rest => (⟨0, 65535, none⟩ :: ·) <$> deviceRanges rest
  | .select id :: rest => (⟨id, id, none⟩ :: ·) <$> deviceRanges rest
  | .rangeStart first :: .rangeEnd last :: rest =>
    (⟨first, last, none⟩ :: ·) <$> deviceRanges rest
  | .aliasRangeStart first source :: .rangeEnd last :: rest =>
    (⟨first, last, some source⟩ :: ·) <$> deviceRanges rest
  | .special _ :: rest => deviceRanges rest
  | _ => none

/-- The device list of the block at byte 12 of the body, which has 24 bytes in
front of it. -/
def ivrsRanges (body : Bytes) : Option (List DeviceRange) := do
  let devices := slice body 36 (leValue (slice body 14 2) - 24)
  let records ← walk ivhdSize devices.length devices
  let entries ← records.mapM readIvhdEntry
  deviceRanges entries

end AcpiTables.AmlBuild
