import AcpiTables.Checked

/-!
# Platform configurations

`PlatformConfig` is everything the table builders read. Two of its methods give
the lengths that the DSDT and the MADT are padded to when `compatLengths` is
set; both are sums of 32-bit integers and can overflow. `intelTdxQ35` is the
configuration that the source builds for a number of CPUs, and `twoDisks` a small
one that uses most of the features.
-/

namespace AcpiTables

open MachineInt

inductive TpmKind where
  | tcpa | tpm2
  deriving DecidableEq

inductive IommuKind where
  | dmar | ivrs | viot
  deriving DecidableEq

structure PciDeviceConfig where
  driver : String
  id : Option String
  bus : Option String
  devfn : UInt8
  deriving DecidableEq

/-- A device without a bus is on the root bus. -/
def PciDeviceConfig.isRootBusDevice (device : PciDeviceConfig) : Bool :=
  match device.bus with
  | some bus => bus == "pcie.0"
  | none => true

structure PlatformConfig where
  blobBaseAddress : UInt64
  frontPadding : UInt32
  oemId : Vector UInt8 6
  oemTableId : Vector UInt8 8
  oemRevision : UInt32
  creatorId : Vector UInt8 4
  creatorRevision : UInt32
  sciIrq : UInt16
  pmIoBase : UInt16
  gpe0Base : UInt16
  gpe0Len : UInt8
  resetIoBase : UInt16
  resetValue : UInt8
  localApicAddress : UInt32
  ioapicId : UInt8
  ioapicAddress : UInt32
  ioapicGsiBase : UInt32
  pciIrqBase : UInt32
  hasHpet : Bool
  hasMcfg : Bool
  tpmKind : Option TpmKind
  hasNuma : Bool
  hasSlit : Bool
  hasHmat : Bool
  hasVmgenid : Bool
  iommuKind : Option IommuKind
  nvdimmEnabled : Bool
  cxlEnabled : Bool
  pciEcamBase : UInt64
  pciSegment : UInt16
  pciBusStart : UInt8
  pciBusEnd : UInt8
  cpuApicIds : List UInt32
  pciRootUid : UInt8
  pciDevices : List PciDeviceConfig
  compatLengths : Bool

namespace PlatformConfig

def intelTdxQ35 (cpuCount : UInt32) : PlatformConfig where
  blobBaseAddress := 0
  frontPadding := 0
  oemId := bstr "TDXOEM"
  oemTableId := bstr "TDXQ35  "
  oemRevision := 1
  creatorId := bstr "BXPC"
  creatorRevision := 1
  sciIrq := 9
  pmIoBase := 0x1800
  gpe0Base := 0xafe0
  gpe0Len := 8
  resetIoBase := 0x0cf9
  resetValue := 0x06
  localApicAddress := 0xfee00000
  ioapicId := 0
  ioapicAddress := 0xfec00000
  ioapicGsiBase := 0
  pciIrqBase := 16
  hasHpet := false
  hasMcfg := true
  tpmKind := none
  hasNuma := false
  hasSlit := false
  hasHmat := false
  hasVmgenid := false
  iommuKind := none
  nvdimmEnabled := false
  cxlEnabled := false
  pciEcamBase := 0xb0000000
  pciSegment := 0
  pciBusStart := 0
  pciBusEnd := 0xff
  cpuApicIds := (List.range cpuCount.toNat).map UInt32.ofNat
  pciRootUid := 0
  pciDevices := []
  compatLengths := true

/-- Two CPUs, an HPET, a disk on the root bus and one behind a root port. -/
def twoDisks : PlatformConfig :=
  { intelTdxQ35 2 with
    hasHpet := true
    pciDevices := [⟨"virtio-blk-pci", some "disk0", none, 0x10⟩,
      ⟨"virtio-blk-pci", some "disk1", some "rp0", 0x18⟩] }

/-- The length without CPUs, by the number of CPUs. -/
def dsdtBaseLen (cpus : UInt32) : UInt32 :=
  if cpus = 1 then 8031
  else if cpus = 2 then 8028
  else if 3 ≤ cpus ∧ cpus ≤ 16 then 8029
  else 8031

def targetDsdtLen (config : PlatformConfig) : Checked (Option UInt32) := do
  if !config.compatLengths then return none
  let cpus := UInt32.ofNat config.cpuApicIds.length
  let hpetDelta : UInt32 := if config.hasHpet then 142 else 0
  let pciDelta ← checkedMul 17 (UInt32.ofNat config.pciDevices.length)
  let len ← checkedAdd (dsdtBaseLen cpus) (← checkedMul 86 cpus)
  let len ← checkedAdd len hpetDelta
  let len ← checkedAdd len pciDelta
  return some len

/-- The sum is computed whether or not it is asked for. -/
def targetMadtLen (config : PlatformConfig) : Checked (Option UInt32) := do
  let len ← checkedAdd 222 (← checkedMul 8 (UInt32.ofNat config.cpuApicIds.length))
  return if config.compatLengths then some len else none

end PlatformConfig

end AcpiTables
