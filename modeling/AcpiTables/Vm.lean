import AcpiTables.Config
import AcpiTables.QemuAddr
import Mathlib.Data.List.Infix
import Mathlib.Data.List.Sort

/-!
# Descriptions of virtual machines

`VmConfig` is the contents of the TOML file that a virtual machine is described
by. The same description goes two ways: `VmConfig.platformConfig` is the platform
that the tables are built for, `VmConfig.qemuArgs` the command line that the
machine is started with.

Properties of the machine and of devices are TOML values of any type, in a map
with increasing keys. Of a float only the displayed text matters; nothing looks
into dates, arrays and tables.
-/

namespace AcpiTables

open MachineInt

/-- `ends_with`. -/
def endsWith (text suffix : String) : Bool := decide (suffix.toList <:+ text.toList)

/-- `contains`. -/
def containsText (text part : String) : Bool := decide (part.toList <:+: text.toList)

namespace Vm

/-! ## Values -/

/-- A float, by the text it is displayed as: a sign, digits with a fraction,
`NaN` or `inf`. -/
structure TomlFloat where
  text : String
  numeral : ∀ c ∈ text.toList, c ∈ "-.0123456789NaNinf".toList

/-- A value of the description. Of dates, arrays and tables nothing is kept, since
nothing looks into them. -/
inductive TomlValue where
  | string (value : String)
  | integer (value : Int64)
  | float (value : TomlFloat)
  | boolean (value : Bool)
  | datetime
  | array
  | table

/-- A map from names to values, in the order of the names. -/
structure TomlMap where
  entries : List (String × TomlValue)
  increasing : entries.Pairwise fun entry entry' => entry.1 < entry'.1

namespace TomlMap

/-- The map without entries. -/
def empty : TomlMap := ⟨[], .nil⟩

/-- The value of a name, if it has one. -/
def get (values : TomlMap) (key : String) : Option TomlValue := values.entries.lookup key

/-- A value that is a text. -/
def string (values : TomlMap) (key : String) : Option String :=
  match values.get key with
  | some (.string value) => some value
  | _ => none

/-- A value that is a boolean. -/
def bool (values : TomlMap) (key : String) : Option Bool :=
  match values.get key with
  | some (.boolean value) => some value
  | _ => none

end TomlMap

/-- The text of a value on the command line. -/
def TomlValue.rendered : TomlValue → Option String
  | .boolean value => some (if value then "on" else "off")
  | .string value => some value
  | .integer value => some (toString value.toInt)
  | .float value => some value.text
  | _ => none

/-- The names and texts of the values that are put on the command line. -/
def TomlMap.renderedPairs (values : TomlMap) : List (String × String) :=
  values.entries.filterMap fun (key, value) => value.rendered.map fun rendered => (key, rendered)

/-- `format!("{key}={rendered}")`. -/
def pairText (pair : String × String) : String := pair.1 ++ "=" ++ pair.2

/-! ## The machine -/

/-- What the description says of the machine: a map from names to values. -/
structure MachineProperties where
  values : TomlMap

namespace MachineProperties

/-- A boolean property of the machine. A value of another type counts as none. -/
def bool (properties : MachineProperties) (key : String) : Option Bool := properties.values.bool key

/-- A text property of the machine. A value of another type counts as none. -/
def string (properties : MachineProperties) (key : String) : Option String :=
  properties.values.string key

/-- The kind of TPM that the machine's property asks for. Other texts count as
none. -/
def tpmKind (properties : MachineProperties) : Option TpmKind := do
  let text ← properties.string "tpm"
  if text ∈ ["1.2", "tcpa", "tpm12"] then some .tcpa
  else if text ∈ ["2.0", "tpm2"] then some .tpm2
  else none

/-- The kind of IOMMU that the machine's property asks for. Other texts count as
none. -/
def iommuKind (properties : MachineProperties) : Option IommuKind := do
  let text ← properties.string "iommu"
  if text ∈ ["intel", "dmar"] then some .dmar
  else if text ∈ ["amd", "ivrs"] then some .ivrs
  else if text ∈ ["virtio", "viot"] then some .viot
  else none

/-- The properties as they stand behind the machine's type on the command line. -/
def toQemuPairs (properties : MachineProperties) : List String :=
  properties.values.renderedPairs.map pairText

end MachineProperties

/-! ## Devices -/

/-- A device: the driver that emulates it and its properties. -/
structure Device where
  driver : String
  props : TomlMap

/-- The devfn of the device at a position among the PCI devices. -/
def defaultDevfn (index : ℕ) : Checked UInt8 := do
  return (← checkedAdd (UInt8.ofNat index) 1) <<< 3

namespace Device

/-- A text property of a device. A value of another type counts as none. -/
def stringProp (device : Device) (key : String) : Option String := device.props.string key

/-- The devfn of the device's address, if it has an address and this can be parsed. -/
def devfn (device : Device) : Option UInt8 := do
  match ← device.props.get "addr" with
  | .string addr => parseQemuAddr addr
  | _ => none

/-- The kind of TPM that the driver emulates. -/
def tpmKind (device : Device) : Option TpmKind :=
  if containsText device.driver "tpm-tis" || containsText device.driver "tpm-spapr" then some .tcpa
  else if containsText device.driver "tpm-crb" then some .tpm2
  else none

/-- The kind of IOMMU that the driver emulates. -/
def iommuKind (device : Device) : Option IommuKind :=
  if device.driver = "intel-iommu" then some .dmar
  else if device.driver = "amd-iommu" then some .ivrs
  else if device.driver = "virtio-iommu-pci" then some .viot
  else none

/-- The driver emulates non-volatile memory. -/
def isNvdimm (device : Device) : Bool := containsText device.driver "nvdimm"

/-- The driver emulates a CXL device. -/
def isCxl (device : Device) : Bool := containsText device.driver "cxl"

/-- The driver emulates a generation counter. -/
def isVmgenid (device : Device) : Bool := containsText device.driver "vmgenid"

/-- The device is counted as a PCI device. -/
def isPci (device : Device) : Bool := endsWith device.driver "-pci"

/-- What the tables describe of a PCI device. The default is computed whether or
not it is used. -/
def pciDeviceConfig (device : Device) (index : ℕ) : Checked PciDeviceConfig := do
  let default ← defaultDevfn index
  return {
    driver := device.driver
    id := device.stringProp "id"
    bus := device.stringProp "bus"
    devfn := device.devfn.getD default }

/-- The value of the device's option on the command line. -/
def toQemuValue (device : Device) : String :=
  ",".intercalate (device.driver :: device.props.renderedPairs.map pairText)

end Device

/-! ## The description -/

/-- The platform: the machine's type, its firmware, its accelerator, and whether
the default devices are left out. -/
structure PlatformSection where
  machine : String
  bios : String
  accel : String
  nodefaults : Bool

/-- How many CPUs there are. -/
structure CpuTopology where
  cpus : UInt32

/-- The model of the CPUs and their number. -/
structure CpuSection where
  model : String
  topology : CpuTopology

/-- The size of the memory, as the command line takes it. -/
structure MemorySection where
  size : String

/-- The section of the machine's properties. -/
structure MachineSection where
  properties : MachineProperties

/-- The devices that a machine has by default, each switched on or off. -/
structure DefaultDevices where
  serial : Bool
  parallel : Bool
  monitor : Bool
  vga : Bool
  floppy : Bool
  cdrom : Bool

/-- The serial port goes to the terminal when the default one is switched off. -/
def DefaultDevices.serialBackend (defaults : DefaultDevices) : Bool := !defaults.serial

/-- A network backend: its id and its kind. -/
structure Netdev where
  id : String
  kind : String

/-- The value of the backend's option on the command line. -/
def Netdev.toQemuValue (netdev : Netdev) : String := netdev.kind ++ ",id=" ++ netdev.id

/-- The contents of the description. -/
structure VmConfig where
  platform : PlatformSection
  cpu : CpuSection
  memory : MemorySection
  machine : MachineSection
  defaults : DefaultDevices
  netdevs : List Netdev
  devices : List Device

namespace VmConfig

variable (vm : VmConfig)

/-- The devices that are counted as PCI devices. -/
def pciDevices : List Device := vm.devices.filter Device.isPci

/-- The platform before its PCI devices are set. -/
def basePlatform : PlatformConfig :=
  let properties := vm.machine.properties
  let hasNuma := (properties.bool "numa").getD false
  { PlatformConfig.intelTdxQ35 vm.cpu.topology.cpus with
    hasHpet := (properties.bool "hpet").getD false
    hasVmgenid := vm.devices.any Device.isVmgenid
    hasMcfg := (properties.bool "mcfg").getD true
    hasNuma := hasNuma
    hasSlit := (properties.bool "slit").getD hasNuma
    hasHmat := (properties.bool "hmat").getD false
    tpmKind := properties.tpmKind.or (vm.devices.findSome? Device.tpmKind)
    iommuKind := properties.iommuKind.or (vm.devices.findSome? Device.iommuKind)
    nvdimmEnabled := (properties.bool "nvdimm").getD (vm.devices.any Device.isNvdimm)
    cxlEnabled := (properties.bool "cxl").getD (vm.devices.any Device.isCxl) }

/-- The platform that the tables are built for. The sort by devfn is stable. -/
def platformConfig : Checked PlatformConfig := do
  let pciDevices ← vm.pciDevices.zipIdx.mapM fun (device, index) => device.pciDeviceConfig index
  let sorted := pciDevices.insertionSort fun device device' => device.devfn ≤ device'.devfn
  return { vm.basePlatform with pciDevices := sorted }

/-- The value of the machine's option: its type and its properties. -/
def machineArg : String :=
  ",".intercalate (vm.platform.machine :: vm.machine.properties.toQemuPairs)

/-- No default device needs a window. -/
def headless : Bool :=
  !vm.defaults.vga && !vm.defaults.monitor && !vm.defaults.parallel && !vm.defaults.floppy &&
    !vm.defaults.cdrom

/-- The command line, in the order in which the options are put there. -/
def qemuArgs : List String :=
  ["-accel", vm.platform.accel] ++ ["-m", vm.memory.size] ++
  ["-smp", toString vm.cpu.topology.cpus.toNat] ++ ["-cpu", vm.cpu.model] ++
  ["-machine", vm.machineArg] ++ ["-bios", vm.platform.bios] ++
  (if vm.headless then ["-nographic"] else []) ++
  (if vm.platform.nodefaults then ["-nodefaults"] else []) ++
  (if vm.defaults.serialBackend then ["-serial", "stdio"] else []) ++
  vm.netdevs.flatMap (fun netdev => ["-netdev", netdev.toQemuValue]) ++
  vm.devices.flatMap fun device => ["-device", device.toQemuValue]

/-- A machine with the given properties and devices. -/
def q35 (properties : TomlMap) (devices : List Device) : VmConfig where
  platform := ⟨"q35", "/usr/share/ovmf/OVMF.fd", "kvm", true⟩
  cpu := ⟨"host", ⟨16⟩⟩
  memory := ⟨"2G"⟩
  machine := ⟨⟨properties⟩⟩
  defaults := ⟨false, false, false, false, false, false⟩
  netdevs := [⟨"net0", "user"⟩]
  devices := devices

/-- A network device without an address, and a disk in the first slot. -/
def netAndDisk : VmConfig :=
  q35 ⟨[("hpet", .boolean false), ("smm", .boolean false)], by decide⟩
    [⟨"virtio-net-pci", ⟨[("netdev", .string "net0")], by decide⟩⟩,
      ⟨"virtio-blk-pci", ⟨[("addr", .string "0x01")], by decide⟩⟩]

example : netAndDisk.qemuArgs = ["-accel", "kvm", "-m", "2G", "-smp", "16", "-cpu", "host",
    "-machine", "q35,hpet=off,smm=off", "-bios", "/usr/share/ovmf/OVMF.fd", "-nographic",
    "-nodefaults", "-serial", "stdio", "-netdev", "user,id=net0",
    "-device", "virtio-net-pci,netdev=net0", "-device", "virtio-blk-pci,addr=0x01"] := by
  decide +kernel

end VmConfig

end Vm

end AcpiTables
