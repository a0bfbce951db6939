import AcpiTables.Encoding
import AcpiTables.Header

/-!
# The DSDT

The differentiated system description table, as it is assembled: bytes are
appended to vectors, devices and scopes are closed with `Device.raw` and
`Scope.raw`, and the routing tables are filled through a `PackageBuilder`.

With `compatLengths` the body is padded to a given length by a `QPAD` buffer.
Its size is searched for, since a buffer's own encoding grows with its content:
first by bisection (`searchPadding`), then by adding what is missing
(`growPadding`, whose loop is given fuel).
-/

namespace AcpiTables

open MachineInt

/-- `append_aml`. -/
def appendAml (value : DynAml) (out : Bytes) : Checked Bytes := toAmlBytes value out

/-- `if let Some(text) = value`, `append_aml` of the name with
`AmlString::from(text)`. -/
def appendTextIfSome (name : String) (value : Option String) (out : Bytes) : Checked Bytes :=
  match value with
  | some text => do appendAml (dyn (← Name.new (← Path.new name) (dyn text))) out
  | none => .ok out

/-! ## Names of devices -/

/-- An upper-case hexadecimal digit. -/
def hexDigit (n : ℕ) : Char := if n < 10 then Char.ofNat (48 + n) else Char.ofNat (55 + n)

/-- `format!("S{:02X}_", devfn)`. -/
def pciDeviceName (devfn : UInt8) : String :=
  String.ofList ['S', hexDigit (devfn.toNat / 16), hexDigit (devfn.toNat % 16), '_']

/-- `format!("C{uid:03}")`. -/
def cpuDeviceName (uid : ℕ) : String :=
  let digits := Nat.toDigits 10 uid
  String.ofList ('C' :: (List.replicate (3 - digits.length) '0' ++ digits))

/-! ## PCI devices -/

/-- `pci_adr`: the slot in the upper half, the function in the lower one. -/
def pciAdr (devfn : UInt8) : UInt32 :=
  let slot := (devfn >>> 3).toUInt32
  let func := (devfn &&& 0x07).toUInt32
  (slot <<< 16) ||| func

/-- The address tells the slot and the function of every devfn. -/
theorem toNat_pciAdr (devfn : UInt8) :
    (pciAdr devfn).toNat = devfn.toNat / 8 * 65536 + devfn.toNat % 8 := by
  have hfunc : (devfn &&& 0x07).toUInt32.toNat = devfn.toNat % 8 :=
    Nat.and_two_pow_sub_one_eq_mod devfn.toNat 3
  have hlt := devfn.toNat_lt
  have hslot : ((devfn >>> 3).toUInt32 <<< 16).toNat = 2 ^ 16 * (devfn.toNat / 8) := by
    rw [UInt32.toNat_shiftLeft]
    change (devfn.toNat >>> 3) <<< 16 % 4294967296 = _
    rw [Nat.shiftLeft_eq, Nat.shiftRight_eq_div_pow]
    omega
  rw [pciAdr]
  change (((devfn >>> 3).toUInt32 <<< 16) ||| (devfn &&& 0x07).toUInt32).toNat = _
  rw [UInt32.toNat_or, hslot, hfunc, ← Nat.two_pow_add_eq_or_of_lt (by omega), Nat.mul_comm]

/-- `pci_device_description`: a text for the four drivers that are known. -/
def pciDeviceDescription (driver : String) : Option String :=
  if driver = "virtio-net-pci" then some "Virtio Network Device"
  else if driver = "virtio-blk-pci" then some "Virtio Block Device"
  else if driver = "virtio-scsi-pci" then some "Virtio SCSI Controller"
  else if driver = "virtio-balloon-pci" then some "Virtio Balloon Device"
  else none

/-- The class of a device, by its driver. -/
def pciDeviceClass (driver : String) : Option String :=
  if driver = "virtio-net-pci" then some "net"
  else if driver = "virtio-blk-pci" then some "block"
  else if driver = "virtio-scsi-pci" then some "storage"
  else if driver = "virtio-balloon-pci" then some "memory"
  else none

/-- `append_device_specific_objects`: the class, if the driver is known. -/
def appendDeviceSpecificObjects (children : Bytes) (device : PciDeviceConfig) : Checked Bytes :=
  appendTextIfSome "CLSS" (pciDeviceClass device.driver) children

/-- `build_pci_device_bytes`: the address, the status, the slot twice, and the
texts that there are. -/
def buildPciDeviceBytes (device : PciDeviceConfig) : Checked Bytes := do
  let children : Bytes := []
  let slot := (device.devfn >>> 3).toUInt64
  let children ← appendAml
    (dyn (← Name.new (← Path.new "_ADR") (dyn (pciAdr device.devfn).toUInt64))) children
  let children ← appendAml (dyn (← Name.new (← Path.new "_STA") (dyn (0x0f : UInt8)))) children
  let children ← appendAml (dyn (← Name.new (← Path.new "_SUN") (dyn slot))) children
  let children ← appendAml (dyn (← Name.new (← Path.new "_UID") (dyn slot))) children
  let children ← appendTextIfSome "_DDN" device.id children
  let children ← appendTextIfSome "_STR" (pciDeviceDescription device.driver) children
  let children ← appendDeviceSpecificObjects children device
  Device.raw (← Path.new (pciDeviceName device.devfn)) children

/-- `build_pci0_device_bytes`: the host bridge, with the devices of the root bus as
its last children. -/
def buildPci0DeviceBytes (config : PlatformConfig) : Checked Bytes := do
  let children : Bytes := []
  let children ← appendAml
    (dyn (← Name.new (← Path.new "_HID") (dyn (← EISAName.new "PNP0A08")))) children
  let children ← appendAml
    (dyn (← Name.new (← Path.new "_CID") (dyn (← EISAName.new "PNP0A03")))) children
  let children ← appendAml
    (dyn (← Name.new (← Path.new "_UID") (dyn config.pciRootUid.toUInt64))) children
  let oscRet : OnObject .return_ := { a := dyn (Arg.mk 3) }
  let osc := Method.new (← Path.new "_OSC") 4 false [dyn oscRet]
  let children ← appendAml (dyn osc) children
  let children ← (config.pciDevices.filter PciDeviceConfig.isRootBusDevice).foldlM
    (fun children device => return children ++ (← buildPciDeviceBytes device)) children
  Device.raw (← Path.new "PCI0") children

/-! ## CPUs and the HPET -/

/-- The bytes of `_MAT`, in the order they are pushed. -/
def cpuMat (apicId uid : UInt32) : Bytes :=
  [9, 16] ++ [0, 0] ++ toLeBytes uid ++ toLeBytes apicId ++ toLeBytes (1 : UInt32)

/-- One round of `build_cpu_device_bytes`: a processor, with its structure for the
interrupt controller in `_MAT`. -/
def buildCpuDevice (uid : ℕ) (apicId : UInt32) : Checked Bytes := do
  let children : Bytes := []
  let children ← appendAml (dyn (← Name.new (← Path.new "_HID") (dyn "ACPI0007"))) children
  let children ← appendAml (dyn (← Name.new (← Path.new "_UID") (dyn (UInt64.ofNat uid)))) children
  let children ← appendAml (dyn (← Name.new (← Path.new "_STA") (dyn (0x0f : UInt8)))) children
  let children ← appendAml
    (dyn (← Name.new (← Path.new "_MAT") (dyn (BufferData.mk (cpuMat apicId (UInt32.ofNat uid))))))
    children
  Device.raw (← Path.new (cpuDeviceName uid)) children

/-- `build_cpu_device_bytes`: the processors are numbered as they are listed. -/
def buildCpuDeviceBytes (config : PlatformConfig) : Checked (List Bytes) :=
  config.cpuApicIds.zipIdx.mapM fun (apicId, uid) => buildCpuDevice uid apicId

/-- `hpet_resource_template`: a range of memory and an end tag, byte by byte. -/
def hpetResourceTemplate : Bytes :=
  [0x86] ++ toLeBytes (0x0009 : UInt16) ++ [0] ++ toLeBytes (0xfed00000 : UInt32) ++
    toLeBytes (0x00000400 : UInt32) ++ [0x79] ++ [0x00]

/-- `build_hpet_device_bytes`. -/
def buildHpetDeviceBytes : Checked Bytes := do
  let children : Bytes := []
  let children ← appendAml
    (dyn (← Name.new (← Path.new "_HID") (dyn (← EISAName.new "PNP0103")))) children
  let children ← appendAml (dyn (← Name.new (← Path.new "_UID") (dyn ZeroObject.zero))) children
  let children ← appendAml (dyn (← Name.new (← Path.new "_STA") (dyn (0x0f : UInt8)))) children
  let children ← appendAml
    (dyn (← Name.new (← Path.new "_CRS") (dyn (BufferData.mk hpetResourceTemplate)))) children
  Device.raw (← Path.new "HPET") children

/-- `build_root_scope_bytes`: the host bridge, the processors and the event timer,
in this order. -/
def buildRootScopeBytes (config : PlatformConfig) : Checked Bytes := do
  let sbBytes ← buildPci0DeviceBytes config
  let sbBytes :=
    (← buildCpuDeviceBytes config).foldl (fun bytes cpuBytes => bytes ++ cpuBytes) sbBytes
  let sbBytes ← if config.hasHpet then (sbBytes ++ ·) <$> buildHpetDeviceBytes else pure sbBytes
  Scope.raw (← Path.new "\\_SB_") sbBytes

/-! ## Interrupt routing -/

/-- `name.as_bytes()[3]`. -/
def lastByte (name : String) : Checked UInt8 :=
  match (asBytes name)[3]? with
  | some b => .ok b
  | none => .error .outOfRange

/-- The state of the loop over the pins: the package, the name and `head`. -/
structure PrtState where
  pkg : PackageBuilder
  name : String
  head : UInt8

/-- One pin of a slot. -/
def appendQ35PrtPin (slot : UInt32) (base : UInt8) (state : PrtState) (pin : UInt8) :
    Checked PrtState := do
  let head := if 3 < (← checkedAdd state.head pin) then 0 - pin else state.head
  let suffix := Char.ofNat (← checkedAdd (← checkedAdd base head) pin).toNat
  let name := String.ofList (state.name.toList.take 3 ++ suffix :: state.name.toList.drop 4)
  let adr := (slot <<< 16) ||| 0xffff
  let link ← Path.new name
  let entry := Package.mk [dyn adr, dyn pin, dyn link, dyn ZeroObject.zero]
  return { pkg := ← state.pkg.addElement (dyn entry), name, head }

/-- `append_q35_prt_entry`: the four pins of a slot. The last letter of the name
says which links it uses and where they start. -/
def appendQ35PrtEntry (pkg : PackageBuilder) (slot : UInt32) (name : String) :
    Checked PackageBuilder := do
  let base : UInt8 := if (← lastByte name) < 0x45 then 0x41 else 0x45
  let head ← checkedSub (← lastByte name) base
  let state ← [0, 1, 2, 3].foldlM (appendQ35PrtPin slot base) { pkg, name, head }
  return state.pkg

/-- The slots of the routing table and the letter their link names start from. -/
def q35Slots : List (UInt32 × String) :=
  (List.range 0x18).map (fun slot => (UInt32.ofNat slot, "E")) ++ [(0x18, "E")] ++
    (List.range' 0x19 5).map (fun slot => (UInt32.ofNat slot, "A")) ++ [(0x1e, "E"), (0x1f, "A")]

/-- `build_q35_routing_table`: the slots of the root bus, one after the other. -/
def buildQ35RoutingTable (linkPrefix : String) : Checked PackageBuilder :=
  q35Slots.foldlM (fun pkg (slot, letter) => appendQ35PrtEntry pkg slot (linkPrefix ++ letter))
    PackageBuilder.new

/-- `build_link_device_bytes`: a link device, which offers the interrupts 5, 10 and
11. -/
def buildLinkDeviceBytes (name : String) (uid : UInt8) : Checked Bytes := do
  let irq5 := Interrupt.new true false false true 5
  let irq10 := Interrupt.new true false false true 10
  let irq11 := Interrupt.new true false false true 11
  let prs := ResourceTemplate.mk [dyn irq5, dyn irq10, dyn irq11]
  let hid ← Name.new (← Path.new "_HID") (dyn (← EISAName.new "PNP0C0F"))
  let uidName ← Name.new (← Path.new "_UID") (dyn uid)
  let prsName ← Name.new (← Path.new "_PRS") (dyn prs)
  let staRet : OnObject .return_ := { a := dyn (0x0b : UInt8) }
  let sta := Method.new (← Path.new "_STA") 0 false [dyn staRet]
  let crsRet : OnObject .return_ := { a := dyn (← Path.new "_PRS") }
  let crs := Method.new (← Path.new "_CRS") 0 false [dyn crsRet]
  let dis := Method.new (← Path.new "_DIS") 0 false []
  let srs := Method.new (← Path.new "_SRS") 1 false []
  let dev := Device.mk (← Path.new name)
    [dyn hid, dyn uidName, dyn prsName, dyn sta, dyn dis, dyn crs, dyn srs]
  appendAml (dyn dev) []

/-- `build_gsi_link_device_bytes`: a link device of one global interrupt. -/
def buildGsiLinkDeviceBytes (name : String) (uid : UInt8) (irq : UInt32) : Checked Bytes := do
  let irqRes := Interrupt.new true false false true irq
  let res := ResourceTemplate.mk [dyn irqRes]
  let hid ← Name.new (← Path.new "_HID") (dyn (← EISAName.new "PNP0C0F"))
  let uidName ← Name.new (← Path.new "_UID") (dyn uid)
  let prsName ← Name.new (← Path.new "_PRS") (dyn res)
  let crsName ← Name.new (← Path.new "_CRS") (dyn res)
  let dis := Method.new (← Path.new "_DIS") 0 false []
  let srs := Method.new (← Path.new "_SRS") 1 false []
  let dev := Device.mk (← Path.new name)
    [dyn hid, dyn uidName, dyn prsName, dyn crsName, dyn dis, dyn srs]
  appendAml (dyn dev) []

/-- The link devices: their names, their ids and the names of their interrupts. -/
def linkDevices : List (String × UInt8 × String) :=
  [("LNKA", 0, "PRQA"), ("LNKB", 1, "PRQB"), ("LNKC", 2, "PRQC"), ("LNKD", 3, "PRQD"),
    ("LNKE", 4, "PRQE"), ("LNKF", 5, "PRQF"), ("LNKG", 6, "PRQG"), ("LNKH", 7, "PRQH")]

/-- The link devices of global interrupts: their names, their ids and the
interrupts. -/
def gsiLinkDevices : List (String × UInt8 × UInt32) :=
  [("GSIA", 0x10, 0x10), ("GSIB", 0x11, 0x11), ("GSIC", 0x12, 0x12), ("GSID", 0x13, 0x13),
    ("GSIE", 0x14, 0x14), ("GSIF", 0x15, 0x15), ("GSIG", 0x16, 0x16), ("GSIH", 0x17, 0x17)]

/-- `build_q35_irq_routing_bytes`: the flag for the interrupt model and the method
that sets it, the two routing tables with the method that chooses, and the link
devices. -/
def buildQ35IrqRoutingBytes : Checked Bytes := do
  let out : Bytes := []
  let out ← appendAml (dyn (← Name.new (← Path.new "PICF") (dyn ZeroObject.zero))) out
  let picStore := Store.mk (dyn (← Path.new "PICF")) (dyn (Arg.mk 0))
  let picMethod := Method.new (← Path.new "_PIC") 1 false [dyn picStore]
  let out ← appendAml (dyn picMethod) out
  let prtp ← Name.new (← Path.new "PRTP") (dyn (← buildQ35RoutingTable "LNK"))
  let prta ← Name.new (← Path.new "PRTA") (dyn (← buildQ35RoutingTable "GSI"))
  let predicate : Compare .equal :=
    { left := dyn (← Path.new "PICF"), right := dyn ZeroObject.zero }
  let retPrtp : OnObject .return_ := { a := dyn (← Path.new "PRTP") }
  let retPrta : OnObject .return_ := { a := dyn (← Path.new "PRTA") }
  let ifCtx := If.mk (dyn predicate) [dyn retPrtp]
  let elseCtx := Else.mk [dyn retPrta]
  let prtMethod := Method.new (← Path.new "_PRT") 0 false [dyn ifCtx, dyn elseCtx]
  let pci0Scope := Scope.mk (← Path.new "\\_SB_.PCI0") [dyn prtp, dyn prta, dyn prtMethod]
  let out ← appendAml (dyn pci0Scope) out
  let sbBytes : Bytes := []
  let sbBytes ← linkDevices.foldlM (fun sbBytes (name, uid, irqName) => do
    let irq ← checkedAdd (0x10 : UInt8) uid
    let sbBytes ← appendAml (dyn (← Name.new (← Path.new irqName) (dyn irq))) sbBytes
    return sbBytes ++ (← buildLinkDeviceBytes name uid)) sbBytes
  let sbBytes ← gsiLinkDevices.foldlM (fun sbBytes (name, uid, irq) =>
    return sbBytes ++ (← buildGsiLinkDeviceBytes name uid irq)) sbBytes
  return out ++ (← Scope.raw (← Path.new "\\_SB_") sbBytes)

/-! ## The remaining objects -/

/-- `build_root_sleep_bytes`: the package of the sleep state S5. -/
def buildRootSleepBytes : Checked Bytes := do
  let s5Pkg := Package.mk
    [dyn ZeroObject.zero, dyn ZeroObject.zero, dyn ZeroObject.zero, dyn ZeroObject.zero]
  let s5 ← Name.new (← Path.new "_S5_") (dyn s5Pkg)
  appendAml (dyn s5) []

/-- `build_gpe_scope_bytes`. -/
def buildGpeScopeBytes : Checked Bytes := do
  let hid ← Name.new (← Path.new "_HID") (dyn "ACPI0006")
  let gpe := Scope.mk (← Path.new "_GPE") [dyn hid]
  appendAml (dyn gpe) []

/-- `encode_dsdt_body`: the parts of the body, and a buffer of zeros behind them
when there is padding. -/
def encodeDsdtBody (config : PlatformConfig) (padLen : ℕ) : Checked Bytes := do
  let body ← buildRootScopeBytes config
  let body := body ++ (← buildQ35IrqRoutingBytes)
  let body := body ++ (← buildRootSleepBytes)
  let body := body ++ (← buildGpeScopeBytes)
  if 0 < padLen then
    appendAml (dyn (← Name.new (← Path.new "QPAD") (dyn (BufferData.mk (List.replicate padLen 0)))))
      body
  else return body

/-! ## Padding -/

/-- How the bisection ends. -/
inductive PadSearch where
  /-- a body of the length asked for -/
  | found (candidate : Bytes)
  /-- the last upper bound and the last body that was too short -/
  | missed (high : ℕ) (best : Option Bytes)

section Padding

variable (encode : ℕ → Checked Bytes) (targetBodyLen : ℕ)

/-- The first loop of `encode_dsdt_with_padding`: bisection for a padding with which
the body has the length asked for. The body that was too short last is kept. -/
def searchPadding (low high : ℕ) (best : Option Bytes) : Checked PadSearch :=
  if _h : low ≤ high then do
    let mid := (low + high) / 2
    let candidate ← encode mid
    match compare candidate.length targetBodyLen with
    | .eq => return .found candidate
    | .lt => searchPadding (mid + 1) high (some candidate)
    | .gt =>
      if mid = 0 then return .missed high best
      match _hhigh : usizeSub mid 1 with
      | .ok high => searchPadding low high best
      | .error e => .error e
  else return .missed high best
termination_by high + 1 - low
decreasing_by
  · omega
  · have := usizeSub_eq_ok _hhigh
    omega

/-- The second loop: while the body is too short, add what is missing to the last
upper bound. -/
def growPadding (high : ℕ) : ℕ → Bytes → Checked Bytes
  | 0, _ => .error .outOfFuel
  | fuel + 1, candidate => do
    if candidate.length < targetBodyLen then
      let missing ← usizeSub targetBodyLen candidate.length
      let candidate ← encode (high + missing)
      if targetBodyLen < candidate.length then return candidate
      growPadding high fuel candidate
    else return candidate

end Padding

/-- `encode_dsdt_with_padding`: without a target, or when the body has reached it,
nothing is added. Otherwise the padding is searched, and when the search has
missed, it grows until the body is long enough. -/
def encodeDsdtWithPadding (config : PlatformConfig) : Checked Bytes := do
  let body ← encodeDsdtBody config 0
  match ← config.targetDsdtLen with
  | none => return body
  | some targetTotalLen =>
    let targetBodyLen := targetTotalLen.toNat - 36
    if targetBodyLen ≤ body.length then return body
    let high ← usizeSub targetBodyLen body.length
    match ← searchPadding (encodeDsdtBody config) targetBodyLen 0 high none with
    | .found candidate => return candidate
    | .missed high best =>
      let candidate ← match best with
        | some candidate => pure candidate
        | none => encodeDsdtBody config 0
      growPadding (encodeDsdtBody config) targetBodyLen high targetBodyLen candidate

/-- `build_dsdt`: the body under its header. -/
def buildDsdt (config : PlatformConfig) : Checked Bytes := do
  let header := config.header (bstr "DSDT") 1
  let body ← encodeDsdtWithPadding config
  return finalizeTable header body

end AcpiTables
