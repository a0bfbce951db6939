import AcpiTables.VmDevices

/-!
# The order of devices

The tables do not depend on the order in which a description lists its devices,
if the devices of the root bus have distinct addresses and no two devices ask for
different kinds of a TPM or of an IOMMU (`build_perm`). Positions only matter for
the defaults, which such a description uses for no device of the root bus; the
sort by devfn then leaves one order for these, whatever stands between them.

The switches are searches through the devices. Whether something is there does not
depend on the order (`any_perm`), and what is found first does not if there is only
one thing to find (`findSome?_perm`).
-/

namespace AcpiTables.Vm

/-! ## Searches -/

section Searches

variable {α β : Type} {xs ys : List α}

/-- Whether some element has a property does not depend on the order. -/
theorem any_perm (h : xs.Perm ys) (p : α → Bool) : xs.any p = ys.any p := by
  rw [Bool.eq_iff_iff, List.any_eq_true, List.any_eq_true]
  exact exists_congr fun x => and_congr_left fun _ => h.mem_iff

/-- A search finds the same, in whatever order, when there is only one value to
find. -/
theorem findSome?_perm {f : α → Option β} (h : xs.Perm ys)
    (hsame : ∀ x ∈ xs, ∀ y ∈ xs, ∀ b ∈ f x, ∀ c ∈ f y, b = c) :
    xs.findSome? f = ys.findSome? f := by
  cases hxs : xs.findSome? f with
  | none =>
    have hnone := List.findSome?_eq_none_iff.mp hxs
    exact (List.findSome?_eq_none_iff.mpr fun y hy => hnone y (h.mem_iff.mpr hy)).symm
  | some b =>
    obtain ⟨x, hx, hb⟩ := List.exists_of_findSome?_eq_some hxs
    cases hys : ys.findSome? f with
    | none =>
      have hnone := List.findSome?_eq_none_iff.mp hys x (h.mem_iff.mp hx)
      rw [hnone] at hb
      cases hb
    | some c =>
      obtain ⟨y, hy, hc⟩ := List.exists_of_findSome?_eq_some hys
      rw [hsame x hx y (h.mem_iff.mpr hy) b hb c hc]

end Searches

/-! ## Sorted devices -/

/-- A part of the devices with distinct devfns has one sorted order. -/
theorem filter_sortByDevfn_perm {p : PciDeviceConfig → Bool} {xs ys : List PciDeviceConfig}
    (h : (xs.filter p).Perm (ys.filter p))
    (hinj : ∀ x ∈ xs.filter p, ∀ y ∈ xs.filter p, x.devfn = y.devfn → x = y) :
    (sortByDevfn xs).filter p = (sortByDevfn ys).filter p := by
  have hxs : ((sortByDevfn xs).filter p).Perm (xs.filter p) := (sortByDevfn_perm xs).filter p
  have hys : ((sortByDevfn ys).filter p).Perm (ys.filter p) := (sortByDevfn_perm ys).filter p
  have hsorted : ∀ zs, ((sortByDevfn zs).filter p).Pairwise
      fun device device' => device.devfn ≤ device'.devfn := by
    intro zs
    have : Std.Total fun device device' : PciDeviceConfig => device.devfn ≤ device'.devfn :=
      ⟨fun device device' => UInt8.le_total ..⟩
    have : IsTrans PciDeviceConfig fun device device' => device.devfn ≤ device'.devfn :=
      ⟨fun _ _ _ => UInt8.le_trans⟩
    exact (List.pairwise_insertionSort _ zs).filter p
  refine List.Perm.eq_of_pairwise ?_ (hsorted xs) (hsorted ys) ((hxs.trans h).trans hys.symm)
  intro x y hx hy hxy hyx
  exact hinj x (hxs.mem_iff.mp hx) y (h.mem_iff.mpr (hys.mem_iff.mp hy)) (UInt8.le_antisymm hxy hyx)

/-! ## Descriptions -/

/-- The device is on the root bus. -/
def Device.isRootBus (device : Device) : Bool := (device.record 0).isRootBusDevice

/-- The PCI devices of the root bus. -/
def VmConfig.rootDevices (vm : VmConfig) : List Device := vm.pciDevices.filter Device.isRootBus

/-- The same description with other devices. -/
def VmConfig.withDevices (vm : VmConfig) (devices : List Device) : VmConfig :=
  { vm with devices := devices }

/-- Nothing in the description is decided by the order of its devices. -/
structure Unambiguous (vm : VmConfig) : Prop where
  /-- the devices of the root bus have addresses -/
  addressed : ∀ device ∈ vm.rootDevices, ∃ devfn, device.devfn = some devfn
  /-- these are different -/
  distinct : (vm.rootDevices.map Device.devfn).Nodup
  /-- devices that imply a TPM imply the same kind -/
  tpm : ∀ device ∈ vm.devices, ∀ device' ∈ vm.devices, ∀ kind ∈ device.tpmKind,
    ∀ kind' ∈ device'.tpmKind, kind = kind'
  /-- devices that imply an IOMMU imply the same kind -/
  iommu : ∀ device ∈ vm.devices, ∀ device' ∈ vm.devices, ∀ kind ∈ device.iommuKind,
    ∀ kind' ∈ device'.iommuKind, kind = kind'

/-- What is described of the devices of the root bus does not depend on their
positions. -/
theorem filter_records {devices : List Device} {configs : List PciDeviceConfig} {n : ℕ}
    (h : List.Forall₂ (fun (entry : Device × ℕ) config =>
      ∃ default, defaultDevfn entry.2 = .ok default ∧ config = entry.1.record default)
      (devices.zipIdx n) configs)
    (haddressed : ∀ device ∈ devices, device.isRootBus = true →
      ∃ devfn, device.devfn = some devfn) :
    configs.filter PciDeviceConfig.isRootBusDevice =
      (devices.filter Device.isRootBus).map fun device => device.record 0 := by
  induction devices generalizing n configs with
  | nil =>
    cases h
    rfl
  | cons device devices ih =>
    obtain ⟨hdevice, hdevices⟩ := List.forall_mem_cons.mp haddressed
    rw [List.zipIdx_cons] at h
    cases h with
    | cons hfirst hrest =>
      obtain ⟨default, -, rfl⟩ := hfirst
      have hbus : (device.record default).isRootBusDevice = device.isRootBus := rfl
      cases hroot : device.isRootBus with
      | false =>
        rw [List.filter_cons_of_neg (by rw [hbus, hroot]; decide),
          List.filter_cons_of_neg (by rw [hroot]; decide), ih hrest hdevices]
      | true =>
        obtain ⟨devfn, hdevfn⟩ := hdevice hroot
        have hrecord : device.record default = device.record 0 := by
          rw [Device.record, Device.record, hdevfn]
          rfl
        rw [List.filter_cons_of_pos (by rw [hbus, hroot]), List.filter_cons_of_pos hroot,
          ih hrest hdevices, List.map_cons]
        exact congrArg (· :: _) hrecord

section Permuted

variable {vm : VmConfig} {devices : List Device}

/-- Devices of the root bus are told apart by their devfns. -/
theorem rootRecords_inj (hvm : Unambiguous vm) :
    ∀ x ∈ vm.rootDevices.map fun device => device.record 0,
      ∀ y ∈ vm.rootDevices.map fun device => device.record 0, x.devfn = y.devfn → x = y := by
  intro x hx y hy heq
  obtain ⟨device, hdevice, rfl⟩ := List.mem_map.mp hx
  obtain ⟨device', hdevice', rfl⟩ := List.mem_map.mp hy
  obtain ⟨devfn, hdevfn⟩ := hvm.addressed device hdevice
  obtain ⟨devfn', hdevfn'⟩ := hvm.addressed device' hdevice'
  have hsame : device.devfn = device'.devfn := by
    rw [Device.record, Device.record, hdevfn, hdevfn'] at heq
    rw [hdevfn, hdevfn']
    exact congrArg some heq
  rw [List.inj_on_of_nodup_map hvm.distinct hdevice hdevice' hsame]

/-- The platform without its devices does not depend on their order, when the
description is unambiguous. -/
theorem basePlatform_perm (hvm : Unambiguous vm) (h : vm.devices.Perm devices) :
    (vm.withDevices devices).basePlatform = vm.basePlatform := by
  unfold VmConfig.basePlatform VmConfig.withDevices
  dsimp only
  rw [any_perm h Device.isVmgenid, any_perm h Device.isNvdimm, any_perm h Device.isCxl,
    findSome?_perm h hvm.tpm, findSome?_perm h hvm.iommu]

/-- **The order of the devices does not matter**, when nothing is decided by it: any
permutation gives the same result, be it an error or a build, and then the blob,
the RSDP and the layout are the same. -/
theorem build_perm (hvm : Unambiguous vm) (h : vm.devices.Perm devices) :
    ((vm.withDevices devices).platformConfig >>= buildMinimalAcpi) =
      (vm.platformConfig >>= buildMinimalAcpi) := by
  have hpci : vm.pciDevices.Perm (vm.withDevices devices).pciDevices := h.filter Device.isPci
  rcases Nat.lt_or_ge 255 vm.pciDevices.length with hmany | hfew
  · have hmany' : 255 < (vm.withDevices devices).pciDevices.length := by
      rw [← hpci.length_eq]
      exact hmany
    rw [platformConfig_eq_error hmany, platformConfig_eq_error hmany']
  · obtain ⟨configs, hrecords, hconfig⟩ := platformConfig_eq hfew
    have hfew' : (vm.withDevices devices).pciDevices.length ≤ 255 := by
      rw [← hpci.length_eq]
      exact hfew
    obtain ⟨configs', hrecords', hconfig'⟩ := platformConfig_eq hfew'
    have haddressed : ∀ device ∈ vm.pciDevices, device.isRootBus = true →
        ∃ devfn, device.devfn = some devfn := fun device hdevice hroot =>
      hvm.addressed device (List.mem_filter.mpr ⟨hdevice, hroot⟩)
    have hroot := filter_records hrecords haddressed
    have hroot' := filter_records hrecords' fun device hdevice =>
      haddressed device (hpci.mem_iff.mpr hdevice)
    have hfilter : (configs.filter PciDeviceConfig.isRootBusDevice).Perm
        (configs'.filter PciDeviceConfig.isRootBusDevice) := by
      rw [hroot, hroot']
      exact (hpci.filter Device.isRootBus).map _
    have hinj : ∀ x ∈ configs.filter PciDeviceConfig.isRootBusDevice,
        ∀ y ∈ configs.filter PciDeviceConfig.isRootBusDevice, x.devfn = y.devfn → x = y := by
      rw [hroot]
      exact rootRecords_inj hvm
    -- of the devices that are not on the root bus only the number matters
    have hcount : (sortByDevfn configs).length = (sortByDevfn configs').length := by
      rw [(sortByDevfn_perm configs).length_eq, (sortByDevfn_perm configs').length_eq,
        ← (getElem_of_records hrecords).1, ← (getElem_of_records hrecords').1, hpci.length_eq]
    have hsorted := filter_sortByDevfn_perm hfilter hinj
    rw [hconfig, hconfig', Checked.ok_bind, Checked.ok_bind, basePlatform_perm hvm h]
    exact (buildMinimalAcpi_congr _
      (buildDsdt_congr _ hsorted (.inr (congrArg UInt32.ofNat hcount)))).symm

end Permuted

/-- A network device in slot 4 and a disk in slot 2. -/
def VmConfig.netAndDiskAt : VmConfig :=
  q35 .empty [⟨"virtio-net-pci", ⟨[("addr", .string "0x04")], by decide⟩⟩,
    ⟨"virtio-blk-pci", ⟨[("addr", .string "0x02")], by decide⟩⟩]

/-- The description is unambiguous. -/
theorem unambiguous_netAndDiskAt : Unambiguous .netAndDiskAt := by
  have hroot : VmConfig.netAndDiskAt.rootDevices = VmConfig.netAndDiskAt.devices := rfl
  have htpm : ∀ device ∈ VmConfig.netAndDiskAt.devices, device.tpmKind = none :=
    List.forall_mem_cons.mpr ⟨rfl, List.forall_mem_singleton.mpr rfl⟩
  have hiommu : ∀ device ∈ VmConfig.netAndDiskAt.devices, device.iommuKind = none :=
    List.forall_mem_cons.mpr ⟨rfl, List.forall_mem_singleton.mpr rfl⟩
  refine ⟨?_, ?_, ?_, ?_⟩
  · rw [hroot]
    exact List.forall_mem_cons.mpr ⟨⟨0x20, rfl⟩, List.forall_mem_singleton.mpr ⟨0x10, rfl⟩⟩
  · rw [hroot]
    decide
  · intro device hdevice device' hdevice' kind hkind
    rw [htpm device hdevice] at hkind
    cases hkind
  · intro device hdevice device' hdevice' kind hkind
    rw [hiommu device hdevice] at hkind
    cases hkind

theorem build_perm_netAndDiskAt :
    ((VmConfig.netAndDiskAt.withDevices VmConfig.netAndDiskAt.devices.reverse).platformConfig >>=
      buildMinimalAcpi) = (VmConfig.netAndDiskAt.platformConfig >>= buildMinimalAcpi) :=
  build_perm unambiguous_netAndDiskAt (List.reverse_perm _).symm

end AcpiTables.Vm
