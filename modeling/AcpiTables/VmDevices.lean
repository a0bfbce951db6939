import AcpiTables.RootBus
import AcpiTables.Vm

/-!
# The PCI devices of a virtual machine

Each PCI device is described with the devfn of its address, or else with one of
its position. The positions fit a byte for 255 devices (`platformConfig_eq`,
`platformConfig_eq_error`). No default is compared with the addresses of other
devices, so the devices of a bus keep apart exactly when no address is one of the
defaults that are used (`devfns_distinct_iff`).

Positions are counted over all PCI devices, whatever bus they are on, and the
defaults come back after 32 of them; the defaults of 30 positions are different
(`defaultDevfn_ne`). The devices are then sorted by devfn, which changes nothing
about who shares one with whom (`sortByDevfn_perm`).
-/

namespace AcpiTables.Vm

open MachineInt

/-! ## Defaults -/

/-- Up to the 255th PCI device there is a default, which comes back after 32
devices. -/
theorem defaultDevfn_eq {index : ℕ} (h : index < 255) :
    ∃ devfn, defaultDevfn index = .ok devfn ∧ devfn.toNat = 8 * ((index + 1) % 32) := by
  have hindex : toNat (UInt8.ofNat index) = index := by
    change (UInt8.ofNat index).toNat = index
    rw [UInt8.toNat_ofNat']
    omega
  have hone : toNat (1 : UInt8) = 1 := rfl
  obtain ⟨next, hnext, hvalue⟩ := checkedAdd_isOk (x := UInt8.ofNat index) (y := (1 : UInt8))
    (by rw [hindex, hone, width_u8]; omega)
  have hnextNat : next.toNat = index + 1 := by
    rw [← hindex]
    exact hvalue
  refine ⟨next <<< 3, by rw [defaultDevfn, hnext]; rfl, ?_⟩
  rw [UInt8.toNat_shiftLeft]
  change next.toNat <<< 3 % 256 = _
  rw [Nat.shiftLeft_eq, hnextNat]
  omega

/-- A default is there or overflows. -/
theorem defaultDevfn_cases (index : ℕ) :
    (∃ devfn, defaultDevfn index = .ok devfn) ∨ defaultDevfn index = .error .overflow := by
  rw [defaultDevfn]
  unfold checkedAdd fit
  split_ifs
  · exact .inl ⟨_, rfl⟩
  · exact .inr rfl

/-! ## Lists that are numbered -/

section Numbered

variable {α γ : Type} {f : α → ℕ → Checked γ}

/-- Every element in its place gives a value. -/
theorem mapM_zipIdx_isOk {xs : List α} {n : ℕ} (h : ∀ x i, i < n + xs.length → ∃ y, f x i = .ok y) :
    ∃ ys, (xs.zipIdx n).mapM (fun (x, i) => f x i) = .ok ys := by
  induction xs generalizing n with
  | nil => exact ⟨[], rfl⟩
  | cons x xs ih =>
    obtain ⟨y, hy⟩ := h x n (by rw [List.length_cons]; omega)
    obtain ⟨ys, hys⟩ := ih (n := n + 1) fun x i hi => h x i (by rw [List.length_cons]; omega)
    refine ⟨y :: ys, ?_⟩
    rw [List.zipIdx_cons, List.mapM_cons]
    dsimp only
    rw [hy, Checked.ok_bind, hys]
    rfl

/-- With one kind of error, an element that fails makes the whole list fail. -/
theorem mapM_zipIdx_eq_error {xs : List α} {n : ℕ} {e : Panic}
    (h : ∀ x i, (∃ y, f x i = .ok y) ∨ f x i = .error e) {k : ℕ} (hk : k < xs.length)
    (hfail : ∀ x, f x (n + k) = .error e) :
    (xs.zipIdx n).mapM (fun (x, i) => f x i) = .error e := by
  induction xs generalizing n k with
  | nil => cases hk
  | cons x xs ih =>
    rw [List.zipIdx_cons, List.mapM_cons]
    dsimp only
    rcases h x n with ⟨y, hy⟩ | herror
    · cases k with
      | zero =>
        rw [← Nat.add_zero n, hfail x] at hy
        cases hy
      | succ k =>
        have hrest := ih (n := n + 1) (k := k) (Nat.lt_of_succ_lt_succ hk) fun x => by
          rw [Nat.add_assoc, Nat.add_comm 1 k]
          exact hfail x
        rw [hy, Checked.ok_bind, hrest]
        rfl
    · rw [herror]
      rfl

end Numbered

/-! ## The devices of the platform -/

/-- What the tables describe of a device, with a given default. -/
def Device.record (device : Device) (default : UInt8) : PciDeviceConfig where
  driver := device.driver
  id := device.stringProp "id"
  bus := device.stringProp "bus"
  devfn := device.devfn.getD default

/-- Devices by devfn. -/
def sortByDevfn (devices : List PciDeviceConfig) : List PciDeviceConfig :=
  devices.insertionSort fun device device' => device.devfn ≤ device'.devfn

/-- Sorting keeps the devices. -/
theorem sortByDevfn_perm (devices : List PciDeviceConfig) : (sortByDevfn devices).Perm devices :=
  List.perm_insertionSort ..

section Platform

variable {vm : VmConfig}

/-- A PCI device is described when its default can be computed, whether or not it
is used. -/
theorem pciDeviceConfig_eq_ok {device : Device} {index : ℕ} {config : PciDeviceConfig} :
    device.pciDeviceConfig index = .ok config ↔
      ∃ default, defaultDevfn index = .ok default ∧ config = device.record default := by
  rw [Device.pciDeviceConfig, Checked.bind_eq_ok]
  refine exists_congr fun default => and_congr_right fun _ => ?_
  constructor
  · exact fun h => (Except.ok.inj h).symm
  · rintro rfl
    rfl

/-- **The platform** of up to 255 PCI devices: the devices are described in their
order, then sorted. -/
theorem platformConfig_eq (h : vm.pciDevices.length ≤ 255) :
    ∃ devices, List.Forall₂ (fun (entry : Device × ℕ) config =>
        ∃ default, defaultDevfn entry.2 = .ok default ∧ config = entry.1.record default)
        vm.pciDevices.zipIdx devices ∧
      vm.platformConfig = .ok (vm.basePlatform.withDevices (sortByDevfn devices)) := by
  have hall : ∀ (device : Device) (index : ℕ), index < 0 + vm.pciDevices.length →
      ∃ config, device.pciDeviceConfig index = .ok config := by
    intro device index hindex
    obtain ⟨default, hdefault, -⟩ := defaultDevfn_eq (show index < 255 by omega)
    exact ⟨_, pciDeviceConfig_eq_ok.mpr ⟨default, hdefault, rfl⟩⟩
  obtain ⟨devices, hdevices⟩ := mapM_zipIdx_isOk hall
  refine ⟨devices, (mapM_eq_ok hdevices).imp fun _ _ => pciDeviceConfig_eq_ok.mp, ?_⟩
  rw [VmConfig.platformConfig]
  rw [hdevices]
  rfl

/-- The default of the 256th PCI device overflows. -/
theorem platformConfig_eq_error (h : 255 < vm.pciDevices.length) :
    vm.platformConfig = .error .overflow := by
  have herror := mapM_zipIdx_eq_error (f := Device.pciDeviceConfig) (n := 0) (e := .overflow) (by
      intro device index
      rcases defaultDevfn_cases index with ⟨default, hdefault⟩ | herror
      · exact .inl ⟨_, pciDeviceConfig_eq_ok.mpr ⟨default, hdefault, rfl⟩⟩
      · right
        rw [Device.pciDeviceConfig, herror]
        rfl) h fun _ => rfl
  rw [VmConfig.platformConfig]
  rw [herror]
  rfl

/-- A platform has at most 255 PCI devices. -/
theorem platformConfig_isOk_iff :
    (∃ config, vm.platformConfig = .ok config) ↔ vm.pciDevices.length ≤ 255 := by
  constructor
  · rintro ⟨config, hconfig⟩
    by_contra hmany
    rw [platformConfig_eq_error (Nat.lt_of_not_le hmany)] at hconfig
    cases hconfig
  · intro h
    obtain ⟨devices, -, hconfig⟩ := platformConfig_eq h
    exact ⟨_, hconfig⟩

end Platform

/-! ## Distinct devices -/

/-- A device without a bus is on the root bus. -/
def busName (bus : Option String) : String := bus.getD "pcie.0"

/-- The devices of each bus have different devfns. -/
def DistinctOnBuses (devices : List PciDeviceConfig) : Prop :=
  devices.Pairwise fun device device' =>
    busName device.bus = busName device'.bus → device.devfn ≠ device'.devfn

/-- The bus of a device, which is the root bus when none is given. -/
def Device.bus (device : Device) : String := busName (device.stringProp "bus")

/-- The addresses of each bus are different. -/
def DistinctAddresses (devices : List Device) : Prop :=
  devices.Pairwise fun device device' =>
    device.bus = device'.bus → ∀ devfn ∈ device.devfn, devfn ∉ device'.devfn

/-- No default that is used is the address of a device on the same bus. -/
def DefaultsFree (devices : List Device) : Prop :=
  ∀ entry ∈ devices.zipIdx, entry.1.devfn = none → ∀ default, defaultDevfn entry.2 = .ok default →
    ∀ device ∈ devices, device.bus = entry.1.bus → default ∉ device.devfn

/-- The devices by their positions. -/
theorem getElem_of_records {devices : List Device} {configs : List PciDeviceConfig}
    (h : List.Forall₂ (fun (entry : Device × ℕ) config =>
      ∃ default, defaultDevfn entry.2 = .ok default ∧ config = entry.1.record default)
      devices.zipIdx configs) :
    devices.length = configs.length ∧
      ∀ (i : ℕ) (hi : i < devices.length) (hi' : i < configs.length),
        ∃ default, defaultDevfn i = .ok default ∧ configs[i] = devices[i].record default := by
  have hlength := h.length_eq
  rw [List.length_zipIdx] at hlength
  refine ⟨hlength, fun i hi hi' => ?_⟩
  have hentry := h.get (i := i) (by rw [List.length_zipIdx]; exact hi) hi'
  simp only [List.get_eq_getElem, List.getElem_zipIdx, Nat.zero_add] at hentry
  exact hentry

/-- Two values with different defaults. -/
theorem getD_eq_getD_iff {α : Type} {x y : Option α} {a b : α} (hab : a ≠ b) :
    x.getD a = y.getD b ↔ (∃ v, v ∈ x ∧ v ∈ y) ∨ (x = none ∧ a ∈ y) ∨ (y = none ∧ b ∈ x) := by
  cases x with
  | none =>
    cases y with
    | none => simpa using hab
    | some v => simpa using eq_comm
  | some u =>
    cases y with
    | none => simp
    | some v => simpa using eq_comm

/-- Distinct devices, by two positions and the defaults there. -/
theorem distinctOnBuses_iff {devices : List Device} {configs : List PciDeviceConfig}
    (h : List.Forall₂ (fun (entry : Device × ℕ) config =>
      ∃ default, defaultDevfn entry.2 = .ok default ∧ config = entry.1.record default)
      devices.zipIdx configs) :
    DistinctOnBuses configs ↔
      ∀ (i j : ℕ) (hi : i < devices.length) (hj : j < devices.length), i ≠ j →
        devices[i].bus = devices[j].bus → ∀ default default', defaultDevfn i = .ok default →
        defaultDevfn j = .ok default' →
        devices[i].devfn.getD default ≠ devices[j].devfn.getD default' := by
  obtain ⟨hlength, hget⟩ := getElem_of_records h
  constructor
  · intro hdistinct i j hi hj hij hbus default default' hdefault hdefault'
    obtain ⟨own, hown, hconfig⟩ := hget i hi (hlength ▸ hi)
    obtain ⟨own', hown', hconfig'⟩ := hget j hj (hlength ▸ hj)
    obtain rfl := Except.ok.inj (hdefault.symm.trans hown)
    obtain rfl := Except.ok.inj (hdefault'.symm.trans hown')
    rcases Nat.lt_or_gt_of_ne hij with hlt | hgt
    · have hne := List.pairwise_iff_getElem.mp hdistinct i j (hlength ▸ hi) (hlength ▸ hj) hlt
      rw [hconfig, hconfig'] at hne
      exact hne hbus
    · have hne := List.pairwise_iff_getElem.mp hdistinct j i (hlength ▸ hj) (hlength ▸ hi) hgt
      rw [hconfig, hconfig'] at hne
      exact (hne hbus.symm).symm
  · intro hne
    refine List.pairwise_iff_getElem.mpr fun i j hi hj hij hbus => ?_
    obtain ⟨default, hdefault, hconfig⟩ := hget i (hlength ▸ hi) hi
    obtain ⟨default', hdefault', hconfig'⟩ := hget j (hlength ▸ hj) hj
    rw [hconfig, hconfig'] at hbus ⊢
    exact hne i j (hlength ▸ hi) (hlength ▸ hj) hij.ne hbus default default' hdefault hdefault'

/-- The defaults of 30 positions are different. -/
theorem defaultDevfn_ne {i j : ℕ} (hi : i < 30) (hj : j < 30) (hij : i ≠ j)
    {default default' : UInt8} (hdefault : defaultDevfn i = .ok default)
    (hdefault' : defaultDevfn j = .ok default') : default ≠ default' := by
  obtain ⟨value, hvalue, hnat⟩ := defaultDevfn_eq (show i < 255 by omega)
  obtain ⟨value', hvalue', hnat'⟩ := defaultDevfn_eq (show j < 255 by omega)
  obtain rfl := Except.ok.inj (hdefault.symm.trans hvalue)
  obtain rfl := Except.ok.inj (hdefault'.symm.trans hvalue')
  rintro rfl
  omega

/-- Devices keep apart by their addresses and their defaults. -/
theorem apart_iff {devices : List Device} (h : devices.length ≤ 30) :
    (∀ (i j : ℕ) (hi : i < devices.length) (hj : j < devices.length), i ≠ j →
      devices[i].bus = devices[j].bus → ∀ default default', defaultDevfn i = .ok default →
      defaultDevfn j = .ok default' →
      devices[i].devfn.getD default ≠ devices[j].devfn.getD default') ↔
    DistinctAddresses devices ∧ DefaultsFree devices := by
  have hdefaults : ∀ i, i < devices.length → ∃ default, defaultDevfn i = .ok default := by
    intro i hi
    obtain ⟨default, hdefault, -⟩ := defaultDevfn_eq (show i < 255 by omega)
    exact ⟨default, hdefault⟩
  have hmem : ∀ (i : ℕ) (hi : i < devices.length), (devices[i], i) ∈ devices.zipIdx := by
    intro i hi
    rw [List.mem_zipIdx_iff_getElem?, List.getElem?_eq_getElem hi]
  constructor
  · intro hne
    constructor
    · refine List.pairwise_iff_getElem.mpr fun i j hi hj hij hbus devfn hdevfn hdevfn' => ?_
      obtain ⟨default, hdefault⟩ := hdefaults i hi
      obtain ⟨default', hdefault'⟩ := hdefaults j hj
      exact hne i j hi hj hij.ne hbus default default' hdefault hdefault'
        ((getD_eq_getD_iff (defaultDevfn_ne (by omega) (by omega) hij.ne hdefault hdefault')).mpr
          (.inl ⟨devfn, hdevfn, hdevfn'⟩))
    · rintro ⟨device, i⟩ hentry hnone default hdefault device' hdevice' hbus hdevfn
      have hposition : devices[i]? = some device := List.mem_zipIdx_iff_getElem?.mp hentry
      obtain ⟨hi, rfl⟩ := List.getElem?_eq_some_iff.mp hposition
      obtain ⟨j, hj, rfl⟩ := List.mem_iff_getElem.mp hdevice'
      obtain ⟨default', hdefault'⟩ := hdefaults j hj
      have hij : i ≠ j := by
        rintro rfl
        rw [Option.mem_def, hnone] at hdevfn
        cases hdevfn
      exact hne i j hi hj hij hbus.symm default default' hdefault hdefault'
        ((getD_eq_getD_iff (defaultDevfn_ne (by omega) (by omega) hij hdefault hdefault')).mpr
          (.inr (.inl ⟨hnone, hdevfn⟩)))
  · rintro ⟨haddresses, hfree⟩ i j hi hj hij hbus default default' hdefault hdefault' heq
    -- two addresses meet, or a default and an address: two defaults never do
    rw [getD_eq_getD_iff (defaultDevfn_ne (by omega) (by omega) hij hdefault hdefault')] at heq
    rcases heq with ⟨devfn, hdevfn, hdevfn'⟩ | ⟨hnone, hdevfn⟩ | ⟨hnone, hdevfn⟩
    · rcases Nat.lt_or_gt_of_ne hij with hlt | hgt
      · exact List.pairwise_iff_getElem.mp haddresses i j hi hj hlt hbus devfn hdevfn hdevfn'
      · exact List.pairwise_iff_getElem.mp haddresses j i hj hi hgt hbus.symm devfn hdevfn' hdevfn
    · exact hfree _ (hmem i hi) hnone default hdefault _ (List.getElem_mem hj) hbus.symm hdevfn
    · exact hfree _ (hmem j hj) hnone default' hdefault' _ (List.getElem_mem hi) hbus hdevfn

/-- **The devices of a bus keep apart** exactly when their addresses do and no
default that is used is one of these, for up to thirty PCI devices. The default of
a device comes from its position among the PCI devices of all buses, and nothing
looks whether another device has this address. -/
theorem devfns_distinct_iff {vm : VmConfig} (h : vm.pciDevices.length ≤ 30) :
    ∃ config, vm.platformConfig = .ok config ∧
      (DistinctOnBuses config.pciDevices ↔
        DistinctAddresses vm.pciDevices ∧ DefaultsFree vm.pciDevices) := by
  obtain ⟨configs, hrecords, hconfig⟩ :=
    platformConfig_eq (show vm.pciDevices.length ≤ 255 by omega)
  refine ⟨_, hconfig, ?_⟩
  have hsymm : ∀ {device device' : PciDeviceConfig},
      (busName device.bus = busName device'.bus → device.devfn ≠ device'.devfn) →
      busName device'.bus = busName device.bus → device'.devfn ≠ device.devfn :=
    fun hne hbus => (hne hbus.symm).symm
  have hsorted : DistinctOnBuses (sortByDevfn configs) ↔ DistinctOnBuses configs :=
    (sortByDevfn_perm configs).pairwise_iff hsymm
  exact hsorted.trans ((distinctOnBuses_iff hrecords).trans (apart_iff h))

theorem devfns_distinct_netAndDisk :
    ∃ config, VmConfig.netAndDisk.platformConfig = .ok config ∧
      (DistinctOnBuses config.pciDevices ↔
        DistinctAddresses VmConfig.netAndDisk.pciDevices ∧
          DefaultsFree VmConfig.netAndDisk.pciDevices) :=
  devfns_distinct_iff (by decide)

/-- A device without an address is placed on the address of another. -/
theorem default_meets_address :
    VmConfig.netAndDisk.pciDevices.length ≤ 30 ∧ DistinctAddresses VmConfig.netAndDisk.pciDevices ∧
      ∃ config, VmConfig.netAndDisk.platformConfig = .ok config ∧
        ¬ DistinctOnBuses config.pciDevices := by
  have haddresses : DistinctAddresses VmConfig.netAndDisk.pciDevices := by
    refine List.pairwise_pair.mpr fun _ devfn hdevfn => ?_
    cases hdevfn
  refine ⟨by decide, haddresses, _, rfl, fun hdistinct => ?_⟩
  exact List.pairwise_pair.mp hdistinct rfl rfl

end AcpiTables.Vm
