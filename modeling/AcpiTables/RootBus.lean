import AcpiTables.Build
import AcpiTables.PaddingGaps

/-!
# Devices behind other buses

No device behind another bus is described in the body of the DSDT
(`encodeDsdtBody_congr`), and no other table describes devices at all
(`buildMinimalAcpi_congr`). But the length to pad to counts every device. So
removing the others leaves the tables as they are exactly when the count or the
padding does not matter (`rootBusOnly_iff`).

The condition is on the configuration: there is no length to pad to, or as many
devices are counted with the others as without them, or neither body is shorter
than the length asked for (`PlatformConfig.Unpadded`). Otherwise the two lengths to
pad to are so far apart that no padding meets both (`ChosenPad.le_of_same`).
-/

namespace AcpiTables

open MachineInt

/-- The configuration with other devices. -/
def PlatformConfig.withDevices (config : PlatformConfig) (devices : List PciDeviceConfig) :
    PlatformConfig :=
  { config with pciDevices := devices }

/-- The configuration without the devices behind other buses. -/
def PlatformConfig.rootBusOnly (config : PlatformConfig) : PlatformConfig :=
  config.withDevices (config.pciDevices.filter PciDeviceConfig.isRootBusDevice)

section Congruence

variable (config : PlatformConfig) {devices devices' : List PciDeviceConfig}

/-- The body describes the devices of the root bus. -/
theorem encodeDsdtBody_congr (h : devices.filter PciDeviceConfig.isRootBusDevice =
    devices'.filter PciDeviceConfig.isRootBusDevice) (padLen : ℕ) :
    encodeDsdtBody (config.withDevices devices) padLen =
      encodeDsdtBody (config.withDevices devices') padLen := by
  have hpci0 : buildPci0DeviceBytes (config.withDevices devices) =
      buildPci0DeviceBytes (config.withDevices devices') := by
    unfold buildPci0DeviceBytes
    rw [PlatformConfig.withDevices, PlatformConfig.withDevices]
    dsimp only
    rw [h]
  have hroot : buildRootScopeBytes (config.withDevices devices) =
      buildRootScopeBytes (config.withDevices devices') := by
    unfold buildRootScopeBytes
    rw [hpci0]
    rfl
  unfold encodeDsdtBody
  rw [hroot]

/-- The length to pad to depends on how many devices there are. -/
theorem targetDsdtLen_congr (h : UInt32.ofNat devices.length = UInt32.ofNat devices'.length) :
    (config.withDevices devices).targetDsdtLen = (config.withDevices devices').targetDsdtLen := by
  unfold PlatformConfig.targetDsdtLen PlatformConfig.withDevices
  dsimp only
  rw [h]

/-- The DSDT depends on the devices of the root bus, and with compatible lengths on
how many devices there are in all. -/
theorem buildDsdt_congr
    (hroot : devices.filter PciDeviceConfig.isRootBusDevice =
      devices'.filter PciDeviceConfig.isRootBusDevice)
    (hcount : config.compatLengths = false ∨
      UInt32.ofNat devices.length = UInt32.ofNat devices'.length) :
    buildDsdt (config.withDevices devices) = buildDsdt (config.withDevices devices') := by
  have hencode : encodeDsdtBody (config.withDevices devices) =
      encodeDsdtBody (config.withDevices devices') := funext (encodeDsdtBody_congr config hroot)
  have htarget : (config.withDevices devices).targetDsdtLen =
      (config.withDevices devices').targetDsdtLen := by
    rcases hcount with hcompat | hcount
    · rw [PlatformConfig.targetDsdtLen, PlatformConfig.targetDsdtLen, PlatformConfig.withDevices,
        PlatformConfig.withDevices, hcompat]
      rfl
    · exact targetDsdtLen_congr config hcount
  unfold buildDsdt encodeDsdtWithPadding
  rw [hencode, htarget]
  rfl

/-- The other tables do not depend on the devices. -/
theorem buildMinimalAcpi_congr
    (h : buildDsdt (config.withDevices devices) = buildDsdt (config.withDevices devices')) :
    buildMinimalAcpi (config.withDevices devices) =
      buildMinimalAcpi (config.withDevices devices') := by
  unfold buildMinimalAcpi
  rw [h]
  rfl

end Congruence

/-! ## Without the other devices -/

/-- The length asked for, as a number. -/
theorem targetDsdtLen_eq_ok {config : PlatformConfig} {target : UInt32}
    (h : config.targetDsdtLen = .ok (some target)) :
    config.compatLengths = true ∧
      target.toNat = (PlatformConfig.dsdtBaseLen (UInt32.ofNat config.cpuApicIds.length)).toNat +
        86 * (UInt32.ofNat config.cpuApicIds.length).toNat + (if config.hasHpet then 142 else 0) +
        17 * (UInt32.ofNat config.pciDevices.length).toNat := by
  rw [PlatformConfig.targetDsdtLen] at h
  cases hcompat : config.compatLengths with
  | false =>
    rw [hcompat] at h
    cases h
  | true =>
    refine ⟨rfl, ?_⟩
    rw [hcompat] at h
    obtain ⟨pciDelta, hpci, h⟩ := Checked.bind_eq_ok.mp h
    obtain ⟨cpuDelta, hcpu, h⟩ := Checked.bind_eq_ok.mp h
    obtain ⟨len, hlen, h⟩ := Checked.bind_eq_ok.mp h
    obtain ⟨len', hlen', h⟩ := Checked.bind_eq_ok.mp h
    obtain ⟨len'', hlen'', h⟩ := Checked.bind_eq_ok.mp h
    obtain rfl : len'' = target := Option.some.inj (Except.ok.inj h)
    have hhpet : toNat (if config.hasHpet then (142 : UInt32) else 0) =
        if config.hasHpet then 142 else 0 := by
      split_ifs <;> rfl
    have hpciNat := checkedMul_eq_ok hpci
    have hcpuNat := checkedMul_eq_ok hcpu
    have hlenNat := checkedAdd_eq_ok hlen
    have hlenNat' := checkedAdd_eq_ok hlen'
    have hlenNat'' := checkedAdd_eq_ok hlen''
    rw [hhpet] at hlenNat'
    calc
      toNat len'' = toNat (PlatformConfig.dsdtBaseLen (UInt32.ofNat config.cpuApicIds.length)) +
          toNat (86 : UInt32) * toNat (UInt32.ofNat config.cpuApicIds.length) +
          (if config.hasHpet then 142 else 0) +
          toNat (17 : UInt32) * toNat (UInt32.ofNat config.pciDevices.length) := by
        rw [hlenNat'', hlenNat', hlenNat, hcpuNat, hpciNat]
      _ = _ := rfl

/-- The body is not shorter than asked for. -/
def PlatformConfig.Unpadded (config : PlatformConfig) : Prop :=
  ∃ target unpadded, config.targetDsdtLen = .ok (some target) ∧
    encodeDsdtBody config 0 = .ok unpadded ∧ target.toNat - 36 ≤ unpadded.length

/-- Two lengths so far apart are met by the same padding only if there is none. -/
theorem ChosenPad.le_of_same {unpadded target target' p p' : ℕ}
    (h : ChosenPad (target - unpadded) p) (h' : ChosenPad (target' - unpadded) p')
    (hfar : target + 17 ≤ target') (hsame : qpadLength p = qpadLength p') : target' ≤ unpadded := by
  have hle := h'.le
  have hlt := h.lt
  rcases Nat.lt_or_ge unpadded target with hpos | hzero
  · omega
  · rw [Nat.sub_eq_zero_of_le hzero] at h
    have := h.eq_zero
    omega

section RootBusOnly

variable {config : PlatformConfig}

/-- Removing the other devices keeps those of the root bus. -/
theorem filter_rootBusOnly : config.rootBusOnly.pciDevices.filter PciDeviceConfig.isRootBusDevice =
    config.pciDevices.filter PciDeviceConfig.isRootBusDevice := by
  rw [PlatformConfig.rootBusOnly, PlatformConfig.withDevices, List.filter_filter]
  simp only [Bool.and_self]

/-- With the same padding, removing the other devices changes nothing in the body. -/
theorem encodeDsdtBody_rootBusOnly (padLen : ℕ) :
    encodeDsdtBody config.rootBusOnly padLen = encodeDsdtBody config padLen :=
  encodeDsdtBody_congr config filter_rootBusOnly padLen

/-- The same, as the word of the body's trees. -/
theorem dsdtBody_rootBusOnly (hcpus : config.cpuApicIds.length ≤ 1000) (padLen : ℕ) :
    dsdtBody config.rootBusOnly padLen = dsdtBody config padLen := by
  have hcpus' : config.rootBusOnly.cpuApicIds.length ≤ 1000 := hcpus
  have hencode : encodeDsdtBody config.rootBusOnly padLen = encodeDsdtBody config padLen :=
    encodeDsdtBody_rootBusOnly padLen
  rw [encodeDsdtBody_eq hcpus, encodeDsdtBody_eq hcpus'] at hencode
  exact Except.ok.inj hencode

/-- A table that needs no padding. -/
theorem buildDsdt_of_unpadded (h : config.Unpadded) :
    buildDsdt config = .ok (finalizeTable (config.header (bstr "DSDT") 1) (dsdtBody config 0)) := by
  obtain ⟨target, unpadded, htarget, hunpadded, hle⟩ := h
  have haccepted : Accepted config := ⟨⟨unpadded, hunpadded⟩, ⟨_, htarget⟩⟩
  obtain rfl := Except.ok.inj ((haccepted.encode_eq 0).symm.trans hunpadded)
  rw [buildDsdt, encodeDsdtWithPadding, haccepted.encode_eq, Checked.ok_bind, htarget,
    Checked.ok_bind]
  dsimp only
  rw [if_pos hle]
  rfl

/-- Two builds of one table, whose lengths to pad to differ, need no padding. -/
theorem unpadded_of_same {dsdt : Bytes} (h : buildDsdt config = .ok dsdt)
    (h' : buildDsdt config.rootBusOnly = .ok dsdt) (hcompat : config.compatLengths = true)
    (hcount : UInt32.ofNat config.pciDevices.length ≠
      UInt32.ofNat config.rootBusOnly.pciDevices.length) :
    config.Unpadded ∧ config.rootBusOnly.Unpadded := by
  have haccepted := Accepted.of_build h
  have haccepted' := Accepted.of_build h'
  obtain ⟨target, htarget⟩ := haccepted.exists_target hcompat
  obtain ⟨target', htarget'⟩ := haccepted'.exists_target hcompat
  obtain ⟨p, hp, htable, hpad⟩ := buildDsdt_chosen h htarget
  obtain ⟨p', hp', htable', hpad'⟩ := buildDsdt_chosen h' htarget'
  have hlength := congrArg List.length (htable.symm.trans htable')
  rw [length_finalizeTable, length_finalizeTable, length_dsdtBody_eq _ hp, length_dsdtBody_eq _ hp',
    dsdtBody_rootBusOnly haccepted.cpus_le] at hlength
  rw [dsdtBody_rootBusOnly haccepted.cpus_le] at hpad'
  have hsame : qpadLength p = qpadLength p' := by omega
  -- the lengths differ by a multiple of 17
  have hcount' : (UInt32.ofNat config.pciDevices.length).toNat ≠
      (UInt32.ofNat config.rootBusOnly.pciDevices.length).toNat :=
    fun heq => hcount (UInt32.toNat_inj.mp heq)
  have hnat := (targetDsdtLen_eq_ok htarget).2
  have hnat' := (targetDsdtLen_eq_ok htarget').2
  rw [show config.rootBusOnly.cpuApicIds = config.cpuApicIds from rfl,
    show config.rootBusOnly.hasHpet = config.hasHpet from rfl] at hnat'
  rw [Nat.sub_sub] at hpad hpad'
  suffices hle : target.toNat ≤ 36 + (dsdtBody config 0).length ∧
      target'.toNat ≤ 36 + (dsdtBody config 0).length by
    refine ⟨⟨target, _, htarget, haccepted.encode_eq 0, by omega⟩,
      ⟨target', _, htarget', haccepted'.encode_eq 0, ?_⟩⟩
    rw [dsdtBody_rootBusOnly haccepted.cpus_le]
    omega
  rcases Nat.lt_or_gt_of_ne hcount' with hlt | hgt
  · have := ChosenPad.le_of_same hpad hpad' (by omega) hsame
    omega
  · have := ChosenPad.le_of_same hpad' hpad (by omega) hsame.symm
    omega

/-- **Devices behind other buses** leave the DSDT and the blob as they are
exactly when there is no length to pad to, or as many devices without them (as a
32-bit number), or nothing to pad. -/
theorem rootBusOnly_iff {dsdt : Bytes} (h : buildDsdt config = .ok dsdt) :
    (buildDsdt config.rootBusOnly = buildDsdt config ∧
      buildMinimalAcpi config.rootBusOnly = buildMinimalAcpi config) ↔
    config.compatLengths = false ∨
      UInt32.ofNat config.pciDevices.length = UInt32.ofNat config.rootBusOnly.pciDevices.length ∨
      (config.Unpadded ∧ config.rootBusOnly.Unpadded) := by
  constructor
  · rintro ⟨hsame, -⟩
    cases hcompat : config.compatLengths with
    | false => exact .inl rfl
    | true =>
      by_cases hcount : UInt32.ofNat config.pciDevices.length =
          UInt32.ofNat config.rootBusOnly.pciDevices.length
      · exact .inr (.inl hcount)
      · exact .inr (.inr (unpadded_of_same h (hsame.trans h) hcompat hcount))
  · intro hcase
    have hdsdt : buildDsdt config.rootBusOnly = buildDsdt config := by
      rcases hcase with hcompat | hcount | ⟨hunpadded, hunpadded'⟩
      · exact buildDsdt_congr config filter_rootBusOnly (.inl hcompat)
      · exact buildDsdt_congr config filter_rootBusOnly (.inr hcount.symm)
      · rw [buildDsdt_of_unpadded hunpadded, buildDsdt_of_unpadded hunpadded',
          dsdtBody_rootBusOnly (Accepted.of_build h).cpus_le]
        rfl
    exact ⟨hdsdt, buildMinimalAcpi_congr config hdsdt⟩

end RootBusOnly

theorem rootBusOnly_twoDisks : ∃ dsdt, buildDsdt PlatformConfig.twoDisks = .ok dsdt ∧
    ((buildDsdt PlatformConfig.twoDisks.rootBusOnly = buildDsdt PlatformConfig.twoDisks ∧
      buildMinimalAcpi PlatformConfig.twoDisks.rootBusOnly =
        buildMinimalAcpi PlatformConfig.twoDisks) ↔
    PlatformConfig.twoDisks.compatLengths = false ∨
      UInt32.ofNat PlatformConfig.twoDisks.pciDevices.length =
        UInt32.ofNat PlatformConfig.twoDisks.rootBusOnly.pciDevices.length ∨
      (PlatformConfig.twoDisks.Unpadded ∧ PlatformConfig.twoDisks.rootBusOnly.Unpadded)) :=
  let ⟨_, _, h⟩ := accepted_twoDisks.build
  ⟨_, h, rootBusOnly_iff h⟩

/-- The disk behind the root port takes 17 bytes of padding. -/
theorem twoDisks_depend_on_other_bus :
    ∃ dsdt, buildDsdt PlatformConfig.twoDisks = .ok dsdt ∧
      buildDsdt PlatformConfig.twoDisks.rootBusOnly ≠ .ok dsdt := by
  obtain ⟨padLen, -, h⟩ := accepted_twoDisks.build
  refine ⟨_, h, fun hsame => ?_⟩
  obtain ⟨⟨target, unpadded, htarget, hunpadded, hle⟩, -⟩ :=
    unpadded_of_same h hsame rfl (by decide)
  obtain rfl : (8376 : UInt32) = target :=
    Option.some.inj (Except.ok.inj (htarget.symm.trans rfl)).symm
  obtain rfl := Except.ok.inj ((accepted_twoDisks.encode_eq 0).symm.trans hunpadded)
  rw [length_dsdtBody_zero] at hle
  revert hle
  decide +kernel

end AcpiTables
