import AcpiTables.BuildParts
import AcpiTables.VmDevices

/-!
# Descriptions that are built

A build from a CPU count, or from a description, returns exactly when there are
up to 1000 CPUs, whose devices have names of four characters, and up to 255 PCI
devices, whose positions fit a byte (`build_isOk_iff`). Sizes do not matter as
long as the blob fits in 32 bits (`LengthsFit`).

That a build returns comes from `BuildParts`, where its sizes are known; that it
does not, from the two places that stop it, the name of the 1001st CPU
(`cpus_le_of_build`) and the default of the 256th device. `build_fails` has a
description on either side of the limits.
-/

namespace AcpiTables

/-- The tables, with the RSDT behind them, fit in 32 bits. -/
def LengthsFit (config : PlatformConfig) : Prop :=
  ∀ dsdt fadt madt facsAddress dsdtAddress, buildDsdt config = .ok dsdt →
    buildFadtWithFacs config facsAddress dsdtAddress = .ok fadt → buildMadt config = .ok madt →
    (frontBytes config).length + (layChunks (mainChunks config dsdt fadt madt)).length +
      (36 + 4 * (listedChunks config fadt madt).length) < 4294967296

section Sizes

variable {config : PlatformConfig}

/-- **A build whose blob fits returns.** -/
theorem buildMinimalAcpi_isOk_of_fits (hcpus : config.cpuApicIds.length ≤ 1000)
    (hdevices : config.pciDevices.length < 134217728) (hio : config.pmIoBase.toNat + 8 < 65536)
    (hbase : config.blobBaseAddress.toNat + 4294967360 < 18446744073709551616)
    (hfits : LengthsFit config) : ∃ built, buildMinimalAcpi config = .ok built := by
  obtain ⟨dsdt, hdsdt, -⟩ := buildDsdt_isOk hcpus hdevices
  obtain ⟨madt, hmadt, -⟩ := @buildMadt_isOk config hcpus
  have hfront : (frontBytes config).length < 4294967296 := by
    rw [length_frontBytes]
    exact config.frontPadding.toNat_lt
  obtain ⟨facsAddress, dsdtAddress, fadt, hfacs, hdsdtAddress, hfadt⟩ :=
    exists_fadt hio (by omega)
  have hsize := hfits dsdt fadt madt facsAddress dsdtAddress hdsdt hfadt hmadt
  obtain ⟨parts, built, hbuilt, -⟩ :=
    exists_builtFrom hdsdt hfacs hdsdtAddress hfadt hmadt rfl hsize (by omega)
  exact ⟨built, buildMinimalAcpi_eq_ok.mpr ⟨parts, hbuilt⟩⟩

/-- What is built describes at most 1000 CPUs. -/
theorem cpus_le_of_build {built : BuiltBlob} (h : buildMinimalAcpi config = .ok built) :
    config.cpuApicIds.length ≤ 1000 := by
  obtain ⟨parts, hparts⟩ := buildMinimalAcpi_eq_ok.mp h
  exact (buildDsdt_eq_ok hparts.dsdt_ok).1

/-- All lengths fit when there are at most a thousand CPUs and the bound lies below
4 GiB. -/
theorem lengthsFit_of_blobBound (hcpus : config.cpuApicIds.length ≤ 1000)
    (hbound : blobBound config < 4294967296) : LengthsFit config := by
  intro dsdt fadt madt facsAddress dsdtAddress hdsdt hfadt hmadt
  rw [blobBound] at hbound
  obtain ⟨dsdt', hdsdt', hlength⟩ := buildDsdt_isOk hcpus (by omega)
  obtain rfl := Except.ok.inj (hdsdt.symm.trans hdsdt')
  obtain ⟨madt', hmadt', hmadtLength⟩ := @buildMadt_isOk config hcpus
  obtain rfl := Except.ok.inj (hmadt.symm.trans hmadt')
  have hlisted := length_listedChunks_le hcpus (pointers_of_buildFadt hfadt).1 hmadtLength
  have hcount := length_listedChunks_le_count config fadt madt
  rw [length_mainChunks, length_frontBytes]
  omega

end Sizes

namespace Vm

/-- There are as many APIC ids as CPUs. -/
theorem length_cpuApicIds (n : UInt32) :
    (PlatformConfig.intelTdxQ35 n).cpuApicIds.length = n.toNat := by
  rw [PlatformConfig.intelTdxQ35]
  dsimp only
  rw [List.length_map, List.length_range]

/-- The blob of the description fits in 32 bits. -/
def VmConfig.LengthsFit (vm : VmConfig) : Prop :=
  ∀ config, vm.platformConfig = .ok config → AcpiTables.LengthsFit config

/-- A number of CPUs that is built. -/
theorem build_cpus_isOk_iff (n : UInt32) :
    (∃ built, buildMinimalAcpi (.intelTdxQ35 n) = .ok built) ↔ n.toNat ≤ 1000 := by
  constructor
  · rintro ⟨built, hbuilt⟩
    rw [← length_cpuApicIds]
    exact cpus_le_of_build hbuilt
  · intro hcpus
    have hbound : blobBound (.intelTdxQ35 n) = 291400 + 322 * n.toNat := by
      rw [blobBound, length_cpuApicIds]
      change 0 + 291400 + 322 * n.toNat + 0 + 34 * 0 = _
      omega
    obtain ⟨built, hbuilt, -⟩ := @buildMinimalAcpi_total (.intelTdxQ35 n)
      (by rw [length_cpuApicIds]; exact hcpus)
      (show (0x1800 : UInt16).toNat + 8 < 65536 by decide) (by omega)
      (by
        change 0 + _ ≤ _
        omega)
    exact ⟨built, hbuilt⟩

/-- A description that is built. -/
theorem build_vm_isOk_iff {vm : VmConfig} (hfits : vm.LengthsFit) :
    (∃ built, (vm.platformConfig >>= buildMinimalAcpi) = .ok built) ↔
      vm.cpu.topology.cpus.toNat ≤ 1000 ∧ vm.pciDevices.length ≤ 255 := by
  have hcpuCount : vm.basePlatform.cpuApicIds.length = vm.cpu.topology.cpus.toNat :=
    length_cpuApicIds _
  constructor
  · rintro ⟨built, hbuilt⟩
    obtain ⟨config, hconfig, hbuilt⟩ := Checked.bind_eq_ok.mp hbuilt
    have hdevices := platformConfig_isOk_iff.mp ⟨config, hconfig⟩
    obtain ⟨devices, -, hplatform⟩ := platformConfig_eq hdevices
    have hids : config.cpuApicIds = vm.basePlatform.cpuApicIds := by
      rw [Except.ok.inj (hconfig.symm.trans hplatform)]
      rfl
    refine ⟨?_, hdevices⟩
    rw [← hcpuCount, ← hids]
    exact cpus_le_of_build hbuilt
  · rintro ⟨hcpus, hdevices⟩
    obtain ⟨devices, hrecords, hconfig⟩ := platformConfig_eq hdevices
    have hcount : (sortByDevfn devices).length = vm.pciDevices.length := by
      rw [(sortByDevfn_perm devices).length_eq, (getElem_of_records hrecords).1]
    rw [← hcpuCount] at hcpus
    have hlt : (sortByDevfn devices).length < 134217728 := by omega
    have hio : vm.basePlatform.pmIoBase.toNat + 8 < 65536 :=
      show (0x1800 : UInt16).toNat + 8 < 65536 by decide
    have hbase : vm.basePlatform.blobBaseAddress.toNat + 4294967360 < 18446744073709551616 :=
      show (0 : UInt64).toNat + 4294967360 < 18446744073709551616 by decide
    obtain ⟨built, hbuilt⟩ := @buildMinimalAcpi_isOk_of_fits
      (vm.basePlatform.withDevices (sortByDevfn devices)) hcpus hlt hio hbase (hfits _ hconfig)
    exact ⟨built, Checked.bind_eq_ok.mpr ⟨_, hconfig, hbuilt⟩⟩

/-- **What is built**: up to 1000 CPUs, and in a description up to 255 PCI
devices. The 1001st CPU has no name of four characters, and the 256th device
position is past the byte that its default address comes from; for the lengths, the
blob is taken to fit in 32 bits. -/
theorem build_isOk_iff (n : UInt32) {vm : VmConfig} (hfits : vm.LengthsFit) :
    ((∃ built, buildMinimalAcpi (.intelTdxQ35 n) = .ok built) ↔ n.toNat ≤ 1000) ∧
      ((∃ built, (vm.platformConfig >>= buildMinimalAcpi) = .ok built) ↔
        vm.cpu.topology.cpus.toNat ≤ 1000 ∧ vm.pciDevices.length ≤ 255) :=
  ⟨build_cpus_isOk_iff n, build_vm_isOk_iff hfits⟩

/-- The lengths of the two devices fit. -/
theorem lengthsFit_netAndDisk : VmConfig.netAndDisk.LengthsFit := by
  have hplatform : VmConfig.netAndDisk.platformConfig =
      .ok (VmConfig.netAndDisk.basePlatform.withDevices
        [⟨"virtio-net-pci", none, none, 0x08⟩, ⟨"virtio-blk-pci", none, none, 0x08⟩]) := rfl
  intro config hconfig
  rw [Except.ok.inj (hconfig.symm.trans hplatform)]
  exact lengthsFit_of_blobBound (by decide) (by decide)

theorem build_isOk_netAndDisk :
    ((∃ built, buildMinimalAcpi (.intelTdxQ35 7) = .ok built) ↔ (7 : UInt32).toNat ≤ 1000) ∧
      ((∃ built, (VmConfig.netAndDisk.platformConfig >>= buildMinimalAcpi) = .ok built) ↔
        VmConfig.netAndDisk.cpu.topology.cpus.toNat ≤ 1000 ∧
          VmConfig.netAndDisk.pciDevices.length ≤ 255) :=
  build_isOk_iff 7 lengthsFit_netAndDisk

/-- One CPU or one device more than there are names and positions for. -/
theorem build_fails :
    (¬ ∃ built, buildMinimalAcpi (.intelTdxQ35 1001) = .ok built) ∧
      (VmConfig.q35 .empty (List.replicate 256 ⟨"virtio-net-pci", .empty⟩)).platformConfig =
        .error .overflow := by
  constructor
  · rw [build_cpus_isOk_iff]
    decide
  · exact platformConfig_eq_error (by decide +kernel)

end Vm

end AcpiTables
