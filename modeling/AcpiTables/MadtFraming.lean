import AcpiTables.Madt

/-!
# The framing of the MADT

The structures of a MADT by their types and lengths: one of eight bytes for each
CPU, one for the I/O APIC, one for the SCI, and the filling. The filling is
there when the length is to be compatible, and then the table has exactly that
length, since what is missing is a multiple of the six bytes of an entry.

`buildMadt_framed` is the result: the walk over the structures reaches the end of
the table, which is the end that the header gives. It holds of every configuration
that is built, also where the entries have lost the upper bits of an id.
-/

namespace AcpiTables

open MachineInt

/-- The type of a structure, and how many bytes it has. -/
def structureKind (s : Bytes) : ℕ × ℕ := (leValue (slice s 0 1), s.length)

theorem map_structureKind_madtRecords (config : PlatformConfig) (count : ℕ) :
    (madtRecords config count).map structureKind =
      List.replicate config.cpuApicIds.length (0, 8) ++ [(1, 12), (2, 10)] ++
        List.replicate count (4, 6) := by
  have hcpu : ∀ x : UInt32 × ℕ, structureKind (madtProcessor x.2 x.1) = (0, 8) := by
    intro x
    rw [structureKind, length_madtProcessor]
    rfl
  have hcpus : (madtCpus config).map structureKind =
      List.replicate config.cpuApicIds.length (0, 8) := by
    rw [madtCpus, List.map_map, List.eq_replicate_iff, List.length_map, List.length_zipIdx]
    refine ⟨rfl, fun kind hkind => ?_⟩
    obtain ⟨x, -, rfl⟩ := List.mem_map.mp hkind
    exact hcpu x
  have hioApic : structureKind (madtIoApic config) = (1, 12) := by
    have hlength : (madtIoApic config).length = 12 := by simp [madtIoApic]
    rw [structureKind, hlength]
    rfl
  have hoverride : structureKind (madtSciOverride config) = (2, 10) := by
    have hlength : (madtSciOverride config).length = 10 := by simp [madtSciOverride]
    rw [structureKind, hlength]
    rfl
  have hnmi : structureKind madtNmi = (4, 6) := by decide
  rw [madtRecords, List.map_append, List.map_append, hcpus, List.map_replicate, hnmi,
    List.map_cons, List.map_cons, List.map_nil, hioApic, hoverride]

section

variable {config : PlatformConfig}

/-- The length that is aimed at, of a configuration whose CPUs can be counted. -/
theorem targetMadtLen_eq_ok {target : Option UInt32} (h : config.targetMadtLen = .ok target)
    (hcpus : config.cpuApicIds.length < 4294967296) :
    ∃ len : UInt32, target = (if config.compatLengths then some len else none) ∧
      len.toNat = 222 + 8 * config.cpuApicIds.length := by
  obtain ⟨entries, hentries, h⟩ := Checked.bind_eq_ok.mp h
  obtain ⟨len, hlen, h⟩ := Checked.bind_eq_ok.mp h
  refine ⟨len, (Except.ok.inj h).symm, ?_⟩
  have hsum : toNat len = 222 + toNat entries := checkedAdd_eq_ok hlen
  have hproduct : toNat entries = 8 * toNat (UInt32.ofNat config.cpuApicIds.length) :=
    checkedMul_eq_ok hentries
  rw [hproduct, toNat_ofNat_u32 hcpus] at hsum
  exact hsum

/-- The filling: 26 entries, or none. -/
theorem appendCompatNmiEntries_front {filled : Bytes}
    (h : appendCompatNmiEntries (madtFront config) config = .ok filled)
    (hcpus : 66 + 8 * config.cpuApicIds.length < 4294967296) :
    ∃ target, config.targetMadtLen = .ok target ∧ filled = madtFront config ++
      (List.replicate (if config.compatLengths then 26 else 0) madtNmi).flatten := by
  obtain ⟨current, hcurrent, h⟩ := Checked.bind_eq_ok.mp h
  obtain ⟨target, htarget, h⟩ := Checked.bind_eq_ok.mp h
  refine ⟨target, htarget, ?_⟩
  obtain ⟨len, rfl, hlen⟩ := targetMadtLen_eq_ok htarget (by omega)
  have hfront := length_madtFront config
  have hcurrentNat : current.toNat = 66 + 8 * config.cpuApicIds.length := by
    have hsum : toNat current = 36 + toNat (UInt32.ofNat (madtFront config).length) :=
      checkedAdd_eq_ok hcurrent
    rw [toNat_ofNat_u32 (by omega), hfront] at hsum
    change toNat current = _
    omega
  cases hcompat : config.compatLengths with
  | false =>
    rw [hcompat] at h
    simpa using (Except.ok.inj h).symm
  | true =>
    rw [hcompat] at h
    have hshort : ¬ len ≤ current := by
      rw [UInt32.le_iff_toNat_le]
      omega
    have hle : toNat current ≤ toNat len := by
      change current.toNat ≤ len.toNat
      omega
    have hsub : checkedSub len current = .ok (ofNat (toNat len - toNat current)) := if_pos hle
    -- the 156 bytes that are missing, whatever the number of CPUs
    have hdifference : (ofNat (toNat len - toNat current) : UInt32).toNat = 156 := by
      have hlt : len.toNat - current.toNat < 4294967296 := by omega
      apply (toNat_ofNat_u32 hlt).trans
      omega
    dsimp only [if_true] at h
    rw [if_pos rfl] at h
    dsimp only at h
    rw [if_neg hshort, hsub, Checked.ok_bind, hdifference] at h
    exact (Except.ok.inj h).symm

end

/-- **The MADT is well framed**: its structures are found from byte 44 to the end,
and the end is where the header and the compatible length say. -/
theorem buildMadt_framed {config : PlatformConfig} {madt : Bytes} (h : buildMadt config = .ok madt)
    (hlength : madt.length < 4294967296) :
    (∃ structures count, madtStructures madt = some structures ∧
      structures.map structureKind = List.replicate config.cpuApicIds.length (0, 8) ++
        [(1, 12), (2, 10)] ++ List.replicate count (4, 6) ∧
      (config.compatLengths = false → count = 0)) ∧
    leValue (slice madt 4 4) = madt.length ∧
    (config.compatLengths = true →
      ∃ target, config.targetMadtLen = .ok (some target) ∧ madt.length = target.toNat) := by
  obtain ⟨body, hbody, htable⟩ := Checked.bind_eq_ok.mp h
  obtain rfl : finalizeTable (config.header (bstr "APIC") 3) body = madt := Except.ok.inj htable
  have hfilled : (madtFront config).length ≤ body.length := by
    obtain ⟨count, rfl⟩ := appendCompatNmiEntries_eq_ok hbody
    rw [List.length_append]
    exact Nat.le_add_right ..
  have hfront := length_madtFront config
  rw [length_finalizeTable] at hlength
  obtain ⟨target, htarget, rfl⟩ := appendCompatNmiEntries_front hbody (by omega)
  refine ⟨⟨_, _, madtStructures_madtTable config _, map_structureKind_madtRecords config _, ?_⟩,
    ?_, ?_⟩
  · intro hcompat
    rw [hcompat]
    rfl
  · exact (validTable_finalizeTable (config.header (bstr "APIC") 3) _ hlength).length_eq
  · intro hcompat
    obtain ⟨len, rfl, hlen⟩ := targetMadtLen_eq_ok htarget (by omega)
    rw [hcompat, if_pos rfl] at htarget
    refine ⟨len, htarget, ?_⟩
    rw [length_finalizeTable, List.length_append, length_nmis, hcompat, if_pos rfl, hfront, hlen]
    omega

theorem buildMadt_framed_q35 :
    ∃ madt, buildMadt (.intelTdxQ35 2) = .ok madt ∧
      (∃ structures count, madtStructures madt = some structures ∧
        structures.map structureKind =
          List.replicate (PlatformConfig.intelTdxQ35 2).cpuApicIds.length (0, 8) ++
            [(1, 12), (2, 10)] ++ List.replicate count (4, 6) ∧
        ((PlatformConfig.intelTdxQ35 2).compatLengths = false → count = 0)) ∧
      leValue (slice madt 4 4) = madt.length ∧
      ((PlatformConfig.intelTdxQ35 2).compatLengths = true →
        ∃ target, (PlatformConfig.intelTdxQ35 2).targetMadtLen = .ok (some target) ∧
          madt.length = target.toNat) := by
  have hcpus : (PlatformConfig.intelTdxQ35 2).cpuApicIds.length = 2 := by decide
  obtain ⟨madt, hmadt, hlength⟩ := @buildMadt_isOk (.intelTdxQ35 2) (by omega)
  exact ⟨madt, hmadt, buildMadt_framed hmadt (by omega)⟩

end AcpiTables
