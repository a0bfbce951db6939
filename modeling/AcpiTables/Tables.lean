import AcpiTables.Header

/-!
# The fixed tables

The builders of the tables that are filled from front to back. FACS and the RSDP
have a layout of their own; the others are a header and a body, so they are valid
tables of a length that the body determines. Beside each builder stand its length
and, where it can fail, when it returns: the MADT needs the length of its CPUs in
32 bits (`buildMadt_isOk`).
-/

namespace AcpiTables

open MachineInt

/-! ## FACS and RSDP -/

/-- Append a 32-bit value, the lowest byte first. -/
def appendU32Le (buf : Bytes) (value : UInt32) : Bytes := buf ++ toLeBytes value

/-- The firmware control structure: 64 bytes, all zero behind the signature and the
length. -/
def buildFacs : Checked Bytes := do
  let facs : Bytes := []
  let facs := facs ++ asBytes "FACS"
  let facs := appendU32Le facs 64
  let facs := appendU32Le facs 0
  let facs := appendU32Le facs 0
  let facs := appendU32Le facs 0
  let facs := appendU32Le facs 0
  let facs := facs ++ List.replicate 40 0
  ensure (facs.length = 64) .assertion
  return facs

/-- The bytes of FACS: signature, length, and zeros. -/
def facsBytes : Bytes := asBytes "FACS" ++ toLeBytes (64 : UInt32) ++ List.replicate 56 0

/-- FACS always returns, with the bytes of `facsBytes`. -/
theorem buildFacs_eq : buildFacs = .ok facsBytes := by
  decide +kernel

/-- FACS has the length it announces. -/
theorem length_facsBytes : facsBytes.length = 64 := by decide

/-- The root pointer: the checksum is set last, over the twenty bytes. -/
def buildRsdp (config : PlatformConfig) (rsdtAddress : UInt64) : Bytes :=
  let rsdp := asBytes "RSD PTR " ++ [0] ++ config.oemId.toList ++ [0] ++
    toLeBytes rsdtAddress.toUInt32
  patch rsdp 8 [acpiChecksum rsdp]

/-- The root pointer, whatever its checksum is: everything else stands where it is
put. -/
theorem buildRsdp_eq (config : PlatformConfig) (rsdtAddress : UInt64) :
    ∃ checksum, buildRsdp config rsdtAddress =
      (asBytes "RSD PTR " ++ [checksum] ++ config.oemId.toList ++ [0]) ++
        toLeBytes rsdtAddress.toUInt32 := by
  let rsdp := asBytes "RSD PTR " ++ [0] ++ config.oemId.toList ++ [0] ++
    toLeBytes rsdtAddress.toUInt32
  refine ⟨acpiChecksum rsdp, ?_⟩
  have hmid : patch _ 8 [acpiChecksum rsdp] = _ :=
    @patch_mid (asBytes "RSD PTR ") [0] (config.oemId.toList ++ [0] ++
      toLeBytes rsdtAddress.toUInt32) [acpiChecksum rsdp] rfl
  simp only [← List.append_assoc] at hmid ⊢
  exact hmid

/-- The pointer of the root pointer structure. -/
theorem slice_buildRsdp (config : PlatformConfig) (rsdtAddress : UInt64) :
    slice (buildRsdp config rsdtAddress) 16 4 = toLeBytes rsdtAddress.toUInt32 := by
  obtain ⟨checksum, heq⟩ := buildRsdp_eq config rsdtAddress
  set front := asBytes "RSD PTR " ++ [checksum] ++ config.oemId.toList ++ [0] with hfront
  have hlen : front.length = 16 := by
    have hsig : (asBytes "RSD PTR ").length = 8 := by decide
    simp [hfront, hsig]
  have hmid := slice_mid front (toLeBytes rsdtAddress.toUInt32) []
  rw [List.append_nil, hlen, length_toLeBytes, width_u32] at hmid
  rw [heq, hmid]

/-- The root pointer of the first revision takes twenty bytes. -/
theorem length_buildRsdp (config : PlatformConfig) (rsdtAddress : UInt64) :
    (buildRsdp config rsdtAddress).length = 20 := by
  obtain ⟨checksum, heq⟩ := buildRsdp_eq config rsdtAddress
  have hsig : (asBytes "RSD PTR ").length = 8 := by decide
  simp [heq, hsig]

/-! ## Tables with a header -/

/-- The flag that one read of the power management timer can be relied on. -/
def waetFlagAcpiPmTimerGood : UInt32 := (1 : UInt32) <<< 1

/-- WAET: the one flag behind the header. -/
def buildWaet (config : PlatformConfig) : Bytes :=
  finalizeTable (config.header (bstr "WAET") 1) (toLeBytes waetFlagAcpiPmTimerGood)

/-- Where the HPET is mapped. -/
def hpetBaseAddress : UInt64 := 0xfed00000

/-- The id of the HPET's block of timers. -/
def hpetEventTimerBlockId : UInt32 := 0x8086a201

/-- The HPET table behind its header. -/
def hpetBody : Bytes :=
  toLeBytes hpetEventTimerBlockId ++ [0] ++ [0] ++ [0] ++ [0] ++ toLeBytes hpetBaseAddress ++ [0] ++
    toLeBytes (0 : UInt16) ++ [0]

/-- The HPET table. -/
def buildHpet (config : PlatformConfig) : Bytes :=
  finalizeTable (config.header (bstr "HPET") 1) hpetBody

/-- MCFG behind its header: the one segment of the enhanced configuration space. -/
def mcfgBody (config : PlatformConfig) : Bytes :=
  List.replicate 8 0 ++ toLeBytes config.pciEcamBase ++ toLeBytes config.pciSegment ++
    [config.pciBusStart] ++ [config.pciBusEnd] ++ List.replicate 4 0

/-- MCFG. -/
def buildMcfg (config : PlatformConfig) : Bytes :=
  finalizeTable (config.header (bstr "MCFG") 1) (mcfgBody config)

/-- Addresses are kept in four bytes. -/
def rsdtBody (entries : List UInt64) : Bytes :=
  entries.flatMap fun entry => toLeBytes entry.toUInt32

/-- The root table: the addresses of the tables, each cut to 32 bits. -/
def buildRsdt (config : PlatformConfig) (entries : List UInt64) : Bytes :=
  finalizeTable (config.header (bstr "RSDT") 1) (rsdtBody entries)

/-- Each entry of the root table takes four bytes. -/
theorem length_rsdtBody (entries : List UInt64) :
    (rsdtBody entries).length = 4 * entries.length := by
  induction entries with
  | nil => rfl
  | cons entry entries ih =>
    rw [rsdtBody, List.flatMap_cons, List.length_append, length_toLeBytes, width_u32,
      List.length_cons, Nat.mul_add, Nat.add_comm]
    exact congrArg (· + 4) ih

section

variable (config : PlatformConfig)

/-- WAET takes 40 bytes. -/
theorem length_buildWaet : (buildWaet config).length = 40 := by
  rw [buildWaet, length_finalizeTable, length_toLeBytes, width_u32]

/-- The HPET table takes 20 bytes behind its header. -/
theorem length_hpetBody : hpetBody.length = 20 := by decide

/-- The HPET table takes 56 bytes. -/
theorem length_buildHpet : (buildHpet config).length = 56 := by
  rw [buildHpet, length_finalizeTable, length_hpetBody]

/-- MCFG takes 24 bytes behind its header. -/
theorem length_mcfgBody : (mcfgBody config).length = 24 := by
  simp [mcfgBody]

/-- MCFG takes 60 bytes. -/
theorem length_buildMcfg : (buildMcfg config).length = 60 := by
  rw [buildMcfg, length_finalizeTable, length_mcfgBody]

/-- The root table takes 36 bytes and four for each entry. -/
theorem length_buildRsdt (entries : List UInt64) :
    (buildRsdt config entries).length = 36 + 4 * entries.length := by
  rw [buildRsdt, length_finalizeTable, length_rsdtBody]

/-- What the RSDT points at. -/
theorem drop_buildRsdt (entries : List UInt64) :
    (buildRsdt config entries).drop 36 = rsdtBody entries :=
  drop_finalizeTable ..

end

/-! ## MADT -/

/-- The flag that the machine also has the two legacy interrupt controllers. -/
def madtFlagPcatCompat : UInt32 := 1

/-- A processor entry: its UID and its APIC id, each cut to a byte, enabled. -/
def madtProcessor (uid : ℕ) (apicId : UInt32) : Bytes :=
  [0] ++ [8] ++ [UInt8.ofNat uid] ++ [apicId.toUInt8] ++ toLeBytes (1 : UInt32)

/-- An entry of six bytes: the non-maskable interrupt of all processors. -/
def madtNmi : Bytes := [4] ++ [6] ++ [0xff] ++ toLeBytes (0x0005 : UInt16) ++ [1]

/-- Fill the table up to its target length with entries of six bytes. -/
def appendCompatNmiEntries (body : Bytes) (config : PlatformConfig) : Checked Bytes := do
  let currentTotalLen ← checkedAdd (36 : UInt32) (UInt32.ofNat body.length)
  match ← config.targetMadtLen with
  | none => return body
  | some targetTotalLen =>
    if targetTotalLen ≤ currentTotalLen then return body
    let extra := (← checkedSub targetTotalLen currentTotalLen).toNat
    let entryCount := extra / 6
    return body ++ (List.replicate entryCount madtNmi).flatten

/-- The body in front of the filling. -/
def madtFront (config : PlatformConfig) : Bytes :=
  toLeBytes config.localApicAddress ++ toLeBytes madtFlagPcatCompat ++
    (config.cpuApicIds.zipIdx.flatMap fun (apicId, uid) => madtProcessor uid apicId) ++
    ([1] ++ [12] ++ [config.ioapicId] ++ [0] ++ toLeBytes config.ioapicAddress ++
      toLeBytes config.ioapicGsiBase) ++
    ([2] ++ [10] ++ [0] ++ [config.sciIrq.toUInt8] ++ toLeBytes config.sciIrq.toUInt32 ++
      toLeBytes (0x000d : UInt16))

/-- MADT: the front, filled up to the target length, behind its header. -/
def buildMadt (config : PlatformConfig) : Checked Bytes := do
  let header := config.header (bstr "APIC") 3
  let body := madtFront config
  let body ← appendCompatNmiEntries body config
  return finalizeTable header body

section

variable {config : PlatformConfig}

/-- A processor entry takes eight bytes, as its own length byte says. -/
theorem length_madtProcessor (uid : ℕ) (apicId : UInt32) :
    (madtProcessor uid apicId).length = 8 := by
  simp [madtProcessor]

/-- The processor entries take eight bytes each. -/
theorem length_madtProcessors (cpus : List (UInt32 × ℕ)) :
    (cpus.flatMap fun (apicId, uid) => madtProcessor uid apicId).length = 8 * cpus.length := by
  induction cpus with
  | nil => rfl
  | cons cpu cpus ih =>
    rw [List.flatMap_cons, List.length_append, ih, length_madtProcessor, List.length_cons]
    omega

/-- The front takes thirty bytes and eight for each CPU. -/
theorem length_madtFront (config : PlatformConfig) :
    (madtFront config).length = 30 + 8 * config.cpuApicIds.length := by
  have hcpus := length_madtProcessors config.cpuApicIds.zipIdx
  rw [List.length_zipIdx] at hcpus
  rw [madtFront, List.length_append, List.length_append, List.length_append, hcpus]
  simp
  omega

/-- The filling is entries of six bytes, up to the target at most. -/
theorem appendCompatNmiEntries_eq_ok {body filled : Bytes}
    (h : appendCompatNmiEntries body config = .ok filled) :
    ∃ count, filled = body ++ (List.replicate count madtNmi).flatten := by
  obtain ⟨current, -, h⟩ := Checked.bind_eq_ok.mp h
  obtain ⟨target, -, h⟩ := Checked.bind_eq_ok.mp h
  cases target with
  | none => exact ⟨0, by simpa using (Except.ok.inj h).symm⟩
  | some target =>
    dsimp only at h
    split at h
    · exact ⟨0, by simpa using (Except.ok.inj h).symm⟩
    · obtain ⟨difference, -, h⟩ := Checked.bind_eq_ok.mp h
      exact ⟨_, (Except.ok.inj h).symm⟩

/-- What a MADT that was built is made of. -/
theorem buildMadt_eq_ok {madt : Bytes} (h : buildMadt config = .ok madt) :
    ∃ count, madt = finalizeTable (config.header (bstr "APIC") 3)
      (madtFront config ++ (List.replicate count madtNmi).flatten) := by
  obtain ⟨body, hbody, htable⟩ := Checked.bind_eq_ok.mp h
  obtain ⟨count, rfl⟩ := appendCompatNmiEntries_eq_ok hbody
  exact ⟨count, (Except.ok.inj htable).symm⟩

/-- The filling takes six bytes for each entry. -/
theorem length_nmis (count : ℕ) : ((List.replicate count madtNmi).flatten).length = count * 6 := by
  have hnmi : madtNmi.length = 6 := by decide
  rw [List.length_flatten, List.map_replicate, List.sum_replicate, hnmi]
  rfl

/-- The target of the MADT, for at most a thousand CPUs. -/
theorem targetMadtLen_isOk (hcpus : config.cpuApicIds.length ≤ 1000) :
    ∃ target : UInt32,
      config.targetMadtLen = .ok (if config.compatLengths then some target else none) ∧
      target.toNat = 222 + 8 * config.cpuApicIds.length := by
  have hcpuNat : toNat (UInt32.ofNat config.cpuApicIds.length) = config.cpuApicIds.length :=
    toNat_ofNat_u32 (by omega)
  have h8 : toNat (8 : UInt32) = 8 := rfl
  have h222 : toNat (222 : UInt32) = 222 := rfl
  obtain ⟨entries, hentries, hentriesNat⟩ := checkedMul_isOk (x := (8 : UInt32))
    (y := UInt32.ofNat config.cpuApicIds.length) (by simp only [width_u32, h8]; omega)
  rw [h8, hcpuNat] at hentriesNat
  obtain ⟨target, htarget, htargetNat⟩ := checkedAdd_isOk (x := (222 : UInt32)) (y := entries)
    (by simp only [width_u32, h222]; omega)
  rw [h222, hentriesNat] at htargetNat
  refine ⟨target, ?_, htargetNat⟩
  rw [PlatformConfig.targetMadtLen, hentries, Checked.ok_bind, htarget, Checked.ok_bind,
    Checked.pure_eq]

/-- The filler entries end at the target. -/
theorem appendCompatNmiEntries_isOk (hcpus : config.cpuApicIds.length ≤ 1000) :
    ∃ filled, appendCompatNmiEntries (madtFront config) config = .ok filled ∧
      filled.length ≤ 9000 := by
  have hfront := length_madtFront config
  have hbodyNat : toNat (UInt32.ofNat (madtFront config).length) = (madtFront config).length :=
    toNat_ofNat_u32 (by omega)
  have h36 : toNat (36 : UInt32) = 36 := rfl
  obtain ⟨target, htarget, htargetNat⟩ := targetMadtLen_isOk hcpus
  obtain ⟨current, hcurrent, hcurrentNat⟩ := checkedAdd_isOk (x := (36 : UInt32))
    (y := UInt32.ofNat (madtFront config).length) (by simp only [width_u32, h36]; omega)
  rw [h36, hbodyNat] at hcurrentNat
  rw [appendCompatNmiEntries, hcurrent, Checked.ok_bind, htarget, Checked.ok_bind]
  cases config.compatLengths with
  | false => exact ⟨_, rfl, by omega⟩
  | true =>
    rw [if_pos rfl]
    dsimp only
    split
    · exact ⟨_, rfl, by omega⟩
    · rename_i hlt
      -- short of the target: the difference is divided by the size of an entry
      have hle : toNat current ≤ toNat target := by
        have : current < target := UInt32.not_le.mp hlt
        exact Nat.le_of_lt (UInt32.lt_iff_toNat_lt.mp this)
      have hsub : checkedSub target current =
          .ok (MachineInt.ofNat (toNat target - toNat current)) := if_pos hle
      have htargetNat' : toNat target = target.toNat := rfl
      rw [hsub, Checked.ok_bind]
      refine ⟨_, rfl, ?_⟩
      have hdiff : (MachineInt.ofNat (toNat target - toNat current) : UInt32).toNat =
          toNat target - toNat current := toNat_ofNat_u32 (by omega)
      rw [List.length_append, length_nmis, hdiff]
      omega

/-- A MADT for at most a thousand CPUs is built. -/
theorem buildMadt_isOk (hcpus : config.cpuApicIds.length ≤ 1000) :
    ∃ madt, buildMadt config = .ok madt ∧ madt.length ≤ 10000 := by
  obtain ⟨filled, hfilled, hlen⟩ := appendCompatNmiEntries_isOk hcpus
  refine ⟨finalizeTable (config.header (bstr "APIC") 3) filled, ?_, ?_⟩
  · rw [buildMadt, hfilled]
    rfl
  · rw [length_finalizeTable]
    omega

end

end AcpiTables
