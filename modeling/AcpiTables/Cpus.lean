import AcpiTables.DsdtParse
import AcpiTables.Madt

/-!
# Three descriptions of a CPU

A CPU has an entry in the MADT, and a device in the DSDT with a `_UID` and a
`_MAT`: the local APIC structure that the entry stands for. All three are read
here; what is written to `_MAT` has its numbers in another order than the
structure it announces.

The device lies in the bytes of the DSDT (`cpu_infix_dsdt`), and is read back as one
term with its own name and children (`decodeTermList_cpu`, `deviceOf_cpu`). Read as
an x2APIC structure, its `_MAT` tells of the processor 1, whatever the CPU is
(`readX2apic_cpuMat`); hence the one case in which the descriptions agree,
`cpu_agreement_iff`, and `cpu_disagreement_first`.
-/

namespace AcpiTables

open MachineInt

/-! ## Reading a CPU device -/

/-- The name of a device and what is declared in it. -/
def deviceOf : Term → Option (Bytes × List Term)
  | .node .device [.ref ⟨false, 0, [name]⟩] body => some (name, body)
  | _ => none

/-- The bytes of a buffer of its stated size. -/
def bufferOf : Term → Option Bytes
  | .node .buffer [.int size] [.bytes data] => if size = data.length then some data else none
  | _ => none

/-- Read a processor local x2APIC structure: type 9, sixteen bytes. -/
def readX2apic (s : Bytes) : Option ProcessorEntry :=
  if s.length = 16 ∧ slice s 0 2 = [9, 16] then
    some {
      uid := leValue (slice s 12 4)
      apicId := leValue (slice s 4 4)
      enabled := leValue (slice s 8 4) % 2 = 1 }
  else none

/-- The structures that the `_MAT` objects of a device hold. -/
def matOf (body : List Term) : List (Option ProcessorEntry) :=
  (valuesOf (asBytes "_MAT") body).map fun value => (bufferOf value).bind readX2apic

/-- The three descriptions of a CPU give its index and its APIC id, enabled. -/
structure CpuAgreement (madt : Bytes) (body : List Term) (uid : ℕ) (apicId : UInt32) : Prop where
  entry : (madtProcessors madt).bind (·[uid]?) = some ⟨uid, apicId.toNat, true⟩
  object : valuesOf (asBytes "_UID") body = [.int uid]
  mat : matOf body = [some ⟨uid, apicId.toNat, true⟩]

/-! ## What they say -/

/-- A CPU device is read back as a device with its own name and children. -/
theorem deviceOf_cpu {uid : ℕ} (apicId : UInt32) (h : uid < 1000) :
    deviceOf (cpuTree uid apicId).toTerm =
      some (asBytes (cpuDeviceName uid), (cpuTree uid apicId).children.map AmlTree.toTerm) := by
  rw [cpuTree, AmlTree.toTerm, Path.nameString_seg ((isSegName_cpuDeviceName uid).mpr h).1,
    AmlTree.toTerms_eq]
  rfl

/-- Read as an x2APIC structure, the bytes of a `_MAT` tell of a processor with UID
1, the index of the CPU as its APIC id, and enabled when the real APIC id is odd. -/
theorem readX2apic_cpuMat (apicId uid : UInt32) :
    readX2apic (cpuMat apicId uid) = some ⟨1, uid.toNat, apicId.toNat % 2 = 1⟩ := by
  have hlength : (cpuMat apicId uid).length = 16 := by simp [cpuMat]
  have hhead : slice (cpuMat apicId uid) 0 2 = [9, 16] := rfl
  have hone : slice (cpuMat apicId uid) 12 4 = toLeBytes (1 : UInt32) := rfl
  have huid : slice (cpuMat apicId uid) 4 4 = toLeBytes uid := rfl
  have hapicId : slice (cpuMat apicId uid) 8 4 = toLeBytes apicId := rfl
  rw [readX2apic, if_pos ⟨hlength, hhead⟩, hone, huid, hapicId, leValue_toLeBytes,
    leValue_toLeBytes, leValue_toLeBytes]
  rfl

/-- The `_MAT` among the children of a CPU device is found and read. -/
theorem matOf_cpu (uid : ℕ) (apicId : UInt32) :
    matOf ((cpuTree uid apicId).children.map AmlTree.toTerm) =
      [some ⟨1, (UInt32.ofNat uid).toNat, apicId.toNat % 2 = 1⟩] := by
  have hbuffer : bufferOf (AmlTree.bufferData (cpuMat apicId (UInt32.ofNat uid))).toTerm =
      some (cpuMat apicId (UInt32.ofNat uid)) := by
    rw [AmlTree.toTerm, bufferOf, if_pos rfl]
  rw [matOf, cpuTree, AmlTree.children]
  simp only [List.map_cons, List.map_nil]
  rw [valuesOf_seg _ (by decide), valuesOf_seg _ (by decide), valuesOf_seg _ (by decide),
    valuesOf_seg _ (by decide), if_neg (by decide), if_neg (by decide), if_neg (by decide),
    if_pos rfl]
  simp only [List.nil_append, List.map_append, List.map_cons, List.map_nil, hbuffer,
    Option.bind_some, readX2apic_cpuMat]
  rfl

/-- The bytes of a CPU device are read back as this one term. -/
theorem decodeTermList_cpu {uid : ℕ} (apicId : UInt32) (h : uid < 1000) :
    decodeTermList (cpuTree uid apicId).encode = some [(cpuTree uid apicId).toTerm] := by
  have hlength := length_cpu_le uid apicId
  have hregular : ∀ t ∈ [cpuTree uid apicId], t.Everywhere AmlTree.RegularHere :=
    List.forall_mem_singleton.mpr (cpu_regular apicId h)
  have hlist := AmlTree.decodeTermList_encode hregular (by rw [List.flatMap_singleton]; omega)
  rwa [List.flatMap_singleton] at hlist

/-- The bytes of a CPU's device are found in the DSDT. -/
theorem cpu_infix_dsdt {config : PlatformConfig} {dsdt : Bytes} (h : buildDsdt config = .ok dsdt)
    {uid : ℕ} {apicId : UInt32} (hcpu : config.cpuApicIds[uid]? = some apicId) :
    (cpuTree uid apicId).encode <:+: dsdt := by
  refine infix_dsdt_of_mem_rootScope h (List.mem_append_left _ (List.mem_cons_of_mem _ ?_))
  exact List.mem_map.mpr ⟨(apicId, uid), List.mem_zipIdx_iff_getElem?.mpr hcpu, rfl⟩

/-- **The descriptions of a CPU** agree for the second CPU when its APIC id is one,
and for no other. The object of the CPU lies in the DSDT and is read back from its
bytes; its `_MAT` has index, id and one where the structure has id, flags and
index. -/
theorem cpu_agreement_iff {config : PlatformConfig} (hcpus : config.cpuApicIds.length ≤ 255)
    (hids : ∀ apicId ∈ config.cpuApicIds, apicId.toNat < 255) {dsdt madt : Bytes}
    (hdsdt : buildDsdt config = .ok dsdt) (hmadt : buildMadt config = .ok madt) {uid : ℕ}
    {apicId : UInt32} (hcpu : config.cpuApicIds[uid]? = some apicId) :
    ∃ bytes t body, buildCpuDevice uid apicId = .ok bytes ∧ bytes <:+: dsdt ∧
      decodeTermList bytes = some [t] ∧ deviceOf t = some (asBytes (cpuDeviceName uid), body) ∧
      (CpuAgreement madt body uid apicId ↔ uid = 1 ∧ apicId = 1) := by
  have huid : uid < config.cpuApicIds.length := (List.getElem?_eq_some_iff.mp hcpu).1
  have hid := hids apicId (List.mem_of_getElem? hcpu)
  have huidNat : (UInt32.ofNat uid).toNat = uid :=
    UInt32.toNat_ofNat_of_lt' (by rw [UInt32.size]; omega)
  refine ⟨_, _, _, buildCpuDevice_eq apicId (by omega), cpu_infix_dsdt hdsdt hcpu,
    decodeTermList_cpu apicId (by omega), deviceOf_cpu apicId (by omega), ?_⟩
  have hobject : valuesOf (asBytes "_UID") ((cpuTree uid apicId).children.map AmlTree.toTerm) =
      [.int uid] := congrArg Prod.snd (uidField_cpu apicId (by omega))
  have hentry : (madtProcessors madt).bind (·[uid]?) = some ⟨uid, apicId.toNat, true⟩ := by
    rw [madtProcessors_buildMadt hmadt, Option.bind_some, List.getElem?_map,
      List.getElem?_zipIdx, hcpu]
    simp only [Option.map_some, Nat.zero_add]
    rw [Nat.mod_eq_of_lt (by omega), Nat.mod_eq_of_lt (by omega)]
  constructor
  · intro h
    have hmat := h.mat
    rw [matOf_cpu, huidNat] at hmat
    obtain ⟨hone, hapicId, -⟩ :=
      ProcessorEntry.mk.injEq .. ▸ Option.some.inj (List.singleton_inj.mp hmat)
    exact ⟨hone.symm, UInt32.toNat_inj.mp (hapicId.symm.trans hone.symm)⟩
  · rintro ⟨rfl, rfl⟩
    exact ⟨hentry, hobject, matOf_cpu 1 1⟩

theorem cpu_agreement_twoDisks :
    ∃ dsdt madt bytes t body, buildDsdt .twoDisks = .ok dsdt ∧ buildMadt .twoDisks = .ok madt ∧
      bytes <:+: dsdt ∧ decodeTermList bytes = some [t] ∧
      deviceOf t = some (asBytes "C001", body) ∧ CpuAgreement madt body 1 1 := by
  obtain ⟨dsdt, hdsdt, -⟩ := buildDsdt_twoDisks
  obtain ⟨madt, hmadt, -⟩ := @buildMadt_isOk .twoDisks (by decide)
  obtain ⟨bytes, t, body, -, hinfix, hparse, hdevice, hiff⟩ :=
    @cpu_agreement_iff .twoDisks (by decide) (forall_mem_of_all (by decide)) dsdt madt hdsdt hmadt
      1 1 rfl
  exact ⟨dsdt, madt, bytes, t, body, hdsdt, hmadt, hinfix, hparse, hdevice, hiff.mpr ⟨rfl, rfl⟩⟩

/-- The `_MAT` of the first CPU names another one, and is not enabled. -/
theorem cpu_disagreement_first :
    ∃ dsdt madt bytes t body, buildDsdt .twoDisks = .ok dsdt ∧ buildMadt .twoDisks = .ok madt ∧
      bytes <:+: dsdt ∧ decodeTermList bytes = some [t] ∧
      deviceOf t = some (asBytes "C000", body) ∧ matOf body = [some ⟨1, 0, false⟩] ∧
      ¬CpuAgreement madt body 0 0 := by
  obtain ⟨dsdt, hdsdt, -⟩ := buildDsdt_twoDisks
  obtain ⟨madt, hmadt, -⟩ := @buildMadt_isOk .twoDisks (by decide)
  have hmat := matOf_cpu 0 0
  refine ⟨dsdt, madt, _, _, _, hdsdt, hmadt, @cpu_infix_dsdt .twoDisks dsdt hdsdt 0 0 rfl,
    decodeTermList_cpu 0 (by decide), deviceOf_cpu 0 (by decide), hmat, fun hagree => ?_⟩
  have hother := hagree.mat
  rw [hmat] at hother
  exact absurd hother (by decide)

end AcpiTables
