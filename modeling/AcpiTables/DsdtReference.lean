import AcpiTables.DsdtParse
import AcpiTables.TreeReference

/-!
# The DSDT and its reference

The calls of `aml-build.c` for the objects of the DSDT pass the assertions of
that library for every configuration the table is built for, and append the body
of the table (`buildDsdt_matches_reference`). The ids of the devices have to end
where their strings do, since the reference takes C strings.

What the two generators write for a tree is compared in `TreeReference`, under a
condition on its nodes. Here that condition, `AmlTree.BuiltHere`, is shown of every
object of the body, a kind of object at a time (`built_bodyTrees`); the routing,
which is the same in every configuration, is evaluated node by node.
-/

namespace AcpiTables

open AmlTree (seg everywhereWithin everywhere_of_within SpelledHere AcceptedHere WideHere)

/-- A node that the reference has a call for and accepts, and that is no narrow
identifier. -/
def AmlTree.BuiltHere (t : AmlTree) : Prop := t.SpelledHere ∧ t.AcceptedHere ∧ t.WideHere

/-- `BuiltHere` can be decided on a node, constructor by constructor. -/
instance : DecidablePred AmlTree.BuiltHere := fun t =>
  inferInstanceAs (Decidable (t.SpelledHere ∧ t.AcceptedHere ∧ t.WideHere))

open AmlTree (BuiltHere)

/-! ## Names -/

/-- The characters of a name are not part of the syntax of paths. -/
theorem isNameChar_plain {b : UInt8} (h : isNameChar b = true) :
    b ∉ ([0x00, 0x2e, 0x5c, 0x5e] : Bytes) := by
  have hall : ∀ n < 256, isNameChar (UInt8.ofNat n) = true →
      UInt8.ofNat n ∉ ([0x00, 0x2e, 0x5c, 0x5e] : Bytes) := by decide +kernel
  have hb := hall b.toNat b.toNat_lt
  rw [UInt8.ofNat_toNat] at hb
  exact hb h

/-- The bytes of a name segment are those of names: no separator, no root and no
parent sign among them. -/
theorem isNameChar_of_mem {seg : Bytes} (h : isNameSeg seg = true) {b : UInt8} (hb : b ∈ seg) :
    isNameChar b = true := by
  match seg, h with
  | [w, x, y, z], h =>
    simp only [isNameSeg, Bool.and_eq_true] at h
    obtain ⟨⟨⟨hw, hx⟩, hy⟩, hz⟩ := h
    simp only [List.mem_cons, List.not_mem_nil, or_false] at hb
    rcases hb with rfl | rfl | rfl | rfl
    · rw [isNameChar, hw, Bool.true_or]
    · exact hx
    · exact hy
    · exact hz

/-- A name of the grammar can be spelled, and counted. -/
theorem Path.Valid.accepted {path : Path} (h : path.Valid) : path.Accepted where
  pos := List.length_pos_iff.mpr h.ne_nil
  length_le := h.length_le
  plain part hpart _ hb := isNameChar_plain (isNameChar_of_mem (h.segs part hpart) hb)

/-! ## The objects -/

namespace AmlTree

/-- The one name of a node is spelled, and counted. -/
theorem spelled_of_paths {t : AmlTree} {path : Path} (hpaths : t.paths = [path])
    (hpath : path.Valid) :
    (∀ p ∈ t.paths, p.Spelled) ∧ ∀ p ∈ t.paths, p.nameParts.length ≤ 255 := by
  rw [hpaths]
  exact ⟨List.forall_mem_singleton.mpr hpath.accepted.toSpelled,
    List.forall_mem_singleton.mpr hpath.accepted.length_le⟩

/-- A node without children is built by the reference when it satisfies the
condition itself. -/
theorem built_leaf {t : AmlTree} (hleaf : t.children = []) (h : t.BuiltHere) :
    t.Everywhere BuiltHere :=
  .node h fun c hc => by simp [hleaf] at hc

/-- A name that is declared is built when its value is. -/
theorem built_seg {name : String} {inner : AmlTree} (hname : isNameSeg (asBytes name) = true)
    (h : inner.Everywhere BuiltHere) : (seg name inner).Everywhere BuiltHere :=
  have hpaths := spelled_of_paths (t := seg name inner) rfl (Path.valid_seg hname)
  .node ⟨⟨hpaths.1, trivial⟩, ⟨hpaths.2, trivial⟩, trivial⟩ (List.forall_mem_singleton.mpr h)

/-- A device with a name segment is built when its children are. -/
theorem built_device {name : String} {ts : List AmlTree} (hname : isNameSeg (asBytes name) = true)
    (h : ∀ t ∈ ts, t.Everywhere BuiltHere) : (device (.seg name) ts).Everywhere BuiltHere :=
  have hpaths := spelled_of_paths (t := device (.seg name) ts) rfl (Path.valid_seg hname)
  .node ⟨⟨hpaths.1, trivial⟩, ⟨hpaths.2, trivial⟩, trivial⟩ h

/-- A scope is built when its children are. -/
theorem built_scope {path : Path} {ts : List AmlTree} (hpath : path.Valid)
    (h : ∀ t ∈ ts, t.Everywhere BuiltHere) : (scope path ts).Everywhere BuiltHere :=
  have hpaths := spelled_of_paths (t := scope path ts) rfl hpath
  .node ⟨⟨hpaths.1, trivial⟩, ⟨hpaths.2, trivial⟩, trivial⟩ h

/-- A number of 64 bits is always built. -/
theorem built_qword (v : UInt64) : (qword v).Everywhere BuiltHere :=
  built_leaf rfl ⟨⟨by simp [paths], trivial⟩, ⟨by simp [paths], trivial⟩, trivial⟩

/-- Bytes of a buffer are always built. -/
theorem built_bufferData (data : Bytes) : (bufferData data).Everywhere BuiltHere :=
  built_leaf rfl ⟨⟨by simp [paths], trivial⟩, ⟨by simp [paths], trivial⟩, trivial⟩

/-- A text that is there is the value of a name. -/
theorem built_optionText {name : String} (hname : isNameSeg (asBytes name) = true)
    {value : Option String} (h : ∀ text, value = some text → '\x00' ∉ text.toList) :
    ∀ t ∈ (value.map fun text => seg name (.string text)).toList, t.Everywhere BuiltHere := by
  cases value with
  | none => simp
  | some text =>
    have hnul := zero_notMem_asBytes (h text rfl)
    exact List.forall_mem_singleton.mpr (built_seg hname (built_leaf rfl
      ⟨⟨by simp [paths], hnul⟩, ⟨by simp [paths], trivial⟩, trivial⟩))

end AmlTree

open AmlTree (built_seg built_device built_scope built_qword built_bufferData built_optionText)

/-- The device of a PCI slot is built, as long as its id holds no NUL byte: the
name of the slot is a name segment for every devfn. -/
theorem built_pciDevice {device : PciDeviceConfig} (h : device.NulFreeId) :
    (pciDeviceTree device).Everywhere BuiltHere := by
  have hsta : (seg "_STA" (.byte 0x0f)).Everywhere BuiltHere :=
    everywhere_of_within (n := 2) (by decide +kernel)
  apply built_device (isNameSeg_pciDeviceName _)
  simp only [List.forall_mem_append, List.forall_mem_cons, List.not_mem_nil, false_implies,
    implies_true, and_true]
  refine ⟨⟨⟨⟨?_, hsta, ?_, ?_⟩, ?_⟩, ?_⟩, ?_⟩
  · exact built_seg (by decide) (built_qword _)
  · exact built_seg (by decide) (built_qword _)
  · exact built_seg (by decide) (built_qword _)
  · exact built_optionText (by decide) h
  · exact built_optionText (by decide) fun text htext =>
      nul_notMem_toList (pciDeviceDescription_ascii _ text htext)
  · exact built_optionText (by decide) fun text htext =>
      nul_notMem_toList (pciDeviceClass_ascii _ text htext)

/-- The host bridge with its devices, its routing and its resources is built. -/
theorem built_pci0 {config : PlatformConfig} (h : ∀ device ∈ config.pciDevices, device.NulFreeId) :
    (pci0Tree config).Everywhere BuiltHere := by
  apply built_device (by decide)
  simp only [List.forall_mem_append, List.forall_mem_cons, List.not_mem_nil, false_implies,
    implies_true, and_true, List.forall_mem_map]
  refine ⟨⟨everywhere_of_within (n := 2) (by decide +kernel),
    everywhere_of_within (n := 2) (by decide +kernel),
    built_seg (by decide) (built_qword _), everywhere_of_within (n := 3) (by decide +kernel)⟩, ?_⟩
  exact fun device hdevice => built_pciDevice (h device (List.mem_filter.mp hdevice).1)

/-- A processor is built while its number has three digits. -/
theorem built_cpu {uid : ℕ} (apicId : UInt32) (h : uid < 1000) :
    (cpuTree uid apicId).Everywhere BuiltHere := by
  apply built_device (isNameSeg_cpuDeviceName h)
  simp only [List.forall_mem_cons, List.not_mem_nil, false_implies, implies_true, and_true]
  exact ⟨everywhere_of_within (n := 2) (by decide +kernel), built_seg (by decide) (built_qword _),
    everywhere_of_within (n := 2) (by decide +kernel), built_seg (by decide) (built_bufferData _)⟩

/-- What does not depend on the configuration is built: interrupt routing, sleep
states and general events. -/
theorem built_routing : ∀ t ∈ routingTrees ++ [sleepTree, gpeTree], t.Everywhere BuiltHere := by
  have hall : ((routingTrees ++ [sleepTree, gpeTree]).all
    fun t => everywhereWithin BuiltHere 8 t) = true := by decide +kernel
  exact fun t ht => everywhere_of_within (List.all_eq_true.mp hall t ht)

/-- **Every object of the body has its calls**, and passes them. -/
theorem built_bodyTrees {config : PlatformConfig} (hcpus : config.cpuApicIds.length ≤ 1000)
    (h : ∀ device ∈ config.pciDevices, device.NulFreeId) (padLen : ℕ) :
    ∀ t ∈ bodyTrees config padLen, t.Everywhere BuiltHere := by
  have hhpet : hpetTree.Everywhere BuiltHere := everywhere_of_within (n := 3) (by decide +kernel)
  have hroot : (rootScopeTree config).Everywhere BuiltHere := by
    apply built_scope (by decide)
    simp only [List.cons_append, List.forall_mem_cons, List.forall_mem_append]
    refine ⟨built_pci0 h, forall_mem_cpuTrees hcpus fun _ => built_cpu, ?_⟩
    cases config.hasHpet with
    | false => simp
    | true => simpa using hhpet
  rw [bodyTrees, List.cons_append, List.cons_append, List.forall_mem_cons, List.forall_mem_append]
  refine ⟨hroot, built_routing, ?_⟩
  split
  · exact List.forall_mem_singleton.mpr (built_seg (by decide) (built_bufferData _))
  · simp

/-- **The reference builds the same DSDT.** Whatever the configuration, when the
table is built the calls for its objects return, and append its body. -/
theorem buildDsdt_matches_reference {config : PlatformConfig}
    (hids : ∀ device ∈ config.pciDevices, device.NulFreeId) {dsdt : Bytes}
    (h : buildDsdt config = .ok dsdt) (hlen : dsdt.length < 4294967272) :
    ∃ padLen var, AmlTree.referenceAll AmlBuild.amlAlloc (bodyTrees config padLen) = .ok var ∧
      dsdt.drop 36 = var.buf := by
  obtain ⟨hcpus, padLen, htable⟩ := buildDsdt_eq_ok h
  have hbuilt := built_bodyTrees hcpus hids padLen
  have hbody : dsdt.drop 36 = (bodyTrees config padLen).flatMap AmlTree.encode := by
    rw [htable, drop_finalizeTable, dsdtBody]
  -- no identifier is narrow, so the words are the same
  have hwords : ∀ t ∈ bodyTrees config padLen, t.referenceWord = t.encode := fun t ht =>
    (AmlTree.grows_referenceWord t).eq ((hbuilt t ht).mono fun _ h => h.2.2)
  have hmatches : ∀ t ∈ bodyTrees config padLen, t.Matches := by
    intro t ht
    have hle := AmlTree.length_le_length_flatMap (f := AmlTree.encode) ht
    rw [← hbody, List.length_drop] at hle
    refine AmlTree.matches_of_accepted ((hbuilt t ht).mono fun _ h => h.1)
      ((hbuilt t ht).mono fun _ h => h.2.1) ?_
    rw [hwords t ht]
    omega
  refine ⟨padLen, _, AmlTree.referenceAll_eq hmatches _, ?_⟩
  rw [hbody, List.flatMap_congr hwords]
  rfl

/-- The DSDT of a machine with two disks is what the reference writes for its
trees. -/
theorem buildDsdt_matches_reference_twoDisks :
    ∃ dsdt padLen var, buildDsdt .twoDisks = .ok dsdt ∧
      AmlTree.referenceAll AmlBuild.amlAlloc (bodyTrees .twoDisks padLen) = .ok var ∧
        dsdt.drop 36 = var.buf := by
  obtain ⟨dsdt, hdsdt, hlen⟩ := buildDsdt_twoDisks
  rw [List.length_drop] at hlen
  obtain ⟨padLen, var, hvar, hbody⟩ := @buildDsdt_matches_reference .twoDisks
    (fun device hdevice => (twoDisks_asciiIds device hdevice).nulFreeId) dsdt hdsdt (by omega)
  exact ⟨dsdt, padLen, var, hdsdt, hvar, hbody⟩

end AcpiTables
