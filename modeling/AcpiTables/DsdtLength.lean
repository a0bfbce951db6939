import AcpiTables.Padding

/-!
# The length of the DSDT

A bound on the body in terms of the configuration: a constant, a share for each
CPU and each device of the root bus, and the padding (`length_dsdtBody_le`). It is
put together from the bounds of the constructors, an object at a time, where only
the ids of the devices are not bounded by a constant. With at most a thousand CPUs
and fewer than 2^27 devices nothing can stop the builder (`buildDsdt_isOk`).

The bounds are generous, so that no digit or width has to be counted exactly: they
serve to rule out an overflow of 32 bits, not to know the length.
-/

namespace AcpiTables

open AmlTree (seg)

/-! ## Lengths of constructors -/

/-- A frame adds its operator and at most four bytes of package length. -/
theorem length_frame_le (op content : Bytes) :
    (frame op content).length ≤ op.length + 4 + content.length := by
  have := (length_createPkgLength content.length true).2
  rw [frame, List.length_append, List.length_append]
  omega

/-- A single name segment has four bytes; a name that is cut or padded by its
length byte stays within six. -/
theorem Path.length_encode_seg_le (name : String) : (Path.seg name).encode.length ≤ 6 := by
  by_cases h : (asBytes name).length = 4 <;> simp [Path.seg, h, Path.encode, segCountPrefix]

/-- The words of a list, taken together. -/
def totalLength (ts : List AmlTree) : ℕ := (ts.flatMap AmlTree.encode).length

@[simp] theorem totalLength_nil : totalLength [] = 0 := rfl

@[simp] theorem totalLength_cons (t : AmlTree) (ts : List AmlTree) :
    totalLength (t :: ts) = t.encode.length + totalLength ts := by
  simp [totalLength]

/-- Lengths add up over lists one after the other. -/
@[simp] theorem totalLength_append (ts us : List AmlTree) :
    totalLength (ts ++ us) = totalLength ts + totalLength us := by
  simp [totalLength]

/-- As many words as there are elements, none longer than `b`. -/
theorem totalLength_map_le {α : Type} {l : List α} {f : α → AmlTree} {b : ℕ}
    (h : ∀ a ∈ l, (f a).encode.length ≤ b) : totalLength (l.map f) ≤ b * l.length := by
  induction l with
  | nil => simp
  | cons a l ih =>
    obtain ⟨ha, hl⟩ := List.forall_mem_cons.mp h
    rw [List.map_cons, totalLength_cons, List.length_cons, Nat.mul_succ]
    have := ih hl
    omega

/-- The trees made of each element of a list, when each makes at most `b` bytes. -/
theorem totalLength_flatMap_le {α : Type} {l : List α} {f : α → List AmlTree} {b : ℕ}
    (h : ∀ a ∈ l, totalLength (f a) ≤ b) : totalLength (l.flatMap f) ≤ b * l.length := by
  induction l with
  | nil => simp
  | cons a l ih =>
    obtain ⟨ha, hl⟩ := List.forall_mem_cons.mp h
    rw [List.flatMap_cons, totalLength_append, List.length_cons, Nat.mul_succ]
    have := ih hl
    omega

section

variable (name : String) (ts : List AmlTree)

/-- A name in front of an object: the operator, the segment and the object. -/
theorem length_seg_le (inner : AmlTree) :
    (seg name inner).encode.length ≤ 7 + inner.encode.length := by
  have := Path.length_encode_seg_le name
  rw [AmlTree.encode, List.cons_append, List.length_cons, List.length_append]
  omega

/-- A device: two bytes of operator, the package length, the segment and the
children. -/
theorem length_device_le :
    (AmlTree.device (.seg name) ts).encode.length ≤ 12 + totalLength ts := by
  have := Path.length_encode_seg_le name
  have hframed := length_frame_le [extOpPrefix, deviceOp]
    ((Path.seg name).encode ++ ts.flatMap AmlTree.encode)
  rw [AmlTree.encode, AmlTree.encodeAll_eq, totalLength]
  simp only [List.length_append, List.length_cons, List.length_nil] at hframed ⊢
  omega

/-- A scope: one byte of operator, the package length, the path and the children. -/
theorem length_scope_le (path : Path) :
    (AmlTree.scope path ts).encode.length ≤ 5 + path.encode.length + totalLength ts := by
  have hframed := length_frame_le [scopeOp] (path.encode ++ ts.flatMap AmlTree.encode)
  rw [AmlTree.encode, AmlTree.encodeAll_eq, totalLength]
  simp only [List.length_append, List.length_cons, List.length_nil] at hframed ⊢
  omega

/-- A package has one byte for the number of its elements behind the package
length. -/
theorem length_package_le :
    (AmlTree.package ts).encode.length ≤ 6 + totalLength ts := by
  have hframed := length_frame_le [packageOp]
    (UInt8.ofNat ts.length :: ts.flatMap AmlTree.encode)
  rw [AmlTree.encode, AmlTree.encodeAll_eq, totalLength]
  simp only [List.length_cons, List.length_nil] at hframed ⊢
  omega

/-- A package that was built element by element has the same bytes. -/
theorem length_packageBuilder_le :
    (AmlTree.packageBuilder ts).encode.length ≤ 6 + totalLength ts := by
  have hsame : (AmlTree.packageBuilder ts).encode = (AmlTree.package ts).encode := rfl
  rw [hsame]
  exact length_package_le ts

/-- A buffer has its size, an integer of at most nine bytes, behind the package
length. -/
theorem length_bufferData_le (data : Bytes) :
    (AmlTree.bufferData data).encode.length ≤ 14 + data.length := by
  have hint := length_encodeInt_le (data.length % 18446744073709551616)
  have hframed := length_frame_le [bufferOp] (sizedContent data)
  rw [AmlTree.encode]
  simp only [sizedContent, List.length_append, List.length_cons, List.length_nil] at hframed ⊢
  omega

/-- A template of interrupts: nine bytes for each, the end tag, and the frame. -/
theorem length_linkIrqs_le (numbers : List UInt32) :
    (AmlTree.resourceTemplate (numbers.map linkIrq)).encode.length ≤ 16 + 9 * numbers.length := by
  have hcontent :
      ((numbers.map linkIrq).flatMap Descriptor.encode).length = 9 * numbers.length := by
    induction numbers with
    | nil => rfl
    | cons number numbers ih =>
      rw [List.map_cons, List.flatMap_cons, List.length_append, ih, List.length_cons]
      simp [linkIrq, Descriptor.encode]
      omega
  have hint := length_encodeInt_le
    ((templateContent ((numbers.map linkIrq).flatMap Descriptor.encode)).length %
      18446744073709551616)
  have hframed := length_frame_le [bufferOp]
    (sizedContent (templateContent ((numbers.map linkIrq).flatMap Descriptor.encode)))
  rw [AmlTree.encode]
  simp only [sizedContent, templateContent, List.length_append, List.length_cons, List.length_nil,
    hcontent] at hframed hint ⊢
  omega

end

/-! ## Lengths of the objects -/

/-- A text that is there or not, when it has at most `bound` bytes. -/
theorem length_text_le (name : String) {value : Option String} {bound : ℕ}
    (h : ∀ text, value = some text → (asBytes text).length ≤ bound) :
    totalLength (value.map fun text => seg name (.string text)).toList ≤ 9 + bound := by
  cases value with
  | none => simp
  | some text =>
    have := h text rfl
    have hseg := length_seg_le name (.string text)
    simp only [Option.map_some, Option.toList_some, totalLength_cons, totalLength_nil,
      AmlTree.encode, encodeString, List.length_append, List.length_cons, List.length_nil] at hseg ⊢
    omega

/-- The longest description has 22 characters. -/
theorem length_pciDeviceDescription_le (driver : String) :
    ∀ text, pciDeviceDescription driver = some text → (asBytes text).length ≤ 22 := by
  intro text htext
  unfold pciDeviceDescription at htext
  split_ifs at htext <;> obtain rfl := Option.some.inj htext <;> decide

/-- The class codes are written as strings of at most seven characters. -/
theorem length_pciDeviceClass_le (driver : String) :
    ∀ text, pciDeviceClass driver = some text → (asBytes text).length ≤ 7 := by
  intro text htext
  unfold pciDeviceClass at htext
  split_ifs at htext <;> obtain rfl := Option.some.inj htext <;> decide

/-- The length of the id of a device. -/
def PciDeviceConfig.idLength (device : PciDeviceConfig) : ℕ :=
  match device.id with
  | some id => (asBytes id).length
  | none => 0

/-- A named number of 64 bits. -/
theorem length_segQword_le (name : String) (v : UInt64) :
    (seg name (.qword v)).encode.length ≤ 16 := by
  have := length_seg_le name (.qword v)
  have := length_encodeInt_le v.toNat
  rw [AmlTree.encode] at *
  omega

/-- A named byte. -/
theorem length_segByte_le (name : String) (v : UInt8) :
    (seg name (.byte v)).encode.length ≤ 16 := by
  have := length_seg_le name (.byte v)
  have := length_encodeInt_le v.toNat
  rw [AmlTree.encode] at *
  omega

/-- A named EISA id. -/
theorem length_segEisaName_le (name : String) (v : EISAName) :
    (seg name (.eisaName v)).encode.length ≤ 16 := by
  have := length_seg_le name (.eisaName v)
  have := length_encodeInt_le v.value.toNat
  rw [AmlTree.encode] at *
  omega

/-- The device of a PCI slot is short but for its id, which the configuration
gives. -/
theorem length_pciDevice_le (device : PciDeviceConfig) :
    (pciDeviceTree device).encode.length ≤ 150 + device.idLength := by
  have hid : ∀ text, device.id = some text → (asBytes text).length ≤ device.idLength := by
    intro text htext
    rw [PciDeviceConfig.idLength, htext]
  have hadr := length_segQword_le "_ADR" (pciAdr device.devfn).toUInt64
  have hsta := length_segByte_le "_STA" 0x0f
  have hsun := length_segQword_le "_SUN" (device.devfn >>> 3).toUInt64
  have huid := length_segQword_le "_UID" (device.devfn >>> 3).toUInt64
  have hddn := length_text_le "_DDN" hid
  have hstr := length_text_le "_STR" (length_pciDeviceDescription_le device.driver)
  have hcls := length_text_le "CLSS" (length_pciDeviceClass_le device.driver)
  refine (length_device_le _ _).trans ?_
  simp only [totalLength_append, totalLength_cons, totalLength_nil]
  omega

/-- The device of a processor, whatever its number and its APIC id. -/
theorem length_cpu_le (uid : ℕ) (apicId : UInt32) : (cpuTree uid apicId).encode.length ≤ 150 := by
  have hhid := length_seg_le "_HID" (.string "ACPI0007")
  have hstring : (AmlTree.string "ACPI0007").encode.length = 10 := by decide
  have huid := length_segQword_le "_UID" (UInt64.ofNat uid)
  have hsta := length_segByte_le "_STA" 0x0f
  have hmat := length_seg_le "_MAT" (.bufferData (cpuMat apicId (UInt32.ofNat uid)))
  have hbuffer := length_bufferData_le (cpuMat apicId (UInt32.ofNat uid))
  have hcontent : (cpuMat apicId (UInt32.ofNat uid)).length = 16 := by simp [cpuMat]
  refine (length_device_le _ _).trans ?_
  simp only [totalLength_cons, totalLength_nil]
  omega

/-- The host bridge: its devices, and little else. -/
theorem length_pci0_le (config : PlatformConfig) :
    (pci0Tree config).encode.length ≤ 150 +
      totalLength
        ((config.pciDevices.filter PciDeviceConfig.isRootBusDevice).map pciDeviceTree) := by
  have hhid := length_segEisaName_le "_HID" ⟨0x080ad041⟩
  have hcid := length_segEisaName_le "_CID" ⟨0x030ad041⟩
  have huid := length_segQword_le "_UID" config.pciRootUid.toUInt64
  have hosc : (AmlTree.method (.seg "_OSC") 4 false [.onObject .return_ (.arg ⟨3⟩)]).encode.length =
    9 := by decide
  refine (length_device_le _ _).trans ?_
  simp only [totalLength_append, totalLength_cons, totalLength_nil]
  omega

/-- The event timer does not depend on the configuration. -/
theorem length_hpet : hpetTree.encode.length ≤ 150 := by decide

/-- A link device of an interrupt of the PIC. -/
theorem length_linkDevice_le (name : String) (uid : UInt8) :
    (linkDeviceTree name uid).encode.length ≤ 250 := by
  have hhid := length_segEisaName_le "_HID" ⟨0x0f0cd041⟩
  have huid := length_segByte_le "_UID" uid
  have hprs := length_seg_le "_PRS" (.resourceTemplate [linkIrq 5, linkIrq 10, linkIrq 11])
  have hirqs : (AmlTree.resourceTemplate [linkIrq 5, linkIrq 10, linkIrq 11]).encode.length ≤ 43 :=
    length_linkIrqs_le [5, 10, 11]
  have hsta :
      (AmlTree.method (.seg "_STA") 0 false [.onObject .return_ (.byte 0x0b)]).encode.length =
    10 := by decide
  have hdis : (AmlTree.method (.seg "_DIS") 0 false []).encode.length = 7 := by decide
  have hcrs : (AmlTree.method (.seg "_CRS") 0 false
    [.onObject .return_ (.path (.seg "_PRS"))]).encode.length = 12 := by decide
  have hsrs : (AmlTree.method (.seg "_SRS") 1 false []).encode.length = 7 := by decide
  refine (length_device_le _ _).trans ?_
  simp only [totalLength_cons, totalLength_nil]
  omega

/-- A link device of a global interrupt has one interrupt in its templates, so it
is no longer. -/
theorem length_gsiLinkDevice_le (name : String) (uid : UInt8) (irq : UInt32) :
    (gsiLinkDeviceTree name uid irq).encode.length ≤ 250 := by
  have hhid := length_segEisaName_le "_HID" ⟨0x0f0cd041⟩
  have huid := length_segByte_le "_UID" uid
  have hprs := length_seg_le "_PRS" (.resourceTemplate [linkIrq irq])
  have hcrs := length_seg_le "_CRS" (.resourceTemplate [linkIrq irq])
  have hirq : (AmlTree.resourceTemplate [linkIrq irq]).encode.length ≤ 25 :=
    length_linkIrqs_le [irq]
  have hdis : (AmlTree.method (.seg "_DIS") 0 false []).encode.length = 7 := by decide
  have hsrs : (AmlTree.method (.seg "_SRS") 1 false []).encode.length = 7 := by decide
  refine (length_device_le _ _).trans ?_
  simp only [totalLength_cons, totalLength_nil]
  omega

/-- A routing table has 128 entries of a fixed size. -/
theorem length_prt_le (linkPrefix : String) : (prtTree linkPrefix).encode.length ≤ 8000 := by
  have hentry : ∀ x ∈ q35Slots,
      totalLength ([0, 1, 2, 3].map (prtEntryTree linkPrefix x.2 x.1)) ≤ 160 := by
    intro x _
    refine (totalLength_map_le (b := 40) fun pin _ => ?_).trans (by decide)
    have hadr := length_encodeInt_le ((x.1 <<< 16) ||| 0xffff).toNat
    have hpin := length_encodeInt_le pin.toNat
    have hlink := Path.length_encode_seg_le
      (linkPrefix ++ String.ofList [linkLetter x.2 pin])
    refine (length_package_le _).trans ?_
    simp only [totalLength_cons, totalLength_nil, AmlTree.encode, List.length_cons,
      List.length_nil]
    omega
  have hlen : q35Slots.length = 32 := by decide
  have htotal := totalLength_flatMap_le hentry
  refine (length_packageBuilder_le _).trans ?_
  dsimp only at htotal ⊢
  omega

/-! ## The whole body -/

/-- Eight link devices of each kind. -/
theorem length_links_le : totalLength linkTrees ≤ 266 * 8 + 250 * 8 := by
  have hpair : ∀ x ∈ linkDevices, totalLength
      [seg x.2.2 (.byte (0x10 + x.2.1)), linkDeviceTree x.1 x.2.1] ≤ 266 := by
    intro x _
    have hseg := length_segByte_le x.2.2 (0x10 + x.2.1)
    have hlink := length_linkDevice_le x.1 x.2.1
    simp only [totalLength_cons, totalLength_nil]
    omega
  rw [linkTrees, totalLength_append]
  exact Nat.add_le_add (totalLength_flatMap_le hpair)
    (totalLength_map_le fun x _ => length_gsiLinkDevice_le x.1 x.2.1 x.2.2)

/-- The whole routing: two tables, the link devices and the methods that choose
between them. -/
theorem length_routing_le : totalLength routingTrees ≤ 22000 := by
  have hprtp := length_seg_le "PRTP" (prtTree "LNK")
  have hprta := length_seg_le "PRTA" (prtTree "GSI")
  have hlnk := length_prt_le "LNK"
  have hgsi := length_prt_le "GSI"
  have hpicf : (seg "PICF" .zero).encode.length = 6 := by decide
  have hpic : (AmlTree.method (.seg "_PIC") 1 false
    [.store (.path (.seg "PICF")) (.arg ⟨0⟩)]).encode.length = 13 := by decide
  have hprt : (AmlTree.method (.seg "_PRT") 0 false
    [.ifTree (.compare .equal (.path (.seg "PICF")) .zero)
        [.onObject .return_ (.path (.seg "PRTP"))],
      .elseTree [.onObject .return_ (.path (.seg "PRTA"))]]).encode.length = 27 := by decide
  have hpci0 : pci0Path.encode.length = 10 := by decide
  have hsb : sbPath.encode.length = 5 := by decide
  have hlinks := length_links_le
  have hpciScope := length_scope_le
    [seg "PRTP" (prtTree "LNK"), seg "PRTA" (prtTree "GSI"),
      .method (.seg "_PRT") 0 false
        [.ifTree (.compare .equal (.path (.seg "PICF")) .zero)
            [.onObject .return_ (.path (.seg "PRTP"))],
          .elseTree [.onObject .return_ (.path (.seg "PRTA"))]]] pci0Path
  have hsbScope := length_scope_le linkTrees sbPath
  simp only [totalLength_cons, totalLength_nil] at hpciScope
  rw [routingTrees]
  simp only [totalLength_cons, totalLength_nil]
  omega

/-- The bytes that the devices of the root bus may take. -/
def rootBusLength (config : PlatformConfig) : ℕ :=
  ((config.pciDevices.filter PciDeviceConfig.isRootBusDevice).map fun device =>
    150 + device.idLength).sum

/-- The devices of the root bus, each bounded by its own id. -/
theorem totalLength_pciDevices_le (devices : List PciDeviceConfig) :
    totalLength (devices.map pciDeviceTree) ≤
      (devices.map fun device => 150 + device.idLength).sum := by
  induction devices with
  | nil => rfl
  | cons device devices ih =>
    have hdevice := length_pciDevice_le device
    rw [List.map_cons, totalLength_cons, List.map_cons, List.sum_cons]
    omega

/-- **The length of the body**: a constant, a share for each CPU and each device,
and the padding. -/
theorem length_dsdtBody_le (config : PlatformConfig) (padLen : ℕ) :
    (dsdtBody config padLen).length ≤
      24000 + 150 * config.cpuApicIds.length + rootBusLength config + padLen := by
  have hpci0 := length_pci0_le config
  have hdevices := totalLength_pciDevices_le
    (config.pciDevices.filter PciDeviceConfig.isRootBusDevice)
  have hcpus : totalLength (cpuTrees config) ≤ 150 * config.cpuApicIds.length := by
    have := totalLength_map_le (l := config.cpuApicIds.zipIdx) (f := fun x => cpuTree x.2 x.1)
      fun x _ => length_cpu_le x.2 x.1
    rwa [List.length_zipIdx] at this
  have hhpet : totalLength (if config.hasHpet then [hpetTree] else []) ≤ 150 := by
    split
    · simpa using length_hpet
    · simp
  have hsb : sbPath.encode.length = 5 := by decide
  have hroot := length_scope_le
    (pci0Tree config :: cpuTrees config ++ if config.hasHpet then [hpetTree] else []) sbPath
  rw [totalLength_append, totalLength_cons, ← rootScopeTree] at hroot
  have hrouting := length_routing_le
  have hsleep : sleepTree.encode.length = 12 := by decide
  have hgpe : gpeTree.encode.length = 21 := by decide
  have hpad : totalLength (if 0 < padLen then [padTree padLen] else []) ≤ 21 + padLen := by
    split
    · have hseg := length_seg_le "QPAD" (.bufferData (List.replicate padLen 0))
      have hbuffer := length_bufferData_le (List.replicate padLen 0)
      rw [List.length_replicate] at hbuffer
      simp only [totalLength_cons, totalLength_nil, padTree]
      omega
    · simp
  change totalLength (bodyTrees config padLen) ≤ _
  rw [bodyTrees, List.cons_append, List.cons_append, totalLength_cons, totalLength_append,
    totalLength_append, rootBusLength]
  simp only [totalLength_cons, totalLength_nil]
  omega

/-- **The DSDT of a thousand CPUs or fewer is built**, and its length is bounded
by what it describes. -/
theorem buildDsdt_isOk {config : PlatformConfig} (hcpus : config.cpuApicIds.length ≤ 1000)
    (hdevices : config.pciDevices.length < 134217728) :
    ∃ dsdt, buildDsdt config = .ok dsdt ∧ dsdt.length ≤
      40400 + 322 * config.cpuApicIds.length + rootBusLength config +
        34 * config.pciDevices.length := by
  obtain ⟨target, htarget, hbound⟩ := targetDsdtLen_isOk hcpus hdevices
  obtain ⟨padLen, hpad, hbody⟩ := encodeDsdtWithPadding_eq hcpus htarget
  have hlen := length_dsdtBody_le config padLen
  refine ⟨finalizeTable (config.header (bstr "DSDT") 1) (dsdtBody config padLen), ?_, ?_⟩
  · rw [buildDsdt, hbody]
    rfl
  · rw [length_finalizeTable]
    omega

end AcpiTables
