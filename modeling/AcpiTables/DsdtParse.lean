import AcpiTables.DsdtTerms

/-!
# The parsed DSDT describes its configuration

`Describes` compares what the namespace of a parsed DSDT holds with the
configuration it was built from: the devices of the host bridge, one for each
device of the root bus, and the devices of `\_SB_`. `buildDsdt_describes` is the
main result: the body parses to its last byte, its terms are well formed, and
they describe the configuration.

The devices are those of `DsdtTerms`. What is new here is what each of them tells
of itself: the values of its names (`valuesOf_pciDevice` and the lemmas behind it),
for the PCI devices as a list of `pciFields` in the order of the configuration, for
the CPUs as a list of indices (`map_uidField_cpus`).
-/

universe u v

namespace AcpiTables

open AmlTree (seg toTerm)

/-- What a device of the root bus says about itself: its name and the values of
`_ADR`, `_SUN` and `_DDN`. -/
def pciFields (device : Bytes × List Term) : Bytes × List Term × List Term × List Term :=
  (device.1, valuesOf (asBytes "_ADR") device.2, valuesOf (asBytes "_SUN") device.2,
    valuesOf (asBytes "_DDN") device.2)

/-- The name of a device and the values of its `_UID`. -/
def uidField (device : Bytes × List Term) : Bytes × List Term :=
  (device.1, valuesOf (asBytes "_UID") device.2)

/-- The terms of a definition block describe exactly the configuration. -/
structure Describes (config : PlatformConfig) (terms : List Term) : Prop where
  /-- one device for each device of the root bus, in order -/
  pciDevices : (devicesIn pci0Scope (namespaceEvents terms)).map pciFields =
    (config.pciDevices.filter PciDeviceConfig.isRootBusDevice).map fun device =>
      (asBytes (pciDeviceName device.devfn),
        [.int (device.devfn.toNat / 8 * 65536 + device.devfn.toNat % 8)],
        [.int (device.devfn.toNat / 8)], (device.id.map fun id => Term.str (asBytes id)).toList)
  /-- the host bridge, one device for each CPU in order, the HPET when there is
  one, and the interrupt links -/
  sbDevices : (devicesIn sbScope (namespaceEvents terms)).map uidField =
    [(asBytes "PCI0", [.int config.pciRootUid.toNat])] ++
      ((List.range config.cpuApicIds.length).map fun uid =>
        (asBytes (cpuDeviceName uid), [Term.int uid])) ++
      (if config.hasHpet then [(asBytes "HPET", [.int 0])] else []) ++
      (linkDevices.map fun (name, uid, _) => (asBytes name, [Term.int uid.toNat])) ++
      gsiLinkDevices.map fun (name, uid, _) => (asBytes name, [Term.int uid.toNat])
  hpet : asBytes "HPET" ∈ (devicesIn sbScope (namespaceEvents terms)).map Prod.fst ↔
    config.hasHpet = true

/-! ## Values of names -/

/-- A named object has its value under its own name. -/
theorem valuesOf_seg (k : Bytes) {name : String} (h : (asBytes name).length = 4)
    (inner : AmlTree) (ts : List Term) :
    valuesOf k ((seg name inner).toTerm :: ts) =
      (if asBytes name = k then [inner.toTerm] else []) ++ valuesOf k ts := by
  rw [AmlTree.toTerm, Path.nameString_seg h, valuesOf, List.filterMap_cons]
  by_cases hk : asBytes name = k <;> simp [hk, valuesOf]

/-- A method has no value. -/
theorem valuesOf_method (k : Bytes) {path : Path} {args : UInt8} {serialized : Bool}
    {body : List AmlTree} (ts : List Term) :
    valuesOf k ((AmlTree.method path args serialized body).toTerm :: ts) = valuesOf k ts := rfl

/-- A device has no value. -/
theorem valuesOf_device (k : Bytes) {path : Path} {body : List AmlTree} (ts : List Term) :
    valuesOf k ((AmlTree.device path body).toTerm :: ts) = valuesOf k ts := rfl

/-- The values of two lists of terms, one after the other. -/
theorem valuesOf_append (k : Bytes) (ts us : List Term) :
    valuesOf k (ts ++ us) = valuesOf k ts ++ valuesOf k us :=
  List.filterMap_append ..

/-- An optional text has a value under its name when there is a text. -/
theorem valuesOf_text (k : Bytes) {name : String} (h : (asBytes name).length = 4)
    (value : Option String) :
    valuesOf k ((value.map fun text => seg name (.string text)).toList.map toTerm) =
      if asBytes name = k then (value.map fun text => Term.str (asBytes text)).toList else [] := by
  cases value with
  | none => simp [valuesOf]
  | some text =>
    have := valuesOf_seg k h (.string text) []
    simpa [valuesOf, AmlTree.toTerm] using this

/-- The slot of a devfn is all but its lowest three bits. -/
theorem toNat_slot (devfn : UInt8) : (devfn >>> 3).toUInt64.toNat = devfn.toNat / 8 := by
  have hall : ∀ n : Fin 256, (UInt8.ofNat n >>> 3).toUInt64.toNat = n.val / 8 := by decide +kernel
  simpa using hall ⟨devfn.toNat, devfn.toNat_lt⟩

/-- The values of the names in a device of the root bus. -/
theorem valuesOf_pciDevice (device : PciDeviceConfig) (k : Bytes) :
    valuesOf k ((pciDeviceTree device).children.map toTerm) =
      (if asBytes "_ADR" = k then
        [.int (device.devfn.toNat / 8 * 65536 + device.devfn.toNat % 8)] else []) ++
      (if asBytes "_STA" = k then [.int 0x0f] else []) ++
      (if asBytes "_SUN" = k then [.int (device.devfn.toNat / 8)] else []) ++
      (if asBytes "_UID" = k then [.int (device.devfn.toNat / 8)] else []) ++
      (if asBytes "_DDN" = k then
        (device.id.map fun text => Term.str (asBytes text)).toList else []) ++
      (if asBytes "_STR" = k then
        ((pciDeviceDescription device.driver).map fun text => Term.str (asBytes text)).toList
      else []) ++
      (if asBytes "CLSS" = k then
        ((pciDeviceClass device.driver).map fun text => Term.str (asBytes text)).toList
      else []) := by
  rw [pciDeviceTree, AmlTree.children]
  simp only [List.map_append, List.map_cons, List.map_nil, valuesOf_append]
  rw [valuesOf_seg k (by decide), valuesOf_seg k (by decide), valuesOf_seg k (by decide),
    valuesOf_seg k (by decide), valuesOf_text k (by decide), valuesOf_text k (by decide),
    valuesOf_text k (by decide)]
  simp only [AmlTree.toTerm, UInt32.toNat_toUInt64, toNat_pciAdr, toNat_slot]
  simp [valuesOf]

/-- What the device of a PCI device tells: its name, its address, its slot and its
id. -/
theorem pciFields_pciDevice (device : PciDeviceConfig) :
    pciFields (asBytes (pciDeviceName device.devfn), (pciDeviceTree device).children.map toTerm) =
      (asBytes (pciDeviceName device.devfn),
        [.int (device.devfn.toNat / 8 * 65536 + device.devfn.toNat % 8)],
        [.int (device.devfn.toNat / 8)],
        (device.id.map fun id => Term.str (asBytes id)).toList) := by
  simp only [pciFields, valuesOf_pciDevice]
  simp +decide

/-- A byte widened to 64 bits keeps its value. -/
theorem toNat_toUInt64_u8 (v : UInt8) : v.toUInt64.toNat = v.toNat := by simp

/-- The host bridge tells the UID of the configuration. -/
theorem uidField_pci0 (config : PlatformConfig) :
    uidField (asBytes "PCI0", (pci0Tree config).children.map toTerm) =
      (asBytes "PCI0", [.int config.pciRootUid.toNat]) := by
  have hdevices : ∀ devices : List PciDeviceConfig,
      valuesOf (asBytes "_UID") ((devices.map pciDeviceTree).map toTerm) = [] := by
    intro devices
    induction devices with
    | nil => rfl
    | cons device devices ih =>
      rw [List.map_cons, List.map_cons, pciDeviceTree, valuesOf_device]
      exact ih
  rw [uidField, pci0Tree, AmlTree.children, List.map_append, valuesOf_append, hdevices]
  simp only [List.map_cons, List.map_nil]
  rw [valuesOf_seg _ (by decide), valuesOf_seg _ (by decide), valuesOf_seg _ (by decide),
    valuesOf_method, AmlTree.toTerm, toNat_toUInt64_u8]
  simp +decide [valuesOf]

/-- A CPU device tells its index. -/
theorem uidField_cpu {uid : ℕ} (apicId : UInt32) (h : uid < 1000) :
    uidField (asBytes (cpuDeviceName uid), (cpuTree uid apicId).children.map toTerm) =
      (asBytes (cpuDeviceName uid), [.int uid]) := by
  have huid : (UInt64.ofNat uid).toNat = uid := by
    rw [UInt64.toNat_ofNat']
    omega
  rw [uidField, cpuTree, AmlTree.children]
  simp only [List.map_cons, List.map_nil]
  rw [valuesOf_seg _ (by decide), valuesOf_seg _ (by decide), valuesOf_seg _ (by decide),
    valuesOf_seg _ (by decide), AmlTree.toTerm, AmlTree.toTerm, huid]
  simp +decide [valuesOf]

/-- The HPET tells the UID zero. -/
theorem uidField_hpet :
    uidField (asBytes "HPET", hpetTree.children.map toTerm) = (asBytes "HPET", [.int 0]) := by
  rw [uidField, hpetTree, AmlTree.children]
  simp only [List.map_cons, List.map_nil]
  rw [valuesOf_seg _ (by decide), valuesOf_seg _ (by decide), valuesOf_seg _ (by decide),
    valuesOf_seg _ (by decide)]
  simp +decide [valuesOf, AmlTree.toTerm]

/-- A link device tells its UID. -/
theorem uidField_link (name : String) (uid : UInt8) :
    uidField (asBytes name, (linkDeviceTree name uid).children.map toTerm) =
      (asBytes name, [.int uid.toNat]) := by
  rw [uidField, linkDeviceTree, AmlTree.children]
  simp only [List.map_cons, List.map_nil]
  rw [valuesOf_seg _ (by decide), valuesOf_seg _ (by decide), valuesOf_seg _ (by decide),
    valuesOf_method, valuesOf_method, valuesOf_method, valuesOf_method, AmlTree.toTerm,
    AmlTree.toTerm]
  simp +decide [valuesOf]

/-- A link device with a fixed interrupt tells its UID. -/
theorem uidField_gsiLink (name : String) (uid : UInt8) (irq : UInt32) :
    uidField (asBytes name, (gsiLinkDeviceTree name uid irq).children.map toTerm) =
      (asBytes name, [.int uid.toNat]) := by
  rw [uidField, gsiLinkDeviceTree, AmlTree.children]
  simp only [List.map_cons, List.map_nil]
  rw [valuesOf_seg _ (by decide), valuesOf_seg _ (by decide), valuesOf_seg _ (by decide),
    valuesOf_seg _ (by decide), valuesOf_method, valuesOf_method, AmlTree.toTerm, AmlTree.toTerm]
  simp +decide [valuesOf]

/-- All link devices tell their UIDs, in order. -/
theorem map_uidField_linkEntries :
    linkEntries.map uidField =
      (linkDevices.map fun (name, uid, _) => (asBytes name, [Term.int uid.toNat])) ++
        gsiLinkDevices.map fun (name, uid, _) => (asBytes name, [Term.int uid.toNat]) := by
  rw [linkEntries, List.map_append, List.map_map, List.map_map]
  refine congrArg₂ _ (List.map_congr_left ?_) (List.map_congr_left ?_)
  · rintro ⟨name, uid, irqName⟩ -
    exact uidField_link name uid
  · rintro ⟨name, uid, irq⟩ -
    exact uidField_gsiLink name uid irq

/-! ## The description -/

/-- A map over numbered elements that looks only at the number is a map over the
numbers. -/
theorem map_zipIdx_eq_map_range {α : Type u} {β : Type v} (l : List α) {f : α × ℕ → β} {g : ℕ → β}
    (h : ∀ x ∈ l.zipIdx, f x = g x.2) : l.zipIdx.map f = (List.range l.length).map g := by
  have hsnd : l.zipIdx.map Prod.snd = List.range l.length := by
    rw [List.zipIdx_map_snd, List.range_eq_range']
  rw [← hsnd, List.map_map]
  exact List.map_congr_left h

/-- The CPU devices tell their indices, in order. -/
theorem map_uidField_cpus (config : PlatformConfig) (hcpus : config.cpuApicIds.length ≤ 1000) :
    (config.cpuApicIds.zipIdx.map fun (apicId, uid) =>
        (asBytes (cpuDeviceName uid), (cpuTree uid apicId).children.map toTerm)).map uidField =
      (List.range config.cpuApicIds.length).map fun uid =>
        (asBytes (cpuDeviceName uid), [Term.int uid]) := by
  rw [List.map_map]
  refine map_zipIdx_eq_map_range _ ?_
  rintro ⟨apicId, uid⟩ hmem
  have hlt := List.snd_lt_of_mem_zipIdx hmem
  exact uidField_cpu apicId (by omega)

/-- The devices of `\_SB_`: the root bridge, the CPUs, the HPET and the links. -/
theorem devicesIn_sbScope {config : PlatformConfig} (hcpus : config.cpuApicIds.length ≤ 1000)
    (padLen : ℕ) :
    devicesIn sbScope (namespaceEvents ((bodyTrees config padLen).map toTerm)) =
      [(asBytes "PCI0", (pci0Tree config).children.map toTerm)] ++
        (config.cpuApicIds.zipIdx.map fun (apicId, uid) =>
          (asBytes (cpuDeviceName uid), (cpuTree uid apicId).children.map toTerm)) ++
        (if config.hasHpet then [(asBytes "HPET", hpetTree.children.map toTerm)] else []) ++
        linkEntries := by
  have hroot : pci0Scope ≠ sbScope := by decide
  have hpci : ((config.pciDevices.filter PciDeviceConfig.isRootBusDevice).flatMap fun device =>
      devicesIn sbScope ((pciDeviceTree device).toTerm.events pci0Scope)) = [] :=
    List.flatMap_eq_nil_iff.mpr fun device _ => by
      rw [devicesIn_pciDevice, if_neg hroot]
  rw [devicesIn_bodyTrees, devicesIn_rootScope sbScope hcpus, devicesIn_pci0, hpci, if_pos rfl,
    if_pos rfl, if_pos rfl, List.append_nil]
  simp

/-- The devices of `\_SB_.PCI0`: the PCI devices of the root bus. -/
theorem devicesIn_pci0Scope {config : PlatformConfig} (hcpus : config.cpuApicIds.length ≤ 1000)
    (padLen : ℕ) :
    devicesIn pci0Scope (namespaceEvents ((bodyTrees config padLen).map toTerm)) =
      (config.pciDevices.filter PciDeviceConfig.isRootBusDevice).map fun device =>
        (asBytes (pciDeviceName device.devfn), (pciDeviceTree device).children.map toTerm) := by
  have hroot : sbScope ≠ pci0Scope := by decide
  have hpci : ((config.pciDevices.filter PciDeviceConfig.isRootBusDevice).flatMap fun device =>
      devicesIn pci0Scope ((pciDeviceTree device).toTerm.events pci0Scope)) =
      (config.pciDevices.filter PciDeviceConfig.isRootBusDevice).map fun device =>
        (asBytes (pciDeviceName device.devfn), (pciDeviceTree device).children.map toTerm) :=
    flatMap_singleton_of fun device _ => by rw [devicesIn_pciDevice, if_pos rfl]
  rw [devicesIn_bodyTrees, devicesIn_rootScope pci0Scope hcpus, devicesIn_pci0, hpci,
    if_neg hroot, if_neg hroot, if_neg hroot, if_neg (fun h => hroot h.2)]
  simp only [List.nil_append, List.append_nil]

/-- The trees of the body describe the configuration, whatever the padding is. -/
theorem describes_bodyTrees {config : PlatformConfig} (hcpus : config.cpuApicIds.length ≤ 1000)
    (padLen : ℕ) : Describes config ((bodyTrees config padLen).map toTerm) := by
  refine ⟨?_, ?_, ?_⟩
  · rw [devicesIn_pci0Scope hcpus, List.map_map]
    exact List.map_congr_left fun device _ => pciFields_pciDevice device
  · rw [devicesIn_sbScope hcpus, List.map_append, List.map_append, List.map_append,
      map_uidField_cpus config hcpus, map_uidField_linkEntries, List.map_singleton, uidField_pci0]
    cases config.hasHpet <;> simp [uidField_hpet]
  · have hcpu : ∀ uid, asBytes (cpuDeviceName uid) ≠ asBytes "HPET" := by
      intro uid heq
      -- a CPU's name starts with a `C`
      have hhead := congrArg List.head? ((asBytes_cpuDeviceName uid).symm.trans heq)
      rw [List.head?_cons] at hhead
      exact absurd hhead (by decide)
    have hlinks : asBytes "HPET" ∉ linkEntries.map Prod.fst := by
      have hnames : asBytes "HPET" ∉ linkDevices.map (fun x => asBytes x.1) ++
          gsiLinkDevices.map fun x => asBytes x.1 := by decide
      rw [linkEntries, List.map_append, List.map_map, List.map_map]
      exact hnames
    have hpci0 : asBytes "HPET" ≠ asBytes "PCI0" := by decide
    rw [devicesIn_sbScope hcpus, List.map_append, List.map_append, List.map_append,
      List.mem_append, List.mem_append, List.mem_append]
    cases config.hasHpet <;> simp [hcpu, hlinks, hpci0]

/-- **The parsed DSDT describes its configuration.** The table is built whenever
the length it is padded to can be computed; its body parses to the last byte,
into well-formed terms that describe the configuration. -/
theorem buildDsdt_describes {config : PlatformConfig} (hcpus : config.cpuApicIds.length ≤ 1000)
    (hids : ∀ device ∈ config.pciDevices, device.AsciiId) :
    (config.pciDevices.length < 134217728 → ∃ dsdt, buildDsdt config = .ok dsdt) ∧
    ∀ dsdt, buildDsdt config = .ok dsdt → (dsdt.drop 36).length < 268435456 →
      ∃ terms, decodeTermList (dsdt.drop 36) = some terms ∧ wellFormedTermList terms = true ∧
        Describes config terms := by
  refine ⟨fun hdevices => ?_, fun dsdt hdsdt hlen => ?_⟩
  · obtain ⟨dsdt, hdsdt, -⟩ := buildDsdt_isOk hcpus hdevices
    exact ⟨dsdt, hdsdt⟩
  obtain ⟨-, padLen, htable⟩ := buildDsdt_eq_ok hdsdt
  rw [htable, drop_finalizeTable, dsdtBody] at hlen ⊢
  have hnul : ∀ device ∈ config.rootBusDevices, device.NulFreeId := fun device hdevice =>
    (hids device (List.mem_filter.mp hdevice).1).nulFreeId
  have hparse := AmlTree.decodeTermList_encode (bodyTrees_regular hcpus hnul padLen) hlen
  exact ⟨_, hparse, wellFormed_bodyTrees hcpus hids padLen, describes_bodyTrees hcpus padLen⟩

/-- The objects of the processor scope are found in the DSDT. -/
theorem infix_dsdt_of_mem_rootScope {config : PlatformConfig} {dsdt : Bytes}
    (h : buildDsdt config = .ok dsdt) {t : AmlTree}
    (ht : t ∈ pci0Tree config :: cpuTrees config ++ if config.hasHpet then [hpetTree] else []) :
    t.encode <:+: dsdt := by
  obtain ⟨-, padLen, htable⟩ := buildDsdt_eq_ok h
  have hchildren : t.encode <:+:
      (pci0Tree config :: cpuTrees config ++ if config.hasHpet then [hpetTree] else []).flatMap
        AmlTree.encode := by
    rw [List.flatMap_def]
    exact List.infix_of_mem_flatten (List.mem_map_of_mem ht)
  have hscope : t.encode <:+: (rootScopeTree config).encode := by
    rw [rootScopeTree, AmlTree.encode, frame, AmlTree.encodeAll_eq]
    exact hchildren.trans ((List.suffix_append ..).trans (List.suffix_append ..)).isInfix
  have hbody : (rootScopeTree config).encode <:+: dsdtBody config padLen := by
    rw [dsdtBody, List.flatMap_def]
    exact List.infix_of_mem_flatten (List.mem_map_of_mem (List.mem_cons_self ..))
  have hdrop : dsdtBody config padLen <:+: dsdt := by
    have hsuffix := List.drop_suffix 36
      (finalizeTable (config.header (bstr "DSDT") 1) (dsdtBody config padLen))
    rw [drop_finalizeTable] at hsuffix
    rw [htable]
    exact hsuffix.isInfix
  exact (hscope.trans hbody).trans hdrop

/-- The identifiers of the two disks are ASCII. -/
theorem twoDisks_asciiIds : ∀ device ∈ PlatformConfig.twoDisks.pciDevices, device.AsciiId := by
  have hids : ∀ device ∈ PlatformConfig.twoDisks.pciDevices,
      ∀ id ∈ device.id, isAsciiCharList (asBytes id) = true := by decide
  exact fun device hdevice id hid => isAsciiCharList_iff.mp (hids device hdevice id hid)

/-- The identifiers of the two disks hold no end of a string. -/
theorem twoDisks_nulFreeIds :
    ∀ device ∈ PlatformConfig.twoDisks.rootBusDevices, device.NulFreeId := fun device hdevice =>
  (twoDisks_asciiIds device (List.mem_filter.mp hdevice).1).nulFreeId

/-- The table of the two disks is built and short. -/
theorem buildDsdt_twoDisks :
    ∃ dsdt, buildDsdt .twoDisks = .ok dsdt ∧ (dsdt.drop 36).length < 268435456 := by
  obtain ⟨dsdt, hdsdt, hlen⟩ := @buildDsdt_isOk .twoDisks (by decide) (by decide)
  have hbound : 40400 + 322 * PlatformConfig.twoDisks.cpuApicIds.length +
    rootBusLength .twoDisks + 34 * PlatformConfig.twoDisks.pciDevices.length < 100000 := by decide
  refine ⟨dsdt, hdsdt, ?_⟩
  rw [List.length_drop]
  omega

theorem buildDsdt_describes_twoDisks :
    ∃ dsdt terms, buildDsdt .twoDisks = .ok dsdt ∧ decodeTermList (dsdt.drop 36) = some terms ∧
      wellFormedTermList terms = true ∧ Describes .twoDisks terms := by
  obtain ⟨dsdt, hdsdt, hbody⟩ := buildDsdt_twoDisks
  obtain ⟨terms, h⟩ :=
    (@buildDsdt_describes .twoDisks (by decide) twoDisks_asciiIds).2 dsdt hdsdt hbody
  exact ⟨dsdt, terms, hdsdt, h⟩

end AcpiTables
