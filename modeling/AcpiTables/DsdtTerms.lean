import AcpiTables.DsdtLength
import AcpiTables.Namespace
import AcpiTables.RoundTrip

/-!
# The DSDT, parsed

What the reader needs to know of the trees of the body (`bodyTrees`), for every
configuration. Each part has its own lemmas, one for each kind of object: names,
texts, the devices of the PCI slots and of the processors, the host bridge, the
routing, the event timer.

* **regular** (`bodyTrees_regular`): no tree holds what a reader would take for
  something else. The ids of the devices on the root bus are all that a
  configuration can spoil, and a NUL is all that spoils them;
* **well formed** (`wellFormed_bodyTrees`): the terms are those of the grammar,
  the texts of ASCII characters;
* **declared devices** (`devicesIn_bodyTrees`): which devices the body declares,
  and in which scopes. A tree without devices (`NoDevices`) needs no look inside.

What does not depend on the configuration, the routing above all, is evaluated node
by node.
-/

universe u v

namespace AcpiTables

open AmlTree (seg RegularHere)

/-! ## Names -/

/-- A hexadecimal digit may stand in a name. -/
theorem isNameChar_hexDigit {n : ℕ} (h : n < 16) :
    isNameChar (UInt8.ofNat (hexDigit n).toNat) = true := by
  have hall : ∀ m < 16, isNameChar (UInt8.ofNat (hexDigit m).toNat) = true := by decide
  exact hall n h

/-- The name of a PCI slot, byte by byte: an `S`, the two digits of the devfn, and
an underscore. -/
theorem asBytes_pciDeviceName (devfn : UInt8) :
    asBytes (pciDeviceName devfn) =
      [0x53, UInt8.ofNat (hexDigit (devfn.toNat / 16)).toNat,
        UInt8.ofNat (hexDigit (devfn.toNat % 16)).toNat, 0x5f] := by
  have hlt := devfn.toNat_lt
  rw [pciDeviceName, asBytes_ofList]
  · rfl
  · simp only [List.forall_mem_cons, List.not_mem_nil, false_implies, implies_true, and_true]
    exact ⟨by decide, (hexDigit_ascii (by omega)).1, (hexDigit_ascii (by omega)).1, by decide⟩

/-- So it is a name segment for every devfn. -/
theorem isNameSeg_pciDeviceName (devfn : UInt8) :
    isNameSeg (asBytes (pciDeviceName devfn)) = true := by
  have hlt := devfn.toNat_lt
  rw [asBytes_pciDeviceName, isNameSeg, isNameChar_hexDigit (by omega),
    isNameChar_hexDigit (by omega)]
  rfl

/-- A decimal digit may stand in a name. -/
theorem isNameChar_of_isDigit {c : Char} (h : c.isDigit = true) :
    isNameChar (UInt8.ofNat c.toNat) = true := by
  simp only [Char.isDigit, Bool.and_eq_true, decide_eq_true_eq] at h
  have hlo : 48 ≤ c.toNat := UInt32.le_iff_toNat_le.mp h.1
  have hhi : c.toNat ≤ 57 := UInt32.le_iff_toNat_le.mp h.2
  have hall : ∀ n : Fin 58, 48 ≤ n.val → isNameChar (UInt8.ofNat n.val) = true := by decide
  exact hall ⟨c.toNat, by omega⟩ hlo

/-- The digits of a processor's number are digits. -/
theorem isDigit_of_mem_cpuDigits {uid : ℕ} {c : Char} (h : c ∈ cpuDigits uid) :
    c.isDigit = true := by
  rcases List.mem_append.mp h with h | h
  · obtain rfl := List.eq_of_mem_replicate h
    rfl
  · exact Nat.isDigit_of_mem_toDigits (by decide) (by decide) h

/-- Up to 999 processors have names of four bytes. -/
theorem isNameSeg_cpuDeviceName {uid : ℕ} (h : uid < 1000) :
    isNameSeg (asBytes (cpuDeviceName uid)) = true := by
  obtain ⟨a, b, c, habc⟩ := List.length_eq_three.mp ((length_cpuDigits uid).mpr h)
  have hchar : ∀ x ∈ [a, b, c], isNameChar (UInt8.ofNat x.toNat) = true :=
    fun x hx => isNameChar_of_isDigit (isDigit_of_mem_cpuDigits (habc ▸ hx))
  simp only [List.forall_mem_cons, List.not_mem_nil, false_implies, implies_true, and_true] at hchar
  simp [asBytes_cpuDeviceName, habc, isNameSeg, hchar]
  decide

/-- A path of one segment, as the string of a name. -/
theorem Path.nameString_seg {name : String} (h : (asBytes name).length = 4) :
    (Path.seg name).nameString = ⟨false, 0, [asBytes name]⟩ := by
  simp [Path.nameString, Path.seg, h, toList_bstr]

/-- A path of one name segment is valid. -/
theorem Path.valid_seg {name : String} (h : isNameSeg (asBytes name) = true) :
    (Path.seg name).Valid := by
  have hlen := length_of_isNameSeg h
  refine ⟨Path.seg_ne_nil hlen, ?_, ?_⟩
  · simp [Path.seg, hlen]
  · simpa [Path.seg, hlen, toList_bstr] using h

/-! ## Regular trees -/

namespace AmlTree

/-- A node without children is regular everywhere when it is regular itself. -/
theorem regular_leaf {t : AmlTree} (hleaf : t.children = []) (h : t.RegularHere) :
    t.Everywhere RegularHere :=
  .node h fun c hc => by simp [hleaf] at hc

/-- A named object is regular when the object is. -/
theorem regular_seg {name : String} {inner : AmlTree} (hname : isNameSeg (asBytes name) = true)
    (h : inner.Everywhere RegularHere) : (seg name inner).Everywhere RegularHere :=
  .node ⟨⟨List.forall_mem_singleton.mpr (Path.valid_seg hname), trivial⟩, trivial⟩
    (List.forall_mem_singleton.mpr h)

/-- A device is regular when its children are. -/
theorem regular_device {name : String} {ts : List AmlTree} (hname : isNameSeg (asBytes name) = true)
    (h : ∀ t ∈ ts, t.Everywhere RegularHere) : (device (.seg name) ts).Everywhere RegularHere :=
  .node ⟨⟨List.forall_mem_singleton.mpr (Path.valid_seg hname), trivial⟩, trivial⟩ h

/-- A scope is regular when its children are. -/
theorem regular_scope {path : Path} {ts : List AmlTree} (hpath : path.Valid)
    (h : ∀ t ∈ ts, t.Everywhere RegularHere) : (scope path ts).Everywhere RegularHere :=
  .node ⟨⟨List.forall_mem_singleton.mpr hpath, trivial⟩, trivial⟩ h

end AmlTree

open AmlTree (toTerm toTerms_eq paths everywhereWithin everywhere_of_within regular_leaf
  regular_seg regular_device regular_scope)

/-- What does not depend on the configuration is regular; this is checked node by
node. -/
theorem routing_regular :
    ∀ t ∈ routingTrees ++ [sleepTree, gpeTree], t.Everywhere RegularHere := by
  have hall : ((routingTrees ++ [sleepTree, gpeTree]).all
    fun t => everywhereWithin RegularHere 8 t) = true := by decide +kernel
  exact fun t ht => everywhere_of_within (List.all_eq_true.mp hall t ht)

/-- So is the event timer. -/
theorem hpet_regular : hpetTree.Everywhere RegularHere := everywhere_of_within (n := 3) (by decide)

/-- A string is regular when it holds no NUL character, at which a reader would
stop. -/
theorem string_regular {text : String} (h : '\x00' ∉ text.toList) :
    (AmlTree.string text).Everywhere RegularHere :=
  regular_leaf rfl ⟨⟨by simp [paths], h⟩, trivial⟩

/-- A text that is there is the value of a name. -/
theorem optionText_regular {name : String} (hname : isNameSeg (asBytes name) = true)
    {value : Option String} (h : ∀ text, value = some text → '\x00' ∉ text.toList) :
    ∀ t ∈ (value.map fun text => seg name (.string text)).toList, t.Everywhere RegularHere := by
  cases value with
  | none => simp
  | some text => simpa using regular_seg hname (string_regular (h text rfl))

/-- The descriptions are texts of ASCII characters. -/
theorem pciDeviceDescription_ascii (driver : String) :
    ∀ text, pciDeviceDescription driver = some text → ∀ b ∈ asBytes text, 1 ≤ b ∧ b ≤ 0x7f := by
  intro text htext
  unfold pciDeviceDescription at htext
  split_ifs at htext <;> obtain rfl := Option.some.inj htext <;>
    exact isAsciiCharList_iff.mp (by decide)

/-- The class codes are texts of ASCII characters too. -/
theorem pciDeviceClass_ascii (driver : String) :
    ∀ text, pciDeviceClass driver = some text → ∀ b ∈ asBytes text, 1 ≤ b ∧ b ≤ 0x7f := by
  intro text htext
  unfold pciDeviceClass at htext
  split_ifs at htext <;> obtain rfl := Option.some.inj htext <;>
    exact isAsciiCharList_iff.mp (by decide)

/-- Text without a zero byte has no zero character. -/
theorem nul_notMem_toList {text : String} (h : ∀ b ∈ asBytes text, 1 ≤ b ∧ b ≤ 0x7f) :
    '\x00' ∉ text.toList := by
  intro hmem
  have hzero : (0 : UInt8) ∈ asBytes text := List.mem_flatMap.mpr ⟨_, hmem, by decide⟩
  exact absurd (h 0 hzero).1 (by decide)

/-- The ids that a string of the table can hold. -/
def PciDeviceConfig.AsciiId (device : PciDeviceConfig) : Prop :=
  ∀ id, device.id = some id → ∀ b ∈ asBytes id, 1 ≤ b ∧ b ≤ 0x7f

/-- A number of 64 bits is regular. -/
theorem qword_regular (v : UInt64) : (AmlTree.qword v).Everywhere RegularHere :=
  regular_leaf rfl ⟨⟨by simp [paths], trivial⟩, trivial⟩

/-- The bytes of a buffer are regular, whatever they are. -/
theorem bufferData_regular (data : Bytes) : (AmlTree.bufferData data).Everywhere RegularHere :=
  regular_leaf rfl ⟨⟨by simp [paths], trivial⟩, trivial⟩

/-- The ids that end where their string does. -/
def PciDeviceConfig.NulFreeId (device : PciDeviceConfig) : Prop :=
  ∀ id, device.id = some id → '\x00' ∉ id.toList

/-- An id of ASCII characters holds no NUL. -/
theorem PciDeviceConfig.AsciiId.nulFreeId {device : PciDeviceConfig} (h : device.AsciiId) :
    device.NulFreeId := fun id hid => nul_notMem_toList (h id hid)

/-- The device of a PCI slot is regular when its id holds no NUL, for the id is its
only text from outside. -/
theorem pciDevice_regular_of_nulFreeId {device : PciDeviceConfig} (h : device.NulFreeId) :
    (pciDeviceTree device).Everywhere RegularHere := by
  have hsta : (seg "_STA" (.byte 0x0f)).Everywhere RegularHere :=
    everywhere_of_within (n := 2) (by decide)
  refine regular_device (isNameSeg_pciDeviceName _) ?_
  simp only [List.forall_mem_append, List.forall_mem_cons, List.not_mem_nil, false_implies,
    implies_true, and_true]
  refine ⟨⟨⟨⟨?_, hsta, ?_, ?_⟩, ?_⟩, ?_⟩, ?_⟩
  · exact regular_seg (by decide) (qword_regular _)
  · exact regular_seg (by decide) (qword_regular _)
  · exact regular_seg (by decide) (qword_regular _)
  · exact optionText_regular (by decide) h
  · exact optionText_regular (by decide) fun text htext =>
      nul_notMem_toList (pciDeviceDescription_ascii _ text htext)
  · exact optionText_regular (by decide) fun text htext =>
      nul_notMem_toList (pciDeviceClass_ascii _ text htext)

/-- The same for ids of ASCII characters. -/
theorem pciDevice_regular {device : PciDeviceConfig} (h : device.AsciiId) :
    (pciDeviceTree device).Everywhere RegularHere :=
  pciDevice_regular_of_nulFreeId h.nulFreeId

/-- The device of a processor is regular while its number has three digits. -/
theorem cpu_regular {uid : ℕ} (apicId : UInt32) (h : uid < 1000) :
    (cpuTree uid apicId).Everywhere RegularHere := by
  refine regular_device (isNameSeg_cpuDeviceName h) ?_
  simp only [List.forall_mem_cons, List.not_mem_nil, false_implies, implies_true, and_true]
  exact ⟨everywhere_of_within (n := 2) (by decide), regular_seg (by decide) (qword_regular _),
    everywhere_of_within (n := 2) (by decide), regular_seg (by decide) (bufferData_regular _)⟩

/-- The devices of the root bus, in order. No other device is in the body. -/
def PlatformConfig.rootBusDevices (config : PlatformConfig) : List PciDeviceConfig :=
  config.pciDevices.filter PciDeviceConfig.isRootBusDevice

/-- The host bridge is regular when the ids of the root bus hold no NUL: other
devices are not written. -/
theorem pci0_regular {config : PlatformConfig}
    (h : ∀ device ∈ config.rootBusDevices, device.NulFreeId) :
    (pci0Tree config).Everywhere RegularHere := by
  refine regular_device (by decide) ?_
  simp only [List.forall_mem_append, List.forall_mem_cons, List.not_mem_nil, false_implies,
    implies_true, and_true, List.forall_mem_map]
  refine ⟨⟨everywhere_of_within (n := 2) (by decide), everywhere_of_within (n := 2) (by decide),
    regular_seg (by decide) (qword_regular _), everywhere_of_within (n := 3) (by decide)⟩, ?_⟩
  exact fun device hdevice => pciDevice_regular_of_nulFreeId (h device hdevice)

/-- What holds of the device of every processor with three digits holds of those of
a configuration. -/
theorem forall_mem_cpuTrees {config : PlatformConfig} {P : AmlTree → Prop}
    (hcpus : config.cpuApicIds.length ≤ 1000)
    (h : ∀ uid apicId, uid < 1000 → P (cpuTree uid apicId)) : ∀ t ∈ cpuTrees config, P t := by
  rw [cpuTrees, List.forall_mem_map]
  rintro ⟨apicId, uid⟩ hmem
  have hlt := List.snd_lt_of_mem_zipIdx hmem
  exact h uid apicId (by omega)

/-- The scope of the devices is regular. -/
theorem rootScope_regular {config : PlatformConfig} (hcpus : config.cpuApicIds.length ≤ 1000)
    (h : ∀ device ∈ config.rootBusDevices, device.NulFreeId) :
    (rootScopeTree config).Everywhere RegularHere := by
  refine regular_scope (by decide) ?_
  simp only [List.cons_append, List.forall_mem_cons, List.forall_mem_append]
  refine ⟨pci0_regular h, forall_mem_cpuTrees hcpus fun _ => cpu_regular, ?_⟩
  cases config.hasHpet with
  | false => simp
  | true => simpa using hpet_regular

/-- **All trees of the body are regular.** The ids are all that a configuration
can spoil, and only those on the root bus are written. -/
theorem bodyTrees_regular {config : PlatformConfig} (hcpus : config.cpuApicIds.length ≤ 1000)
    (h : ∀ device ∈ config.rootBusDevices, device.NulFreeId) (padLen : ℕ) :
    ∀ t ∈ bodyTrees config padLen, t.Everywhere RegularHere := by
  rw [bodyTrees, List.cons_append, List.cons_append, List.forall_mem_cons, List.forall_mem_append]
  refine ⟨rootScope_regular hcpus h, routing_regular, ?_⟩
  split
  · exact List.forall_mem_singleton.mpr (regular_seg (by decide) (bufferData_regular _))
  · simp

/-! ## Well-formed terms -/

/-- A term that can be listed anywhere in a `TermList`. -/
def isObjectTerm (t : Term) : Bool := Place.object.admits t && !t.isElse && t.wellFormed

/-- Trees that stand for objects make a well-formed list of terms: an `Else`
without its `If` is not among them. -/
theorem wellFormedTermList_of_all {ts : List AmlTree}
    (h : ∀ t ∈ ts, isObjectTerm t.toTerm = true) : wellFormedTermList (ts.map toTerm) = true := by
  refine wellFormedTermList_of_forall ?_
  rw [List.forall_mem_map]
  intro t ht
  simpa [isObjectTerm, and_assoc] using h t ht

/-- A named object is well formed when the object is, and may stand behind a name. -/
theorem isObjectTerm_seg {name : String} {inner : AmlTree}
    (hdata : Place.data.admits inner.toTerm = true) (h : inner.toTerm.wellFormed = true) :
    isObjectTerm (seg name inner).toTerm = true := by
  rw [isObjectTerm, AmlTree.toTerm, wellFormed_name, hdata, h]
  rfl

/-- A device is well formed when its children are objects. -/
theorem isObjectTerm_device {path : Path} {ts : List AmlTree}
    (h : ∀ t ∈ ts, isObjectTerm t.toTerm = true) :
    isObjectTerm (AmlTree.device path ts).toTerm = true := by
  rw [isObjectTerm, AmlTree.toTerm, wellFormed_device, toTerms_eq, wellFormedTermList_of_all h]
  rfl

/-- A scope is well formed when its children are objects. -/
theorem isObjectTerm_scope {path : Path} {ts : List AmlTree}
    (h : ∀ t ∈ ts, isObjectTerm t.toTerm = true) :
    isObjectTerm (AmlTree.scope path ts).toTerm = true := by
  rw [isObjectTerm, AmlTree.toTerm, wellFormed_scope, toTerms_eq, wellFormedTermList_of_all h]
  rfl

/-- A text of ASCII characters is a well-formed string, if it is there. -/
theorem isObjectTerm_text {name : String} {value : Option String}
    (h : ∀ text, value = some text → ∀ b ∈ asBytes text, 1 ≤ b ∧ b ≤ 0x7f) :
    ∀ t ∈ (value.map fun text => seg name (.string text)).toList,
      isObjectTerm t.toTerm = true := by
  cases value with
  | none => simp
  | some text =>
    refine List.forall_mem_singleton.mpr (isObjectTerm_seg rfl ?_)
    exact isAsciiCharList_iff.mpr (h text rfl)

/-- The device of a PCI slot is well formed when its id is of ASCII characters. -/
theorem isObjectTerm_pciDevice {device : PciDeviceConfig} (h : device.AsciiId) :
    isObjectTerm (pciDeviceTree device).toTerm = true := by
  refine isObjectTerm_device ?_
  simp only [List.forall_mem_append, List.forall_mem_cons, List.not_mem_nil, false_implies,
    implies_true, and_true]
  exact ⟨⟨⟨⟨rfl, rfl, rfl, rfl⟩, isObjectTerm_text h⟩,
    isObjectTerm_text (pciDeviceDescription_ascii _)⟩, isObjectTerm_text (pciDeviceClass_ascii _)⟩

/-- The device of a processor is well formed. -/
theorem isObjectTerm_cpu (uid : ℕ) (apicId : UInt32) :
    isObjectTerm (cpuTree uid apicId).toTerm = true := by
  refine isObjectTerm_device ?_
  simp only [List.forall_mem_cons, List.not_mem_nil, false_implies, implies_true, and_true]
  exact ⟨by decide, rfl, rfl, rfl⟩

/-- What does not depend on the configuration is well formed. -/
theorem isObjectTerm_routing :
    ∀ t ∈ routingTrees ++ [sleepTree, gpeTree], isObjectTerm t.toTerm = true := by
  have hall :
      ((routingTrees ++ [sleepTree, gpeTree]).all fun t => isObjectTerm t.toTerm) = true := by
    decide +kernel
  exact List.all_eq_true.mp hall

/-- **The terms of the body are well formed.** -/
theorem wellFormed_bodyTrees {config : PlatformConfig} (hcpus : config.cpuApicIds.length ≤ 1000)
    (h : ∀ device ∈ config.pciDevices, device.AsciiId) (padLen : ℕ) :
    wellFormedTermList ((bodyTrees config padLen).map toTerm) = true := by
  have hpci0 : isObjectTerm (pci0Tree config).toTerm = true := by
    refine isObjectTerm_device ?_
    simp only [List.forall_mem_append, List.forall_mem_cons, List.not_mem_nil, false_implies,
      implies_true, and_true, List.forall_mem_map]
    exact ⟨⟨rfl, rfl, rfl, by decide⟩,
      fun device hdevice => isObjectTerm_pciDevice (h device (List.mem_filter.mp hdevice).1)⟩
  have hroot : isObjectTerm (rootScopeTree config).toTerm = true := by
    refine isObjectTerm_scope ?_
    simp only [List.cons_append, List.forall_mem_cons, List.forall_mem_append]
    refine ⟨hpci0, forall_mem_cpuTrees hcpus fun uid apicId _ => isObjectTerm_cpu uid apicId, ?_⟩
    cases config.hasHpet with
    | false => simp
    | true => simpa using (by decide : isObjectTerm hpetTree.toTerm = true)
  refine wellFormedTermList_of_all ?_
  rw [bodyTrees, List.cons_append, List.cons_append, List.forall_mem_cons, List.forall_mem_append]
  refine ⟨hroot, isObjectTerm_routing, ?_⟩
  split
  · exact List.forall_mem_singleton.mpr rfl
  · simp

/-! ## Declared devices -/

/-- The effects of trees on the namespace. -/
def treeEvents (scope : AbsPath) (ts : List AmlTree) : List Event :=
  ts.flatMap fun t => t.toTerm.events scope

/-- The events of two lists one after the other. -/
theorem treeEvents_append (scope : AbsPath) (ts us : List AmlTree) :
    treeEvents scope (ts ++ us) = treeEvents scope ts ++ treeEvents scope us :=
  List.flatMap_append

/-- The events of a list come in the order of its trees. -/
theorem treeEvents_cons (scope : AbsPath) (t : AmlTree) (ts : List AmlTree) :
    treeEvents scope (t :: ts) = t.toTerm.events scope ++ treeEvents scope ts :=
  List.flatMap_cons

/-- Loading the terms of some trees meets their events, starting at the root. -/
theorem namespaceEvents_map (ts : List AmlTree) :
    namespaceEvents (ts.map toTerm) = treeEvents [] ts :=
  List.flatMap_map ..

section

variable (scope parent : AbsPath) {name : String} {ts : List AmlTree}

/-- A segment is resolved in the scope where it stands. -/
theorem resolve_seg (h : (asBytes name).length = 4) :
    (Path.seg name).nameString.resolve scope = scope ++ [asBytes name] := by
  rw [Path.nameString_seg h, NameString.resolve, if_neg (by simp), Nat.sub_zero, List.take_length]

/-- A name declares one object in its scope. -/
theorem events_seg (inner : AmlTree) (h : (asBytes name).length = 4) :
    (seg name inner).toTerm.events scope =
      [.declares (scope ++ [asBytes name]) (seg name inner).toTerm] := by
  rw [AmlTree.toTerm, events_name, resolve_seg scope h]

/-- A method declares itself; its body is not run when it is loaded. -/
theorem events_methodTree {args : UInt8} {serialized : Bool} (h : (asBytes name).length = 4) :
    (AmlTree.method (.seg name) args serialized ts).toTerm.events scope =
      [.declares (scope ++ [asBytes name])
        (AmlTree.method (.seg name) args serialized ts).toTerm] := by
  rw [AmlTree.toTerm, events_method, resolve_seg scope h]

/-- A device declares itself, and then its children under its own path. -/
theorem events_deviceTree (h : (asBytes name).length = 4) :
    (AmlTree.device (.seg name) ts).toTerm.events scope =
      .declares (scope ++ [asBytes name]) (AmlTree.device (.seg name) ts).toTerm ::
        treeEvents (scope ++ [asBytes name]) ts := by
  rw [AmlTree.toTerm, events_device, resolve_seg scope h, toTerms_eq, List.flatMap_map]
  rfl

/-- A scope declares nothing: it opens a path, and its children stand under it. -/
theorem events_scopeTree (path : Path) :
    (AmlTree.scope path ts).toTerm.events scope =
      .opens (path.nameString.resolve scope) :: treeEvents (path.nameString.resolve scope) ts := by
  rw [AmlTree.toTerm, events_scope, toTerms_eq, List.flatMap_map]
  rfl

/-- A name declares no device. -/
theorem devicesIn_seg (inner : AmlTree) (h : (asBytes name).length = 4) :
    devicesIn parent ((seg name inner).toTerm.events scope) = [] := by
  rw [events_seg scope inner h]
  rfl

/-- Nor does a method. -/
theorem devicesIn_methodTree {args : UInt8} {serialized : Bool} (h : (asBytes name).length = 4) :
    devicesIn parent
      ((AmlTree.method (.seg name) args serialized ts).toTerm.events scope) = [] := by
  rw [events_methodTree scope h]
  rfl

/-- A device is found in its own scope, and what it contains further inside. -/
theorem devicesIn_deviceTree (h : (asBytes name).length = 4) :
    devicesIn parent ((AmlTree.device (.seg name) ts).toTerm.events scope) =
      (if scope = parent then [(asBytes name, ts.map toTerm)] else []) ++
        devicesIn parent (treeEvents (scope ++ [asBytes name]) ts) := by
  rw [events_deviceTree scope h, AmlTree.toTerm, toTerms_eq, devicesIn, List.filterMap_cons,
    deviceIn_device]
  split_ifs <;> rfl

/-- A device that contains no devices is found alone. -/
theorem devicesIn_leafDevice (h : (asBytes name).length = 4)
    (hleaf : ∀ t ∈ ts, ∀ s, devicesIn parent (t.toTerm.events s) = []) :
    devicesIn parent ((AmlTree.device (.seg name) ts).toTerm.events scope) =
      if scope = parent then [(asBytes name, ts.map toTerm)] else [] := by
  have hinner : devicesIn parent (treeEvents (scope ++ [asBytes name]) ts) = [] := by
    rw [treeEvents, devicesIn_flatMap, List.flatMap_eq_nil_iff]
    exact fun t ht => hleaf t ht _
  rw [devicesIn_deviceTree scope parent h, hinner, List.append_nil]

end

/-- A tree that declares no device. -/
def NoDevices (t : AmlTree) : Prop := ∀ parent scope, devicesIn parent (t.toTerm.events scope) = []

/-- A named object declares no device anywhere. -/
theorem noDevices_seg {name : String} (inner : AmlTree) (h : (asBytes name).length = 4) :
    NoDevices (seg name inner) := fun parent scope => devicesIn_seg scope parent inner h

/-- Nor does a method, anywhere. -/
theorem noDevices_method {name : String} {args : UInt8} {serialized : Bool} {ts : List AmlTree}
    (h : (asBytes name).length = 4) : NoDevices (.method (.seg name) args serialized ts) :=
  fun parent scope => devicesIn_methodTree scope parent h

/-- A scope declares the devices of its children, so none when they declare none. -/
theorem noDevices_scope {path : Path} {ts : List AmlTree} (h : ∀ t ∈ ts, NoDevices t) :
    NoDevices (.scope path ts) := by
  intro parent scope
  rw [events_scopeTree, devicesIn, List.filterMap_cons]
  change devicesIn parent (treeEvents _ ts) = []
  rw [treeEvents, devicesIn_flatMap, List.flatMap_eq_nil_iff]
  exact fun t ht => h t ht parent _

/-- Nor does a text, whether it is there or not. -/
theorem noDevices_text {name : String} (value : Option String) (h : (asBytes name).length = 4) :
    ∀ t ∈ (value.map fun text => seg name (.string text)).toList, NoDevices t := by
  cases value with
  | none => simp
  | some text => exact List.forall_mem_singleton.mpr (noDevices_seg _ h)

/-- A device whose children declare no devices is found alone. -/
theorem devicesIn_device (scope parent : AbsPath) {name : String} {ts : List AmlTree}
    (h : (asBytes name).length = 4) (hts : ∀ t ∈ ts, NoDevices t) :
    devicesIn parent ((AmlTree.device (.seg name) ts).toTerm.events scope) =
      if scope = parent then [(asBytes name, ts.map toTerm)] else [] :=
  devicesIn_leafDevice scope parent h fun t ht s => hts t ht parent s

/-- The scope of the devices. -/
def sbScope : AbsPath := [asBytes "_SB_"]

/-- The host bridge in it. -/
def pci0Scope : AbsPath := [asBytes "_SB_", asBytes "PCI0"]

section

variable (scope parent : AbsPath)

/-- The device of a PCI slot declares itself in its scope, and no device below it. -/
theorem devicesIn_pciDevice (device : PciDeviceConfig) :
    devicesIn parent ((pciDeviceTree device).toTerm.events scope) =
      if scope = parent then
        [(asBytes (pciDeviceName device.devfn), (pciDeviceTree device).children.map toTerm)]
      else [] := by
  refine devicesIn_device scope parent (isSegName_pciDeviceName _).1 ?_
  simp only [List.forall_mem_append, List.forall_mem_cons, List.not_mem_nil, false_implies,
    implies_true, and_true]
  exact ⟨⟨⟨⟨noDevices_seg _ (by decide), noDevices_seg _ (by decide), noDevices_seg _ (by decide),
    noDevices_seg _ (by decide)⟩, noDevices_text _ (by decide)⟩, noDevices_text _ (by decide)⟩,
    noDevices_text _ (by decide)⟩

/-- The device of a processor declares itself, under its number. -/
theorem devicesIn_cpu {uid : ℕ} (apicId : UInt32) (h : uid < 1000) :
    devicesIn parent ((cpuTree uid apicId).toTerm.events scope) =
      if scope = parent then
        [(asBytes (cpuDeviceName uid), (cpuTree uid apicId).children.map toTerm)]
      else [] := by
  refine devicesIn_device scope parent ((isSegName_cpuDeviceName uid).mpr h).1 ?_
  simp only [List.forall_mem_cons, List.not_mem_nil, false_implies, implies_true, and_true]
  exact ⟨noDevices_seg _ (by decide), noDevices_seg _ (by decide), noDevices_seg _ (by decide),
    noDevices_seg _ (by decide)⟩

/-- The event timer declares itself. -/
theorem devicesIn_hpet :
    devicesIn parent (hpetTree.toTerm.events scope) =
      if scope = parent then [(asBytes "HPET", hpetTree.children.map toTerm)] else [] := by
  refine devicesIn_device scope parent (by decide) ?_
  simp only [List.forall_mem_cons, List.not_mem_nil, false_implies, implies_true, and_true]
  exact ⟨noDevices_seg _ (by decide), noDevices_seg _ (by decide), noDevices_seg _ (by decide),
    noDevices_seg _ (by decide)⟩

/-- A link device declares itself. -/
theorem devicesIn_linkDevice {name : String} (h : (asBytes name).length = 4) (uid : UInt8) :
    devicesIn parent ((linkDeviceTree name uid).toTerm.events scope) =
      if scope = parent then [(asBytes name, (linkDeviceTree name uid).children.map toTerm)]
      else [] := by
  refine devicesIn_device scope parent h ?_
  simp only [List.forall_mem_cons, List.not_mem_nil, false_implies, implies_true, and_true]
  exact ⟨noDevices_seg _ (by decide), noDevices_seg _ (by decide), noDevices_seg _ (by decide),
    noDevices_method (by decide), noDevices_method (by decide), noDevices_method (by decide),
    noDevices_method (by decide)⟩

/-- A link device of a global interrupt declares itself. -/
theorem devicesIn_gsiLinkDevice {name : String} (h : (asBytes name).length = 4) (uid : UInt8)
    (irq : UInt32) :
    devicesIn parent ((gsiLinkDeviceTree name uid irq).toTerm.events scope) =
      if scope = parent then
        [(asBytes name, (gsiLinkDeviceTree name uid irq).children.map toTerm)]
      else [] := by
  refine devicesIn_device scope parent h ?_
  simp only [List.forall_mem_cons, List.not_mem_nil, false_implies, implies_true, and_true]
  exact ⟨noDevices_seg _ (by decide), noDevices_seg _ (by decide), noDevices_seg _ (by decide),
    noDevices_seg _ (by decide), noDevices_method (by decide), noDevices_method (by decide)⟩

/-- The host bridge declares itself, and the devices of the root bus below it. -/
theorem devicesIn_pci0 (config : PlatformConfig) :
    devicesIn parent ((pci0Tree config).toTerm.events sbScope) =
      (if sbScope = parent then
        [(asBytes "PCI0", (pci0Tree config).children.map toTerm)] else []) ++
        (config.pciDevices.filter PciDeviceConfig.isRootBusDevice).flatMap fun device =>
          devicesIn parent ((pciDeviceTree device).toTerm.events pci0Scope) := by
  rw [pci0Tree, devicesIn_deviceTree sbScope parent (by decide), treeEvents, devicesIn_flatMap,
    List.flatMap_append, List.flatMap_map]
  have hfront : ∀ t ∈ [seg "_HID" (.eisaName ⟨0x080ad041⟩), seg "_CID" (.eisaName ⟨0x030ad041⟩),
      seg "_UID" (.qword config.pciRootUid.toUInt64),
      .method (.seg "_OSC") 4 false [.onObject .return_ (.arg ⟨3⟩)]], NoDevices t := by
    simp only [List.forall_mem_cons, List.not_mem_nil, false_implies, implies_true, and_true]
    exact ⟨noDevices_seg _ (by decide), noDevices_seg _ (by decide), noDevices_seg _ (by decide),
      noDevices_method (by decide)⟩
  rw [List.flatMap_eq_nil_iff.mpr fun t ht => hfront t ht parent _]
  rfl

end

/-- A list of one element for each element is the list of these. -/
theorem flatMap_singleton_of {α : Type u} {β : Type v} {l : List α} {f : α → List β} {g : α → β}
    (h : ∀ a ∈ l, f a = [g a]) : l.flatMap f = l.map g := by
  rw [List.map_eq_flatMap]
  exact List.flatMap_congr h

/-- The devices of the processor scope: the host bridge, the CPUs, the HPET when
there is one, and the interrupt links. -/
theorem devicesIn_rootScope (parent : AbsPath) {config : PlatformConfig}
    (hcpus : config.cpuApicIds.length ≤ 1000) :
    devicesIn parent ((rootScopeTree config).toTerm.events []) =
      devicesIn parent ((pci0Tree config).toTerm.events sbScope) ++
        (if sbScope = parent then
          config.cpuApicIds.zipIdx.map fun (apicId, uid) =>
            (asBytes (cpuDeviceName uid), (cpuTree uid apicId).children.map toTerm)
        else []) ++
        if config.hasHpet ∧ sbScope = parent then
          [(asBytes "HPET", hpetTree.children.map toTerm)] else [] := by
  have hcpu : devicesIn parent (treeEvents sbScope (cpuTrees config)) =
      if sbScope = parent then
        config.cpuApicIds.zipIdx.map fun (apicId, uid) =>
          (asBytes (cpuDeviceName uid), (cpuTree uid apicId).children.map toTerm)
      else [] := by
    have heach : ∀ x ∈ config.cpuApicIds.zipIdx,
        devicesIn parent ((cpuTree x.2 x.1).toTerm.events sbScope) =
          if sbScope = parent then
            [(asBytes (cpuDeviceName x.2), (cpuTree x.2 x.1).children.map toTerm)]
          else [] := by
      rintro ⟨apicId, uid⟩ hmem
      have hlt := List.snd_lt_of_mem_zipIdx hmem
      exact devicesIn_cpu sbScope parent apicId (by omega)
    rw [treeEvents, devicesIn_flatMap, cpuTrees, List.flatMap_map]
    split_ifs with h
    · exact flatMap_singleton_of fun x hx => by rw [heach x hx, if_pos h]
    · exact List.flatMap_eq_nil_iff.mpr fun x hx => by rw [heach x hx, if_neg h]
  have hhpet : devicesIn parent (treeEvents sbScope (if config.hasHpet then [hpetTree] else [])) =
      if config.hasHpet ∧ sbScope = parent then
        [(asBytes "HPET", hpetTree.children.map toTerm)] else [] := by
    cases config.hasHpet with
    | false => rfl
    | true => simpa [treeEvents] using devicesIn_hpet sbScope parent
  rw [rootScopeTree, events_scopeTree, devicesIn_opens, List.cons_append, treeEvents_cons,
    treeEvents_append]
  change devicesIn parent (_ ++ (treeEvents sbScope _ ++ treeEvents sbScope _)) = _
  rw [devicesIn_append, devicesIn_append, hcpu, hhpet, List.append_assoc]
  rfl

/-- The link devices, as they are found in the namespace. -/
def linkEntries : List (Bytes × List Term) :=
  (linkDevices.map fun (name, uid, _) =>
    (asBytes name, (linkDeviceTree name uid).children.map toTerm)) ++
  gsiLinkDevices.map fun (name, uid, irq) =>
    (asBytes name, (gsiLinkDeviceTree name uid irq).children.map toTerm)

/-- The link devices are declared in the scope of the devices, and nowhere else. -/
theorem devicesIn_links (parent : AbsPath) :
    devicesIn parent (treeEvents sbScope linkTrees) =
      if sbScope = parent then linkEntries else [] := by
  have hlink : ∀ x ∈ linkDevices,
      devicesIn parent (treeEvents sbScope
        [seg x.2.2 (.byte (0x10 + x.2.1)), linkDeviceTree x.1 x.2.1]) =
      if sbScope = parent then
        [(asBytes x.1, (linkDeviceTree x.1 x.2.1).children.map toTerm)] else [] := by
    intro x hx
    obtain ⟨hname, hirq, -⟩ := linkDevices_isSegName x hx
    rw [treeEvents_cons, devicesIn_append, devicesIn_seg _ _ _ hirq.1, treeEvents_cons,
      devicesIn_append, devicesIn_linkDevice _ _ hname.1]
    exact List.append_nil _
  have hgsi : ∀ x ∈ gsiLinkDevices,
      devicesIn parent ((gsiLinkDeviceTree x.1 x.2.1 x.2.2).toTerm.events sbScope) =
      if sbScope = parent then
        [(asBytes x.1, (gsiLinkDeviceTree x.1 x.2.1 x.2.2).children.map toTerm)] else [] :=
    fun x hx => devicesIn_gsiLinkDevice _ _ (gsiLinkDevices_isSegName x hx).1 _ _
  rw [linkTrees, treeEvents_append, devicesIn_append, treeEvents, List.flatMap_assoc,
    devicesIn_flatMap, treeEvents, List.flatMap_map, devicesIn_flatMap]
  split_ifs with h
  · rw [linkEntries]
    exact congrArg₂ _ (flatMap_singleton_of fun x hx => (hlink x hx).trans (if_pos h))
      (flatMap_singleton_of fun x hx => (hgsi x hx).trans (if_pos h))
  · refine List.append_eq_nil_iff.mpr ⟨List.flatMap_eq_nil_iff.mpr fun x hx => ?_,
      List.flatMap_eq_nil_iff.mpr fun x hx => ?_⟩
    · exact (hlink x hx).trans (if_neg h)
    · exact (hgsi x hx).trans (if_neg h)

/-- The routing declares the link devices and no other device. -/
theorem devicesIn_routing (parent : AbsPath) :
    devicesIn parent (treeEvents [] routingTrees) =
      if sbScope = parent then linkEntries else [] := by
  have hprt : ∀ t ∈ [seg "PRTP" (prtTree "LNK"), seg "PRTA" (prtTree "GSI"),
      .method (.seg "_PRT") 0 false
        [.ifTree (.compare .equal (.path (.seg "PICF")) .zero)
            [.onObject .return_ (.path (.seg "PRTP"))],
          .elseTree [.onObject .return_ (.path (.seg "PRTA"))]]], NoDevices t := by
    simp only [List.forall_mem_cons, List.not_mem_nil, false_implies, implies_true, and_true]
    exact ⟨noDevices_seg _ (by decide), noDevices_seg _ (by decide), noDevices_method (by decide)⟩
  rw [routingTrees, treeEvents_cons, devicesIn_append, devicesIn_seg _ _ _ (by decide),
    treeEvents_cons, devicesIn_append, devicesIn_methodTree _ _ (by decide), treeEvents_cons,
    devicesIn_append, noDevices_scope hprt, treeEvents_cons, devicesIn_append, events_scopeTree,
    devicesIn_opens, ← devicesIn_links]
  exact List.append_nil _

/-- The devices that the whole body declares in a scope. -/
theorem devicesIn_bodyTrees (parent : AbsPath) (config : PlatformConfig) (padLen : ℕ) :
    devicesIn parent (namespaceEvents ((bodyTrees config padLen).map toTerm)) =
      devicesIn parent ((rootScopeTree config).toTerm.events []) ++
        if sbScope = parent then linkEntries else [] := by
  have hgpe : NoDevices gpeTree :=
    noDevices_scope (List.forall_mem_singleton.mpr (noDevices_seg _ (by decide)))
  have hpad :
      devicesIn parent (treeEvents [] (if 0 < padLen then [padTree padLen] else [])) = [] := by
    split
    · rw [treeEvents_cons, devicesIn_append, padTree, devicesIn_seg _ _ _ (by decide)]
      rfl
    · rfl
  rw [namespaceEvents_map, bodyTrees, List.cons_append, List.cons_append, treeEvents_cons,
    devicesIn_append, treeEvents_append, devicesIn_append, hpad, treeEvents_append,
    devicesIn_append, devicesIn_routing, treeEvents_cons, devicesIn_append, sleepTree,
    devicesIn_seg _ _ _ (by decide), treeEvents_cons, devicesIn_append, hgpe]
  simp [treeEvents, devicesIn]

end AcpiTables
