import AcpiTables.AmlTree
import AcpiTables.Dsdt

/-!
# The DSDT as a term tree

The body of the DSDT is put together from raw bytes at several depths. It is
nevertheless the word of a list of term trees, `bodyTrees`, one tree for each
object of the body in order (`encodeDsdtBody_eq`). Everything else that is said
about the body is said about these trees.

The one condition is that every name is a segment of four bytes. All names of
the table are, except that of a CPU with a number of four digits or more
(`encodeDsdtBody_of_lt`).
-/

namespace AcpiTables

open MachineInt

/-! ## Names -/

/-- A name that is one segment. -/
def IsSegName (name : String) : Prop :=
  (asBytes name).length = 4 ∧ '.' ∉ name.toList ∧ name.toList.head? ≠ some '\\'

instance (name : String) : Decidable (IsSegName name) :=
  inferInstanceAs (Decidable (_ ∧ _ ∧ _))

/-- The path of one segment. -/
def Path.seg (name : String) : Path :=
  ⟨false, if h : (asBytes name).length = 4 then [bstr name (beq_iff_eq.mpr h)] else []⟩

/-- The path of one segment has a part. -/
theorem Path.seg_ne_nil {name : String} (h : (asBytes name).length = 4) :
    (Path.seg name).nameParts ≠ [] := by
  simp [Path.seg, h]

/-- A name without a root and a dot is one part. -/
theorem Path.new_of_plain {name : String} (hdot : '.' ∉ name.toList)
    (hroot : name.toList.head? ≠ some '\\') :
    Path.new name = (Path.namePart name.toList).map fun part => ⟨false, [part]⟩ := by
  have hroot' : (name.toList.head? == some '\\') = false := by simpa using hroot
  have hsplit : name.toList.splitOn '.' = [name.toList] :=
    List.splitOnP_eq_singleton fun c hc => by
      simpa using fun heq : c = '.' => hdot (heq ▸ hc)
  cases hpart : Path.namePart name.toList <;> simp [Path.new, hroot', hsplit, hpart, Except.map]

/-- The text of one segment is taken as the path of one segment. -/
theorem Path.new_seg {name : String} (h : IsSegName name) : Path.new name = .ok (.seg name) := by
  obtain ⟨hlen, hdot, hroot⟩ := h
  have hpart : Path.namePart name.toList = .ok (bstr name (beq_iff_eq.mpr hlen)) := dif_pos hlen
  rw [Path.new_of_plain hdot hroot, hpart, Except.map, Path.seg, dif_pos hlen]

/-- A name whose length is not four bytes is not a segment. -/
theorem Path.new_of_length_ne {name : String} (hdot : '.' ∉ name.toList)
    (hroot : name.toList.head? ≠ some '\\') (h : (asBytes name).length ≠ 4) :
    Path.new name = .error .assertion := by
  have hpart : Path.namePart name.toList = .error .assertion := dif_neg h
  rw [Path.new_of_plain hdot hroot, hpart, Except.map]

def sbPath : Path := ⟨true, [bstr "_SB_"]⟩

def pci0Path : Path := ⟨true, [bstr "_SB_", bstr "PCI0"]⟩

/-- The text of `sbPath`. -/
theorem path_new_sb : Path.new "\\_SB_" = .ok sbPath := rfl

/-- The text of `pci0Path`. -/
theorem path_new_pci0 : Path.new "\\_SB_.PCI0" = .ok pci0Path := rfl

/-- The id of a PCI Express host bridge, packed. -/
theorem eisaName_pnp0A08 : EISAName.new "PNP0A08" = .ok ⟨0x080ad041⟩ := rfl

/-- The id of a PCI host bridge, packed. -/
theorem eisaName_pnp0A03 : EISAName.new "PNP0A03" = .ok ⟨0x030ad041⟩ := rfl

/-- The id of a PCI interrupt link device, packed. -/
theorem eisaName_pnp0C0F : EISAName.new "PNP0C0F" = .ok ⟨0x0f0cd041⟩ := rfl

/-- The id of the HPET, packed. -/
theorem eisaName_pnp0103 : EISAName.new "PNP0103" = .ok ⟨0x0301d041⟩ := rfl

/-! ### Computed names -/

/-- An ASCII character is one byte in UTF-8. -/
theorem utf8EncodeChar_of_ascii {c : Char} (h : c.toNat < 128) :
    String.utf8EncodeChar c = [UInt8.ofNat c.toNat] := by
  have hle : c.val.toNat ≤ 127 := Nat.le_of_lt_succ h
  rw [String.utf8EncodeChar]
  exact if_pos hle

/-- The encoding of ASCII text is its characters. -/
theorem asBytes_ofList {l : List Char} (h : ∀ c ∈ l, c.toNat < 128) :
    asBytes (String.ofList l) = l.map fun c => UInt8.ofNat c.toNat := by
  rw [asBytes, String.toList_ofList]
  induction l with
  | nil => rfl
  | cons c l ih =>
    rw [List.flatMap_cons, utf8EncodeChar_of_ascii (h c (List.mem_cons_self ..)),
      ih fun c hc => h c (List.mem_cons_of_mem _ hc)]
    rfl

/-- ASCII text of four characters without a dot, led by a letter. -/
theorem isSegName_ofList {a b c d : Char} (h : ∀ x ∈ [a, b, c, d], x.toNat < 128 ∧ x ≠ '.')
    (ha : a ≠ '\\') : IsSegName (String.ofList [a, b, c, d]) := by
  refine ⟨?_, ?_, ?_⟩
  · rw [asBytes_ofList fun x hx => (h x hx).1]
    rfl
  · rw [String.toList_ofList]
    exact fun hmem => (h '.' hmem).2 rfl
  · rw [String.toList_ofList]
    simpa using ha

/-- Hexadecimal digits are ASCII, and none of them splits a path. -/
theorem hexDigit_ascii {n : ℕ} (h : n < 16) : (hexDigit n).toNat < 128 ∧ hexDigit n ≠ '.' := by
  have hall : ∀ m < 16, (hexDigit m).toNat < 128 ∧ hexDigit m ≠ '.' := by decide
  exact hall n h

/-- The name of every PCI device is one segment, whatever its devfn. -/
theorem isSegName_pciDeviceName (devfn : UInt8) : IsSegName (pciDeviceName devfn) := by
  have hlt := devfn.toNat_lt
  refine isSegName_ofList ?_ (by decide)
  simp only [List.forall_mem_cons, List.not_mem_nil, false_implies, implies_true, and_true]
  exact ⟨by decide, hexDigit_ascii (by omega), hexDigit_ascii (by omega), by decide⟩

/-- Decimal digits are ASCII, and none of them splits a path. -/
theorem digit_ascii {n : ℕ} {c : Char} (h : c ∈ Nat.toDigits 10 n) : c.toNat < 128 ∧ c ≠ '.' := by
  have hdigit := Nat.isDigit_of_mem_toDigits (by decide) (by decide) h
  simp only [Char.isDigit, Bool.and_eq_true, decide_eq_true_eq] at hdigit
  obtain ⟨hlo, hhi⟩ := hdigit
  have hlo' : 48 ≤ c.toNat := UInt32.le_iff_toNat_le.mp hlo
  have hhi' : c.toNat ≤ 57 := UInt32.le_iff_toNat_le.mp hhi
  refine ⟨by omega, ?_⟩
  rintro rfl
  exact absurd hlo' (by decide)

/-- The characters of a CPU's name. -/
def cpuDigits (uid : ℕ) : List Char :=
  List.replicate (3 - (Nat.toDigits 10 uid).length) '0' ++ Nat.toDigits 10 uid

/-- The name of a CPU is the letter C and the digits of its index. -/
theorem cpuDeviceName_eq (uid : ℕ) : cpuDeviceName uid = String.ofList ('C' :: cpuDigits uid) := rfl

/-- The digits of a CPU's name are ASCII, and none of them splits a path. -/
theorem cpuDigits_ascii {uid : ℕ} {c : Char} (h : c ∈ cpuDigits uid) :
    c.toNat < 128 ∧ c ≠ '.' := by
  rcases List.mem_append.mp h with h | h
  · obtain rfl := List.eq_of_mem_replicate h
    decide
  · exact digit_ascii h

/-- The digits of a CPU's name are three exactly when its index is below a
thousand. -/
theorem length_cpuDigits (uid : ℕ) : (cpuDigits uid).length = 3 ↔ uid < 1000 := by
  have hle : (Nat.toDigits 10 uid).length ≤ 3 ↔ uid < 10 ^ 3 :=
    Nat.length_toDigits_le_iff (by decide) (by decide)
  rw [cpuDigits, List.length_append, List.length_replicate]
  omega

/-- The bytes of a CPU's name. -/
theorem asBytes_cpuDeviceName (uid : ℕ) :
    asBytes (cpuDeviceName uid) = 0x43 :: (cpuDigits uid).map fun c => UInt8.ofNat c.toNat := by
  rw [cpuDeviceName_eq, asBytes_ofList]
  · rfl
  · intro c hc
    rcases List.mem_cons.mp hc with rfl | hc
    · decide
    · exact (cpuDigits_ascii hc).1

/-- The name of a CPU is one part of a path, also when it is longer than a segment. -/
theorem cpuDeviceName_plain (uid : ℕ) : '.' ∉ (cpuDeviceName uid).toList ∧
    (cpuDeviceName uid).toList.head? ≠ some '\\' := by
  rw [cpuDeviceName_eq, String.toList_ofList]
  refine ⟨fun hmem => ?_, by simp⟩
  rcases List.mem_cons.mp hmem with h | h
  · exact absurd h (by decide)
  · exact (cpuDigits_ascii h).2 rfl

/-- **Names of CPUs**: only the first thousand have four bytes. -/
theorem isSegName_cpuDeviceName (uid : ℕ) : IsSegName (cpuDeviceName uid) ↔ uid < 1000 := by
  have hlen : (asBytes (cpuDeviceName uid)).length = 4 ↔ uid < 1000 := by
    rw [asBytes_cpuDeviceName, List.length_cons, List.length_map, ← length_cpuDigits]
    omega
  exact ⟨fun h => hlen.mp h.1, fun h => ⟨hlen.mpr h, cpuDeviceName_plain uid⟩⟩

/-! ## The trees -/

namespace AmlTree

/-- `Name (name, inner)` for a name of one segment. -/
abbrev seg (segName : String) (inner : AmlTree) : AmlTree := name (.seg segName) inner

end AmlTree

open AmlTree (seg)

/-- The tree of a PCI device: its address, its status and its slot, and its id,
description and class where it has them. -/
def pciDeviceTree (device : PciDeviceConfig) : AmlTree :=
  .device (.seg (pciDeviceName device.devfn)) <|
    [seg "_ADR" (.qword (pciAdr device.devfn).toUInt64), seg "_STA" (.byte 0x0f),
      seg "_SUN" (.qword (device.devfn >>> 3).toUInt64),
      seg "_UID" (.qword (device.devfn >>> 3).toUInt64)] ++
    (device.id.map fun id => seg "_DDN" (.string id)).toList ++
    ((pciDeviceDescription device.driver).map fun text => seg "_STR" (.string text)).toList ++
    ((pciDeviceClass device.driver).map fun cls => seg "CLSS" (.string cls)).toList

/-- The tree of the PCI host bridge, with the devices of the root bus as its last
children. -/
def pci0Tree (config : PlatformConfig) : AmlTree :=
  .device (.seg "PCI0") <|
    [seg "_HID" (.eisaName ⟨0x080ad041⟩), seg "_CID" (.eisaName ⟨0x030ad041⟩),
      seg "_UID" (.qword config.pciRootUid.toUInt64),
      .method (.seg "_OSC") 4 false [.onObject .return_ (.arg ⟨3⟩)]] ++
    (config.pciDevices.filter PciDeviceConfig.isRootBusDevice).map pciDeviceTree

/-- The tree of a CPU. -/
def cpuTree (uid : ℕ) (apicId : UInt32) : AmlTree :=
  .device (.seg (cpuDeviceName uid))
    [seg "_HID" (.string "ACPI0007"), seg "_UID" (.qword (UInt64.ofNat uid)),
      seg "_STA" (.byte 0x0f), seg "_MAT" (.bufferData (cpuMat apicId (UInt32.ofNat uid)))]

/-- The trees of all CPUs. The index of a CPU is its UID. -/
def cpuTrees (config : PlatformConfig) : List AmlTree :=
  config.cpuApicIds.zipIdx.map fun (apicId, uid) => cpuTree uid apicId

/-- The tree of the HPET. -/
def hpetTree : AmlTree :=
  .device (.seg "HPET")
    [seg "_HID" (.eisaName ⟨0x0301d041⟩), seg "_UID" .zero, seg "_STA" (.byte 0x0f),
      seg "_CRS" (.bufferData hpetResourceTemplate)]

/-- The tree of the scope that holds the host bridge, the CPUs and the HPET. -/
def rootScopeTree (config : PlatformConfig) : AmlTree :=
  .scope sbPath <|
    pci0Tree config :: cpuTrees config ++ if config.hasHpet then [hpetTree] else []

/-- The interrupt of a link device: shared, level-triggered, active high. -/
def linkIrq (number : UInt32) : Descriptor :=
  .interrupt (Interrupt.new true false false true number)

/-- The tree of an interrupt link device. Its current interrupts are its possible
ones, and setting them does nothing. -/
def linkDeviceTree (name : String) (uid : UInt8) : AmlTree :=
  .device (.seg name)
    [seg "_HID" (.eisaName ⟨0x0f0cd041⟩), seg "_UID" (.byte uid),
      seg "_PRS" (.resourceTemplate [linkIrq 5, linkIrq 10, linkIrq 11]),
      .method (.seg "_STA") 0 false [.onObject .return_ (.byte 0x0b)],
      .method (.seg "_DIS") 0 false [],
      .method (.seg "_CRS") 0 false [.onObject .return_ (.path (.seg "_PRS"))],
      .method (.seg "_SRS") 1 false []]

/-- The tree of an interrupt link device with one fixed interrupt. -/
def gsiLinkDeviceTree (name : String) (uid : UInt8) (irq : UInt32) : AmlTree :=
  .device (.seg name)
    [seg "_HID" (.eisaName ⟨0x0f0cd041⟩), seg "_UID" (.byte uid),
      seg "_PRS" (.resourceTemplate [linkIrq irq]), seg "_CRS" (.resourceTemplate [linkIrq irq]),
      .method (.seg "_DIS") 0 false [], .method (.seg "_SRS") 1 false []]

/-- The last letter of the link of a pin: the letter of the slot, moved on by the
pin. -/
def linkLetter (letter : String) (pin : UInt8) : Char :=
  Char.ofNat ((asBytes letter).sum + pin).toNat

/-- The entry of a slot and a pin. -/
def prtEntryTree (linkPrefix letter : String) (slot : UInt32) (pin : UInt8) : AmlTree :=
  .package
    [.dword ((slot <<< 16) ||| 0xffff), .byte pin,
      .path (.seg (linkPrefix ++ String.ofList [linkLetter letter pin])), .zero]

/-- The tree of a routing table: four entries for each of the 32 slots. -/
def prtTree (linkPrefix : String) : AmlTree :=
  .packageBuilder <| q35Slots.flatMap fun (slot, letter) =>
    [0, 1, 2, 3].map (prtEntryTree linkPrefix letter slot)

/-- The link devices: the first eight each after the name of its interrupt, then
those of the global interrupts. -/
def linkTrees : List AmlTree :=
  (linkDevices.flatMap fun (name, uid, irqName) =>
    [seg irqName (.byte (0x10 + uid)), linkDeviceTree name uid]) ++
  gsiLinkDevices.map fun (name, uid, irq) => gsiLinkDeviceTree name uid irq

/-- The trees of the interrupt routing: the interrupt model and its method, the two
routing tables with the method that selects one of them, and the link devices. -/
def routingTrees : List AmlTree :=
  [seg "PICF" .zero,
    .method (.seg "_PIC") 1 false [.store (.path (.seg "PICF")) (.arg ⟨0⟩)],
    .scope pci0Path
      [seg "PRTP" (prtTree "LNK"), seg "PRTA" (prtTree "GSI"),
        .method (.seg "_PRT") 0 false
          [.ifTree (.compare .equal (.path (.seg "PICF")) .zero)
              [.onObject .return_ (.path (.seg "PRTP"))],
            .elseTree [.onObject .return_ (.path (.seg "PRTA"))]]],
    .scope sbPath linkTrees]

/-- The tree of the package that tells how to power off. -/
def sleepTree : AmlTree := seg "_S5_" (.package [.zero, .zero, .zero, .zero])

/-- The tree of the scope of general purpose events, with nothing but an id. -/
def gpeTree : AmlTree := .scope (.seg "_GPE") [seg "_HID" (.string "ACPI0006")]

/-- The tree of the padding buffer. -/
def padTree (padLen : ℕ) : AmlTree := seg "QPAD" (.bufferData (List.replicate padLen 0))

/-- The objects of the body, in order. -/
def bodyTrees (config : PlatformConfig) (padLen : ℕ) : List AmlTree :=
  rootScopeTree config :: routingTrees ++ [sleepTree, gpeTree] ++
    if 0 < padLen then [padTree padLen] else []

/-! ## The body is its trees -/

/-- A fold whose every step appends the bytes of its element appends the bytes of
all elements in order. -/
theorem foldlM_append {α : Type} {l : List α} {f : Bytes → α → Checked Bytes} {g : α → Bytes}
    (h : ∀ a ∈ l, ∀ out, f out a = .ok (out ++ g a)) (out : Bytes) :
    l.foldlM f out = .ok (out ++ l.flatMap g) := by
  induction l generalizing out with
  | nil => simp
  | cons a l ih =>
    rw [List.foldlM_cons, h a (List.mem_cons_self ..), Checked.ok_bind,
      ih fun b hb => h b (List.mem_cons_of_mem _ hb), List.flatMap_cons, List.append_assoc]

/-- Appending an object appends its word. -/
theorem appendAml_eq {x : DynAml} {w : Bytes} (h : Writes x w) (out : Bytes) :
    appendAml x out = .ok (out ++ w) := h.run out

section

variable {x : DynAml} {β : Type}

/-- A named object holds the word of its tree. -/
theorem name_new_seg (segName : String) (t : AmlTree) (h : IsSegName segName)
    (hx : Writes x t.encode) : Name.new (.seg segName) x = .ok ⟨(seg segName t).encode⟩ :=
  name_new_eq (Path.seg_ne_nil h.1) hx

/-- A name definition that is built and kept. -/
theorem new_name (segName : String) (t : AmlTree) (h : IsSegName segName)
    (hx : Writes x t.encode) (k : Name → Checked β) :
    (do let p ← Path.new segName; let n ← Name.new p x; k n) = k ⟨(seg segName t).encode⟩ := by
  rw [Path.new_seg h, Checked.ok_bind, name_new_seg segName t h hx, Checked.ok_bind]

/-- A name definition of an EISA name. -/
theorem new_eisaName (segName : String) (h : IsSegName segName) {id : String} {v : EISAName}
    (hid : EISAName.new id = .ok v) (k : Name → Checked β) :
    (do let p ← Path.new segName; let v ← EISAName.new id; let n ← Name.new p (dyn v); k n) =
      k ⟨(seg segName (.eisaName v)).encode⟩ := by
  rw [hid]
  exact new_name segName (.eisaName v) h (writes_eisaName v) k

/-- A name definition that is appended at once. -/
theorem append_name (segName : String) (t : AmlTree) (h : IsSegName segName)
    (hx : Writes x t.encode) (out : Bytes) (k : Bytes → Checked β) :
    (do let p ← Path.new segName; let n ← Name.new p x; let out ← appendAml (dyn n) out; k out) =
      k (out ++ (seg segName t).encode) := by
  rw [new_name segName t h hx, appendAml_eq (writes_name _), Checked.ok_bind]

end

/-- An optional text is appended as a named string, or not at all. -/
theorem appendTextIfSome_eq (segName : String) (h : IsSegName segName) (value : Option String)
    (out : Bytes) :
    appendTextIfSome segName value out = .ok (out ++
      (value.map fun text => seg segName (.string text)).toList.flatMap AmlTree.encode) := by
  cases value with
  | none => simp [appendTextIfSome]
  | some text =>
    rw [appendTextIfSome, new_name segName (.string text) h (writes_string text),
      appendAml_eq (writes_name _)]
    simp

/-- Close a device around children that are the words of trees. -/
theorem device_raw_eq {name : String} (h : IsSegName name) (ts : List AmlTree) :
    (do let p ← Path.new name; Device.raw p (ts.flatMap AmlTree.encode)) =
      .ok (AmlTree.device (.seg name) ts).encode := by
  rw [Path.new_seg h, Checked.ok_bind, Device.raw_eq (Path.seg_ne_nil h.1), AmlTree.encode,
    AmlTree.encodeAll_eq]

/-- The device that is built for a PCI device is the word of its tree. -/
theorem buildPciDeviceBytes_eq (device : PciDeviceConfig) :
    buildPciDeviceBytes device = .ok (pciDeviceTree device).encode := by
  rw [buildPciDeviceBytes, append_name "_ADR" (.qword _) (by decide) (writes_u64 _),
    append_name "_STA" (.byte _) (by decide) (writes_u8 _),
    append_name "_SUN" (.qword _) (by decide) (writes_u64 _),
    append_name "_UID" (.qword _) (by decide) (writes_u64 _),
    appendTextIfSome_eq _ (by decide), Checked.ok_bind, appendTextIfSome_eq _ (by decide),
    Checked.ok_bind, appendDeviceSpecificObjects, appendTextIfSome_eq _ (by decide),
    Checked.ok_bind, pciDeviceTree, ← device_raw_eq (isSegName_pciDeviceName device.devfn)]
  simp

/-- The host bridge that is built is the word of its tree. -/
theorem buildPci0DeviceBytes_eq (config : PlatformConfig) :
    buildPci0DeviceBytes config = .ok (pci0Tree config).encode := by
  have hosc : Writes (dyn (Method.new (.seg "_OSC") 4 false
      [dyn ({ a := dyn (Arg.mk 3) } : OnObject .return_)]))
      (AmlTree.method (.seg "_OSC") 4 false [.onObject .return_ (.arg ⟨3⟩)]).encode :=
    AmlTree.writes_object (t := .method (.seg "_OSC") 4 false [.onObject .return_ (.arg ⟨3⟩)])
      (AmlTree.everywhere_of_within (n := 3) (by decide))
  have hdevices := foldlM_append (l := config.pciDevices.filter PciDeviceConfig.isRootBusDevice)
    (f := fun children device => return children ++ (← buildPciDeviceBytes device))
    (g := fun device => (pciDeviceTree device).encode)
    fun device _ out => by rw [buildPciDeviceBytes_eq]; rfl
  rw [buildPci0DeviceBytes, new_eisaName "_HID" (by decide) eisaName_pnp0A08,
    appendAml_eq (writes_name _), Checked.ok_bind,
    new_eisaName "_CID" (by decide) eisaName_pnp0A03, appendAml_eq (writes_name _),
    Checked.ok_bind, append_name "_UID" (.qword _) (by decide) (writes_u64 _),
    Path.new_seg (by decide), Checked.ok_bind]
  dsimp only
  rw [appendAml_eq hosc, Checked.ok_bind, hdevices, Checked.ok_bind, pci0Tree,
    ← device_raw_eq (by decide)]
  simp [List.flatMap_map]

/-- The device that is built for a CPU is the word of its tree, as long as the
CPU's index has at most three digits. -/
theorem buildCpuDevice_eq {uid : ℕ} (apicId : UInt32) (h : uid < 1000) :
    buildCpuDevice uid apicId = .ok (cpuTree uid apicId).encode := by
  rw [buildCpuDevice, append_name "_HID" (.string _) (by decide) (writes_string _),
    append_name "_UID" (.qword _) (by decide) (writes_u64 _),
    append_name "_STA" (.byte _) (by decide) (writes_u8 _),
    append_name "_MAT" (.bufferData _) (by decide) (writes_bufferData _), cpuTree,
    ← device_raw_eq ((isSegName_cpuDeviceName uid).mpr h)]
  simp

/-- The name of a CPU with more than three digits is no name segment. -/
theorem buildCpuDevice_of_le {uid : ℕ} (apicId : UInt32) (h : 1000 ≤ uid) :
    buildCpuDevice uid apicId = .error .assertion := by
  have hlen : (asBytes (cpuDeviceName uid)).length ≠ 4 := by
    intro hlen
    have := (isSegName_cpuDeviceName uid).mp ⟨hlen, cpuDeviceName_plain uid⟩
    omega
  rw [buildCpuDevice, append_name "_HID" (.string _) (by decide) (writes_string _),
    append_name "_UID" (.qword _) (by decide) (writes_u64 _),
    append_name "_STA" (.byte _) (by decide) (writes_u8 _),
    append_name "_MAT" (.bufferData _) (by decide) (writes_bufferData _),
    Path.new_of_length_ne (cpuDeviceName_plain uid).1 (cpuDeviceName_plain uid).2 hlen]
  rfl

/-- The HPET that is built is the word of its tree. -/
theorem buildHpetDeviceBytes_eq : buildHpetDeviceBytes = .ok hpetTree.encode := by
  rw [buildHpetDeviceBytes, new_eisaName "_HID" (by decide) eisaName_pnp0103,
    appendAml_eq (writes_name _), Checked.ok_bind,
    append_name "_UID" .zero (by decide) writes_zero,
    append_name "_STA" (.byte _) (by decide) (writes_u8 _),
    append_name "_CRS" (.bufferData _) (by decide) (writes_bufferData _), hpetTree,
    ← device_raw_eq (by decide)]
  simp

/-- A map in `Checked` returns the map of what its calls return. -/
theorem mapM_ok {α γ : Type} {l : List α} {f : α → Checked γ} {g : α → γ}
    (h : ∀ a ∈ l, f a = .ok (g a)) : l.mapM f = .ok (l.map g) := by
  induction l with
  | nil => rfl
  | cons a l ih =>
    rw [List.mapM_cons, h a (List.mem_cons_self ..), Checked.ok_bind,
      ih fun b hb => h b (List.mem_cons_of_mem _ hb)]
    rfl

/-- A sweep in which one step fails, and all that fail do so alike. -/
theorem mapM_error {α γ : Type} {l : List α} {f : α → Checked γ} {g : α → γ} {e : Panic}
    (h : ∀ a ∈ l, f a = .ok (g a) ∨ f a = .error e) (hex : ∃ a ∈ l, f a = .error e) :
    l.mapM f = .error e := by
  induction l with
  | nil => simp at hex
  | cons a l ih =>
    obtain ⟨ha, hl⟩ := List.forall_mem_cons.mp h
    rw [List.mapM_cons]
    rcases ha with ha | ha
    · obtain ⟨b, hb, hfail⟩ := hex
      rcases List.mem_cons.mp hb with rfl | hb
      · rw [hfail]
        rfl
      · rw [ha, Checked.ok_bind, ih hl ⟨b, hb, hfail⟩]
        rfl
    · rw [ha]
      rfl

/-- The thousandth CPU and those after it cannot be named. -/
theorem buildCpuDeviceBytes_of_lt {config : PlatformConfig}
    (h : 1000 < config.cpuApicIds.length) : buildCpuDeviceBytes config = .error .assertion := by
  refine mapM_error (g := fun x => (cpuTree x.2 x.1).encode) ?_
    ⟨(config.cpuApicIds[1000], 1000), ?_, buildCpuDevice_of_le _ (Nat.le_refl _)⟩
  · rintro ⟨apicId, uid⟩ -
    rcases Nat.lt_or_ge uid 1000 with huid | huid
    · exact .inl (buildCpuDevice_eq apicId huid)
    · exact .inr (buildCpuDevice_of_le apicId huid)
  · rw [List.mem_zipIdx_iff_getElem?]
    exact List.getElem?_eq_getElem h

/-- With at most a thousand CPUs, the devices that are built for them are the words
of their trees. -/
theorem buildCpuDeviceBytes_eq {config : PlatformConfig} (h : config.cpuApicIds.length ≤ 1000) :
    buildCpuDeviceBytes config = .ok ((cpuTrees config).map AmlTree.encode) := by
  rw [buildCpuDeviceBytes, mapM_ok (g := fun x => (cpuTree x.2 x.1).encode), cpuTrees,
    List.map_map]
  · rfl
  · rintro ⟨apicId, uid⟩ hmem
    have hlt := List.snd_lt_of_mem_zipIdx hmem
    exact buildCpuDevice_eq apicId (by omega)

/-- A scope around raw bytes is the word of a scope around the trees of these
bytes. -/
theorem scope_raw_eq {path : Path} (h : path.nameParts ≠ []) (ts : List AmlTree) :
    Scope.raw path (ts.flatMap AmlTree.encode) = .ok (AmlTree.scope path ts).encode := by
  rw [Scope.raw_eq h, AmlTree.encode, AmlTree.encodeAll_eq]

/-- The scope that is built for the host bridge, the CPUs and the HPET is the word
of its tree. -/
theorem buildRootScopeBytes_eq {config : PlatformConfig} (h : config.cpuApicIds.length ≤ 1000) :
    buildRootScopeBytes config = .ok (rootScopeTree config).encode := by
  have hfold : ∀ (l : List AmlTree) (out : Bytes),
      (l.map AmlTree.encode).foldl (fun bytes cpuBytes => bytes ++ cpuBytes) out =
        out ++ l.flatMap AmlTree.encode := by
    intro l
    induction l with
    | nil => simp
    | cons t l ih => intro out; simp [ih]
  rw [buildRootScopeBytes, buildPci0DeviceBytes_eq, Checked.ok_bind, buildCpuDeviceBytes_eq h,
    Checked.ok_bind, rootScopeTree, ← scope_raw_eq (by decide)]
  dsimp only
  rw [hfold]
  cases config.hasHpet with
  | false => simp [path_new_sb]
  | true => simp [path_new_sb, buildHpetDeviceBytes_eq]

/-! ### Interrupt routing -/

/-- A device of given children, each with its tree. -/
theorem writes_deviceTree {path : Path} (hp : path.nameParts ≠ []) {l : List (DynAml × AmlTree)}
    (h : ∀ a ∈ l, Writes a.1 a.2.encode) :
    Writes (dyn (Device.mk path (l.map Prod.fst)))
      (AmlTree.device path (l.map Prod.snd)).encode := by
  rw [AmlTree.encode, AmlTree.encodeAll_eq, List.flatMap_map]
  exact writes_device (g := fun a : DynAml × AmlTree => a.2.encode) hp h

/-- A scope of objects writes the word of a scope of their trees. -/
theorem writes_scopeTree {path : Path} (hp : path.nameParts ≠ []) {l : List (DynAml × AmlTree)}
    (h : ∀ a ∈ l, Writes a.1 a.2.encode) :
    Writes (dyn (Scope.mk path (l.map Prod.fst)))
      (AmlTree.scope path (l.map Prod.snd)).encode := by
  rw [AmlTree.encode, AmlTree.encodeAll_eq, List.flatMap_map]
  exact writes_scope (g := fun a : DynAml × AmlTree => a.2.encode) hp h

/-- A method of objects writes the word of a method of their trees. -/
theorem writes_methodTree {path : Path} (args : UInt8) (hp : path.nameParts ≠ [])
    {l : List (DynAml × AmlTree)} (h : ∀ a ∈ l, Writes a.1 a.2.encode) :
    Writes (dyn (Method.new path args false (l.map Prod.fst)))
      (AmlTree.method path args false (l.map Prod.snd)).encode := by
  rw [AmlTree.encode, AmlTree.encodeAll_eq, List.flatMap_map]
  exact writes_method (g := fun a : DynAml × AmlTree => a.2.encode) args false hp h

/-- A method without a body. -/
theorem writes_emptyMethod {name : String} (h : IsSegName name) (args : UInt8) :
    Writes (dyn (Method.new (.seg name) args false []))
      (AmlTree.method (.seg name) args false []).encode :=
  writes_methodTree (l := []) args (Path.seg_ne_nil h.1) (by simp)

/-- A method whose body returns one object. -/
theorem writes_returnMethod {name : String} (h : IsSegName name) {x : DynAml} {t : AmlTree}
    (hx : Writes x t.encode) :
    Writes (dyn (Method.new (.seg name) 0 false [dyn ({ a := x } : OnObject .return_)]))
      (AmlTree.method (.seg name) 0 false [.onObject .return_ t]).encode :=
  writes_methodTree (l := [(_, .onObject .return_ t)]) 0 (Path.seg_ne_nil h.1)
    (List.forall_mem_singleton.mpr (writes_onObject .return_ hx))

/-- The interrupts of a link device write the word of their resource template. -/
theorem writes_linkIrqs (numbers : List UInt32) :
    Writes (dyn (ResourceTemplate.mk
        (numbers.map fun number => dyn (Interrupt.new true false false true number))))
      (AmlTree.resourceTemplate (numbers.map linkIrq)).encode := by
  have := writes_resourceTemplate (l := numbers) (f := fun number => (linkIrq number).object)
    fun number _ => (linkIrq number).writes trivial
  rw [AmlTree.encode, List.flatMap_map]
  exact this

/-- The link device that is built is the word of its tree. -/
theorem buildLinkDeviceBytes_eq {name : String} (h : IsSegName name) (uid : UInt8) :
    buildLinkDeviceBytes name uid = .ok (linkDeviceTree name uid).encode := by
  rw [buildLinkDeviceBytes]
  dsimp only
  rw [new_eisaName "_HID" (by decide) eisaName_pnp0C0F,
    new_name "_UID" (.byte uid) (by decide) (writes_u8 uid),
    new_name (x := dyn (ResourceTemplate.mk [dyn (Interrupt.new true false false true 5),
        dyn (Interrupt.new true false false true 10),
        dyn (Interrupt.new true false false true 11)]))
      "_PRS" (.resourceTemplate [linkIrq 5, linkIrq 10, linkIrq 11]) (by decide)
      (writes_linkIrqs [5, 10, 11])]
  simp only [Path.new_seg (show IsSegName "_STA" by decide),
    Path.new_seg (show IsSegName "_PRS" by decide), Path.new_seg (show IsSegName "_CRS" by decide),
    Path.new_seg (show IsSegName "_DIS" by decide), Path.new_seg (show IsSegName "_SRS" by decide),
    Path.new_seg h, Checked.ok_bind]
  refine appendAml_eq (writes_deviceTree (Path.seg_ne_nil h.1)
    (l := [(_, seg "_HID" (.eisaName ⟨0x0f0cd041⟩)), (_, seg "_UID" (.byte uid)),
      (_, seg "_PRS" (.resourceTemplate [linkIrq 5, linkIrq 10, linkIrq 11])),
      (_, .method (.seg "_STA") 0 false [.onObject .return_ (.byte 0x0b)]),
      (_, .method (.seg "_DIS") 0 false []),
      (_, .method (.seg "_CRS") 0 false [.onObject .return_ (.path (.seg "_PRS"))]),
      (_, .method (.seg "_SRS") 1 false [])]) ?_) []
  simp only [List.forall_mem_cons, List.not_mem_nil, false_implies, implies_true, and_true]
  exact ⟨writes_name _, writes_name _, writes_name _,
    writes_returnMethod (by decide) (writes_u8 0x0b), writes_emptyMethod (by decide) 0,
    writes_returnMethod (by decide) (writes_path (Path.seg_ne_nil (by decide))),
    writes_emptyMethod (by decide) 1⟩

/-- The link device with a fixed interrupt that is built is the word of its tree. -/
theorem buildGsiLinkDeviceBytes_eq {name : String} (h : IsSegName name) (uid : UInt8)
    (irq : UInt32) :
    buildGsiLinkDeviceBytes name uid irq = .ok (gsiLinkDeviceTree name uid irq).encode := by
  have hres : Writes (dyn (ResourceTemplate.mk [dyn (Interrupt.new true false false true irq)]))
      (AmlTree.resourceTemplate [linkIrq irq]).encode := writes_linkIrqs [irq]
  rw [buildGsiLinkDeviceBytes]
  dsimp only
  rw [new_eisaName "_HID" (by decide) eisaName_pnp0C0F,
    new_name "_UID" (.byte uid) (by decide) (writes_u8 uid),
    new_name "_PRS" (.resourceTemplate [linkIrq irq]) (by decide) hres,
    new_name "_CRS" (.resourceTemplate [linkIrq irq]) (by decide) hres]
  simp only [Path.new_seg (show IsSegName "_DIS" by decide),
    Path.new_seg (show IsSegName "_SRS" by decide), Path.new_seg h, Checked.ok_bind]
  refine appendAml_eq (writes_deviceTree (Path.seg_ne_nil h.1)
    (l := [(_, seg "_HID" (.eisaName ⟨0x0f0cd041⟩)), (_, seg "_UID" (.byte uid)),
      (_, seg "_PRS" (.resourceTemplate [linkIrq irq])),
      (_, seg "_CRS" (.resourceTemplate [linkIrq irq])),
      (_, .method (.seg "_DIS") 0 false []), (_, .method (.seg "_SRS") 1 false [])]) ?_) []
  simp only [List.forall_mem_cons, List.not_mem_nil, false_implies, implies_true, and_true]
  exact ⟨writes_name _, writes_name _, writes_name _, writes_name _,
    writes_emptyMethod (by decide) 0, writes_emptyMethod (by decide) 1⟩

/-- Adding an element to a builder. -/
theorem addElement_eq {x : DynAml} {w : Bytes} (h : Writes x w) (builder : PackageBuilder) :
    builder.addElement x =
      .ok { data := builder.data ++ w, elements := builder.elements + 1 } := by
  have := h.run builder
  rw [PackageBuilder.addElement]
  change (x.emit builder >>= _) = _
  rw [this]
  rfl

/-- An entry of the routing table writes the word of its tree. -/
theorem writes_prtEntry {link : String} (hlink : IsSegName link) (slot : UInt32) (pin : UInt8) :
    Writes
      (dyn (Package.mk [dyn ((slot <<< 16) ||| 0xffff), dyn pin, dyn (Path.seg link),
        dyn ZeroObject.zero]))
      (AmlTree.package [.dword ((slot <<< 16) ||| 0xffff), .byte pin, .path (.seg link),
        .zero]).encode := by
  have := writes_package (l := [
    (dyn ((slot <<< 16) ||| 0xffff), AmlTree.dword _), (dyn pin, .byte pin),
    (dyn (Path.seg link), .path (.seg link)), (dyn ZeroObject.zero, .zero)])
    (f := Prod.fst) (g := fun a => a.2.encode) (by
      simp only [List.forall_mem_cons, List.not_mem_nil, false_implies, implies_true, and_true]
      exact ⟨writes_u32 _, writes_u8 pin, writes_path (Path.seg_ne_nil hlink.1), writes_zero⟩)
  exact this

/-- A sum below 256 is no overflow of a byte. -/
theorem checkedAdd_u8 {x y : UInt8} (h : x.toNat + y.toNat < 256) :
    checkedAdd x y = .ok (x + y) := by
  have hsum : UInt8.ofNat (x.toNat + y.toNat) = x + y := by simp
  rw [checkedAdd, fit_of_lt h]
  exact congrArg Except.ok hsum

/-- One pin of a slot: the name's last letter is replaced and the entry added. -/
theorem appendQ35PrtPin_eq {a b c x : Char} {letter : String} {base pin : UInt8}
    (hpin : pin ≤ 3) (hletter : (asBytes letter).sum = base) (hbase : base.toNat < 250)
    (hsuffix : (linkLetter letter pin).toNat < 128 ∧ linkLetter letter pin ≠ '.')
    (habc : ∀ y ∈ [a, b, c], y.toNat < 128 ∧ y ≠ '.') (ha : a ≠ '\\') (slot : UInt32)
    (pkg : PackageBuilder) :
    appendQ35PrtPin slot base ⟨pkg, String.ofList [a, b, c, x], 0⟩ pin =
      .ok ⟨⟨pkg.data ++ (prtEntryTree (String.ofList [a, b, c]) letter slot pin).encode,
        pkg.elements + 1⟩, String.ofList [a, b, c, linkLetter letter pin], 0⟩ := by
  have hpin' : pin.toNat ≤ 3 := UInt8.le_iff_toNat_le.mp hpin
  have hhead : checkedAdd (0 : UInt8) pin = .ok pin := by
    rw [checkedAdd_u8 (by rw [UInt8.toNat_zero]; omega), UInt8.zero_add]
  have hbase0 : checkedAdd base (0 : UInt8) = .ok base := by
    rw [checkedAdd_u8 (by rw [UInt8.toNat_zero]; omega), UInt8.add_zero]
  have hletter' : checkedAdd base pin = .ok (base + pin) := checkedAdd_u8 (by omega)
  have hround : ¬ (3 : UInt8) < pin := UInt8.not_lt.mpr hpin
  have hchar : Char.ofNat (base + pin).toNat = linkLetter letter pin := by rw [linkLetter, hletter]
  have hname : String.ofList [a, b, c] ++ String.ofList [linkLetter letter pin] =
      String.ofList [a, b, c, linkLetter letter pin] := by
    rw [← String.ofList_append]
    rfl
  have hlink : IsSegName (String.ofList [a, b, c, linkLetter letter pin]) :=
    isSegName_ofList (by
      simp only [List.forall_mem_cons, List.not_mem_nil, false_implies, implies_true,
        and_true] at habc ⊢
      exact ⟨habc.1, habc.2.1, habc.2.2, hsuffix⟩) ha
  simp only [appendQ35PrtPin, hhead, Checked.ok_bind, hround, if_false, hbase0, hletter', hchar,
    String.toList_ofList, List.take_succ_cons, List.take_zero, List.drop_succ_cons, List.drop_zero,
    List.cons_append, List.nil_append, Path.new_seg hlink]
  rw [addElement_eq (writes_prtEntry hlink slot pin), prtEntryTree, hname]
  rfl

/-- The four pins of a slot, from the name with the slot's own letter. -/
theorem appendQ35PrtEntry_eq {a b c x : Char} {letter : String}
    (hletter : letter = String.ofList [x]) (hx : x = 'A' ∨ x = 'E')
    (habc : ∀ y ∈ [a, b, c], y.toNat < 128 ∧ y ≠ '.') (ha : a ≠ '\\') (slot : UInt32)
    (pkg : PackageBuilder) :
    appendQ35PrtEntry pkg slot (String.ofList [a, b, c] ++ letter) =
      .ok ⟨pkg.data ++
          ([0, 1, 2, 3].map (prtEntryTree (String.ofList [a, b, c]) letter slot)).flatMap
        AmlTree.encode, pkg.elements + 4⟩ := by
  have hname : String.ofList [a, b, c] ++ letter = String.ofList [a, b, c, x] := by
    rw [hletter, ← String.ofList_append]
    rfl
  have hascii : ∀ y ∈ [a, b, c, x], y.toNat < 128 := by
    simp only [List.forall_mem_cons, List.not_mem_nil, false_implies, implies_true,
      and_true] at habc ⊢
    refine ⟨habc.1.1, habc.2.1.1, habc.2.2.1, ?_⟩
    rcases hx with rfl | rfl <;> decide
  have hlast : lastByte (String.ofList [a, b, c, x]) = .ok (UInt8.ofNat x.toNat) := by
    rw [lastByte, asBytes_ofList hascii]
    rfl
  have hbytes : asBytes letter = [UInt8.ofNat x.toNat] := by
    rw [hletter, asBytes_ofList fun y hy => hascii y (by simp_all)]
    rfl
  have hbase : (if UInt8.ofNat x.toNat < 0x45 then (0x41 : UInt8) else 0x45) =
      UInt8.ofNat x.toNat := by
    rcases hx with rfl | rfl <;> decide
  have hhead : checkedSub (UInt8.ofNat x.toNat) (UInt8.ofNat x.toNat) = .ok 0 := by
    rcases hx with rfl | rfl <;> decide
  have hsum : (asBytes letter).sum = UInt8.ofNat x.toNat := by rw [hbytes, List.sum_singleton]
  have hsmall : (UInt8.ofNat x.toNat).toNat < 250 := by
    rcases hx with rfl | rfl <;> decide
  have hsuffix : ∀ pin ∈ [(0 : UInt8), 1, 2, 3],
      pin ≤ 3 ∧ (linkLetter letter pin).toNat < 128 ∧ linkLetter letter pin ≠ '.' := by
    simp only [linkLetter, hsum, List.forall_mem_cons, List.not_mem_nil, false_implies,
      implies_true, and_true]
    rcases hx with rfl | rfl <;> decide
  have hpin : ∀ pin ∈ [(0 : UInt8), 1, 2, 3], ∀ y pkg,
      appendQ35PrtPin slot (UInt8.ofNat x.toNat) ⟨pkg, String.ofList [a, b, c, y], 0⟩ pin = _ :=
    fun pin hmem y pkg => appendQ35PrtPin_eq (hsuffix pin hmem).1 hsum hsmall
      (hsuffix pin hmem).2 habc ha slot pkg
  simp only [List.forall_mem_cons, List.not_mem_nil, false_implies, implies_true, and_true] at hpin
  obtain ⟨hpin0, hpin1, hpin2, hpin3⟩ := hpin
  simp only [appendQ35PrtEntry, hname, hlast, Checked.ok_bind, hbase, hhead, List.foldlM_cons,
    hpin0, hpin1, hpin2, hpin3, List.foldlM_nil, Checked.pure_eq]
  simp

/-- The elements of the routing table. -/
theorem foldlM_q35Slots {a b c : Char} (habc : ∀ y ∈ [a, b, c], y.toNat < 128 ∧ y ≠ '.')
    (ha : a ≠ '\\') {slots : List (UInt32 × String)}
    (hslots : ∀ x ∈ slots, x.2 = String.ofList ['A'] ∨ x.2 = String.ofList ['E'])
    (builder : PackageBuilder) :
    slots.foldlM
        (fun pkg (slot, letter) => appendQ35PrtEntry pkg slot (String.ofList [a, b, c] ++ letter))
        builder =
      .ok ⟨builder.data ++ (slots.flatMap fun (slot, letter) =>
          [0, 1, 2, 3].map (prtEntryTree (String.ofList [a, b, c]) letter slot)).flatMap
            AmlTree.encode,
        builder.elements + 4 * slots.length⟩ := by
  induction slots generalizing builder with
  | nil => simp
  | cons x slots ih =>
    obtain ⟨slot, letter⟩ := x
    obtain ⟨hletter, hslots⟩ := List.forall_mem_cons.mp hslots
    obtain ⟨y, hy, hy'⟩ : ∃ y, letter = String.ofList [y] ∧ (y = 'A' ∨ y = 'E') := by
      rcases hletter with h | h
      · exact ⟨'A', h, .inl rfl⟩
      · exact ⟨'E', h, .inr rfl⟩
    rw [List.foldlM_cons]
    dsimp only
    rw [appendQ35PrtEntry_eq hy hy' habc ha, Checked.ok_bind, ih hslots, List.flatMap_cons,
      List.flatMap_append, List.length_cons]
    simp only [List.append_assoc]
    congr 2
    omega

/-- The routing table that is built for a prefix of three plain letters writes the
word of its tree. -/
theorem writes_prtTree (linkPrefix : String) {a b c : Char}
    (hlead : linkPrefix = String.ofList [a, b, c])
    (habc : ∀ y ∈ [a, b, c], y.toNat < 128 ∧ y ≠ '.') (ha : a ≠ '\\') :
    ∃ builder, buildQ35RoutingTable linkPrefix = .ok builder ∧
      Writes (dyn builder) (prtTree linkPrefix).encode := by
  subst hlead
  set elements := q35Slots.flatMap fun (slot, letter) =>
    [0, 1, 2, 3].map (prtEntryTree (String.ofList [a, b, c]) letter slot) with helements
  have hbuild : buildQ35RoutingTable (String.ofList [a, b, c]) =
      .ok ⟨elements.flatMap AmlTree.encode, elements.length⟩ := by
    have hlen : elements.length = 4 * q35Slots.length := by
      simp [helements, List.length_flatMap, Nat.mul_comm]
    rw [buildQ35RoutingTable, foldlM_q35Slots habc ha (by decide), hlen, ← helements]
    rw [PackageBuilder.new, List.nil_append, Nat.zero_add]
  refine ⟨_, hbuild, ?_⟩
  rw [prtTree, AmlTree.encode, AmlTree.encodeAll_eq]
  exact writes_packageBuilder ⟨elements.flatMap AmlTree.encode, elements.length⟩

/-- The If and the Else of `_PRT`. -/
theorem writes_prtMethod :
    Writes
      (dyn (Method.new (.seg "_PRT") 0 false
        [dyn (If.mk
            (dyn ({ left := dyn (Path.seg "PICF"), right := dyn ZeroObject.zero } : Compare .equal))
            [dyn ({ a := dyn (Path.seg "PRTP") } : OnObject .return_)]),
          dyn (Else.mk [dyn ({ a := dyn (Path.seg "PRTA") } : OnObject .return_)])]))
      (AmlTree.method (.seg "_PRT") 0 false
        [.ifTree (.compare .equal (.path (.seg "PICF")) .zero)
            [.onObject .return_ (.path (.seg "PRTP"))],
          .elseTree [.onObject .return_ (.path (.seg "PRTA"))]]).encode :=
  AmlTree.writes_object
    (t := .method (.seg "_PRT") 0 false
      [.ifTree (.compare .equal (.path (.seg "PICF")) .zero)
          [.onObject .return_ (.path (.seg "PRTP"))],
        .elseTree [.onObject .return_ (.path (.seg "PRTA"))]])
    (AmlTree.everywhere_of_within (n := 5) (by decide))

/-- The method that selects the interrupt model writes the word of its tree. -/
theorem writes_picMethod :
    Writes (dyn (Method.new (.seg "_PIC") 1 false
        [dyn (Store.mk (dyn (Path.seg "PICF")) (dyn (Arg.mk 0)))]))
      (AmlTree.method (.seg "_PIC") 1 false [.store (.path (.seg "PICF")) (.arg ⟨0⟩)]).encode :=
  AmlTree.writes_object
    (t := .method (.seg "_PIC") 1 false [.store (.path (.seg "PICF")) (.arg ⟨0⟩)])
    (AmlTree.everywhere_of_within (n := 3) (by decide))

/-- The link devices have plain names, and their UIDs stay within a byte. -/
theorem linkDevices_isSegName : ∀ x ∈ linkDevices, IsSegName x.1 ∧ IsSegName x.2.2 ∧
    (0x10 : UInt8).toNat + x.2.1.toNat < 256 := by
  decide

/-- The link devices with fixed interrupts have plain names. -/
theorem gsiLinkDevices_isSegName : ∀ x ∈ gsiLinkDevices, IsSegName x.1 := by
  decide

/-- The link devices, each after the name of its interrupt. -/
theorem foldlM_linkDevices (out : Bytes) :
    linkDevices.foldlM (fun sbBytes (name, uid, irqName) => do
        let irq ← checkedAdd (0x10 : UInt8) uid
        let sbBytes ← appendAml (dyn (← Name.new (← Path.new irqName) (dyn irq))) sbBytes
        return sbBytes ++ (← buildLinkDeviceBytes name uid)) out =
      .ok (out ++ (linkDevices.flatMap fun (name, uid, irqName) =>
        [seg irqName (.byte (0x10 + uid)), linkDeviceTree name uid]).flatMap AmlTree.encode) := by
  rw [List.flatMap_assoc]
  refine foldlM_append ?_ out
  rintro ⟨name, uid, irqName⟩ hmem out
  obtain ⟨hname, hirq, hsum⟩ := linkDevices_isSegName _ hmem
  dsimp only
  rw [checkedAdd_u8 hsum, Checked.ok_bind, append_name irqName (.byte _) hirq (writes_u8 _),
    buildLinkDeviceBytes_eq hname, Checked.ok_bind]
  simp

/-- The loop over the link devices with fixed interrupts appends the words of their
trees. -/
theorem foldlM_gsiLinkDevices (out : Bytes) :
    gsiLinkDevices.foldlM (fun sbBytes (name, uid, irq) =>
        return sbBytes ++ (← buildGsiLinkDeviceBytes name uid irq)) out =
      .ok (out ++ (gsiLinkDevices.map fun (name, uid, irq) =>
        gsiLinkDeviceTree name uid irq).flatMap AmlTree.encode) := by
  rw [List.flatMap_map]
  refine foldlM_append ?_ out
  rintro ⟨name, uid, irq⟩ hmem out
  dsimp only
  rw [buildGsiLinkDeviceBytes_eq (gsiLinkDevices_isSegName _ hmem)]
  rfl

/-- The objects that are built for the interrupt routing are the words of their
trees. -/
theorem buildQ35IrqRoutingBytes_eq :
    buildQ35IrqRoutingBytes = .ok (routingTrees.flatMap AmlTree.encode) := by
  obtain ⟨prtp, hprtp, hprtp'⟩ := writes_prtTree "LNK" (a := 'L') (b := 'N')
    (c := 'K') rfl (by simp) (by decide)
  obtain ⟨prta, hprta, hprta'⟩ := writes_prtTree "GSI" (a := 'G') (b := 'S')
    (c := 'I') rfl (by simp) (by decide)
  -- the scope of the host bridge, with both tables and the method that picks one
  have hpci0 : Writes
      (dyn (Scope.mk pci0Path
        [dyn (Name.mk (seg "PRTP" (prtTree "LNK")).encode),
          dyn (Name.mk (seg "PRTA" (prtTree "GSI")).encode),
          dyn (Method.new (.seg "_PRT") 0 false
            [dyn (If.mk
                (dyn
                  ({ left := dyn (Path.seg "PICF"), right := dyn ZeroObject.zero } :
                    Compare .equal))
                [dyn ({ a := dyn (Path.seg "PRTP") } : OnObject .return_)]),
              dyn (Else.mk [dyn ({ a := dyn (Path.seg "PRTA") } : OnObject .return_)])])]))
      (AmlTree.scope pci0Path [seg "PRTP" (prtTree "LNK"), seg "PRTA" (prtTree "GSI"),
        .method (.seg "_PRT") 0 false
          [.ifTree (.compare .equal (.path (.seg "PICF")) .zero)
              [.onObject .return_ (.path (.seg "PRTP"))],
            .elseTree [.onObject .return_ (.path (.seg "PRTA"))]]]).encode :=
    writes_scopeTree
      (l := [(_, seg "PRTP" (prtTree "LNK")), (_, seg "PRTA" (prtTree "GSI")), (_, _)])
      (by decide) (by
        simp only [List.forall_mem_cons, List.not_mem_nil, false_implies, implies_true, and_true]
        exact ⟨writes_name _, writes_name _, writes_prtMethod⟩)
  have hlinks := foldlM_linkDevices []
  have hgsiLinks := foldlM_gsiLinkDevices
  dsimp only at hlinks hgsiLinks
  rw [buildQ35IrqRoutingBytes]
  dsimp only
  rw [append_name "PICF" .zero (by decide) writes_zero,
    Path.new_seg (show IsSegName "PICF" by decide), Checked.ok_bind,
    Path.new_seg (show IsSegName "_PIC" by decide), Checked.ok_bind,
    appendAml_eq writes_picMethod, Checked.ok_bind,
    Path.new_seg (show IsSegName "PRTP" by decide), Checked.ok_bind, hprtp, Checked.ok_bind,
    name_new_seg "PRTP" (prtTree "LNK") (by decide) hprtp', Checked.ok_bind,
    Path.new_seg (show IsSegName "PRTA" by decide), Checked.ok_bind, hprta, Checked.ok_bind,
    name_new_seg "PRTA" (prtTree "GSI") (by decide) hprta', Checked.ok_bind, Checked.ok_bind,
    Checked.ok_bind, Checked.ok_bind, Path.new_seg (show IsSegName "_PRT" by decide),
    Checked.ok_bind, path_new_pci0, Checked.ok_bind, appendAml_eq hpci0, Checked.ok_bind,
    hlinks, Checked.ok_bind, hgsiLinks, Checked.ok_bind, List.nil_append, ← List.flatMap_append,
    path_new_sb, Checked.ok_bind, scope_raw_eq (by decide), Checked.ok_bind]
  simp [routingTrees, linkTrees]

/-! ### The whole body -/

/-- The package that is built for powering off is the word of its tree. -/
theorem buildRootSleepBytes_eq : buildRootSleepBytes = .ok sleepTree.encode := by
  have hpkg : Writes (dyn (Package.mk [dyn ZeroObject.zero, dyn ZeroObject.zero,
      dyn ZeroObject.zero, dyn ZeroObject.zero]))
      (AmlTree.package [.zero, .zero, .zero, .zero]).encode :=
    AmlTree.writes_object (t := .package [.zero, .zero, .zero, .zero])
      (AmlTree.everywhere_of_within (n := 2) (by decide))
  rw [buildRootSleepBytes, new_name "_S5_" _ (by decide) hpkg, appendAml_eq (writes_name _)]
  rfl

/-- The scope that is built for general purpose events is the word of its tree. -/
theorem buildGpeScopeBytes_eq : buildGpeScopeBytes = .ok gpeTree.encode := by
  rw [buildGpeScopeBytes, new_name "_HID" (.string _) (by decide) (writes_string _),
    Path.new_seg (by decide), Checked.ok_bind]
  exact appendAml_eq (writes_scopeTree (l := [(_, seg "_HID" (.string "ACPI0006"))]) (by decide)
    (List.forall_mem_singleton.mpr (writes_name _))) []

/-- **The body of the DSDT is the word of its trees**, unless a CPU has no name. -/
theorem encodeDsdtBody_eq {config : PlatformConfig} (h : config.cpuApicIds.length ≤ 1000)
    (padLen : ℕ) :
    encodeDsdtBody config padLen = .ok ((bodyTrees config padLen).flatMap AmlTree.encode) := by
  rw [encodeDsdtBody, buildRootScopeBytes_eq h, Checked.ok_bind, buildQ35IrqRoutingBytes_eq,
    Checked.ok_bind, buildRootSleepBytes_eq, Checked.ok_bind, buildGpeScopeBytes_eq,
    Checked.ok_bind]
  dsimp only
  split
  · rename_i hpad
    rw [new_name "QPAD" (.bufferData _) (by decide) (writes_bufferData _),
      appendAml_eq (writes_name _)]
    simp [bodyTrees, hpad, padTree]
  · rename_i hpad
    simp [bodyTrees, hpad]

/-- With more than a thousand CPUs there is no body. -/
theorem encodeDsdtBody_of_lt {config : PlatformConfig} (h : 1000 < config.cpuApicIds.length)
    (padLen : ℕ) : encodeDsdtBody config padLen = .error .assertion := by
  rw [encodeDsdtBody, buildRootScopeBytes, buildPci0DeviceBytes_eq, Checked.ok_bind,
    buildCpuDeviceBytes_of_lt h]
  rfl

end AcpiTables
