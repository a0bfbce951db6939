import AcpiTables.DsdtParse

/-!
# The ids of devices

A device of the root bus carries its id in a string of its object, which ends
with a zero byte. `PlacedDevices` says where the objects are in the DSDT,
`IdSurvives` that a reader which starts at an object finds the id, what follows
it in the object, and the next object where it is. Nothing looks into the id
before it is written, so an id with a NUL ends early and leaves its remains
among the objects of the device (`deviceIds_survive_iff`).

The other way an id is lost is by its length: the object of a device is a frame,
and a frame that cannot be counted does not end where the next object begins
(`read_of_device`). `objectLength` is what has to be counted, in terms of the
lengths of the texts, and `ReadableId` the condition on both.
-/

namespace AcpiTables

open Reader
open AmlTree (seg toTerm RegularHere)

/-! ## Reading a device -/

section Reading

/-- What a device has inside its frame. -/
def deviceContent (name : String) (ts : List AmlTree) : Bytes :=
  (Path.seg name).encode ++ ts.flatMap AmlTree.encode

variable (name : String) (ts : List AmlTree)

/-- The word of a device is the frame of its content. -/
theorem encode_device : (AmlTree.device (.seg name) ts).encode =
    frame Production.device.rule.encoding (deviceContent name ts) := by
  rw [AmlTree.encode, AmlTree.encodeAll_eq]
  rfl

variable {name ts} {fuel : ℕ}

/-- The term of a device with a name of one segment. -/
theorem toTerm_device (h : (asBytes name).length = 4) :
    (AmlTree.device (.seg name) ts).toTerm =
      .node .device [.ref ⟨false, 0, [asBytes name]⟩] (ts.map toTerm) := by
  rw [AmlTree.toTerm, AmlTree.toTerms_eq, Path.nameString_seg h]

/-- A device of regular trees is read when its frame can be counted. -/
theorem settles_device (hname : isNameSeg (asBytes name) = true)
    (h : ∀ t ∈ ts, t.Everywhere RegularHere)
    (hlen : (deviceContent name ts).length + pkgWidth (deviceContent name ts).length < 268435456)
    (hfuel : (deviceContent name ts).length ≤ fuel) :
    Settles (term (fuel + 1)) (AmlTree.device (.seg name) ts).encode
      (AmlTree.device (.seg name) ts).toTerm True := by
  rw [AmlTree.toTerm, AmlTree.toTerms_eq, encode_device]
  exact AmlTree.settles_namedFrame .device rfl rfl rfl (Path.valid_seg hname) h hlen hfuel

variable (ts)

/-- A device that is read up to its end can be counted, and its terms are read
from its content. -/
theorem read_of_device (hname : isNameSeg (asBytes name) = true) {rest : Bytes}
    {parts body : List Term}
    (h : term (fuel + 1) ((AmlTree.device (.seg name) ts).encode ++ rest) =
      some (.node .device parts body, rest)) :
    (deviceContent name ts).length + pkgWidth (deviceContent name ts).length < 268435456 ∧
      many (term fuel) (ts.flatMap AmlTree.encode) = some (body, []) := by
  rw [encode_device, frame, List.append_assoc, List.append_assoc] at h
  have hhead : headRest (term fuel) (.node .device) = framed pkgContent
      (Reader.map (fun x => Term.node .device x.1 x.2)
        (seq (each (part (term fuel)) [.nameString]) (many (term fuel)))) := rfl
  rw [term, termStep_row (mem_rows_node .device), hhead] at h
  obtain ⟨hlen, hcontent⟩ := read_of_framed_pkgContent h
  obtain ⟨⟨parts', body'⟩, hseq, hnode⟩ := map_eq_some.mp hcontent
  obtain ⟨-, -, rfl⟩ := Term.node.inj hnode
  obtain ⟨s, hparts, hbody⟩ := seq_eq_some.mp hseq
  have hpath := (settles_pathPart (p := term fuel) (Path.valid_seg hname)).reads trivial
    (ts.flatMap AmlTree.encode)
  obtain ⟨-, rfl⟩ := Prod.mk.inj (Option.some.inj (hpath.symm.trans hparts))
  exact ⟨hlen, hbody⟩

end Reading

/-! ## The length of a device -/

/-- The bytes of a name with a text, if there is one. -/
def textLength (text : Option String) : ℕ :=
  match text with
  | some text => 7 + (asBytes text).length
  | none => 0

namespace PciDeviceConfig

variable (device : PciDeviceConfig)

/-- The bytes of a device's name and objects. -/
def objectLength : ℕ :=
  26 + intLength (device.devfn.toNat / 8 * 65536 + device.devfn.toNat % 8) +
    2 * intLength (device.devfn.toNat / 8) + textLength device.id +
    textLength (pciDeviceDescription device.driver) + textLength (pciDeviceClass device.driver)

/-- The id has no NUL, and the device fits a package length. -/
def ReadableId : Prop := device.NulFreeId ∧ device.objectLength < 268435452

end PciDeviceConfig

/-- A path of one segment takes four bytes. -/
theorem length_encode_seg {name : String} (h : (asBytes name).length = 4) :
    (Path.seg name).encode.length = 4 := by
  simp [Path.encode, Path.seg, h, segCountPrefix]

/-- A named object takes five bytes more than what it names. -/
theorem length_segTree {name : String} (h : (asBytes name).length = 4) (inner : AmlTree) :
    (seg name inner).encode.length = 5 + inner.encode.length := by
  rw [AmlTree.encode, List.cons_append, List.length_cons, List.length_append, length_encode_seg h]
  omega

/-- An optional text takes the length of its text, or nothing. -/
theorem totalLength_text {name : String} (h : (asBytes name).length = 4) (value : Option String) :
    totalLength (value.map fun text => seg name (.string text)).toList = textLength value := by
  cases value with
  | none => rfl
  | some text =>
    rw [Option.map_some, Option.toList_some, totalLength_cons, totalLength_nil, length_segTree h,
      AmlTree.encode, encodeString, textLength]
    simp only [List.length_append, List.length_cons, List.length_nil]
    omega

/-- The content of a device is as long as `objectLength` counts. -/
theorem length_pciDeviceContent (device : PciDeviceConfig) :
    (deviceContent (pciDeviceName device.devfn) (pciDeviceTree device).children).length =
      device.objectLength := by
  have hsta : (AmlTree.byte 0x0f).encode.length = 2 := rfl
  rw [deviceContent, List.length_append, length_encode_seg (isSegName_pciDeviceName _).1]
  change 4 + totalLength _ = _
  rw [pciDeviceTree, AmlTree.children]
  simp only [totalLength_append, totalLength_cons, totalLength_nil]
  rw [totalLength_text (by decide), totalLength_text (by decide), totalLength_text (by decide),
    length_segTree (by decide), length_segTree (by decide), length_segTree (by decide),
    length_segTree (by decide), hsta]
  simp only [AmlTree.encode, length_encodeInt, UInt32.toNat_toUInt64, toNat_pciAdr, toNat_slot,
    PciDeviceConfig.objectLength]
  omega

/-! ## An id that ends early -/

section Nul

variable {id : String} {front back : List Char}

/-- A string is read up to its first NUL. -/
theorem encodeString_of_nul (h : id.toList = front ++ '\x00' :: back) :
    encodeString id =
      encodeString (String.ofList front) ++ (back.flatMap String.utf8EncodeChar ++ [0]) := by
  have hnul : String.utf8EncodeChar '\x00' = [0] := rfl
  rw [encodeString, encodeString, asBytes, asBytes, String.toList_ofList, h, List.flatMap_append,
    List.flatMap_cons, hnul]
  simp

/-- A text that ends at a null character has other bytes than the whole. -/
theorem asBytes_front_ne (h : id.toList = front ++ '\x00' :: back) :
    asBytes (String.ofList front) ≠ asBytes id := by
  intro heq
  have hlength := congrArg List.length (encodeString_of_nul h)
  rw [encodeString, encodeString, heq] at hlength
  simp at hlength

/-- The objects of a device before its id. -/
def addressTrees (devfn : UInt8) : List AmlTree :=
  [seg "_ADR" (.qword (pciAdr devfn).toUInt64), seg "_STA" (.byte 0x0f),
    seg "_SUN" (.qword (devfn >>> 3).toUInt64), seg "_UID" (.qword (devfn >>> 3).toUInt64)]

/-- No object before the id has its name. -/
theorem valuesOf_addressTrees (devfn : UInt8) :
    valuesOf (asBytes "_DDN") ((addressTrees devfn).map toTerm) = [] := by
  rw [addressTrees]
  simp only [List.map_cons, List.map_nil]
  rw [valuesOf_seg _ (by decide), valuesOf_seg _ (by decide), valuesOf_seg _ (by decide),
    valuesOf_seg _ (by decide), if_neg (by decide), if_neg (by decide), if_neg (by decide),
    if_neg (by decide)]
  rfl

/-- What is read first of a device whose id has a NUL. -/
def cutTrees (devfn : UInt8) (front : List Char) : List AmlTree :=
  addressTrees devfn ++ [seg "_DDN" (.string (String.ofList front))]

/-- What is read first of a cut device is regular. -/
theorem regular_cutTrees (devfn : UInt8) (h : '\x00' ∉ front) :
    ∀ t ∈ cutTrees devfn front, t.Everywhere RegularHere := by
  have hdevice : (pciDeviceTree ⟨"", some (String.ofList front), none, devfn⟩).Everywhere
      RegularHere := by
    refine pciDevice_regular_of_nulFreeId fun id hid => ?_
    obtain rfl := Option.some.inj hid
    rwa [String.toList_ofList]
  intro t ht
  refine (AmlTree.everywhere_iff.mp hdevice).2 t ?_
  exact List.mem_append_left _ (List.mem_append_left _ ht)

/-- The rest of the id stands where the next object is expected. -/
theorem encode_cutTrees {device : PciDeviceConfig} (hid : device.id = some id)
    (h : id.toList = front ++ '\x00' :: back) :
    ∃ remains, (pciDeviceTree device).children.flatMap AmlTree.encode =
      (cutTrees device.devfn front).flatMap AmlTree.encode ++ remains := by
  have hddn : (seg "_DDN" (.string id)).encode =
      (seg "_DDN" (.string (String.ofList front))).encode ++
        (back.flatMap String.utf8EncodeChar ++ [0]) := by
    rw [AmlTree.encode, AmlTree.encode, AmlTree.encode, AmlTree.encode, encodeString_of_nul h]
    simp
  rw [pciDeviceTree, AmlTree.children, hid, cutTrees, ← addressTrees, Option.map_some,
    Option.toList_some]
  simp only [List.flatMap_append, List.flatMap_singleton, hddn, List.append_assoc]
  exact ⟨_, rfl⟩

/-- The string is read up to the NUL. -/
theorem valuesOf_of_nul {device : PciDeviceConfig} (hid : device.id = some id)
    (h : id.toList = front ++ '\x00' :: back) (hfront : '\x00' ∉ front) {fuel : ℕ}
    {body : List Term}
    (hfuel : ((pciDeviceTree device).children.flatMap AmlTree.encode).length ≤ fuel)
    (hlen : ((pciDeviceTree device).children.flatMap AmlTree.encode).length < 268435456)
    (hbody : many (term fuel) ((pciDeviceTree device).children.flatMap AmlTree.encode) =
      some (body, [])) :
    ∃ values, valuesOf (asBytes "_DDN") body =
      Term.str (asBytes (String.ofList front)) :: values := by
  obtain ⟨remains, hwords⟩ := encode_cutTrees hid h
  rw [hwords] at hbody hfuel hlen
  rw [List.length_append] at hfuel hlen
  have hcut := @AmlTree.settles_regular_of_mem _ fuel (regular_cutTrees device.devfn hfront)
    (by omega) (by omega)
  obtain ⟨terms, rfl⟩ := exists_of_manyFuel _ (fun t ht => (hcut t ht).1)
    (fun t ht => (hcut t ht).2) hbody
  refine ⟨valuesOf (asBytes "_DDN") terms, ?_⟩
  rw [valuesOf_append, cutTrees, List.map_append, valuesOf_append, valuesOf_addressTrees,
    List.map_singleton, valuesOf_seg _ (by decide), if_pos rfl]
  rfl

end Nul

/-! ## Ids that survive -/

/-- A device object that stands before `rest` is read up to `rest`, and the id, the
description and the class of the device are found in it. -/
def IdSurvives (device : PciDeviceConfig) (object rest : Bytes) : Prop :=
  ∃ body, decodeTerm (object ++ rest) =
      some (.node .device [.ref ⟨false, 0, [asBytes (pciDeviceName device.devfn)]⟩] body, rest) ∧
    valuesOf (asBytes "_DDN") body = (device.id.map fun id => Term.str (asBytes id)).toList ∧
    valuesOf (asBytes "_STR") body =
      ((pciDeviceDescription device.driver).map fun text => Term.str (asBytes text)).toList ∧
    valuesOf (asBytes "CLSS") body =
      ((pciDeviceClass device.driver).map fun text => Term.str (asBytes text)).toList

/-- The content of a device fits the fuel that its bytes give. -/
theorem length_content_le_object (device : PciDeviceConfig) (rest : Bytes) :
    ∃ fuel, ((pciDeviceTree device).encode ++ rest).length = fuel + 1 ∧
      (deviceContent (pciDeviceName device.devfn) (pciDeviceTree device).children).length ≤
        fuel := by
  have hobject := congrArg List.length
    (encode_device (pciDeviceName device.devfn) (pciDeviceTree device).children)
  have hencoding : Production.device.rule.encoding.length = 2 := rfl
  rw [frame, List.length_append, List.length_append, hencoding] at hobject
  change (pciDeviceTree device).encode.length = _ at hobject
  refine ⟨((pciDeviceTree device).encode ++ rest).length - 1, ?_, ?_⟩
  · rw [List.length_append]
    omega
  · rw [List.length_append]
    omega

/-- A device is read back at its place exactly when its id has no null character
and its content is short enough. -/
theorem idSurvives_iff (device : PciDeviceConfig) (rest : Bytes) :
    IdSurvives device (pciDeviceTree device).encode rest ↔ device.ReadableId := by
  have hname := isNameSeg_pciDeviceName device.devfn
  obtain ⟨fuel, hfuel, hcontent⟩ := length_content_le_object device rest
  rw [IdSurvives, decodeTerm, hfuel]
  constructor
  · rintro ⟨body, hread, hddn, -, -⟩
    obtain ⟨hlen, hbody⟩ := read_of_device (pciDeviceTree device).children hname hread
    rw [length_pciDeviceContent, add_pkgWidth_lt_iff] at hlen
    refine ⟨fun id hid hnul => ?_, hlen⟩
    -- the string that is read ends at the first NUL, so it is not the whole id
    obtain ⟨front, back, hsplit, hfront⟩ := List.eq_append_cons_of_mem hnul
    have hle : ((pciDeviceTree device).children.flatMap AmlTree.encode).length ≤
        (deviceContent (pciDeviceName device.devfn) (pciDeviceTree device).children).length := by
      rw [deviceContent, List.length_append]
      omega
    have hobject := length_pciDeviceContent device
    obtain ⟨values, hvalues⟩ :=
      valuesOf_of_nul hid hsplit hfront (hle.trans hcontent) (by omega) hbody
    rw [hvalues, hid] at hddn
    exact asBytes_front_ne hsplit (Term.str.inj (List.cons.inj hddn).1)
  · rintro ⟨hnul, hlen⟩
    obtain ⟨-, hchildren⟩ := AmlTree.everywhere_iff.mp (pciDevice_regular_of_nulFreeId hnul)
    have hlen := add_pkgWidth_lt_iff.mpr hlen
    rw [← length_pciDeviceContent] at hlen
    have hread := (settles_device hname hchildren hlen hcontent).reads trivial rest
    rw [toTerm_device (isSegName_pciDeviceName _).1] at hread
    refine ⟨_, hread, ?_, ?_, ?_⟩
    · rw [valuesOf_pciDevice]
      simp +decide
    · rw [valuesOf_pciDevice]
      simp +decide
    · rw [valuesOf_pciDevice]
      simp +decide

/-! ## In the DSDT -/

/-- The objects of the root bus stand one after the other at the end of the host
bridge, with the rest of the table after it. -/
structure PlacedDevices (config : PlatformConfig) (dsdt : Bytes) (objects : List Bytes)
    (after : Bytes) : Prop where
  built : config.rootBusDevices.mapM buildPciDeviceBytes = .ok objects
  placed : ∃ before opening, buildPci0DeviceBytes config = .ok (opening ++ objects.flatten) ∧
    dsdt = before ++ (opening ++ objects.flatten) ++ after

/-- The objects of the devices are the words of their trees. -/
theorem mapM_buildPciDeviceBytes (devices : List PciDeviceConfig) :
    devices.mapM buildPciDeviceBytes =
      .ok (devices.map fun device => (pciDeviceTree device).encode) :=
  mapM_ok fun device _ => buildPciDeviceBytes_eq device

/-- In every table the devices stand at their places. -/
theorem exists_placedDevices {config : PlatformConfig} {dsdt : Bytes}
    (h : buildDsdt config = .ok dsdt) :
    ∃ objects after, PlacedDevices config dsdt objects after := by
  obtain ⟨before, after, hdsdt⟩ := infix_dsdt_of_mem_rootScope h
    (List.mem_append_left _ (List.mem_cons_self ..) : pci0Tree config ∈ _)
  refine ⟨_, after, mapM_buildPciDeviceBytes _, ?_⟩
  obtain ⟨opening, hbridge⟩ : ∃ opening, (pci0Tree config).encode = opening ++
      (config.rootBusDevices.map fun device => (pciDeviceTree device).encode).flatten := by
    rw [pci0Tree, encode_device, frame, deviceContent, List.flatMap_append, List.flatMap_map,
      ← List.flatMap_def]
    exact ⟨_, by rw [← List.append_assoc, ← List.append_assoc]; rfl⟩
  refine ⟨before, opening, ?_, ?_⟩
  · rw [← hbridge, buildPci0DeviceBytes_eq]
  · rw [← hbridge, hdsdt]

/-- **Ids survive** exactly when they have no NUL, and their device fits a package
length. -/
theorem deviceIds_survive_iff {config : PlatformConfig} {dsdt : Bytes}
    (h : buildDsdt config = .ok dsdt) :
    (∃ objects after, PlacedDevices config dsdt objects after) ∧
      ∀ objects after, PlacedDevices config dsdt objects after → ∀ (i : ℕ) device object,
        config.rootBusDevices[i]? = some device → objects[i]? = some object →
          (IdSurvives device object ((objects.drop (i + 1)).flatten ++ after) ↔
            device.ReadableId) := by
  refine ⟨exists_placedDevices h, fun objects after hplaced i device object hdevice hobject => ?_⟩
  obtain rfl := Except.ok.inj ((mapM_buildPciDeviceBytes _).symm.trans hplaced.built)
  rw [List.getElem?_map, hdevice] at hobject
  obtain rfl := Option.some.inj hobject
  exact idSurvives_iff device _

theorem deviceIds_survive_twoDisks :
    ∃ dsdt, buildDsdt .twoDisks = .ok dsdt ∧
      (∃ objects after, PlacedDevices .twoDisks dsdt objects after) ∧
        ∀ objects after, PlacedDevices .twoDisks dsdt objects after → ∀ (i : ℕ) device object,
          PlatformConfig.twoDisks.rootBusDevices[i]? = some device → objects[i]? = some object →
            (IdSurvives device object ((objects.drop (i + 1)).flatten ++ after) ↔
              device.ReadableId) := by
  obtain ⟨dsdt, hdsdt, -⟩ := buildDsdt_twoDisks
  exact ⟨dsdt, hdsdt, deviceIds_survive_iff hdsdt⟩

/-- A disk with a NUL in its id. -/
def nulDisk : PciDeviceConfig := ⟨"virtio-blk-pci", some "a\x00b", none, 0x10⟩

/-- A platform with only this disk. -/
def nulDisks : PlatformConfig := { PlatformConfig.twoDisks with pciDevices := [nulDisk] }

/-- The disk is read with an id that ends at the null character. -/
theorem nulDisk_read : ∃ body, decodeTerm (pciDeviceTree nulDisk).encode =
      some (.node .device [.ref ⟨false, 0, [asBytes "S10_"]⟩] body, []) ∧
    valuesOf (asBytes "_DDN") body = [.str (asBytes "a")] :=
  ⟨_, rfl, rfl⟩

/-- The table is built, and the id of the disk is read as `a`. -/
theorem nulDisk_not_survives : ∃ dsdt object, buildDsdt nulDisks = .ok dsdt ∧
    buildPciDeviceBytes nulDisk = .ok object ∧
    (∃ body, decodeTerm object =
        some (.node .device [.ref ⟨false, 0, [asBytes "S10_"]⟩] body, []) ∧
      valuesOf (asBytes "_DDN") body = [.str (asBytes "a")]) ∧
    ∃ after, PlacedDevices nulDisks dsdt [object] after ∧ ¬ IdSurvives nulDisk object after := by
  obtain ⟨dsdt, hdsdt, -⟩ := @buildDsdt_isOk nulDisks (by decide) (by decide)
  obtain ⟨objects, after, hplaced⟩ := exists_placedDevices hdsdt
  obtain rfl := Except.ok.inj ((mapM_buildPciDeviceBytes _).symm.trans hplaced.built)
  refine ⟨dsdt, _, hdsdt, buildPciDeviceBytes_eq nulDisk, nulDisk_read, after, hplaced, ?_⟩
  rw [idSurvives_iff]
  rintro ⟨hnul, -⟩
  exact hnul _ rfl (by decide)

end AcpiTables
