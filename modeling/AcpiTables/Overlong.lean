import AcpiTables.DsdtPaths

/-!
# Package lengths that wrap

A package length holds 28 bits and is written without a check, so a frame of
`2 ^ 28` bytes or more announces only its first bytes. A reader then leaves the
frame early and finds the remaining bytes in the scope around it.

`longDevices` is a configuration where this happens: each of its two devices has
an identifier that fills the frame up to exactly `2 ^ 28` bytes over its name.
What is left of the two devices is read at the root of the namespace, and their
names collide there (`longDevices_collide`).
-/

namespace AcpiTables

open Reader
open AmlTree (seg toTerm RegularHere)

/-! ## Reading a frame that announces too little -/

/-- The word of a named object whose package length counts `more` bytes that are
not in it. -/
def overlong (op : Production) (path : Path) (content : Bytes) (more : ℕ) : Bytes :=
  op.rule.encoding ++
    (createPkgLength ((path.encode ++ content).length + more) true ++ (path.encode ++ content))

/-- A frame is its first bytes in an overlong frame, and the others after it. -/
theorem frame_eq_overlong (op : Production) (path : Path) (content rest : Bytes) :
    frame op.rule.encoding (path.encode ++ (content ++ rest)) =
      overlong op path content rest.length ++ rest := by
  simp [frame, overlong, Nat.add_assoc]

/-- A package length that is too long for its four bytes is read as its remainder. -/
theorem settles_overlongPkgContent (len total : ℕ) (hwidth : pkgWidth total = 4)
    (hmod : (total + 4) % 268435456 = len + 4) :
    Settles pkgContent (createPkgLength total true) len True := by
  refine .of_reads fun s => ?_
  have hread := pkgLength_createPkgLength total true s
  rw [if_pos rfl, hwidth, hmod] at hread
  have hle : 4 ≤ len + 4 := Nat.le_add_left 4 len
  simp only [pkgContent, Reader.map, Reader.filter, hread, Option.filter, hle, decide_true,
    if_true, Option.map_some, Nat.add_sub_cancel]

/-- A word that a reader takes for a term. -/
def ReadsAs (p : Reader UInt8 Term) (x : Bytes × Term) : Prop := Settles p x.1 x.2 True

/-- What more a multiple of `2 ^ 28` counts is not seen. -/
theorem readsAs_overlong {p : Reader UInt8 Term} (op : Production) (path : Path)
    (xs : List (Bytes × Term)) (hframed : op.rule.framed = true)
    (hparts : op.rule.parts = [.nameString]) (hrest : op.rule.rest = .termList)
    (hpath : path.Valid) (hxs : ∀ x ∈ xs, ReadsAs p x ∧ x.1 ≠ []) {k : ℕ} (hk : 0 < k)
    (hlen : (path.encode ++ xs.flatMap Prod.fst).length + 4 < 268435456) :
    ReadsAs (termStep p) (overlong op path (xs.flatMap Prod.fst) (k * 268435456),
      .node op [.ref path.nameString] (xs.map Prod.snd)) := by
  have hname : Settles (each (part p) op.rule.parts) path.encode [.ref path.nameString] True := by
    rw [hparts]
    exact settles_pathPart hpath
  have hbody : SettlesEnd (frameRest p op.rule.rest) (xs.flatMap Prod.fst) (xs.map Prod.snd)
      (∀ x ∈ xs, True) := by
    rw [hrest]
    exact settlesEnd_many xs (fun x hx => (hxs x hx).1) fun x hx => (hxs x hx).2
  set len := (path.encode ++ xs.flatMap Prod.fst).length with hlenEq
  have hcontent := settles_overlongPkgContent len (len + k * 268435456)
    (by unfold pkgWidth; split_ifs <;> omega) (by omega)
  exact (settles_framed hframed hcontent hname hbody).congr (by simp)

/-- A regular tree below the limit is read back as its term. -/
theorem readsAs_tree {t : AmlTree} (h : t.Everywhere RegularHere)
    (hlen : t.encode.length < 268435456) {fuel : ℕ} (hfuel : 268435456 ≤ fuel) :
    ReadsAs (term fuel) (t.encode, t.toTerm) ∧ t.encode ≠ [] :=
  AmlTree.settles_regular h (by omega) hlen

/-! ## Two devices with long identifiers -/

section

variable (id : String)

/-- A device with the given identifier. -/
def longDevice (devfn : UInt8) : PciDeviceConfig := ⟨"edu", some id, none, devfn⟩

/-- A platform without CPUs and padding, and with two devices of the same
identifier. -/
def longDevices : PlatformConfig :=
  { PlatformConfig.intelTdxQ35 0 with
    compatLengths := false
    pciDevices := [longDevice id 0x10, longDevice id 0x18] }

/-- The first name of a device. -/
def adrTree (devfn : UInt8) : AmlTree := seg "_ADR" (.qword (pciAdr devfn).toUInt64)

/-- The other names of a device. -/
def laterTrees (devfn : UInt8) : List AmlTree :=
  [seg "_STA" (.byte 0x0f), seg "_SUN" (.qword (devfn >>> 3).toUInt64),
    seg "_UID" (.qword (devfn >>> 3).toUInt64), seg "_DDN" (.string id)]

/-- A device of which nothing but the name is inside. -/
def emptyDevice (devfn : UInt8) : AmlTree := .device (.seg (pciDeviceName devfn)) []

/-- The names of the host bridge. -/
def bridgeTrees : List AmlTree :=
  [seg "_HID" (.eisaName ⟨0x080ad041⟩), seg "_CID" (.eisaName ⟨0x030ad041⟩),
    seg "_UID" (.qword 0), .method (.seg "_OSC") 4 false [.onObject .return_ (.arg ⟨3⟩)]]

/-- The host bridge as it is read: it ends after the first name of the first
device. -/
def misreadBridge : AmlTree :=
  .device (.seg "PCI0") (bridgeTrees ++ [emptyDevice 0x10, adrTree 0x10])

/-- The body as it is read. -/
def misreadTrees : List AmlTree :=
  [.scope sbPath [misreadBridge]] ++ (laterTrees id 0x10 ++
    ([emptyDevice 0x18, adrTree 0x18] ++ (laterTrees id 0x18 ++
      (routingTrees ++ [sleepTree, gpeTree]))))

/-- The tree of a long device: its first name and the later ones. -/
theorem pciDeviceTree_longDevice (devfn : UInt8) :
    pciDeviceTree (longDevice id devfn) =
      .device (.seg (pciDeviceName devfn)) (adrTree devfn :: laterTrees id devfn) := rfl

/-- The trees of the body, with the two devices in the host bridge. -/
theorem bodyTrees_longDevices :
    bodyTrees (longDevices id) 0 =
      [.scope sbPath [.device (.seg "PCI0") (bridgeTrees ++
        [pciDeviceTree (longDevice id 0x10), pciDeviceTree (longDevice id 0x18)])]] ++
        (routingTrees ++ [sleepTree, gpeTree]) := rfl

variable {id}

/-- A tree with its term. -/
def treeWord (t : AmlTree) : Bytes × Term := (t.encode, t.toTerm)

/-- The words of trees, one after the other. -/
theorem flatMap_treeWord (ts : List AmlTree) :
    (ts.map treeWord).flatMap Prod.fst = ts.flatMap AmlTree.encode :=
  List.flatMap_map ..

/-- The terms of trees, one after the other. -/
theorem map_treeWord (ts : List AmlTree) :
    (ts.map treeWord).map Prod.snd = ts.map toTerm :=
  List.map_map

/-- The start of a long device, up to its name. -/
def emptyWord (devfn : UInt8) : Bytes × Term :=
  (overlong .device (.seg (pciDeviceName devfn)) [] (1 * 268435456), (emptyDevice devfn).toTerm)

/-- What is read inside the host bridge. -/
def bridgeWords : List (Bytes × Term) :=
  bridgeTrees.map treeWord ++ [emptyWord 0x10, treeWord (adrTree 0x10)]

/-- What is read as the host bridge: its frame ends after the first name of the
first device. -/
def bridgeWord : Bytes × Term :=
  (overlong .device (.seg "PCI0") (bridgeWords.flatMap Prod.fst) (2 * 268435456),
    misreadBridge.toTerm)

/-- What is read as the scope of the host bridge, which ends with it. -/
def rootWord : Bytes × Term :=
  (overlong .scope sbPath bridgeWord.1 (2 * 268435456),
    (AmlTree.scope sbPath [misreadBridge]).toTerm)

/-- The words of the body, as they are read. -/
def misreadWords (id : String) : List (Bytes × Term) :=
  [rootWord] ++ ((laterTrees id 0x10).map treeWord ++
    ([emptyWord 0x18, treeWord (adrTree 0x18)] ++ ((laterTrees id 0x18).map treeWord ++
      (routingTrees ++ [sleepTree, gpeTree]).map treeWord)))

/-- What the words are read as. -/
theorem map_misreadWords : (misreadWords id).map Prod.snd = (misreadTrees id).map toTerm := by
  simp only [misreadWords, misreadTrees, List.map_append, List.map_cons, List.map_nil,
    map_treeWord]
  rfl

/-! ### The bytes -/

/-- What is read as a long device takes ten bytes. -/
theorem length_emptyWord (devfn : UInt8) : (emptyWord devfn).1.length = 10 := by
  have hpath : (Path.seg (pciDeviceName devfn)).encode.length = 4 := by
    simp [Path.encode, Path.seg, (isSegName_pciDeviceName devfn).1, segCountPrefix]
  have hwidth : pkgWidth (4 + 1 * 268435456) = 4 := by decide
  rw [emptyWord, overlong, List.append_nil, List.length_append, List.length_append,
    length_createPkgLength_eq, hpath, hwidth]
  rfl

section

variable (hid : (asBytes id).length = 268435418)
include hid

/-- The content of a long device, without its name, is just as long as the field
that holds its length can count. -/
theorem length_laterTrees {devfn : UInt8} (h : devfn = 0x10 ∨ devfn = 0x18) :
    ((adrTree devfn).encode ++ (laterTrees id devfn).flatMap AmlTree.encode).length =
      1 * 268435456 := by
  have hfront : ((adrTree devfn).encode ++ ([seg "_STA" (.byte 0x0f),
      seg "_SUN" (.qword (devfn >>> 3).toUInt64),
      seg "_UID" (.qword (devfn >>> 3).toUInt64)] : List AmlTree).flatMap AmlTree.encode).length =
      31 := by
    rcases h with rfl | rfl <;> decide
  have hddn : (seg "_DDN" (.string id)).encode.length = 7 + (asBytes id).length := by
    have hpath : (Path.seg "_DDN").encode.length = 4 := by decide
    simp only [AmlTree.encode, List.length_append, List.length_cons, hpath, encodeString]
    simp
    omega
  have hsplit : laterTrees id devfn = [seg "_STA" (.byte 0x0f),
      seg "_SUN" (.qword (devfn >>> 3).toUInt64), seg "_UID" (.qword (devfn >>> 3).toUInt64)] ++
      [seg "_DDN" (.string id)] := rfl
  rw [hsplit, List.flatMap_append, ← List.append_assoc, List.length_append, hfront,
    List.flatMap_singleton, hddn, hid]

/-- The bytes of a long device are those of an empty device with its content behind
it. -/
theorem encode_longDevice {devfn : UInt8} (h : devfn = 0x10 ∨ devfn = 0x18) :
    (pciDeviceTree (longDevice id devfn)).encode =
      (emptyWord devfn).1 ++
        ((adrTree devfn).encode ++ (laterTrees id devfn).flatMap AmlTree.encode) := by
  have hframe := frame_eq_overlong .device (.seg (pciDeviceName devfn)) []
    ((adrTree devfn).encode ++ (laterTrees id devfn).flatMap AmlTree.encode)
  rw [length_laterTrees hid h, List.nil_append] at hframe
  rw [pciDeviceTree_longDevice, AmlTree.encode, AmlTree.encodeAll_eq, List.flatMap_cons]
  exact hframe

/-- What is left of the two devices where the host bridge seems to end. -/
theorem length_remainder :
    ((laterTrees id 0x10).flatMap AmlTree.encode ++ ((emptyWord 0x18).1 ++
      ((adrTree 0x18).encode ++ (laterTrees id 0x18).flatMap AmlTree.encode))).length =
      2 * 268435456 := by
  have h1 := length_laterTrees hid (.inl rfl)
  have h2 := length_laterTrees hid (.inr rfl)
  have hadr : (adrTree 0x10).encode.length = 10 := by decide
  have hempty : (emptyWord 0x18).1.length = 10 := length_emptyWord 0x18
  rw [List.length_append] at h1
  rw [List.length_append, List.length_append, h2, hempty]
  omega

/-- The bytes of the host bridge are those of the shorter one that is read, with
the rest of both devices behind it. -/
theorem encode_longBridge :
    (AmlTree.device (.seg "PCI0") (bridgeTrees ++ [pciDeviceTree (longDevice id 0x10),
      pciDeviceTree (longDevice id 0x18)])).encode =
      bridgeWord.1 ++ ((laterTrees id 0x10).flatMap AmlTree.encode ++ ((emptyWord 0x18).1 ++
        ((adrTree 0x18).encode ++ (laterTrees id 0x18).flatMap AmlTree.encode))) := by
  have hframe := frame_eq_overlong .device (.seg "PCI0") (bridgeWords.flatMap Prod.fst)
    ((laterTrees id 0x10).flatMap AmlTree.encode ++ ((emptyWord 0x18).1 ++
      ((adrTree 0x18).encode ++ (laterTrees id 0x18).flatMap AmlTree.encode)))
  rw [length_remainder hid] at hframe
  have hcontent : (bridgeTrees ++ [pciDeviceTree (longDevice id 0x10),
      pciDeviceTree (longDevice id 0x18)]).flatMap AmlTree.encode =
      bridgeWords.flatMap Prod.fst ++ ((laterTrees id 0x10).flatMap AmlTree.encode ++
        ((emptyWord 0x18).1 ++
          ((adrTree 0x18).encode ++ (laterTrees id 0x18).flatMap AmlTree.encode))) := by
    rw [List.flatMap_append, List.flatMap_cons, List.flatMap_singleton,
      encode_longDevice hid (.inl rfl), encode_longDevice hid (.inr rfl), bridgeWords,
      List.flatMap_append, flatMap_treeWord, List.flatMap_cons, List.flatMap_singleton, treeWord]
    simp only [List.append_assoc]
  rw [AmlTree.encode, AmlTree.encodeAll_eq, hcontent]
  exact hframe

/-- The bytes of the body are those of the words that are read. -/
theorem encode_longDevices :
    (bodyTrees (longDevices id) 0).flatMap AmlTree.encode =
      (misreadWords id).flatMap Prod.fst := by
  have hframe := frame_eq_overlong .scope sbPath bridgeWord.1
    ((laterTrees id 0x10).flatMap AmlTree.encode ++ ((emptyWord 0x18).1 ++
      ((adrTree 0x18).encode ++ (laterTrees id 0x18).flatMap AmlTree.encode)))
  rw [length_remainder hid] at hframe
  have hscope : (AmlTree.scope sbPath [.device (.seg "PCI0") (bridgeTrees ++
      [pciDeviceTree (longDevice id 0x10), pciDeviceTree (longDevice id 0x18)])]).encode =
      rootWord.1 ++ ((laterTrees id 0x10).flatMap AmlTree.encode ++ ((emptyWord 0x18).1 ++
        ((adrTree 0x18).encode ++ (laterTrees id 0x18).flatMap AmlTree.encode))) := by
    rw [AmlTree.encode, AmlTree.encodeAll_eq, List.flatMap_singleton, encode_longBridge hid]
    exact hframe
  rw [bodyTrees_longDevices, List.flatMap_append, List.flatMap_singleton, hscope, misreadWords]
  simp only [List.flatMap_append, List.flatMap_cons, List.flatMap_nil, flatMap_treeWord, treeWord,
    List.append_assoc, List.append_nil]

/-- Each name of a long device is by itself below the limit. -/
theorem length_lt_of_mem_laterTrees {devfn : UInt8} (h : devfn = 0x10 ∨ devfn = 0x18)
    {t : AmlTree} (ht : t ∈ laterTrees id devfn) : t.encode.length < 268435456 := by
  have hle := AmlTree.length_le_length_flatMap (f := AmlTree.encode) ht
  have htotal := length_laterTrees hid h
  have hadr : 0 < (adrTree devfn).encode.length := by
    rcases h with rfl | rfl <;> decide
  rw [List.length_append] at htotal
  omega

end

/-! ### The reading -/

/-- The start of a long device is read as an empty device. -/
theorem readsAs_emptyWord {fuel : ℕ} (devfn : UInt8) :
    ReadsAs (term (fuel + 1)) (emptyWord devfn) ∧ (emptyWord devfn).1 ≠ [] := by
  have hlen := length_emptyWord devfn
  refine ⟨?_, ?_⟩
  · refine readsAs_overlong .device (.seg (pciDeviceName devfn)) [] rfl rfl rfl
      (Path.valid_seg (isNameSeg_pciDeviceName devfn)) (by simp) Nat.one_pos ?_
    rw [emptyWord, overlong, List.length_append, List.length_append] at hlen
    rw [List.flatMap_nil]
    omega
  · intro hnil
    rw [hnil] at hlen
    cases hlen

/-- The start of the host bridge is read as a host bridge. -/
theorem readsAs_bridgeWord {fuel : ℕ} (hfuel : 268435456 ≤ fuel) :
    ReadsAs (term (fuel + 1)) bridgeWord ∧ bridgeWord.1.length < 1000 := by
  have hlen : (bridgeWords.flatMap Prod.fst).length < 900 := by
    have hbridge : (bridgeTrees.flatMap AmlTree.encode).length < 800 := by decide
    have hadr : (adrTree 0x10).encode.length = 10 := by decide
    have hempty := length_emptyWord 0x10
    rw [bridgeWords, List.flatMap_append, flatMap_treeWord, List.length_append, List.flatMap_cons,
      List.flatMap_singleton, List.length_append, hempty, treeWord, hadr]
    omega
  have hpath : (Path.seg "PCI0").encode.length = 4 := by decide
  refine ⟨?_, ?_⟩
  · have hregular : ∀ t ∈ bridgeTrees, t.Everywhere RegularHere := by
      have hall : (bridgeTrees.all fun t => AmlTree.everywhereWithin RegularHere 3 t) = true := by
        decide
      exact fun t ht => AmlTree.everywhere_of_within (List.all_eq_true.mp hall t ht)
    have hshort : ∀ t ∈ bridgeTrees, t.encode.length < 800 := by decide
    have hadr : (adrTree 0x10).Everywhere RegularHere :=
      AmlTree.regular_seg (by decide) (qword_regular _)
    have hadrShort : (adrTree 0x10).encode.length < 800 := by decide
    have hwords : ∀ x ∈ bridgeWords, ReadsAs (term fuel) x ∧ x.1 ≠ [] := by
      obtain ⟨k, rfl⟩ : ∃ k, fuel = k + 1 := ⟨fuel - 1, by omega⟩
      intro x hx
      -- the objects of the bridge, then a device that is read without its content
      rcases List.mem_append.mp hx with hx | hx
      · obtain ⟨t, ht, rfl⟩ := List.mem_map.mp hx
        have := hshort t ht
        exact readsAs_tree (hregular t ht) (by omega) hfuel
      · rcases List.mem_cons.mp hx with rfl | hx
        · exact readsAs_emptyWord 0x10
        · obtain rfl := List.mem_singleton.mp hx
          exact readsAs_tree hadr (by omega) hfuel
    have := readsAs_overlong .device (.seg "PCI0") bridgeWords rfl rfl rfl
      (Path.valid_seg (by decide)) hwords Nat.two_pos (by rw [List.length_append, hpath]; omega)
    exact this
  · rw [bridgeWord, overlong, List.length_append, List.length_append, List.length_append, hpath,
      length_createPkgLength_eq]
    have hwidth := pkgWidth_le (4 + (bridgeWords.flatMap Prod.fst).length + 2 * 268435456)
    have hop : Production.device.rule.encoding.length = 2 := rfl
    omega

/-- The start of the scope is read as a scope with this host bridge. -/
theorem readsAs_rootWord {fuel : ℕ} (hfuel : 268435456 ≤ fuel) :
    ReadsAs (term (fuel + 2)) rootWord ∧ rootWord.1 ≠ [] := by
  obtain ⟨hbridge, hlen⟩ := readsAs_bridgeWord hfuel
  have hpath : sbPath.encode.length = 5 := by decide
  have hne : bridgeWord.1 ≠ [] := by
    rw [bridgeWord]
    nofun
  refine ⟨?_, by rw [rootWord]; nofun⟩
  have := readsAs_overlong .scope sbPath [bridgeWord] rfl rfl rfl (by decide)
    (List.forall_mem_singleton.mpr ⟨hbridge, hne⟩) Nat.two_pos
    (by rw [List.length_append, hpath, List.flatMap_singleton]; omega)
  rw [List.flatMap_singleton] at this
  exact this

/-- Devices of an ASCII identifier have ASCII identifiers. -/
theorem longDevices_asciiIds (hascii : ∀ b ∈ asBytes id, 1 ≤ b ∧ b ≤ 0x7f) :
    ∀ device ∈ (longDevices id).pciDevices, device.AsciiId := by
  have hdevice : ∀ devfn, (longDevice id devfn).AsciiId := by
    intro devfn id' hid' b hb
    obtain rfl := Option.some.inj hid'
    exact hascii b hb
  simp only [longDevices, List.forall_mem_cons, List.not_mem_nil, false_implies, implies_true,
    and_true]
  exact ⟨hdevice _, hdevice _⟩

section

variable (hid : (asBytes id).length = 268435418) (hascii : ∀ b ∈ asBytes id, 1 ≤ b ∧ b ≤ 0x7f)
include hid hascii

/-- The later names of a device are read back. -/
theorem readsAs_laterTrees {devfn : UInt8} (h : devfn = 0x10 ∨ devfn = 0x18) {fuel : ℕ}
    (hfuel : 268435456 ≤ fuel) :
    ∀ x ∈ (laterTrees id devfn).map treeWord, ReadsAs (term fuel) x ∧ x.1 ≠ [] := by
  have hdevice : (pciDeviceTree (longDevice id devfn)).Everywhere RegularHere := by
    refine pciDevice_regular fun id' hid' => ?_
    obtain rfl := Option.some.inj hid'
    exact hascii
  rw [pciDeviceTree_longDevice] at hdevice
  intro x hx
  obtain ⟨t, ht, rfl⟩ := List.mem_map.mp hx
  exact readsAs_tree ((AmlTree.everywhere_iff.mp hdevice).2 t (List.mem_cons_of_mem _ ht))
    (length_lt_of_mem_laterTrees hid h ht) hfuel

/-- Each word of the body is read back as its term. -/
theorem readsAs_misreadWords {fuel : ℕ} (hfuel : 268435456 ≤ fuel) :
    ∀ x ∈ misreadWords id, ReadsAs (term (fuel + 2)) x ∧ x.1 ≠ [] := by
  have hadr : (adrTree 0x18).Everywhere RegularHere :=
    AmlTree.regular_seg (by decide) (qword_regular _)
  have hadrShort : (adrTree 0x18).encode.length < 800 := by decide
  intro x hx
  rcases List.mem_append.mp hx with hx | hx
  · obtain rfl := List.mem_singleton.mp hx
    exact readsAs_rootWord hfuel
  rcases List.mem_append.mp hx with hx | hx
  · exact readsAs_laterTrees hid hascii (.inl rfl) (by omega) x hx
  rcases List.mem_append.mp hx with hx | hx
  · rcases List.mem_cons.mp hx with rfl | hx
    · exact readsAs_emptyWord 0x18
    · obtain rfl := List.mem_singleton.mp hx
      exact readsAs_tree hadr (by omega) (by omega)
  rcases List.mem_append.mp hx with hx | hx
  · exact readsAs_laterTrees hid hascii (.inr rfl) (by omega) x hx
  · obtain ⟨t, ht, rfl⟩ := List.mem_map.mp hx
    exact readsAs_tree (routing_regular t ht) (length_routing_lt t ht) (by omega)

/-- **The body is misread**: what the host bridge holds after its first device is
found at the root. -/
theorem decodeTermList_longDevices :
    decodeTermList ((bodyTrees (longDevices id) 0).flatMap AmlTree.encode) =
      some ((misreadTrees id).map toTerm) := by
  have hlong : 268435458 ≤ ((bodyTrees (longDevices id) 0).flatMap AmlTree.encode).length := by
    have h1 := length_remainder hid
    have h2 : (2 : ℕ) ≤ 268435456 := by omega
    rw [encode_longDevices hid, misreadWords, List.flatMap_append, List.length_append,
      List.flatMap_append, List.length_append, List.flatMap_append, List.length_append,
      List.flatMap_append, List.length_append, flatMap_treeWord, flatMap_treeWord]
    rw [List.length_append, List.length_append, List.length_append] at h1
    simp only [List.flatMap_cons, List.flatMap_nil, List.append_nil, List.length_append, treeWord]
    omega
  obtain ⟨fuel, hfuel⟩ : ∃ fuel, ((bodyTrees (longDevices id) 0).flatMap AmlTree.encode).length =
    fuel + 2 := ⟨_, (Nat.sub_add_cancel (by omega)).symm⟩
  have hwords := readsAs_misreadWords hid hascii (show 268435456 ≤ fuel by omega)
  have hread := (settlesEnd_many (misreadWords id) (fun x hx => (hwords x hx).1)
    fun x hx => (hwords x hx).2).reads fun _ _ => trivial
  rw [decodeTermList, hfuel, encode_longDevices hid, hread, map_misreadWords]

end

/-- The remains of the two devices collide. -/
theorem misreadTrees_collide : ¬ (declaredPaths (namespaceEvents
    ((misreadTrees id).map toTerm))).Nodup := by
  intro h
  have hsta : ∀ devfn, [asBytes "_STA"] ∈ treePaths [] (laterTrees id devfn) := by
    intro devfn
    rw [laterTrees, treePaths_seg_cons _ (by decide)]
    exact List.mem_cons_self ..
  rw [namespaceEvents_map] at h
  change (treePaths [] (misreadTrees id)).Nodup at h
  rw [misreadTrees, treePaths_append, treePaths_append, treePaths_append, treePaths_append] at h
  have hdisjoint := (List.nodup_append'.mp (List.nodup_append'.mp h).2.1).2.2
  exact hdisjoint (hsta 0x10) (List.mem_append_right _ (List.mem_append_left _ (hsta 0x18)))

end

/-- The bytes of an identifier of one letter. -/
theorem asBytes_replicate (n : ℕ) :
    asBytes (String.ofList (List.replicate n 'a')) = List.replicate n 0x61 := by
  have hletter : UInt8.ofNat 'a'.toNat = 0x61 := rfl
  have hascii : ∀ c ∈ List.replicate n 'a', c.toNat < 128 := by
    intro c hc
    obtain rfl := List.eq_of_mem_replicate hc
    decide
  rw [asBytes_ofList hascii, List.map_replicate, hletter]

/-- An identifier that makes the frame of its device wrap. -/
def longId : String := String.ofList (List.replicate 268435418 'a')

/-- The table is built, since without targets nothing is asserted of its length. -/
theorem buildDsdt_longDevices (id : String) :
    buildDsdt (longDevices id) =
      .ok (finalizeTable ((longDevices id).header (bstr "DSDT") 1)
        (dsdtBody (longDevices id) 0)) := by
  have htarget : (longDevices id).targetDsdtLen = .ok none := rfl
  have hcpus : (longDevices id).cpuApicIds.length ≤ 1000 := Nat.zero_le _
  rw [buildDsdt, encodeDsdtWithPadding, encodeDsdtBody_eq hcpus, Checked.ok_bind, htarget]
  rfl

/-- With two devices on the root bus, of distinct numbers and with ASCII
identifiers, the body parses into terms that declare one path twice. -/
theorem longDevices_collide :
    (longDevices longId).cpuApicIds.length ≤ 1000 ∧
    (∀ device ∈ (longDevices longId).pciDevices, device.AsciiId) ∧
    (((longDevices longId).pciDevices.filter PciDeviceConfig.isRootBusDevice).map
      PciDeviceConfig.devfn).Nodup ∧
    ∃ dsdt terms, buildDsdt (longDevices longId) = .ok dsdt ∧
      decodeTermList (dsdt.drop 36) = some terms ∧
      ¬ (declaredPaths (namespaceEvents terms)).Nodup := by
  obtain ⟨hlen, hletter⟩ := List.eq_replicate_iff.mp (asBytes_replicate 268435418)
  have hascii : ∀ b ∈ asBytes longId, 1 ≤ b ∧ b ≤ 0x7f := by
    intro b hb
    obtain rfl := hletter b hb
    decide
  have hdevfns : ((longDevices longId).pciDevices.filter PciDeviceConfig.isRootBusDevice).map
      PciDeviceConfig.devfn = [0x10, 0x18] := rfl
  refine ⟨Nat.zero_le _, longDevices_asciiIds hascii, ?_, ?_⟩
  · rw [hdevfns]
    decide
  · refine ⟨_, _, buildDsdt_longDevices longId, ?_, @misreadTrees_collide longId⟩
    rw [drop_finalizeTable, dsdtBody]
    exact decodeTermList_longDevices hlen hascii

end AcpiTables
