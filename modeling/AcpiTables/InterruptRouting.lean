import AcpiTables.DsdtMachine

/-!
# Where interrupts arrive

What the operating system finds when it follows the interrupt of a slot and a pin:
the entry of the `_PRT` that is valid now, the link device it names, and the
interrupts in the resource template of that device. `routing_after_history` is the
main result. After any history of calls the answer depends on the last call of
`_PIC` alone.

`routeOf` follows the interrupt, with `evaluate` wherever an object may be a method.
The proof goes the same way: the tables have one entry for each pin of each slot
(`find_entryAt`), the machine returns the table of its mode
(`Loaded.evaluate_prt`), the names in it are found from the host bridge
(`Loaded.find_link`), and the link devices return their interrupts
(`Loaded.evaluate_link`). On the way names are looked up from inside out, so it has
to be known that no body declares them further inside (`missedPaths`).
-/

namespace AcpiTables

open AmlTree (seg toTerm)

/-! ## Following an interrupt -/

/-- The value of an object: that of a name, or what a method without arguments
returns. -/
def evaluate (fuel : ℕ) (space : Space) (path : AbsPath) : Option Value :=
  match space path with
  | some (.data v) => some v
  | some (.method 0 _) => (invoke dsdtWidth fuel space path []).bind Prod.snd
  | _ => none

/-- An entry of a `_PRT`: its address, its pin and the name of its link. -/
def readEntry : Value → Option (ℕ × ℕ × NameString)
  | .package [.integer address, .integer pin, .name link, .integer _] =>
    some (address, pin, link)
  | _ => none

/-- The address of all functions of a slot. -/
def slotAddress (slot : ℕ) : ℕ := slot * 65536 + 0xffff

/-- Different slots have different addresses. -/
theorem slotAddress_inj {slot slot' : ℕ} : slotAddress slot = slotAddress slot' ↔ slot = slot' := by
  unfold slotAddress
  omega

/-- The entry is for a pin of a slot. -/
def isEntry (slot pin : ℕ) (entry : ℕ × ℕ × NameString) : Bool :=
  decide (entry.1 = slotAddress slot ∧ entry.2.1 = pin)

/-- The numbers in an extended interrupt descriptor. -/
def readInterrupt : Bytes → List ℕ
  | 0x89 :: _ :: _ :: _ :: n :: numbers =>
    (List.range n.toNat).map fun i => leValue (slice numbers (4 * i) 4)
  | _ => []

/-- The interrupts of a resource template. -/
def templateInterrupts (template : Bytes) : Option (List ℕ) :=
  (walk descriptorSize template.length template).map fun records => records.flatMap readInterrupt

/-- The path of the method that returns a routing table. -/
def prtPath : AbsPath := pci0Scope ++ [asBytes "_PRT"]

/-- The interrupts at which a pin of a slot of the root bus arrives. -/
def routeOf (fuel : ℕ) (space : Space) (slot pin : ℕ) : Option (List ℕ) := do
  match ← evaluate fuel space prtPath with
  | .package entries =>
    let (_, _, link) ← (entries.filterMap readEntry).find? (isEntry slot pin)
    let path ← space.find pci0Scope link
    match ← evaluate fuel space (path ++ [asBytes "_CRS"]) with
    | .buffer template => templateInterrupts template
    | _ => none
  | _ => none

/-- How a route is found: the table has an entry for the pin, the entry names a
link, and the link has interrupts. -/
theorem routeOf_of {fuel : ℕ} {space : Space} {slot pin address : ℕ} {entries : List Value}
    {link : NameString} {path : AbsPath} {template : Bytes}
    (hprt : evaluate fuel space prtPath = some (.package entries))
    (hentry : (entries.filterMap readEntry).find? (isEntry slot pin) = some (address, pin, link))
    (hfind : space.find pci0Scope link = some path)
    (hcrs : evaluate fuel space (path ++ [asBytes "_CRS"]) = some (.buffer template)) :
    routeOf fuel space slot pin = templateInterrupts template := by
  simp only [routeOf, hprt, hentry, hfind, hcrs, Option.bind_eq_bind, Option.bind_some]

/-- The link of a pin: the slots `0x19` to `0x1d` and `0x1f` use the first four, all
others the last four. -/
def linkIndex (slot pin : ℕ) : ℕ := (if slot < 0x19 ∨ slot = 0x1e then 4 else 0) + pin

/-- The global interrupt of a pin. -/
def gsiOf (slot pin : ℕ) : ℕ := 0x10 + linkIndex slot pin

/-! ## The tables -/

/-- The elements of a package. -/
def Value.elements : Value → Option (List Value)
  | .package entries => some entries
  | _ => none

/-- The value of a routing table. -/
def tableValue (linkPrefix : String) : Option Value := (prtTree linkPrefix).toTerm.data dsdtWidth

/-- The entries of a routing table. -/
def entriesOf (linkPrefix : String) : List Value :=
  ((tableValue linkPrefix).bind Value.elements).getD []

/-- The entry at an index, with the names of the links. -/
def entryAt (names : List String) (i : ℕ) : ℕ × ℕ × NameString :=
  (slotAddress (i / 4), i % 4,
    ⟨false, 0, [asBytes (names.getD (linkIndex (i / 4) (i % 4)) "")]⟩)

/-- The prefixes of the two tables, and the names of their links. -/
def routingLinks : List (String × List String) :=
  [("LNK", linkDevices.map Prod.fst), ("GSI", gsiLinkDevices.map Prod.fst)]

/-- Both routing tables are packages with one entry for each pin of each slot. -/
theorem routingLinks_entries : ∀ x ∈ routingLinks,
    ((tableValue x.1).bind Value.elements).isSome = true ∧
      (entriesOf x.1).filterMap readEntry = (List.range 128).map (entryAt x.2) := by
  decide +kernel

/-- The value of a routing table is the package of its entries. -/
theorem tableValue_eq {linkPrefix : String} (h : linkPrefix ∈ routingLinks.map Prod.fst) :
    tableValue linkPrefix = some (.package (entriesOf linkPrefix)) := by
  obtain ⟨x, hx, rfl⟩ := List.mem_map.mp h
  obtain ⟨entries, hentries⟩ := Option.isSome_iff_exists.mp (routingLinks_entries x hx).1
  obtain ⟨v, hv, helements⟩ := Option.bind_eq_some_iff.mp hentries
  rw [entriesOf, hentries, hv]
  cases v with
  | package vs =>
    obtain rfl := Option.some.inj helements
    rfl
  | _ => cases helements

section

variable {slot pin : ℕ}

/-- A pin is routed to one of eight links. -/
theorem linkIndex_lt (hpin : pin < 4) : linkIndex slot pin < 8 := by
  rw [linkIndex]
  split_ifs <;> omega

variable (hslot : slot < 32) (hpin : pin < 4)
include hslot hpin

/-- Every pin of every slot has one entry. -/
theorem find_entryAt (names : List String) :
    ((List.range 128).map (entryAt names)).find? (isEntry slot pin) =
      some (slotAddress slot, pin,
        ⟨false, 0, [asBytes (names.getD (linkIndex slot pin) "")]⟩) := by
  have hdiv : (4 * slot + pin) / 4 = slot := by omega
  have hmod : (4 * slot + pin) % 4 = pin := by omega
  have hfirst : (List.range 128).find? (isEntry slot pin ∘ entryAt names) =
      some (4 * slot + pin) := by
    rw [List.find?_range_eq_some]
    refine ⟨?_, List.mem_range.mpr (by omega), fun i hi => ?_⟩
    · have hmine : (entryAt names (4 * slot + pin)).1 = slotAddress slot ∧
          (entryAt names (4 * slot + pin)).2.1 = pin := ⟨congrArg slotAddress hdiv, hmod⟩
      rw [Function.comp_apply, isEntry, decide_eq_true hmine]
    have hother : ¬((entryAt names i).1 = slotAddress slot ∧ (entryAt names i).2.1 = pin) := by
      rintro ⟨haddress, rfl⟩
      have := slotAddress_inj.mp haddress
      change i < 4 * slot + i % 4 at hi
      omega
    rw [Function.comp_apply, isEntry, decide_eq_false hother, Bool.not_false]
  rw [List.find?_map, hfirst, Option.map_some, entryAt, hdiv, hmod]

/-- The first entry for a pin of a slot in the legacy table names one of the link
devices. -/
theorem find_lnk : ∃ x ∈ linkDevices,
    ((entriesOf "LNK").filterMap readEntry).find? (isEntry slot pin) =
      some (slotAddress slot, pin, ⟨false, 0, [asBytes x.1]⟩) := by
  have hlt : linkIndex slot pin < linkDevices.length := linkIndex_lt hpin
  refine ⟨linkDevices[linkIndex slot pin], List.getElem_mem hlt, ?_⟩
  have hentries := (routingLinks_entries _ (List.mem_cons_self ..)).2
  rw [hentries, find_entryAt hslot hpin]
  simp [List.getD_eq_getElem?_getD, hlt]

/-- In the other table it is the link of its global interrupt. -/
theorem find_gsi : ∃ x ∈ gsiLinkDevices, x.2.2.toNat = gsiOf slot pin ∧
    ((entriesOf "GSI").filterMap readEntry).find? (isEntry slot pin) =
      some (slotAddress slot, pin, ⟨false, 0, [asBytes x.1]⟩) := by
  have hgsi : ∀ k, ∀ hk : k < gsiLinkDevices.length, gsiLinkDevices[k].2.2.toNat = 0x10 + k := by
    decide
  have hlt : linkIndex slot pin < gsiLinkDevices.length := linkIndex_lt hpin
  refine ⟨gsiLinkDevices[linkIndex slot pin], List.getElem_mem hlt, hgsi _ hlt, ?_⟩
  have hentries := (routingLinks_entries _ (List.mem_cons_of_mem _ (List.mem_cons_self ..))).2
  rw [hentries, find_entryAt hslot hpin]
  simp [List.getD_eq_getElem?_getD, hlt]

end

/-! ## The link devices -/

/-- The value of a resource template. -/
def templateValue (ds : List Descriptor) : Value :=
  .buffer (templateContent (ds.flatMap Descriptor.encode))

/-- The value of a resource template is a buffer of its bytes. -/
theorem data_resourceTemplate (ds : List Descriptor) :
    (AmlTree.resourceTemplate ds).toTerm.data dsdtWidth = some (templateValue ds) := by
  simp [AmlTree.toTerm, Term.data, templateValue]

/-- What a link of the first kind declares. -/
theorem mem_linkEvents {x : String × UInt8 × String} (hx : x ∈ linkDevices) {event : Event}
    (h : event ∈ (linkDeviceTree x.1 x.2.1).toTerm.events sbScope) :
    event ∈ treeEvents [] (routingTrees ++ [sleepTree, gpeTree]) := by
  refine List.mem_flatMap.mpr ⟨.scope sbPath linkTrees, by simp [routingTrees], ?_⟩
  rw [events_scopeTree]
  refine List.mem_cons_of_mem _ (List.mem_flatMap.mpr ⟨linkDeviceTree x.1 x.2.1, ?_, h⟩)
  exact List.mem_append_left _ (List.mem_flatMap.mpr ⟨x, hx, by simp⟩)

/-- What a link device with a fixed interrupt declares is declared by the body. -/
theorem mem_gsiLinkEvents {x : String × UInt8 × UInt32} (hx : x ∈ gsiLinkDevices) {event : Event}
    (h : event ∈ (gsiLinkDeviceTree x.1 x.2.1 x.2.2).toTerm.events sbScope) :
    event ∈ treeEvents [] (routingTrees ++ [sleepTree, gpeTree]) := by
  refine List.mem_flatMap.mpr ⟨.scope sbPath linkTrees, by simp [routingTrees], ?_⟩
  rw [events_scopeTree]
  refine List.mem_cons_of_mem _ (List.mem_flatMap.mpr ⟨gsiLinkDeviceTree x.1 x.2.1 x.2.2, ?_, h⟩)
  exact List.mem_append_right _ (List.mem_map.mpr ⟨x, hx, rfl⟩)

/-- The tree of the method that returns a routing table. -/
def prtMethodTree : AmlTree :=
  .method (.seg "_PRT") 0 false
    [.ifTree (.compare .equal (.path (.seg "PICF")) .zero)
        [.onObject .return_ (.path (.seg "PRTP"))],
      .elseTree [.onObject .return_ (.path (.seg "PRTA"))]]

/-- What the routing declares in the host bridge is declared by the body. -/
theorem mem_pci0Events {t : AmlTree} {event : Event}
    (ht : t ∈ [seg "PRTP" (prtTree "LNK"), seg "PRTA" (prtTree "GSI"), prtMethodTree])
    (hevent : event ∈ t.toTerm.events pci0Scope) :
    event ∈ treeEvents [] (routingTrees ++ [sleepTree, gpeTree]) := by
  refine List.mem_flatMap.mpr ⟨_, List.mem_of_getElem? (i := 2) rfl, ?_⟩
  rw [events_scopeTree]
  exact List.mem_cons_of_mem _ (List.mem_flatMap.mpr ⟨t, ht, hevent⟩)

/-- The method `_PRT`. -/
def prtBody : List Term :=
  [.node .ifElse [.node .lEqual [.ref ⟨false, 0, [asBytes "PICF"]⟩, .int 0] []]
      [.node .return_ [.ref ⟨false, 0, [asBytes "PRTP"]⟩] []],
    .node .else_ [] [.node .return_ [.ref ⟨false, 0, [asBytes "PRTA"]⟩] []]]

/-- The paths at which the methods of the routing look for a name in vain, on their
way from inside out. -/
def missedPaths : List AbsPath :=
  [prtPath ++ [asBytes "PICF"], pci0Scope ++ [asBytes "PICF"], sbScope ++ [asBytes "PICF"],
    prtPath ++ [asBytes "PRTP"], prtPath ++ [asBytes "PRTA"]] ++
  linkDevices.map (fun x => sbScope ++ [asBytes x.1] ++ [asBytes "_CRS"] ++ [asBytes "_PRS"]) ++
  (linkDevices.map Prod.fst ++ gsiLinkDevices.map Prod.fst).map fun name =>
    pci0Scope ++ [asBytes name]

/-- No body declares anything there. -/
theorem neverDeclared_missedPaths : ∀ path ∈ missedPaths, NeverDeclared path := by
  decide +kernel

/-- The path of a link's name from inside the method that returns its interrupts. -/
theorem missedPaths_prs {x : String × UInt8 × String} (h : x ∈ linkDevices) :
    sbScope ++ [asBytes x.1] ++ [asBytes "_CRS"] ++ [asBytes "_PRS"] ∈ missedPaths :=
  List.mem_append_left _ (List.mem_append_right _ (List.mem_map_of_mem h))

/-- The path of a link's name in the host bridge. -/
theorem missedPaths_link {name : String}
    (h : name ∈ linkDevices.map Prod.fst ++ gsiLinkDevices.map Prod.fst) :
    pci0Scope ++ [asBytes name] ∈ missedPaths :=
  List.mem_append_right _ (List.mem_map_of_mem h)

section

variable {config : PlatformConfig} {padLen : ℕ} {space : Space} (h : Loaded config padLen space)
include h

/-- A loaded link device has its possible interrupts and the method that returns
them. -/
theorem Loaded.link {x : String × UInt8 × String} (hx : x ∈ linkDevices) :
    space (sbScope ++ [asBytes x.1]) = some .other ∧
    space (sbScope ++ [asBytes x.1] ++ [asBytes "_PRS"]) =
      some (.data (templateValue [linkIrq 5, linkIrq 10, linkIrq 11])) ∧
    space (sbScope ++ [asBytes x.1] ++ [asBytes "_CRS"]) =
      some (.method 0 [.node .return_ [.ref ⟨false, 0, [asBytes "_PRS"]⟩] []]) := by
  have hevents : (linkDeviceTree x.1 x.2.1).toTerm.events sbScope =
      .declares (sbScope ++ [asBytes x.1]) (linkDeviceTree x.1 x.2.1).toTerm ::
        treeEvents (sbScope ++ [asBytes x.1]) (linkDeviceTree x.1 x.2.1).children :=
    events_deviceTree sbScope (linkDevices_isSegName _ hx).1.1
  have hchild {t : AmlTree} {event : Event} (ht : t ∈ (linkDeviceTree x.1 x.2.1).children)
      (hevent : event ∈ t.toTerm.events (sbScope ++ [asBytes x.1])) :
      event ∈ (linkDeviceTree x.1 x.2.1).toTerm.events sbScope :=
    hevents ▸ List.mem_cons_of_mem _ (List.mem_flatMap.mpr ⟨t, ht, hevent⟩)
  refine ⟨h.routing (t := (linkDeviceTree x.1 x.2.1).toTerm) (mem_linkEvents hx ?_),
    (h.routing (t := (seg "_PRS" (.resourceTemplate [linkIrq 5, linkIrq 10, linkIrq 11])).toTerm)
      (mem_linkEvents hx (hchild (List.mem_of_getElem? (i := 2) rfl) ?_))).trans ?_,
    h.routing (t := (AmlTree.method (.seg "_CRS") 0 false
      [.onObject .return_ (.path (.seg "_PRS"))]).toTerm)
      (mem_linkEvents hx (hchild (List.mem_of_getElem? (i := 5) rfl) ?_))⟩
  · exact hevents ▸ List.mem_cons_self ..
  · rw [events_seg _ _ (by decide)]
    exact List.mem_singleton_self _
  · rw [AmlTree.toTerm, Object.ofTerm, data_resourceTemplate]
  · rw [events_methodTree _ (by decide)]
    exact List.mem_singleton_self _

/-- A loaded link device with a fixed interrupt has this interrupt. -/
theorem Loaded.gsiLink {x : String × UInt8 × UInt32} (hx : x ∈ gsiLinkDevices) :
    space (sbScope ++ [asBytes x.1]) = some .other ∧
    space (sbScope ++ [asBytes x.1] ++ [asBytes "_CRS"]) =
      some (.data (templateValue [linkIrq x.2.2])) := by
  have hevents : (gsiLinkDeviceTree x.1 x.2.1 x.2.2).toTerm.events sbScope =
      .declares (sbScope ++ [asBytes x.1]) (gsiLinkDeviceTree x.1 x.2.1 x.2.2).toTerm ::
        treeEvents (sbScope ++ [asBytes x.1]) (gsiLinkDeviceTree x.1 x.2.1 x.2.2).children :=
    events_deviceTree sbScope (gsiLinkDevices_isSegName _ hx).1
  refine ⟨h.routing (t := (gsiLinkDeviceTree x.1 x.2.1 x.2.2).toTerm) (mem_gsiLinkEvents hx ?_),
    (h.routing (t := (seg "_CRS" (.resourceTemplate [linkIrq x.2.2])).toTerm)
      (mem_gsiLinkEvents hx ?_)).trans ?_⟩
  · exact hevents ▸ List.mem_cons_self ..
  · refine hevents ▸ List.mem_cons_of_mem _ (List.mem_flatMap.mpr
      ⟨_, List.mem_of_getElem? (i := 3) rfl, ?_⟩)
    rw [events_seg _ _ (by decide)]
    exact List.mem_singleton_self _
  · rw [AmlTree.toTerm, Object.ofTerm, data_resourceTemplate]

/-! ## The route -/

/-- The names of the links are found from the host bridge. -/
theorem Loaded.find_link (hcpus : config.cpuApicIds.length ≤ 1000) (mode : ℕ) {name : String}
    (hname : NeverDeclared (pci0Scope ++ [asBytes name]))
    (hlink : space (sbScope ++ [asBytes name]) = some .other) :
    (inMode space mode).find pci0Scope ⟨false, 0, [asBytes name]⟩ =
      some (sbScope ++ [asBytes name]) := by
  refine Space.find_seg 1 (by decide) rfl ?_ fun j hj => ?_
  · rw [inMode_of_ne (by simp [sbScope, picfPath]), hlink]
    rfl
  · obtain rfl : j = 0 := by omega
    rw [inMode_of_ne (by simp [pci0Scope, picfPath])]
    exact h.free hcpus hname (by simp [pci0Scope, predefinedScopes])

/-- The loaded method that returns a routing table. -/
theorem Loaded.prt : space prtPath = some (.method 0 prtBody) := by
  refine h.routing (t := prtMethodTree.toTerm)
    (mem_pci0Events (List.mem_of_getElem? (i := 2) rfl) ?_)
  rw [prtMethodTree, events_methodTree _ (by decide)]
  exact List.mem_singleton_self _

/-- The loaded routing tables. -/
theorem Loaded.table {name linkPrefix : String}
    (hx : (name, linkPrefix) ∈ [("PRTP", "LNK"), ("PRTA", "GSI")]) :
    space (pci0Scope ++ [asBytes name]) =
      some (.data (.package (entriesOf linkPrefix))) := by
  have hname : (asBytes name).length = 4 ∧ linkPrefix ∈ routingLinks.map Prod.fst ∧
      seg name (prtTree linkPrefix) ∈ [seg "PRTP" (prtTree "LNK"), seg "PRTA" (prtTree "GSI")] := by
    simp only [List.mem_cons, Prod.mk.injEq, List.not_mem_nil, or_false] at hx
    rcases hx with ⟨rfl, rfl⟩ | ⟨rfl, rfl⟩
    · exact ⟨by decide, by decide, List.mem_cons_self ..⟩
    · exact ⟨by decide, by decide, List.mem_cons_of_mem _ (List.mem_cons_self ..)⟩
  refine (h.routing (t := (seg name (prtTree linkPrefix)).toTerm)
    (mem_pci0Events (List.mem_append_left [prtMethodTree] hname.2.2) ?_)).trans ?_
  · rw [events_seg _ _ hname.1]
    exact List.mem_singleton_self _
  · have hvalue := tableValue_eq hname.2.1
    rw [tableValue] at hvalue
    rw [AmlTree.toTerm, Object.ofTerm, hvalue]

/-- The method finds the interrupt model at the root, since no scope on its way
declares the name. -/
theorem Loaded.find_picf (hcpus : config.cpuApicIds.length ≤ 1000) (mode : ℕ) :
    (inMode space mode).find prtPath ⟨false, 0, [asBytes "PICF"]⟩ = some picfPath := by
  have hnever : ∀ j < 3, prtPath.take (prtPath.length - j) ++ [asBytes "PICF"] ≠ picfPath ∧
      prtPath.take (prtPath.length - j) ++ [asBytes "PICF"] ∈ missedPaths.take 3 ∧
      prtPath.take (prtPath.length - j) ++ [asBytes "PICF"] ∉ predefinedScopes := by
    decide
  refine Space.find_seg 3 (by decide) rfl ?_ fun j hj => ?_
  · rw [inMode, Function.update_self]
    rfl
  · obtain ⟨hne, hpath, hscope⟩ := hnever j hj
    have hfree := neverDeclared_missedPaths _ (List.mem_of_mem_take hpath)
    rw [inMode_of_ne hne, h.free hcpus hfree hscope]

/-- The predicate of `_PRT`. -/
theorem Loaded.eval_equal (hcpus : config.cpuApicIds.length ≤ 1000) (mode fuel : ℕ) :
    eval dsdtWidth (fuel + 2) (inMode space mode) ⟨prtPath, []⟩
      (.node .lEqual [.ref ⟨false, 0, [asBytes "PICF"]⟩, .int 0] []) =
        some (inMode space mode, .integer (if mode = 0 then 2 ^ dsdtWidth - 1 else 0)) := by
  have hpicf : inMode space mode picfPath = some (.data (.integer mode)) :=
    Function.update_self ..
  have hzero : eval dsdtWidth (fuel + 1) (inMode space mode) ⟨prtPath, []⟩ (.int 0) =
    some (inMode space mode, .integer 0) := rfl
  change evalStep dsdtWidth (eval dsdtWidth (fuel + 1)) _ _ _ _ = _
  simp only [evalStep, eval_name dsdtWidth (h.find_picf hcpus mode) hpicf, hzero,
    Option.bind_eq_bind, Option.bind_some]

/-- A branch of `_PRT`. -/
theorem Loaded.exec_return (hcpus : config.cpuApicIds.length ≤ 1000) (mode fuel : ℕ)
    {name linkPrefix : String}
    (hx : (name, linkPrefix) ∈ [("PRTP", "LNK"), ("PRTA", "GSI")]) :
    exec dsdtWidth (fuel + 2) (inMode space mode) ⟨prtPath, []⟩
      [.node .return_ [.ref ⟨false, 0, [asBytes name]⟩] []] =
        some (inMode space mode, some (.package (entriesOf linkPrefix))) := by
  have hnever : ∀ x ∈ [("PRTP", "LNK"), ("PRTA", "GSI")],
      prtPath ++ [asBytes x.1] ≠ picfPath ∧ prtPath ++ [asBytes x.1] ∈ missedPaths.take 5 ∧
        prtPath ++ [asBytes x.1] ∉ predefinedScopes ∧ pci0Scope ++ [asBytes x.1] ≠ picfPath := by
    decide
  obtain ⟨hne, hpath, hscope, htablePath⟩ := hnever _ hx
  have htable := (inMode_of_ne (m := mode) htablePath).trans (h.table hx)
  have hfind : (inMode space mode).find prtPath ⟨false, 0, [asBytes name]⟩ =
      some (pci0Scope ++ [asBytes name]) :=
    Space.find_seg 1 (by decide) rfl (by rw [htable]; rfl) fun j hj => by
      obtain rfl : j = 0 := by omega
      have hfree := neverDeclared_missedPaths _ (List.mem_of_mem_take hpath)
      exact (inMode_of_ne hne).trans (h.free hcpus hfree hscope)
  change execStep (eval dsdtWidth (fuel + 1)) _ _ _ _ = _
  simp only [execStep, eval_name dsdtWidth hfind htable, Option.map_some]

/-- `_PRT` returns the table of the mode. -/
theorem Loaded.evaluate_prt (hcpus : config.cpuApicIds.length ≤ 1000) (mode fuel : ℕ) :
    evaluate (fuel + 5) (inMode space mode) prtPath =
      some (.package (entriesOf (if mode = 0 then "LNK" else "GSI"))) := by
  have hmethod : inMode space mode prtPath = some (.method 0 prtBody) :=
    (inMode_of_ne (by decide)).trans h.prt
  simp only [evaluate, hmethod]
  rw [invoke_method dsdtWidth hmethod rfl]
  change (execStep (eval dsdtWidth (fuel + 3)) (exec dsdtWidth (fuel + 3)) _ _ prtBody).bind _ = _
  simp only [prtBody, execStep, h.eval_equal hcpus, splitElse, Option.bind_eq_bind,
    Option.bind_some]
  by_cases hmode : mode = 0
  · rw [if_pos hmode, if_neg (by decide), if_pos hmode,
      h.exec_return hcpus _ _ (List.mem_cons_self ..)]
    rfl
  · rw [if_neg hmode, if_pos rfl, if_neg hmode,
      h.exec_return hcpus _ _ (List.mem_cons_of_mem _ (List.mem_cons_self ..))]
    rfl

/-- `_CRS` of a link of the first kind returns its possible interrupts. -/
theorem Loaded.evaluate_link (hcpus : config.cpuApicIds.length ≤ 1000) (mode fuel : ℕ)
    {x : String × UInt8 × String} (hx : x ∈ linkDevices) :
    evaluate (fuel + 5) (inMode space mode) (sbScope ++ [asBytes x.1] ++ [asBytes "_CRS"]) =
      some (templateValue [linkIrq 5, linkIrq 10, linkIrq 11]) := by
  have hnever := neverDeclared_missedPaths _ (missedPaths_prs hx)
  have hlong {path : AbsPath} (h : 2 ≤ path.length) :
      path ≠ picfPath ∧ path ∉ predefinedScopes := by
    refine ⟨?_, fun hmem => ?_⟩
    · rintro rfl
      exact absurd h (by decide)
    · have hshort : ∀ path ∈ predefinedScopes, ¬ 2 ≤ path.length := by decide
      exact hshort path hmem h
  obtain ⟨-, hprs, hcrs⟩ := h.link hx
  have hvalue := (inMode_of_ne (m := mode) (hlong (by simp)).1).trans hprs
  have hmethod := (inMode_of_ne (m := mode) (hlong (by simp)).1).trans hcrs
  have hfind : (inMode space mode).find (sbScope ++ [asBytes x.1] ++ [asBytes "_CRS"])
      ⟨false, 0, [asBytes "_PRS"]⟩ = some (sbScope ++ [asBytes x.1] ++ [asBytes "_PRS"]) :=
    Space.find_seg 1 (by simp) rfl (by rw [hvalue]; rfl) fun j hj => by
      obtain rfl : j = 0 := by omega
      exact (inMode_of_ne (hlong (by simp)).1).trans
        (h.free hcpus hnever (hlong (by simp)).2)
  simp only [evaluate, hmethod]
  rw [invoke_method dsdtWidth hmethod rfl]
  change (execStep (eval dsdtWidth (fuel + 3)) _ _ _ _).bind _ = _
  simp only [execStep, eval_name dsdtWidth hfind hvalue, Option.map_some, Option.bind_some]

/-- **Where the interrupt of a pin arrives**: at one of three interrupts in mode
zero, at its own global interrupt in all others. -/
theorem Loaded.routeOf_eq (hcpus : config.cpuApicIds.length ≤ 1000) (mode fuel : ℕ)
    {slot pin : ℕ} (hslot : slot < 32) (hpin : pin < 4) :
    routeOf (fuel + 5) (inMode space mode) slot pin =
      some (if mode = 0 then [5, 10, 11] else [gsiOf slot pin]) := by
  have hgsis : ∀ x ∈ gsiLinkDevices,
      sbScope ++ [asBytes x.1] ++ [asBytes "_CRS"] ≠ picfPath ∧
      templateInterrupts (templateContent ([linkIrq x.2.2].flatMap Descriptor.encode)) =
        some [x.2.2.toNat] := by decide
  have hthree : templateInterrupts (templateContent
      ([linkIrq 5, linkIrq 10, linkIrq 11].flatMap Descriptor.encode)) = some [5, 10, 11] := by
    decide
  have hprt := h.evaluate_prt hcpus mode fuel
  by_cases hmode : mode = 0
  · rw [if_pos hmode] at hprt ⊢
    obtain ⟨x, hx, hentry⟩ := find_lnk hslot hpin
    have hpath := neverDeclared_missedPaths _
      (missedPaths_link (List.mem_append_left _ (List.mem_map_of_mem hx)))
    exact (routeOf_of hprt hentry (h.find_link hcpus mode hpath (h.link hx).1)
      (h.evaluate_link hcpus mode fuel hx)).trans hthree
  · rw [if_neg hmode] at hprt ⊢
    obtain ⟨x, hx, hgsi, hentry⟩ := find_gsi hslot hpin
    have hpath := neverDeclared_missedPaths _
      (missedPaths_link (List.mem_append_right _ (List.mem_map_of_mem hx)))
    obtain ⟨hne, htemplate⟩ := hgsis x hx
    have hcrs : evaluate (fuel + 5) (inMode space mode)
        (sbScope ++ [asBytes x.1] ++ [asBytes "_CRS"]) = some (templateValue [linkIrq x.2.2]) := by
      simp only [evaluate, (inMode_of_ne (m := mode) hne).trans (h.gsiLink hx).2]
    rw [← hgsi, ← htemplate]
    exact routeOf_of hprt hentry (h.find_link hcpus mode hpath (h.gsiLink hx).1) hcrs

end

/-- **Interrupt routing of the running system.** The body of a built DSDT is parsed
and loaded. After any history of method calls that return, with any arguments, every
pin of every slot has a route, and it is that of the last interrupt model that was
announced by `_PIC`. -/
theorem routing_after_history {config : PlatformConfig}
    (hids : ∀ device ∈ config.rootBusDevices, device.NulFreeId)
    (hdevfns : (config.rootBusDevices.map PciDeviceConfig.devfn).Nodup)
    (hfit : config.PackagesFit) {dsdt : Bytes} (hdsdt : buildDsdt config = .ok dsdt) :
    ∃ terms space, decodeTermList (dsdt.drop 36) = some terms ∧ loadBlock terms = some space ∧
      ∀ calls final, Runs dsdtWidth space calls final →
        ∀ slot < 32, ∀ pin < 4, ∀ fuel ≥ 5, routeOf fuel final slot pin =
          some (if picMode calls = 0 then [5, 10, 11] else [gsiOf slot pin]) := by
  have hcpus := (buildDsdt_eq_ok hdsdt).1
  obtain ⟨padLen, space, hparse, hload, hspace⟩ := loaded_of_buildDsdt hids hdevfns hfit hdsdt
  refine ⟨_, space, hparse, hload, fun calls final hruns slot hslot pin hpin fuel hfuel => ?_⟩
  obtain ⟨fuel, rfl⟩ := Nat.exists_eq_add_of_le hfuel
  rw [hspace.runs hcpus hruns, Nat.add_comm 5 fuel]
  exact hspace.routeOf_eq hcpus _ fuel hslot hpin

/-- The first pin of the disk in slot 2, once the global interrupts are announced. -/
theorem routing_after_history_twoDisks :
    ∃ dsdt terms space final, buildDsdt .twoDisks = .ok dsdt ∧
      decodeTermList (dsdt.drop 36) = some terms ∧ loadBlock terms = some space ∧
      Runs dsdtWidth space [(picPath, [.integer 1])] final ∧ routeOf 5 final 2 0 = some [20] := by
  obtain ⟨dsdt, hdsdt, hbody⟩ := buildDsdt_twoDisks
  have hfit := packagesFit_of_length hdsdt hbody
  obtain ⟨padLen, space, hparse, hload, hspace⟩ :=
    loaded_of_buildDsdt twoDisks_nulFreeIds (by decide) hfit hdsdt
  obtain ⟨terms, space', hterms, hspace', hroutes⟩ :=
    @routing_after_history .twoDisks twoDisks_nulFreeIds (by decide) hfit dsdt hdsdt
  obtain rfl := Option.some.inj (hterms.symm.trans hparse)
  obtain rfl := Option.some.inj (hspace'.symm.trans hload)
  have hcall := hspace.invoke_pic (by decide) 0 (.integer 1) 0
  rw [assign_inMode, hspace.inMode_zero] at hcall
  have hruns : Runs dsdtWidth space' [(picPath, [.integer 1])] (inMode space' 1) :=
    .cons ⟨4, hcall⟩ (.nil _)
  exact ⟨dsdt, _, space', _, hdsdt, hparse, hload, hruns,
    hroutes _ _ hruns 2 (by decide) 0 (by decide) 5 (by decide)⟩

end AcpiTables
