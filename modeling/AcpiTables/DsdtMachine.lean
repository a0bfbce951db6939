import AcpiTables.AmlMachine
import AcpiTables.Descriptors
import AcpiTables.DsdtPaths

/-!
# The interrupts of the running DSDT

The DSDT is not only read: the operating system tells it the interrupt model by
calling `_PIC`, and asks `_PRT` and the link devices where the interrupt of a slot
and a pin arrives. The body is loaded and run here. Whatever methods have been
called, with whatever arguments, the namespace is the loaded one but for the
number in `PICF`, and that is the argument of the last call of `_PIC`
(`Loaded.runs`).

Loading needs the names of `DsdtPaths` to be distinct (`loadBlock_bodyTrees`). Of
all the objects that are loaded only one method holds a `Store`
(`storeFree_bodyTrees`), so for any other method it is the rule on programs without
stores that keeps the namespace, and nothing has to be known of what they do. One
call is `Loaded.step`; a history of them follows by induction.
-/

namespace AcpiTables

open AmlTree (seg toTerm)

/-! ## Loading -/

/-- Integers of a table of revision 1 have 32 bits. -/
abbrev dsdtWidth : ℕ := 32

/-- Load the block of a table into the predefined namespace. -/
def loadBlock (terms : List Term) : Option Space :=
  load dsdtWidth (namespaceEvents terms) Space.predefined

/-- A path of the fixed names, of a device of the root bus or of a CPU. -/
theorem mem_treePaths_bodyTrees {config : PlatformConfig} {padLen : ℕ} {path : AbsPath}
    (hcpus : config.cpuApicIds.length ≤ 1000)
    (h : path ∈ treePaths [] (bodyTrees config padLen)) :
    path ∈ fixedPaths ∨ path ∈ pciPaths config ∨ path ∈ cpuPaths config := by
  have hhpet : hpetPaths config ⊆ treePaths sbScope [hpetTree] := by
    rw [hpetPaths]
    split
    · exact List.Subset.refl _
    · exact List.nil_subset _
  have hpad : padPaths padLen ⊆ treePaths [] [padTree 0] := by
    rw [padPaths, padTree, padTree, treePaths_seg _ (by decide)]
    split
    · rw [treePaths_seg _ (by decide)]
      exact List.Subset.refl _
    · exact List.nil_subset _
  rw [treePaths_bodyTrees hcpus] at h
  simp only [fixedPaths, List.mem_append] at h ⊢
  rcases h with (((h | h) | h) | h) | h | h
  · exact .inl (.inl (.inl h))
  · exact .inr (.inl h)
  · exact .inr (.inr h)
  · exact .inl (.inl (.inr (hhpet h)))
  · exact .inl (.inr (.inl h))
  · exact .inl (.inr (.inr (hpad h)))

/-- No body declares the path. -/
def NeverDeclared (path : AbsPath) : Prop :=
  path ∉ fixedPaths ∧ letterIn pci0Scope path ≠ some 0x53 ∧ letterIn sbScope path ≠ some 0x43

instance : DecidablePred NeverDeclared := fun _ => inferInstanceAs (Decidable (_ ∧ _ ∧ _))

/-- A path that is never declared is in no body. -/
theorem NeverDeclared.notMem {config : PlatformConfig} {padLen : ℕ} {path : AbsPath}
    (h : NeverDeclared path) (hcpus : config.cpuApicIds.length ≤ 1000) :
    path ∉ treePaths [] (bodyTrees config padLen) := by
  intro hmem
  rcases mem_treePaths_bodyTrees hcpus hmem with hmem | hmem | hmem
  · exact h.1 hmem
  · exact h.2.1 (letterIn_pciPaths hmem).1
  · exact h.2.2 (letterIn_cpuPaths hmem)

/-- A namespace that holds a body and nothing else. -/
structure Loaded (config : PlatformConfig) (padLen : ℕ) (space : Space) : Prop where
  bound : ∀ path t, .declares path t ∈ treeEvents [] (bodyTrees config padLen) →
    space path = some (.ofTerm dsdtWidth t)
  unbound : ∀ path ∉ treePaths [] (bodyTrees config padLen),
    space path = Space.predefined path

/-- What is opened is predefined or declared before: the other way round. -/
theorem scopesKnown_of_defined {events : List Event} {known : List AbsPath}
    (h : ∀ before path after, events = before ++ .opens path :: after →
      path ∈ known ∨ path ∈ declaredPaths before) : ScopesKnown known events := by
  induction events generalizing known with
  | nil => trivial
  | cons event events ih =>
    cases event with
    | declares path t =>
      refine ih fun before path' after heq => ?_
      rcases h (.declares path t :: before) path' after (by rw [heq]; rfl) with hmem | hmem
      · exact .inl (List.mem_cons_of_mem _ hmem)
      · rcases List.mem_cons.mp hmem with rfl | hmem
        · exact .inl (List.mem_cons_self ..)
        · exact .inr hmem
    | opens path =>
      refine ⟨(h [] path events rfl).resolve_right List.not_mem_nil,
        ih fun before path' after heq => ?_⟩
      exact h (.opens path :: before) path' after (by rw [heq]; rfl)

/-- The predefined namespace binds the predefined scopes and nothing else. -/
theorem isSome_predefined {path : AbsPath} :
    (Space.predefined path).isSome ↔ path ∈ predefinedScopes := by
  rw [Space.predefined]
  split_ifs with h <;> simp [h]

/-- **The body is loaded**: no name of it exists before, or twice. -/
theorem loadBlock_bodyTrees {config : PlatformConfig} (hcpus : config.cpuApicIds.length ≤ 1000)
    (hdevfns : ((config.pciDevices.filter PciDeviceConfig.isRootBusDevice).map
      PciDeviceConfig.devfn).Nodup) (padLen : ℕ) :
    ∃ space, loadBlock ((bodyTrees config padLen).map toTerm) = some space ∧
      Loaded config padLen space := by
  have hpredefined : ∀ path ∈ predefinedScopes, NeverDeclared path := by decide +kernel
  have hfresh : ∀ path ∈ treePaths [] (bodyTrees config padLen),
      Space.predefined path = none := by
    intro path hpath
    by_contra h
    exact (hpredefined path (isSome_predefined.mp (Option.isSome_iff_ne_none.mpr h))).notMem
      hcpus hpath
  obtain ⟨space, hload, hbound, hframe⟩ := load_eq_some dsdtWidth
    (nodup_treePaths_bodyTrees hcpus hdevfns padLen) hfresh
    (scopesKnown_of_defined (scopesDefined_bodyTrees hcpus padLen))
    fun path h => isSome_predefined.mpr h
  refine ⟨space, ?_, hbound, hframe⟩
  rw [loadBlock, namespaceEvents_map]
  exact hload

/-- **A built DSDT is loaded**, when no id of the root bus ends early, no two of its
devices have the same number, and every frame can be counted. -/
theorem loaded_of_buildDsdt {config : PlatformConfig}
    (hids : ∀ device ∈ config.rootBusDevices, device.NulFreeId)
    (hdevfns : (config.rootBusDevices.map PciDeviceConfig.devfn).Nodup)
    (hfit : config.PackagesFit) {dsdt : Bytes} (hdsdt : buildDsdt config = .ok dsdt) :
    ∃ padLen space, decodeTermList (dsdt.drop 36) = some ((bodyTrees config padLen).map toTerm) ∧
      loadBlock ((bodyTrees config padLen).map toTerm) = some space ∧
      Loaded config padLen space := by
  obtain ⟨padLen, hparse⟩ := decodeTermList_dsdtBody hids hfit hdsdt
  obtain ⟨space, hload, hspace⟩ := loadBlock_bodyTrees (buildDsdt_eq_ok hdsdt).1 hdevfns padLen
  exact ⟨padLen, space, hparse, hload, hspace⟩

/-! ## The methods of the body -/

/-- The path of the interrupt model. -/
def picfPath : AbsPath := [asBytes "PICF"]

/-- The path of the method that sets the interrupt model. -/
def picPath : AbsPath := [asBytes "_PIC"]

/-- The tree of the method that sets the interrupt model. -/
def picTree : AmlTree :=
  .method (.seg "_PIC") 1 false [.store (.path (.seg "PICF")) (.arg ⟨0⟩)]

/-- A PCI device stores nothing. -/
theorem storeFree_pciDevice (device : PciDeviceConfig) :
    (pciDeviceTree device).toTerm.avoids .store = true := by
  rw [pciDeviceTree]
  cases device.id <;> cases pciDeviceDescription device.driver <;>
    cases pciDeviceClass device.driver <;> rfl

/-- A CPU device stores nothing. -/
theorem storeFree_cpu (uid : ℕ) (apicId : UInt32) :
    (cpuTree uid apicId).toTerm.avoids .store = true := rfl

/-- The scope of the host bridge, the CPUs and the HPET stores nothing. -/
theorem storeFree_rootScope (config : PlatformConfig) :
    (rootScopeTree config).toTerm.avoids .store = true := by
  have hpci0 : (pci0Tree config).toTerm.avoids .store = true := by
    rw [pci0Tree, AmlTree.toTerm, AmlTree.toTerms_eq]
    refine avoids_node.mpr ⟨by decide, rfl, avoidsAll_map fun t ht => ?_⟩
    rcases List.mem_append.mp ht with ht | ht
    · simp only [List.mem_cons, List.not_mem_nil, or_false] at ht
      rcases ht with rfl | rfl | rfl | rfl <;> rfl
    · obtain ⟨device, -, rfl⟩ := List.mem_map.mp ht
      exact storeFree_pciDevice device
  rw [rootScopeTree, AmlTree.toTerm, AmlTree.toTerms_eq]
  refine avoids_node.mpr ⟨by decide, rfl, avoidsAll_map fun t ht => ?_⟩
  rcases List.mem_append.mp ht with ht | ht
  · rcases List.mem_cons.mp ht with rfl | ht
    · exact hpci0
    · obtain ⟨⟨apicId, uid⟩, -, rfl⟩ := List.mem_map.mp ht
      exact storeFree_cpu uid apicId
  · split at ht
    · obtain rfl := List.mem_singleton.mp ht
      rfl
    · cases ht

/-- **Of all objects of the body, only `_PIC` holds a `Store`.** -/
theorem storeFree_bodyTrees {config : PlatformConfig} {padLen : ℕ} {path : AbsPath} {u : Term}
    (h : .declares path u ∈ treeEvents [] (bodyTrees config padLen)) :
    path = picPath ∨ u.avoids .store = true := by
  have hfixed : ∀ t ∈ routingTrees ++ [sleepTree, gpeTree],
      t = picTree ∨ t.toTerm.avoids .store = true := by
    simp only [routingTrees, List.cons_append, List.nil_append, List.forall_mem_cons,
      List.not_mem_nil, false_implies, implies_true, and_true]
    exact ⟨.inr rfl, .inl rfl, .inr (by decide +kernel), .inr (by decide +kernel), .inr rfl,
      .inr rfl⟩
  obtain ⟨t, ht, hu⟩ := List.mem_flatMap.mp h
  have hcases : t = picTree ∨ t.toTerm.avoids .store = true := by
    rw [bodyTrees, List.cons_append, List.cons_append, List.mem_cons, List.mem_append] at ht
    rcases ht with rfl | ht | ht
    · exact .inr (storeFree_rootScope config)
    · exact hfixed t ht
    · split at ht
      · obtain rfl := List.mem_singleton.mp ht
        exact .inr rfl
      · cases ht
  rcases hcases with rfl | hfree
  · rw [picTree, events_methodTree [] (by decide)] at hu
    exact .inl (Event.declares.inj (List.mem_singleton.mp hu)).1
  · exact .inr (avoids_of_events hfree hu)

/-! ## The states it can reach -/

/-- A loaded namespace with a number in `PICF`. -/
def inMode (space : Space) (mode : ℕ) : Space :=
  Function.update space picfPath (some (.data (.integer mode)))

/-- The mode changes one path only. -/
theorem inMode_of_ne {space : Space} {m : ℕ} {path : AbsPath} (h : path ≠ picfPath) :
    inMode space m path = space path :=
  Function.update_of_ne h ..

/-- Assigning to the path of the mode sets the mode. -/
theorem assign_inMode (space : Space) (mode n : ℕ) :
    (inMode space mode).assign picfPath (.integer n) = some (inMode space n) := by
  simp [Space.assign, inMode]

/-- What a call makes of the number. -/
def nextMode (mode : ℕ) : Call → ℕ
  | (path, [.integer n]) => if path = picPath then n else mode
  | _ => mode

/-- The interrupt model after a history of calls. -/
def picMode (calls : List Call) : ℕ := calls.foldl nextMode 0

section

variable {config : PlatformConfig} {padLen : ℕ} {space : Space} (h : Loaded config padLen space)
include h

/-- The objects behind the first scope. -/
theorem Loaded.routing {path : AbsPath} {t : Term}
    (ht : .declares path t ∈ treeEvents [] (routingTrees ++ [sleepTree, gpeTree])) :
    space path = some (.ofTerm dsdtWidth t) := by
  refine h.bound path t ?_
  rw [bodyTrees, List.cons_append, List.cons_append, treeEvents_cons, treeEvents_append]
  exact List.mem_append_right _ (List.mem_append_left _ ht)

/-- The interrupt model is loaded as zero. -/
theorem Loaded.picf : space picfPath = some (.data (.integer 0)) :=
  h.routing (t := (seg "PICF" .zero).toTerm) (List.mem_of_getElem? (i := 0) rfl)

/-- The method that sets the interrupt model is loaded with its body. -/
theorem Loaded.pic :
    space picPath =
      some (.method 1 [.node .store [.arg 0, .ref ⟨false, 0, [asBytes "PICF"]⟩] []]) :=
  h.routing (t := picTree.toTerm) (List.mem_of_getElem? (i := 1) rfl)

/-- The loaded namespace is in mode zero. -/
theorem Loaded.inMode_zero : inMode space 0 = space := by
  rw [inMode, ← h.picf, Function.update_eq_self]

/-- What is never declared is free after loading. -/
theorem Loaded.free (hcpus : config.cpuApicIds.length ≤ 1000) {path : AbsPath}
    (hpath : NeverDeclared path) (hscope : path ∉ predefinedScopes) : space path = none := by
  rw [h.unbound path (hpath.notMem hcpus), Space.predefined, if_neg hscope]

/-- A method is one that the body declares. -/
theorem Loaded.declared_method {mode n : ℕ} {path : AbsPath} {body : List Term}
    (hpath : inMode space mode path = some (.method n body)) :
    ∃ name flags, .declares path (.node .method [name, .int flags] body) ∈
      treeEvents [] (bodyTrees config padLen) ∧ n = flags % 8 := by
  by_cases hpicf : path = picfPath
  · rw [hpicf, inMode, Function.update_self] at hpath
    cases hpath
  rw [inMode_of_ne hpicf] at hpath
  by_cases hmem : path ∈ treePaths [] (bodyTrees config padLen)
  · obtain ⟨event, hevent, heq⟩ := List.mem_filterMap.mp hmem
    cases event with
    | opens scope => cases heq
    | declares path' t =>
      obtain rfl := Option.some.inj heq
      have hobject := hpath.symm.trans (h.bound _ t hevent)
      obtain ⟨name, flags, rfl, hn⟩ := ofTerm_eq_method dsdtWidth (Option.some.inj hobject).symm
      exact ⟨name, flags, hevent, hn⟩
  · rw [h.unbound path hmem, Space.predefined] at hpath
    split_ifs at hpath
    cases hpath

/-- Only `_PIC` stores, in every mode. -/
theorem Loaded.storeFree_method {mode n : ℕ} {path : AbsPath} {body : List Term}
    (hpath : inMode space mode path = some (.method n body)) :
    path = picPath ∨ avoidsAll .store body = true := by
  obtain ⟨name, flags, hevent, -⟩ := h.declared_method hpath
  exact (storeFree_bodyTrees hevent).imp_right fun hfree => (avoids_node.mp hfree).2.2

/-- A call of `_PIC` writes its argument to `PICF`. -/
theorem Loaded.invoke_pic (hcpus : config.cpuApicIds.length ≤ 1000) (mode : ℕ) (v : Value)
    (fuel : ℕ) :
    invoke dsdtWidth (fuel + 4) (inMode space mode) picPath [v] =
      ((inMode space mode).assign picfPath v).map fun s => (s, none) := by
  have hbound : inMode space mode picfPath = some (.data (.integer mode)) :=
    Function.update_self ..
  have hinner : inMode space mode (picPath ++ [asBytes "PICF"]) = none := by
    rw [inMode_of_ne (by decide), h.free hcpus (by decide +kernel) (by decide)]
  have hfind : (inMode space mode).find picPath ⟨false, 0, [asBytes "PICF"]⟩ = some picfPath :=
    Space.find_seg 1 (by decide) rfl (by rw [hbound]; rfl) fun j hj => by
      obtain rfl : j = 0 := by omega
      exact hinner
  rw [invoke_method dsdtWidth ((inMode_of_ne (by decide)).trans h.pic) rfl]
  change execStep (evalStep dsdtWidth (eval dsdtWidth (fuel + 1)) _) _ _ _ _ = _
  have harg : eval dsdtWidth (fuel + 1) (inMode space mode) ⟨picPath, [v]⟩ (.arg 0) =
    some (inMode space mode, v) := rfl
  simp only [execStep, evalStep, harg, hfind, Option.bind_eq_bind, Option.bind_some]
  cases (inMode space mode).assign picfPath v <;> rfl

/-- **One call**: whatever is called, only the number in `PICF` can change, and
only by `_PIC`. -/
theorem Loaded.step (hcpus : config.cpuApicIds.length ≤ 1000) {mode : ℕ} {call : Call}
    {r : Space × Option Value} (hcall : Calls dsdtWidth (inMode space mode) call.1 call.2 r) :
    r.1 = inMode space (nextMode mode call) := by
  obtain ⟨path, args⟩ := call
  obtain ⟨fuel, hr⟩ : Calls dsdtWidth (inMode space mode) path args r := hcall
  obtain ⟨body, hbody⟩ := method_of_invoke dsdtWidth hr
  by_cases hpath : path = picPath
  · subst hpath
    have hmethod := hbody.symm.trans ((inMode_of_ne (by decide)).trans h.pic)
    obtain ⟨v, rfl⟩ := List.length_eq_one_iff.mp (Object.method.inj (Option.some.inj hmethod)).1
    have hmore := invoke_mono dsdtWidth (Nat.le_add_right fuel 4) _ _ _ _ hr
    rw [h.invoke_pic hcpus] at hmore
    obtain ⟨space', hassign, rfl⟩ := Option.map_eq_some_iff.mp hmore
    cases v with
    | integer n =>
      rw [assign_inMode] at hassign
      exact (Option.some.inj hassign).symm
    | _ => cases hassign
  · have hnext : nextMode mode (path, args) = mode := by
      unfold nextMode
      split
      · next heq => exact if_neg fun hpic => hpath ((Prod.mk.inj heq).1.trans hpic)
      · rfl
    rw [hnext]
    refine (space_unchanged dsdtWidth (fun path' body' hbody' => ?_) fuel).2.2 _ _ _ _ _ hbody
      ((h.storeFree_method hbody).resolve_left hpath) hr
    -- `_PIC` takes an argument
    refine (h.storeFree_method hbody').resolve_left fun hpic => ?_
    subst hpic
    have hmethod := hbody'.symm.trans ((inMode_of_ne (by decide)).trans h.pic)
    exact absurd (Object.method.inj (Option.some.inj hmethod)).1 (by decide)

/-- **All histories**: after any calls of any methods, the namespace is the loaded
one, with the last argument of `_PIC` in `PICF`. -/
theorem Loaded.runs (hcpus : config.cpuApicIds.length ≤ 1000) {calls : List Call} {final : Space}
    (hruns : Runs dsdtWidth space calls final) : final = inMode space (picMode calls) :=
  Runs.simulates dsdtWidth (R := fun mode space' => space' = inMode space mode)
    (fun _ _ _ _ hrel hcall => h.step hcpus (hrel ▸ hcall)) h.inMode_zero.symm hruns

end

end AcpiTables
