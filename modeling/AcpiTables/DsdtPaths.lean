import AcpiTables.DsdtFrames
import AcpiTables.DsdtParse

/-!
# The names of the DSDT do not collide

Every object of the body under its absolute path. There are three families: the
devices of the root bus, `\_SB_.PCI0.Sxx_`, the CPUs, `\_SB_.Cxxx`, and all other
names, which are fixed. The families are told apart by a letter at a fixed depth
(`letterIn_pciPaths`, `letterIn_cpuPaths`); within a family the names are distinct
because the device numbers, and the indices of the CPUs, are.

* `treePaths_bodyTrees` lists what the body declares, in order. The scopes that are
  opened more than once are one scope here, as for an operating system;
* `nodup_treePaths_bodyTrees` puts the families together. The fixed names are one
  list with the HPET and the padding in it, which is evaluated (`nodup_fixedPaths`);
* `scopesDefined_bodyTrees`: a scope is opened only where it is predefined or
  declared before. Most trees only declare (`OnlyDeclares`).

All this is about trees. It carries over to the bytes, `buildDsdt_names`, when every
frame of the body can be counted; where one cannot, names may collide.
-/

universe u

namespace AcpiTables

open AmlTree (seg toTerm)

/-! ## Paths of trees -/

/-- The absolute paths that trees declare. -/
def treePaths (scope : AbsPath) (ts : List AmlTree) : List AbsPath :=
  declaredPaths (treeEvents scope ts)

section

variable (scope : AbsPath)

/-- A list of trees declares what its two parts declare. -/
theorem treePaths_append (ts us : List AmlTree) :
    treePaths scope (ts ++ us) = treePaths scope ts ++ treePaths scope us := by
  rw [treePaths, treeEvents_append, declaredPaths_append]
  rfl

/-- A list of trees declares what its first tree and the others declare. -/
theorem treePaths_cons (t : AmlTree) (ts : List AmlTree) :
    treePaths scope (t :: ts) = treePaths scope [t] ++ treePaths scope ts :=
  treePaths_append scope [t] ts

/-- The trees that are made from a list declare, in order, what each of them
declares. -/
theorem treePaths_map {α : Type u} (l : List α) (f : α → AmlTree) :
    treePaths scope (l.map f) = l.flatMap fun a => treePaths scope [f a] := by
  rw [treePaths, treeEvents, List.flatMap_map, declaredPaths_flatMap]
  exact List.flatMap_congr fun a _ => by simp [treePaths, treeEvents]

/-- A named object declares its name and nothing else. -/
theorem treePaths_seg {name : String} (h : (asBytes name).length = 4) (inner : AmlTree) :
    treePaths scope [seg name inner] = [scope ++ [asBytes name]] := by
  rw [treePaths, treeEvents_cons, events_seg scope inner h]
  rfl

/-- The paths of a list of trees that starts with a named object. -/
theorem treePaths_seg_cons {name : String} (h : (asBytes name).length = 4) (inner : AmlTree)
    (ts : List AmlTree) :
    treePaths scope (seg name inner :: ts) = (scope ++ [asBytes name]) :: treePaths scope ts := by
  rw [treePaths_cons, treePaths_seg scope h]
  rfl

/-- A method declares its name. What its body declares is there only while it runs. -/
theorem treePaths_method {name : String} (h : (asBytes name).length = 4) {args : UInt8}
    {serialized : Bool} {ts : List AmlTree} :
    treePaths scope [.method (.seg name) args serialized ts] = [scope ++ [asBytes name]] := by
  rw [treePaths, treeEvents_cons, events_methodTree scope h]
  rfl

/-- A device declares its name, and its children inside it. -/
theorem treePaths_device {name : String} (h : (asBytes name).length = 4) (ts : List AmlTree) :
    treePaths scope [.device (.seg name) ts] =
      (scope ++ [asBytes name]) :: treePaths (scope ++ [asBytes name]) ts := by
  rw [treePaths, treeEvents_cons, events_deviceTree scope h, declaredPaths_append]
  exact List.append_nil _

/-- A scope declares its children inside the scope that its path resolves to. -/
theorem treePaths_scope (path : Path) (ts : List AmlTree) :
    treePaths scope [.scope path ts] = treePaths (path.nameString.resolve scope) ts := by
  rw [treePaths, treeEvents_cons, events_scopeTree, declaredPaths_append]
  exact List.append_nil _

/-- An optional text declares its name when there is a text. -/
theorem treePaths_text {name : String} (h : (asBytes name).length = 4) (value : Option String) :
    treePaths scope (value.map fun text => seg name (.string text)).toList =
      (value.map fun _ => asBytes name).toList.map fun k => scope ++ [k] := by
  cases value with
  | none => rfl
  | some text => exact treePaths_seg scope h _

end

/-! ## The three families -/

/-- The names that a device of the root bus declares. -/
def pciNames (device : PciDeviceConfig) : List Bytes :=
  [asBytes "_ADR", asBytes "_STA", asBytes "_SUN", asBytes "_UID"] ++
    (device.id.map fun _ => asBytes "_DDN").toList ++
    ((pciDeviceDescription device.driver).map fun _ => asBytes "_STR").toList ++
    ((pciDeviceClass device.driver).map fun _ => asBytes "CLSS").toList

/-- A PCI device does not declare a name twice. -/
theorem nodup_pciNames (device : PciDeviceConfig) : (pciNames device).Nodup := by
  have hfull : ([asBytes "_ADR", asBytes "_STA", asBytes "_SUN", asBytes "_UID"] ++
    [asBytes "_DDN"] ++ [asBytes "_STR"] ++ [asBytes "CLSS"]).Nodup := by decide
  have hopt : ∀ (value : Option String) (k : Bytes),
      (value.map fun _ => k).toList.Sublist [k] := by
    intro value k
    cases value <;> simp
  exact hfull.sublist
    ((((List.Sublist.refl _).append (hopt _ _)).append (hopt _ _)).append (hopt _ _))

/-- A PCI device declares its name and its members. -/
theorem treePaths_pciDevice (scope : AbsPath) (device : PciDeviceConfig) :
    treePaths scope [pciDeviceTree device] =
      memberPaths scope (asBytes (pciDeviceName device.devfn)) (pciNames device) := by
  rw [pciDeviceTree, treePaths_device scope (isSegName_pciDeviceName _).1, treePaths_append,
    treePaths_append, treePaths_append, treePaths_seg_cons _ (by decide),
    treePaths_seg_cons _ (by decide), treePaths_seg_cons _ (by decide),
    treePaths_seg _ (by decide), treePaths_text _ (by decide), treePaths_text _ (by decide),
    treePaths_text _ (by decide)]
  simp [memberPaths, pciNames]

/-- The names that a CPU device declares. -/
def cpuNames : List Bytes := [asBytes "_HID", asBytes "_UID", asBytes "_STA", asBytes "_MAT"]

/-- A CPU device declares its name and its members. -/
theorem treePaths_cpu (scope : AbsPath) {uid : ℕ} (apicId : UInt32) (h : uid < 1000) :
    treePaths scope [cpuTree uid apicId] =
      memberPaths scope (asBytes (cpuDeviceName uid)) cpuNames := by
  rw [cpuTree, treePaths_device scope ((isSegName_cpuDeviceName uid).mpr h).1,
    treePaths_seg_cons _ (by decide), treePaths_seg_cons _ (by decide),
    treePaths_seg_cons _ (by decide), treePaths_seg _ (by decide)]
  simp [memberPaths, cpuNames]

/-! ### Distinct names -/

/-- ASCII texts with the same bytes are the same. -/
theorem map_toNat_inj {l l' : List Char} (h : ∀ c ∈ l, c.toNat < 128)
    (h' : ∀ c ∈ l', c.toNat < 128)
    (heq : l.map (fun c => UInt8.ofNat c.toNat) = l'.map fun c => UInt8.ofNat c.toNat) :
    l = l' := by
  have hback : ∀ l : List Char, (∀ c ∈ l, c.toNat < 128) →
      (l.map fun c => UInt8.ofNat c.toNat).map (fun b => Char.ofNat b.toNat) = l := by
    intro l hl
    rw [List.map_map]
    refine (List.map_congr_left fun c hc => ?_).trans (List.map_id l)
    have hlt := hl c hc
    have hmod : c.toNat % 256 = c.toNat := Nat.mod_eq_of_lt (by omega)
    simp [UInt8.toNat_ofNat', hmod]
  rw [← hback l h, heq, hback l' h']

/-- Different CPUs have different digits, also behind the thousandth. -/
theorem cpuDigits_inj {uid uid' : ℕ} (h : cpuDigits uid = cpuDigits uid') : uid = uid' := by
  have hvalue : ∀ n, Nat.ofDigitChars 10 (cpuDigits n) 0 = n := by
    intro n
    rw [cpuDigits, Nat.ofDigitChars_append, Nat.ofDigitChars_replicate_zero, Nat.mul_zero,
      Nat.ofDigitChars_ten_toDigits]
  rw [← hvalue uid, h, hvalue uid']

/-- CPUs have distinct names. -/
theorem cpuDeviceName_inj {uid uid' : ℕ}
    (h : asBytes (cpuDeviceName uid) = asBytes (cpuDeviceName uid')) : uid = uid' := by
  rw [asBytes_cpuDeviceName, asBytes_cpuDeviceName] at h
  exact cpuDigits_inj (map_toNat_inj (fun c hc => (cpuDigits_ascii hc).1)
    (fun c hc => (cpuDigits_ascii hc).1) (List.cons.inj h).2)

/-- Devices with distinct numbers have distinct names. -/
theorem pciDeviceName_inj {devfn devfn' : UInt8}
    (h : asBytes (pciDeviceName devfn) = asBytes (pciDeviceName devfn')) : devfn = devfn' := by
  have hdigit : ∀ m < 16, ∀ n < 16,
      UInt8.ofNat (hexDigit m).toNat = UInt8.ofNat (hexDigit n).toNat → m = n := by decide
  have hlt := devfn.toNat_lt
  have hlt' := devfn'.toNat_lt
  rw [asBytes_pciDeviceName, asBytes_pciDeviceName] at h
  obtain ⟨-, hhi, hlo, -⟩ : _ ∧ _ ∧ _ ∧ _ := by simpa only [List.cons.injEq] using h
  have hhi := hdigit _ (by omega) _ (by omega) hhi
  have hlo := hdigit _ (by omega) _ (by omega) hlo
  exact UInt8.toNat_inj.mp (by omega)

/-! ## The paths of the body -/

/-- The devices of the root bus and their members. -/
def pciPaths (config : PlatformConfig) : List AbsPath :=
  (config.pciDevices.filter PciDeviceConfig.isRootBusDevice).flatMap fun device =>
    memberPaths pci0Scope (asBytes (pciDeviceName device.devfn)) (pciNames device)

/-- The CPU devices and their members. -/
def cpuPaths (config : PlatformConfig) : List AbsPath :=
  config.cpuApicIds.zipIdx.flatMap fun x =>
    memberPaths sbScope (asBytes (cpuDeviceName x.2)) cpuNames

/-- The host bridge itself and its own names. -/
def pci0Names : List AbsPath :=
  memberPaths sbScope (asBytes "PCI0")
    [asBytes "_HID", asBytes "_CID", asBytes "_UID", asBytes "_OSC"]

/-- The HPET, when there is one. -/
def hpetPaths (config : PlatformConfig) : List AbsPath :=
  treePaths sbScope (if config.hasHpet then [hpetTree] else [])

/-- The padding, when there is some. -/
def padPaths (padLen : ℕ) : List AbsPath :=
  treePaths [] (if 0 < padLen then [padTree padLen] else [])

/-- The names that no configuration changes. -/
def routingPaths : List AbsPath := treePaths [] (routingTrees ++ [sleepTree, gpeTree])

/-- The host bridge declares its own names and the devices of the root bus. -/
theorem treePaths_pci0 (config : PlatformConfig) :
    treePaths sbScope [pci0Tree config] = pci0Names ++ pciPaths config := by
  have hdevices : treePaths pci0Scope
      ((config.pciDevices.filter PciDeviceConfig.isRootBusDevice).map pciDeviceTree) =
        pciPaths config := by
    rw [treePaths_map, pciPaths]
    exact List.flatMap_congr fun device _ => treePaths_pciDevice pci0Scope device
  rw [pci0Tree, treePaths_device sbScope (by decide), List.cons_append, List.cons_append,
    List.cons_append, List.cons_append, treePaths_seg_cons _ (by decide),
    treePaths_seg_cons _ (by decide), treePaths_seg_cons _ (by decide), treePaths_cons,
    treePaths_method _ (by decide)]
  rw [pci0Names, ← hdevices]
  rfl

/-- The CPUs' trees declare their paths. -/
theorem treePaths_cpus {config : PlatformConfig} (hcpus : config.cpuApicIds.length ≤ 1000) :
    treePaths sbScope (cpuTrees config) = cpuPaths config := by
  rw [cpuTrees, treePaths_map, cpuPaths]
  refine List.flatMap_congr ?_
  rintro ⟨apicId, uid⟩ hmem
  have hlt := List.snd_lt_of_mem_zipIdx hmem
  exact treePaths_cpu sbScope apicId (by omega)

/-- What the whole body declares, in order. -/
theorem treePaths_bodyTrees {config : PlatformConfig} (hcpus : config.cpuApicIds.length ≤ 1000)
    (padLen : ℕ) :
    treePaths [] (bodyTrees config padLen) =
      pci0Names ++ pciPaths config ++ cpuPaths config ++ hpetPaths config ++
        (routingPaths ++ padPaths padLen) := by
  have hroot : treePaths [] [rootScopeTree config] =
      pci0Names ++ pciPaths config ++ cpuPaths config ++ hpetPaths config := by
    rw [rootScopeTree, treePaths_scope]
    change treePaths sbScope _ = _
    rw [treePaths_append, treePaths_cons, treePaths_pci0, treePaths_cpus hcpus, hpetPaths]
  rw [bodyTrees, List.cons_append, List.cons_append, treePaths_cons, hroot, treePaths_append]
  rfl

/-! ### Families -/

/-- The first letter of the name that a path has directly below a scope. -/
def letterIn (scope path : AbsPath) : Option UInt8 :=
  if path.take scope.length = scope then (path.drop scope.length).head?.bind List.head? else none

/-- The letter of a path that goes through a name of the scope. -/
theorem letterIn_of_start {scope path : AbsPath} {seg : Bytes} (h : scope ++ [seg] <+: path) :
    letterIn scope path = seg.head? := by
  obtain ⟨rest, rfl⟩ := h
  simp [letterIn]

/-- Devices of the root bus are the names with S below the host bridge, and stand
below a name with P in the scope of the host bridge. -/
theorem letterIn_pciPaths {config : PlatformConfig} {path : AbsPath} (h : path ∈ pciPaths config) :
    letterIn pci0Scope path = some 0x53 ∧ letterIn sbScope path = some 0x50 := by
  obtain ⟨device, -, hpath⟩ := List.mem_flatMap.mp h
  have hpre := prefix_of_mem_memberPaths hpath
  refine ⟨?_, ?_⟩
  · rw [letterIn_of_start hpre, asBytes_pciDeviceName]
    rfl
  · have hpci0 : sbScope ++ [asBytes "PCI0"] <+: path := (List.prefix_append _ _).trans hpre
    rw [letterIn_of_start hpci0]
    decide

/-- CPUs are names with C in the scope of the host bridge. -/
theorem letterIn_cpuPaths {config : PlatformConfig} {path : AbsPath} (h : path ∈ cpuPaths config) :
    letterIn sbScope path = some 0x43 := by
  obtain ⟨x, -, hpath⟩ := List.mem_flatMap.mp h
  rw [letterIn_of_start (prefix_of_mem_memberPaths hpath), asBytes_cpuDeviceName]
  rfl

/-- All names but those of the devices of the root bus and of the CPUs. -/
def fixedPaths : List AbsPath :=
  pci0Names ++ treePaths sbScope [hpetTree] ++ (routingPaths ++ treePaths [] [padTree 0])

/-- No name that all configurations share is declared twice. -/
theorem nodup_fixedPaths : fixedPaths.Nodup := by
  -- numbers are compared faster than lists of bytes
  have hnumbers : (fixedPaths.map fun path => leValue path.flatten).Nodup := by decide +kernel
  exact hnumbers.of_map

/-- No name that all configurations share looks like a device of the root bus or
like a CPU. -/
theorem letterIn_fixedPaths {path : AbsPath} (h : path ∈ fixedPaths) :
    letterIn pci0Scope path ≠ some 0x53 ∧ letterIn sbScope path ≠ some 0x43 := by
  have hall : fixedPaths.all (fun path =>
      letterIn pci0Scope path != some 0x53 && letterIn sbScope path != some 0x43) = true := by
    decide +kernel
  simpa using List.all_eq_true.mp hall path h

/-- Devices of the root bus with distinct devfns have distinct names, and so have
their members. -/
theorem nodup_pciPaths {config : PlatformConfig}
    (h : ((config.pciDevices.filter PciDeviceConfig.isRootBusDevice).map
      PciDeviceConfig.devfn).Nodup) : (pciPaths config).Nodup := by
  refine nodup_flatMap_memberPaths ?_ fun device _ => nodup_pciNames device
  exact (List.pairwise_map.mp h).imp fun hne heq => hne (pciDeviceName_inj heq)

/-- CPUs and their members have distinct names. -/
theorem nodup_cpuPaths (config : PlatformConfig) : (cpuPaths config).Nodup := by
  have hidx : (config.cpuApicIds.zipIdx.map Prod.snd).Nodup := by
    rw [List.zipIdx_map_snd]
    exact List.nodup_range'
  refine nodup_flatMap_memberPaths ?_ fun x _ => by decide
  exact (List.pairwise_map.mp hidx).imp fun hne heq => hne (cpuDeviceName_inj heq)

/-- **No two objects of the body have one name.** -/
theorem nodup_treePaths_bodyTrees {config : PlatformConfig}
    (hcpus : config.cpuApicIds.length ≤ 1000)
    (hdevfns : ((config.pciDevices.filter PciDeviceConfig.isRootBusDevice).map
      PciDeviceConfig.devfn).Nodup) (padLen : ℕ) :
    (treePaths [] (bodyTrees config padLen)).Nodup := by
  set rest := pci0Names ++ hpetPaths config ++ (routingPaths ++ padPaths padLen) with hrest
  have hsub : rest.Sublist fixedPaths := by
    have hhpet : (hpetPaths config).Sublist (treePaths sbScope [hpetTree]) := by
      rw [hpetPaths]
      split
      · exact List.Sublist.refl _
      · exact List.nil_sublist _
    have hpad : (padPaths padLen).Sublist (treePaths [] [padTree 0]) := by
      rw [padPaths, padTree, padTree, treePaths_seg _ (by decide)]
      split
      · rw [treePaths_seg _ (by decide)]
      · exact List.nil_sublist _
    exact ((List.Sublist.refl _).append hhpet).append ((List.Sublist.refl _).append hpad)
  have hperm : (treePaths [] (bodyTrees config padLen)).Perm
      (pciPaths config ++ (cpuPaths config ++ rest)) := by
    rw [treePaths_bodyTrees hcpus, hrest, List.perm_iff_count]
    intro path
    simp only [List.count_append]
    omega
  rw [hperm.nodup_iff]
  refine (nodup_pciPaths hdevfns).append ((nodup_cpuPaths config).append
    (nodup_fixedPaths.sublist hsub) ?_) ?_
  · intro path hcpu hfixed
    exact (letterIn_fixedPaths (hsub.subset hfixed)).2 (letterIn_cpuPaths hcpu)
  · intro path hpci hother
    obtain ⟨hslot, hbridge⟩ := letterIn_pciPaths hpci
    rcases List.mem_append.mp hother with hcpu | hfixed
    · have := hbridge.symm.trans (letterIn_cpuPaths hcpu)
      exact absurd this (by decide)
    · exact (letterIn_fixedPaths (hsub.subset hfixed)).1 hslot

/-! ## Scopes -/

/-- A tree that declares objects and opens no scope. -/
def OnlyDeclares (t : AmlTree) : Prop :=
  ∀ scope, ∀ event ∈ t.toTerm.events scope, ∃ path object, event = .declares path object

section

variable {name : String} (h : (asBytes name).length = 4)
include h

/-- A named object opens no scope. -/
theorem onlyDeclares_seg (inner : AmlTree) : OnlyDeclares (seg name inner) := by
  intro scope event hevent
  rw [events_seg scope inner h] at hevent
  exact ⟨_, _, List.mem_singleton.mp hevent⟩

/-- A method opens no scope. -/
theorem onlyDeclares_method (args : UInt8) (serialized : Bool) (ts : List AmlTree) :
    OnlyDeclares (.method (.seg name) args serialized ts) := by
  intro scope event hevent
  rw [events_methodTree scope h] at hevent
  exact ⟨_, _, List.mem_singleton.mp hevent⟩

/-- A device opens no scope when its children open none. -/
theorem onlyDeclares_device {ts : List AmlTree} (hts : ∀ t ∈ ts, OnlyDeclares t) :
    OnlyDeclares (.device (.seg name) ts) := by
  intro scope event hevent
  rw [events_deviceTree scope h] at hevent
  rcases List.mem_cons.mp hevent with rfl | hevent
  · exact ⟨_, _, rfl⟩
  · obtain ⟨t, ht, hevent⟩ := List.mem_flatMap.mp hevent
    exact hts t ht _ event hevent

/-- An optional text opens no scope. -/
theorem onlyDeclares_text (value : Option String) :
    ∀ t ∈ (value.map fun text => seg name (.string text)).toList, OnlyDeclares t := by
  cases value with
  | none => simp
  | some text => exact List.forall_mem_singleton.mpr (onlyDeclares_seg h _)

end

/-- Trees that only declare objects need no scope to be known before. -/
theorem scopesKnown_trees {known : List AbsPath} {scope : AbsPath} {ts : List AmlTree}
    (h : ∀ t ∈ ts, OnlyDeclares t) : ScopesKnown known (treeEvents scope ts) := by
  refine scopesKnown_of_declares fun event hevent => ?_
  obtain ⟨t, ht, hevent⟩ := List.mem_flatMap.mp hevent
  exact h t ht scope event hevent

/-- A PCI device opens no scope. -/
theorem onlyDeclares_pciDevice (device : PciDeviceConfig) :
    OnlyDeclares (pciDeviceTree device) := by
  refine onlyDeclares_device (isSegName_pciDeviceName _).1 ?_
  simp only [List.forall_mem_append, List.forall_mem_cons, List.not_mem_nil, false_implies,
    implies_true, and_true]
  exact ⟨⟨⟨⟨onlyDeclares_seg (by decide) _, onlyDeclares_seg (by decide) _,
    onlyDeclares_seg (by decide) _, onlyDeclares_seg (by decide) _⟩,
    onlyDeclares_text (by decide) _⟩, onlyDeclares_text (by decide) _⟩,
    onlyDeclares_text (by decide) _⟩

/-- The host bridge opens no scope. -/
theorem onlyDeclares_pci0 (config : PlatformConfig) : OnlyDeclares (pci0Tree config) := by
  refine onlyDeclares_device (by decide) ?_
  simp only [List.forall_mem_append, List.forall_mem_cons, List.not_mem_nil, false_implies,
    implies_true, and_true]
  refine ⟨⟨onlyDeclares_seg (by decide) _, onlyDeclares_seg (by decide) _,
    onlyDeclares_seg (by decide) _, onlyDeclares_method (by decide) _ _ _⟩, ?_⟩
  intro t ht
  obtain ⟨device, -, rfl⟩ := List.mem_map.mp ht
  exact onlyDeclares_pciDevice device

/-- A CPU device opens no scope. -/
theorem onlyDeclares_cpu {uid : ℕ} (apicId : UInt32) (h : uid < 1000) :
    OnlyDeclares (cpuTree uid apicId) := by
  refine onlyDeclares_device ((isSegName_cpuDeviceName uid).mpr h).1 ?_
  simp only [List.forall_mem_cons, List.not_mem_nil, false_implies, implies_true, and_true]
  exact ⟨onlyDeclares_seg (by decide) _, onlyDeclares_seg (by decide) _,
    onlyDeclares_seg (by decide) _, onlyDeclares_seg (by decide) _⟩

/-- The HPET opens no scope. -/
theorem onlyDeclares_hpet : OnlyDeclares hpetTree := by
  refine onlyDeclares_device (by decide) ?_
  simp only [List.forall_mem_cons, List.not_mem_nil, false_implies, implies_true, and_true]
  exact ⟨onlyDeclares_seg (by decide) _, onlyDeclares_seg (by decide) _,
    onlyDeclares_seg (by decide) _, onlyDeclares_seg (by decide) _⟩

/-- The link devices open no scope. -/
theorem onlyDeclares_linkTrees : ∀ t ∈ linkTrees, OnlyDeclares t := by
  intro t ht
  rcases List.mem_append.mp ht with ht | ht
  · obtain ⟨⟨name, uid, irqName⟩, hmem, ht⟩ := List.mem_flatMap.mp ht
    obtain ⟨hname, hirq, -⟩ := linkDevices_isSegName _ hmem
    rcases List.mem_cons.mp ht with rfl | ht
    · exact onlyDeclares_seg hirq.1 _
    · obtain rfl := List.mem_singleton.mp ht
      refine onlyDeclares_device hname.1 ?_
      simp only [List.forall_mem_cons, List.not_mem_nil, false_implies, implies_true, and_true]
      exact ⟨onlyDeclares_seg (by decide) _, onlyDeclares_seg (by decide) _,
        onlyDeclares_seg (by decide) _, onlyDeclares_method (by decide) _ _ _,
        onlyDeclares_method (by decide) _ _ _, onlyDeclares_method (by decide) _ _ _,
        onlyDeclares_method (by decide) _ _ _⟩
  · obtain ⟨⟨name, uid, irq⟩, hmem, rfl⟩ := List.mem_map.mp ht
    refine onlyDeclares_device (gsiLinkDevices_isSegName _ hmem).1 ?_
    simp only [List.forall_mem_cons, List.not_mem_nil, false_implies, implies_true, and_true]
    exact ⟨onlyDeclares_seg (by decide) _, onlyDeclares_seg (by decide) _,
      onlyDeclares_seg (by decide) _, onlyDeclares_seg (by decide) _,
      onlyDeclares_method (by decide) _ _ _, onlyDeclares_method (by decide) _ _ _⟩

/-- A scope that is known, around declarations. -/
theorem scopesKnown_scope {known : List AbsPath} {scope : AbsPath} {path : Path}
    {ts : List AmlTree} (hknown : path.nameString.resolve scope ∈ known)
    (hts : ∀ t ∈ ts, OnlyDeclares t) : ScopesKnown known (treeEvents scope [.scope path ts]) := by
  rw [treeEvents_cons, events_scopeTree, List.cons_append]
  exact ⟨hknown, (scopesKnown_trees hts).append trivial⟩

/-- The first scope is predefined. -/
theorem scopesKnown_rootScope {config : PlatformConfig} (hcpus : config.cpuApicIds.length ≤ 1000) :
    ScopesKnown predefinedScopes (treeEvents [] [rootScopeTree config]) := by
  refine scopesKnown_scope (by decide) ?_
  intro t ht
  rcases List.mem_append.mp ht with ht | ht
  · rcases List.mem_cons.mp ht with rfl | ht
    · exact onlyDeclares_pci0 config
    · obtain ⟨⟨apicId, uid⟩, hmem, rfl⟩ := List.mem_map.mp ht
      have hlt := List.snd_lt_of_mem_zipIdx hmem
      exact onlyDeclares_cpu apicId (by omega)
  · split at ht
    · obtain rfl := List.mem_singleton.mp ht
      exact onlyDeclares_hpet
    · simp at ht

/-- The host bridge is declared in the first scope. -/
theorem pci0Scope_mem_treePaths (config : PlatformConfig) :
    pci0Scope ∈ treePaths [] [rootScopeTree config] := by
  rw [rootScopeTree, treePaths_scope, List.cons_append, treePaths_cons, pci0Tree,
    treePaths_device _ (by decide)]
  exact List.mem_append_left _ (List.mem_cons_self ..)

/-- The scopes behind the first one: they need the host bridge. -/
theorem scopesKnown_routing {known : List AbsPath} (hpre : predefinedScopes ⊆ known)
    (hpci0 : pci0Scope ∈ known) :
    ScopesKnown known (treeEvents [] (routingTrees ++ [sleepTree, gpeTree])) := by
  have hprt : ∀ t ∈ [seg "PRTP" (prtTree "LNK"), seg "PRTA" (prtTree "GSI"),
      .method (.seg "_PRT") 0 false
        [.ifTree (.compare .equal (.path (.seg "PICF")) .zero)
            [.onObject .return_ (.path (.seg "PRTP"))],
          .elseTree [.onObject .return_ (.path (.seg "PRTA"))]]], OnlyDeclares t := by
    simp only [List.forall_mem_cons, List.not_mem_nil, false_implies, implies_true, and_true]
    exact ⟨onlyDeclares_seg (by decide) _, onlyDeclares_seg (by decide) _,
      onlyDeclares_method (by decide) _ _ _⟩
  have hfront : ∀ t ∈ [seg "PICF" .zero,
      .method (.seg "_PIC") 1 false [.store (.path (.seg "PICF")) (.arg ⟨0⟩)]],
      OnlyDeclares t := by
    simp only [List.forall_mem_cons, List.not_mem_nil, false_implies, implies_true, and_true]
    exact ⟨onlyDeclares_seg (by decide) _, onlyDeclares_method (by decide) _ _ _⟩
  have hsleep : ∀ t ∈ [sleepTree], OnlyDeclares t :=
    List.forall_mem_singleton.mpr (onlyDeclares_seg (by decide) _)
  have hgpe : ∀ t ∈ [seg "_HID" (.string "ACPI0006")], OnlyDeclares t :=
    List.forall_mem_singleton.mpr (onlyDeclares_seg (by decide) _)
  have hsplit : routingTrees ++ [sleepTree, gpeTree] =
      [seg "PICF" .zero,
        .method (.seg "_PIC") 1 false [.store (.path (.seg "PICF")) (.arg ⟨0⟩)]] ++
      ([.scope pci0Path [seg "PRTP" (prtTree "LNK"), seg "PRTA" (prtTree "GSI"),
        .method (.seg "_PRT") 0 false
          [.ifTree (.compare .equal (.path (.seg "PICF")) .zero)
              [.onObject .return_ (.path (.seg "PRTP"))],
            .elseTree [.onObject .return_ (.path (.seg "PRTA"))]]]] ++
      ([.scope sbPath linkTrees] ++ ([sleepTree] ++ [gpeTree]))) := rfl
  rw [hsplit, treeEvents_append, treeEvents_append, treeEvents_append, treeEvents_append]
  -- what is known only grows, by what each piece declares
  refine (scopesKnown_trees hfront).append (.append ?_ (.append ?_
    (.append (scopesKnown_trees hsleep) ?_)))
  · exact scopesKnown_scope (List.mem_append_right _ hpci0) hprt
  · refine scopesKnown_scope ?_ onlyDeclares_linkTrees
    exact List.mem_append_right _ (List.mem_append_right _ (hpre (by decide)))
  · refine scopesKnown_scope ?_ hgpe
    exact List.mem_append_right _ (List.mem_append_right _
      (List.mem_append_right _ (List.mem_append_right _ (hpre (by decide)))))

/-- **Every scope of the body exists when it is opened.** -/
theorem scopesDefined_bodyTrees {config : PlatformConfig}
    (hcpus : config.cpuApicIds.length ≤ 1000) (padLen : ℕ) :
    ScopesDefined (treeEvents [] (bodyTrees config padLen)) := by
  have hpad : ∀ t ∈ (if 0 < padLen then [padTree padLen] else []), OnlyDeclares t := by
    intro t ht
    split at ht
    · obtain rfl := List.mem_singleton.mp ht
      exact onlyDeclares_seg (by decide) _
    · simp at ht
  have hsplit : bodyTrees config padLen =
      [rootScopeTree config] ++ ((routingTrees ++ [sleepTree, gpeTree]) ++
        if 0 < padLen then [padTree padLen] else []) := rfl
  rw [hsplit, treeEvents_append, treeEvents_append]
  refine scopesDefined_of_known ((scopesKnown_rootScope hcpus).append
    (.append (scopesKnown_routing ?_ ?_) (scopesKnown_trees hpad)))
  · exact List.subset_append_right _ _
  · exact List.mem_append_left _ (pci0Scope_mem_treePaths config)

/-- **The namespace of the DSDT has no collision** when every frame of the body can
be counted: the body parses, what it declares has distinct names, and every scope
that it opens exists. Of the devices only those on the root bus matter. -/
theorem buildDsdt_names {config : PlatformConfig}
    (hids : ∀ device ∈ config.rootBusDevices, device.NulFreeId)
    (hdevfns : (config.rootBusDevices.map PciDeviceConfig.devfn).Nodup)
    (hfit : config.PackagesFit) {dsdt : Bytes} (hdsdt : buildDsdt config = .ok dsdt) :
    ∃ terms, decodeTermList (dsdt.drop 36) = some terms ∧
      (declaredPaths (namespaceEvents terms)).Nodup ∧ ScopesDefined (namespaceEvents terms) := by
  have hcpus := (buildDsdt_eq_ok hdsdt).1
  obtain ⟨padLen, hparse⟩ := decodeTermList_dsdtBody hids hfit hdsdt
  refine ⟨_, hparse, ?_, ?_⟩
  · rw [namespaceEvents_map]
    exact nodup_treePaths_bodyTrees hcpus hdevfns padLen
  · rw [namespaceEvents_map]
    exact scopesDefined_bodyTrees hcpus padLen

/-- Two disks on the root bus. -/
theorem buildDsdt_names_twoDisks :
    ∃ dsdt terms, buildDsdt .twoDisks = .ok dsdt ∧ decodeTermList (dsdt.drop 36) = some terms ∧
      (declaredPaths (namespaceEvents terms)).Nodup ∧ ScopesDefined (namespaceEvents terms) := by
  obtain ⟨dsdt, hdsdt, hbody⟩ := buildDsdt_twoDisks
  obtain ⟨terms, h⟩ := @buildDsdt_names .twoDisks twoDisks_nulFreeIds (by decide)
    (packagesFit_of_length hdsdt hbody) dsdt hdsdt
  exact ⟨dsdt, terms, hdsdt, h⟩

end AcpiTables
