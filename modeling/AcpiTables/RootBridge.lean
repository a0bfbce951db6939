import AcpiTables.PciWindows

/-!
# The resources of the root bridge

`build_dsdt` goes over the child buses first, and leaves out of the resources of
`PCI0` what they use:

* `collectExpanders_eq` — what the loop over the child buses collects.
* `mem_declared_pci0` — what is read from the resources of `PCI0`, for any ranges
  in use. Ports have 16 bits in them and the memory of the lower hole has 32, to
  which the free ranges are cut.
* `pci0_buses` — the bus numbers, about which the ranges do not matter.
-/

namespace AcpiTables

open AmlBuild MachineInt

variable {hostMr : PCIIORegion} {children roots : List ChildBus} {mcfg : Option (UInt64 × UInt64)}
  {hole : UInt64 × UInt64} {hole64 : Option (UInt64 × UInt64)}

/-! ## The loop over the child buses -/

/-- The children that are root buses of their own. -/
def rootChildren (children : List ChildBus) : List ChildBus := children.filter ChildBus.isRoot

/-- What one of them adds to the ranges in use. -/
def usedBy (hostMr : PCIIORegion) (child : ChildBus) : CrsRangeSet :=
  (mergedSet child.bus).append ⟨[], if child.isCxl then [hostMr.range] else [], []⟩

/-- What all of them use. -/
def usedByAll (hostMr : PCIIORegion) (roots : List ChildBus) : CrsRangeSet where
  ioRanges := roots.flatMap fun child => (usedBy hostMr child).ioRanges
  memRanges := roots.flatMap fun child => (usedBy hostMr child).memRanges
  mem64bitRanges := roots.flatMap fun child => (usedBy hostMr child).mem64bitRanges

/-- The limit of the root bus after an expander bus: one less than the bus, when
the bus lies below the limit. -/
def lowerLimit (rootBusLimit : ℤ) (child : ChildBus) : ℤ :=
  if (child.bus.num.toNat : ℤ) < rootBusLimit then (child.bus.num.toNat : ℤ) - 1 else rootBusLimit

/-- The resources of an expander bus. -/
def expanderCrs (child : ChildBus) : AmlBuild.Aml := recordTemplate (hostRecords child.bus 0 0 0 0)

/-- One turn of the loop over the child buses, for an expander bus. -/
theorem expanderStep_root {hostMr : PCIIORegion} {child : ChildBus} (hroot : child.isRoot = true)
    (state : ExpanderState) :
    expanderStep hostMr state child =
      .ok ⟨state.crsRangeSet.append (usedBy hostMr child), lowerLimit state.rootBusLimit child,
        state.expanders ++ [(child.bus, expanderCrs child)]⟩ := by
  rw [expanderStep, hroot, buildCrs_eq]
  cases hcxl : child.isCxl <;>
    simp [usedBy, hcxl, CrsRangeSet.append, crsRangeInsert, PCIIORegion.range, lowerLimit,
      expanderCrs]

/-- The loop: every child adds what it uses, and its resources. -/
theorem foldlM_expanderStep (hostMr : PCIIORegion) (children : List ChildBus)
    (state : ExpanderState) :
    children.foldlM (expanderStep hostMr) state =
      .ok ⟨state.crsRangeSet.append (usedByAll hostMr (rootChildren children)),
        (rootChildren children).foldl lowerLimit state.rootBusLimit,
        state.expanders ++ (rootChildren children).map fun child =>
          (child.bus, expanderCrs child)⟩ := by
  induction children generalizing state with
  | nil => simp [rootChildren, usedByAll, CrsRangeSet.append]
  | cons child children ih =>
    rw [List.foldlM_cons]
    by_cases hroot : child.isRoot = true
    · have hcons : rootChildren (child :: children) = child :: rootChildren children :=
        List.filter_cons_of_pos hroot
      rw [hcons, expanderStep_root hroot, Checked.ok_bind, ih]
      simp [usedByAll, CrsRangeSet.append]
    · have hcons : rootChildren (child :: children) = rootChildren children :=
        List.filter_cons_of_neg hroot
      have hskip : expanderStep hostMr state child = .ok state := by simp [expanderStep, hroot]
      rw [hcons, hskip, Checked.ok_bind, ih]

/-- The configuration space. -/
def mcfgRanges (mcfg : Option (UInt64 × UInt64)) : List CrsRangeEntry :=
  mcfg.toList.map fun m => ⟨m.1, m.1 + m.2 - 1⟩

/-- The ranges that `PCI0` has to leave alone. -/
def inUse (hostMr : PCIIORegion) (roots : List ChildBus) (mcfg : Option (UInt64 × UInt64)) :
    CrsRangeSet :=
  (usedByAll hostMr roots).append ⟨[], mcfgRanges mcfg, []⟩

/-- **What the loop collects**, for every list of child buses: the ranges in use, the
last bus left for `PCI0`, and the resources of the expander buses. -/
theorem collectExpanders_eq (children : List ChildBus) (hostMr : PCIIORegion)
    (mcfg : Option (UInt64 × UInt64)) :
    collectExpanders children hostMr mcfg =
      .ok ⟨inUse hostMr (rootChildren children) mcfg, (rootChildren children).foldl lowerLimit 0xff,
        (rootChildren children).map fun child => (child.bus, expanderCrs child)⟩ := by
  rw [collectExpanders, foldlM_expanderStep, Checked.ok_bind]
  cases mcfg with
  | none => simp [inUse, mcfgRanges, CrsRangeSet.append, crsRangeSetInit]
  | some base => simp [inUse, mcfgRanges, CrsRangeSet.append, crsRangeSetInit, crsRangeInsert]

/-! ## The resources of `PCI0` -/

/-- The free ranges of the upper hole. -/
def freeHigh (set : CrsRangeSet) (hole64 : Option (UInt64 × UInt64)) : List CrsRangeEntry :=
  hole64.elim [] fun h => crsReplaceWithFreeRanges set.mem64bitRanges h.1 h.2

/-- The record of a free range of ports. -/
def freePortRecord (e : CrsRangeEntry) : Bytes :=
  appended (amlWordIo 4 8 0 3 0 e.base.toUInt16 e.limit.toUInt16 0
    (e.limit - e.base + 1).toUInt16)

/-- The records of `PCI0`. -/
def pci0Records (set : CrsRangeSet) (rootBusLimit : ℤ) (hole : UInt64 × UInt64)
    (hole64 : Option (UInt64 × UInt64)) : List Bytes :=
  [appended (amlWordBusNumber 4 8 0 0 0 (UInt16.ofInt rootBusLimit) 0
      (UInt16.ofInt (rootBusLimit + 1))),
    appended (amlIo 1 0x0cf8 0x0cf8 0x01 0x08), appended (amlWordIo 4 8 0 3 0 0 0x0cf7 0 0x0cf8)] ++
    (crsReplaceWithFreeRanges set.ioRanges 0x0d00 0xffff).map freePortRecord ++
    [appended (amlDwordMemory 0 4 8 1 1 0 0x000a0000 0x000bffff 0 0x00020000)] ++
    (crsReplaceWithFreeRanges set.memRanges hole.1 hole.2).map (lowRecord 0) ++
    (freeHigh set hole64).map (highRecord 1 0)

/-- The resources of the root bus are a template of records. -/
theorem pci0Crs_eq (set : CrsRangeSet) (rootBusLimit : ℤ) (hole : UInt64 × UInt64)
    (hole64 : Option (UInt64 × UInt64)) :
    pci0Crs set rootBusLimit hole hole64 =
      recordTemplate (pci0Records set rootBusLimit hole hole64) := by
  have hstart : amlResourceTemplate = recordTemplate [] := rfl
  unfold pci0Crs
  dsimp only
  rw [hstart, amlAppend_recordTemplate, amlAppend_recordTemplate, amlAppend_recordTemplate,
    foldl_amlAppend, amlAppend_recordTemplate, foldl_amlAppend]
  cases hole64 with
  | none =>
    simp only [pci0Records, freeHigh, Option.elim_none, List.map_nil, List.append_nil]
    rfl
  | some hole' =>
    dsimp only
    rw [foldl_amlAppend]
    rfl

/-- The record of free ports tells these ports. -/
theorem tells_freePortRecord (e : CrsRangeEntry) : Tells (freePortRecord e) 1 65536 e :=
  tells_word 1 3 0 _ (UInt64.toNat_toUInt16 _) (UInt64.toNat_toUInt16 _)

/-- With at most 256 expander buses the records of the root bus fit their buffer. -/
theorem length_pci0Records_le (hostMr : PCIIORegion) (mcfg : Option (UInt64 × UInt64))
    (rootBusLimit : ℤ) (hole : UInt64 × UInt64) (hole64 : Option (UInt64 × UInt64))
    (h : roots.length ≤ 256) :
    (pci0Records (inUse hostMr roots mcfg) rootBusLimit hole hole64).length ≤ 5000000 := by
  have hports (child : ChildBus) : (mergedSet child.bus).ioRanges.length ≤ 2304 :=
    (length_crsRangeMerge_le _).trans (length_decodes_le ..)
  have hlow (child : ChildBus) : (mergedSet child.bus).memRanges.length ≤ 2304 :=
    (length_crsRangeMerge_le _).trans ((List.length_filter_le ..).trans (length_decodes_le ..))
  have hhigh (child : ChildBus) : (mergedSet child.bus).mem64bitRanges.length ≤ 2304 :=
    (length_crsRangeMerge_le _).trans ((List.length_filter_le ..).trans (length_decodes_le ..))
  have hcxl (child : ChildBus) : (if child.isCxl then [hostMr.range] else []).length ≤ 1 := by
    cases child.isCxl <;> simp
  have hio : (inUse hostMr roots mcfg).ioRanges.length ≤ 1000000 := by
    have := length_flatMap_le_mul fun child (_ : child ∈ roots) => hports child
    simp only [inUse, usedByAll, usedBy, CrsRangeSet.append, List.append_nil]
    omega
  have hmem : (inUse hostMr roots mcfg).memRanges.length ≤ 1000000 := by
    have hmcfg : (mcfgRanges mcfg).length ≤ 1 := by cases mcfg <;> simp [mcfgRanges]
    have hchild : ∀ child ∈ roots, ((mergedSet child.bus).memRanges ++
        if child.isCxl then [hostMr.range] else []).length ≤ 2304 + 1 := fun child _ => by
      rw [List.length_append]
      exact Nat.add_le_add (hlow child) (hcxl child)
    have := length_flatMap_le_mul hchild
    simp only [inUse, usedByAll, usedBy, CrsRangeSet.append, List.length_append]
    omega
  have hmem64 : (freeHigh (inUse hostMr roots mcfg) hole64).length ≤ 1000000 := by
    cases hole64 with
    | none => exact Nat.zero_le _
    | some hole' =>
      have := length_flatMap_le_mul fun child (_ : child ∈ roots) => hhigh child
      refine (length_crsReplaceWithFreeRanges_le ..).trans ?_
      simp only [inUse, usedByAll, usedBy, CrsRangeSet.append, List.append_nil]
      omega
  have hfreeIo := length_crsReplaceWithFreeRanges_le (inUse hostMr roots mcfg).ioRanges
    0x0d00 0xffff
  have hfreeMem := length_crsReplaceWithFreeRanges_le (inUse hostMr roots mcfg).memRanges
    hole.1 hole.2
  simp only [pci0Records, List.length_append, List.length_map, List.length_cons, List.length_nil]
  omega

/-- **What `PCI0` declares**, whatever ranges are in use: what is free, cut to the
size of the windows. -/
theorem mem_declared_pci0 (hlen : roots.length ≤ 256) {rootBusLimit : ℤ} {kind x : ℕ} :
    x ∈ declared (appended (pci0Crs (inUse hostMr roots mcfg) rootBusLimit hole hole64)) kind ↔
      kind = 1 ∧ (x ≤ 0x0cf7 ∨ x ∈ windowed 65536
        (crsReplaceWithFreeRanges (inUse hostMr roots mcfg).ioRanges 0x0d00 0xffff)) ∨
      kind = 0 ∧ (0x000a0000 ≤ x ∧ x ≤ 0x000bffff ∨ x ∈ windowed 4294967296
        (crsReplaceWithFreeRanges (inUse hostMr roots mcfg).memRanges hole.1 hole.2) ∨
        x ∈ windowed 18446744073709551616 (freeHigh (inUse hostMr roots mcfg) hole64)) ∨
      kind = 2 ∧ x ≤ (UInt16.ofInt rootBusLimit).toNat := by
  have hbus : Tells (appended (amlWordBusNumber 4 8 0 0 0 (UInt16.ofInt rootBusLimit) 0
      (UInt16.ofInt (rootBusLimit + 1)))) 2 65536 ⟨0, (UInt16.ofInt rootBusLimit).toUInt64⟩ :=
    tells_word 2 0 0 _ rfl (by simp)
  have hlegacy : Tells (appended (amlWordIo 4 8 0 3 0 0 0x0cf7 0 0x0cf8)) 1 65536 ⟨0, 0x0cf7⟩ :=
    tells_word 1 3 0 _ rfl rfl
  have hvga : Tells (appended (amlDwordMemory 0 4 8 1 1 0 0x000a0000 0x000bffff 0 0x00020000)) 0
      4294967296 ⟨0x000a0000, 0x000bffff⟩ := tells_dword 0 3 0 _ rfl rfl
  have hconfig : IsRecord descriptorSize (appended (amlIo 1 0x0cf8 0x0cf8 0x01 0x08)) ∧
      (appended (amlIo 1 0x0cf8 0x0cf8 0x01 0x08)).length ≤ 46 ∧
      ¬ Declares (appended (amlIo 1 0x0cf8 0x0cf8 0x01 0x08)) kind x := by
    have hbytes : appended (amlIo 1 0x0cf8 0x0cf8 0x01 0x08) =
        [0x47, 1, 0xf8, 0x0c, 0xf8, 0x0c, 1, 8] := by decide
    rw [hbytes]
    refine ⟨isRecord_small (by decide) rfl, by decide, ?_⟩
    rintro ⟨w, hw, -⟩
    cases hw
  have hall : ∀ r ∈ pci0Records (inUse hostMr roots mcfg) rootBusLimit hole hole64,
      IsRecord descriptorSize r ∧ r.length ≤ 46 := by
    simp only [pci0Records, List.forall_mem_append, List.forall_mem_map, List.forall_mem_singleton,
      List.forall_mem_cons]
    exact ⟨⟨⟨⟨⟨⟨hbus.1, hbus.2⟩, ⟨hconfig.1, hconfig.2.1⟩, hlegacy.1, hlegacy.2⟩,
      fun e _ => ⟨(tells_freePortRecord e).1, (tells_freePortRecord e).2⟩⟩, hvga.1, hvga.2⟩,
      fun e _ => ⟨(tells_lowRecord 0 e).1, (tells_lowRecord 0 e).2⟩⟩,
      fun e _ => ⟨(tells_highRecord 1 0 e).1, (tells_highRecord 1 0 e).2⟩⟩
  rw [pci0Crs_eq, mem_declared_recordTemplate (fun r hr => (hall r hr).1)
    (length_flatten_lt (fun r hr => (hall r hr).2)
      (length_pci0Records_le hostMr mcfg rootBusLimit hole hole64 hlen)), pci0Records]
  simp only [List.mem_append, or_and_right, exists_or]
  rw [exists_declares tells_freePortRecord, exists_declares (tells_lowRecord 0),
    exists_declares (tells_highRecord 1 0)]
  simp only [List.mem_cons, List.not_mem_nil, or_false, exists_eq_or_imp, exists_eq_left,
    hbus.declares, hlegacy.declares, hvga.declares, hconfig.2.2, false_or]
  have hlimit : (UInt16.ofInt rootBusLimit).toUInt64.toNat % 65536 =
      (UInt16.ofInt rootBusLimit).toNat := by simp
  have hports : UInt64.toNat 0 % 65536 = 0 ∧ UInt64.toNat 0x0cf7 % 65536 = 0x0cf7 := ⟨rfl, rfl⟩
  have hgraphics : UInt64.toNat 0x000a0000 % 4294967296 = 0x000a0000 ∧
      UInt64.toNat 0x000bffff % 4294967296 = 0x000bffff := ⟨rfl, rfl⟩
  rw [hlimit, hports.1, hports.2, hgraphics.1, hgraphics.2]
  simp only [Nat.zero_le, true_and]
  grind

/-! ## Bus numbers -/

/-- No expander bus raises the limit. -/
theorem foldl_lowerLimit_le_limit (limit : ℤ) : roots.foldl lowerLimit limit ≤ limit := by
  induction roots generalizing limit with
  | nil => exact le_rfl
  | cons child roots ih =>
    refine (ih _).trans ?_
    rw [lowerLimit]
    split <;> omega

/-- The limit does not end past any expander bus. -/
theorem foldl_lowerLimit_le (limit : ℤ) :
    ∀ child ∈ roots, roots.foldl lowerLimit limit ≤ child.bus.num.toNat := by
  induction roots generalizing limit with
  | nil => simp
  | cons child roots ih =>
    have hstep : lowerLimit limit child ≤ child.bus.num.toNat := by
      rw [lowerLimit]
      split <;> omega
    exact List.forall_mem_cons.mpr
      ⟨(foldl_lowerLimit_le_limit (lowerLimit limit child)).trans hstep, ih _⟩

/-- `PCI0` keeps the buses below all others. -/
theorem le_foldl_lowerLimit {limit n : ℤ} (h : ∀ child ∈ roots, n < child.bus.num.toNat)
    (hn : n ≤ limit) : n ≤ roots.foldl lowerLimit limit := by
  induction roots generalizing limit with
  | nil => exact hn
  | cons child roots ih =>
    obtain ⟨hchild, hroots⟩ := List.forall_mem_cons.mp h
    refine ih hroots ?_
    rw [lowerLimit]
    split <;> omega

/-- A bus is lost to `PCI0` only when its number comes up as the limit. -/
theorem foldl_lowerLimit_lt {limit : ℤ} (h : ∀ child ∈ roots, limit ≠ child.bus.num.toNat)
    (hpair : roots.Pairwise fun child child' => child.bus.num.toNat ≠ child'.bus.num.toNat + 1) :
    ∀ child ∈ roots, roots.foldl lowerLimit limit < child.bus.num.toNat := by
  induction roots generalizing limit with
  | nil => simp
  | cons child roots ih =>
    obtain ⟨hchild, hroots⟩ := List.forall_mem_cons.mp h
    obtain ⟨hnext, hpair⟩ := List.pairwise_cons.mp hpair
    have hlower : lowerLimit limit child < child.bus.num.toNat ∧
        ∀ child' ∈ roots, lowerLimit limit child ≠ child'.bus.num.toNat := by
      rw [lowerLimit]
      split
      · refine ⟨by omega, fun child' hchild' => ?_⟩
        have := hnext child' hchild'
        omega
      · exact ⟨by omega, hroots⟩
    exact List.forall_mem_cons.mpr
      ⟨(foldl_lowerLimit_le_limit (lowerLimit limit child)).trans_lt hlower.1, ih hlower.2 hpair⟩

/-- **The buses of `PCI0`** are those below all expander buses, and at most one more:
with an expander bus it can share the number of that bus, and only when a bus
numbered one more was listed before it, or when the number is 255. What the buses
decode does not matter. -/
theorem pci0_buses (hpos : ∀ child ∈ rootChildren children, 0 < child.bus.num)
    (hlen : (rootChildren children).length ≤ 256) {state : ExpanderState}
    (hstate : collectExpanders children hostMr mcfg = .ok state) :
    (∀ n, n ≤ 255 → (∀ child ∈ rootChildren children, n < child.bus.num.toNat) →
      n ∈ declared (appended (pci0Crs state.crsRangeSet state.rootBusLimit hole hole64)) 2) ∧
    (∀ n ∈ declared (appended (pci0Crs state.crsRangeSet state.rootBusLimit hole hole64)) 2,
      ∀ x ∈ state.expanders, n ∈ declared (appended x.2) 2 →
        n = x.1.num.toNat ∧ (n : ℤ) = state.rootBusLimit) ∧
    ((∀ child ∈ rootChildren children, child.bus.num.toNat ≠ 255) →
      ((rootChildren children).Pairwise fun child child' =>
        child.bus.num.toNat ≠ child'.bus.num.toNat + 1) →
      ∀ x ∈ state.expanders,
        Disjoint (declared (appended (pci0Crs state.crsRangeSet state.rootBusLimit hole hole64)) 2)
          (declared (appended x.2) 2)) := by
  rw [collectExpanders_eq] at hstate
  obtain rfl := Except.ok.inj hstate
  have h0 : 0 ≤ (rootChildren children).foldl lowerLimit 0xff :=
    le_foldl_lowerLimit (fun child hchild => by
      exact_mod_cast UInt8.lt_iff_toNat_lt.mp (hpos child hchild)) (by decide)
  have h255 : (rootChildren children).foldl lowerLimit 0xff ≤ 0xff := foldl_lowerLimit_le_limit 0xff
  obtain ⟨limit, hlimit⟩ := Int.eq_ofNat_of_zero_le h0
  have hnat : (UInt16.ofInt (limit : ℤ)).toNat = limit := by
    rw [UInt16.ofInt, UInt16.toNat_ofNat']
    omega
  have hpci0 {n : ℕ} : n ∈ declared (appended (pci0Crs
      (inUse hostMr (rootChildren children) mcfg) limit hole hole64)) 2 ↔ n ≤ limit := by
    simp [mem_declared_pci0 hlen, hnat]
  have hexpander {n : ℕ} {child : ChildBus} : n ∈ declared (appended (expanderCrs child)) 2 ↔
      child.bus.num.toNat ≤ n ∧ n ≤ child.bus.lastBus.toNat := by
    simp [expanderCrs, mem_declared_hostRecords]
  have hlast : ∀ child ∈ rootChildren children,
      (rootChildren children).foldl lowerLimit 0xff ≤ child.bus.num.toNat :=
    foldl_lowerLimit_le 0xff
  simp only [hlimit, hpci0, List.forall_mem_map, hexpander] at hlast ⊢
  refine ⟨fun n hn hbelow => ?_, fun n hn child hchild hx => ?_, fun h255 hpair child hchild => ?_⟩
  · have hle : (n : ℤ) ≤ (rootChildren children).foldl lowerLimit 0xff :=
      le_foldl_lowerLimit (fun child hchild => by exact_mod_cast hbelow child hchild) (by omega)
    omega
  · have := hlast child hchild
    exact ⟨by omega, by omega⟩
  · have hlt : (rootChildren children).foldl lowerLimit 0xff < child.bus.num.toNat :=
      foldl_lowerLimit_lt (fun child hchild heq => h255 child hchild (by omega)) hpair child hchild
    rw [Set.disjoint_left]
    intro n hn hx
    have := hpci0.mp hn
    have := (hexpander.mp hx).1
    omega

/-- A machine with two expander buses, both of CXL, and a bus behind one of them. -/
def twoExpanders : List ChildBus :=
  [⟨singleBus 0x10 (networkCard 0), true, true⟩, ⟨singleBus 0x11 (networkCard 0), false, false⟩,
    ⟨singleBus 0x20 (networkCard 1), true, true⟩]

/-- The registers of CXL, behind the memory of the machine. -/
def hostRegisters : PCIIORegion := ⟨0x180000000, 0x100000, 0⟩

theorem pci0_buses_twoExpanders :
    ∃ state, collectExpanders twoExpanders hostRegisters (some (0xb0000000, 0x10000000)) =
        .ok state ∧
      (∀ n, n ≤ 255 → (∀ child ∈ rootChildren twoExpanders, n < child.bus.num.toNat) →
        n ∈ declared (appended (pci0Crs state.crsRangeSet state.rootBusLimit
          (0x80000000, 0xfebfffff) (some (0x800000000, 0xfffffffff)))) 2) ∧
      (∀ n ∈ declared (appended (pci0Crs state.crsRangeSet state.rootBusLimit
          (0x80000000, 0xfebfffff) (some (0x800000000, 0xfffffffff)))) 2,
        ∀ x ∈ state.expanders, n ∈ declared (appended x.2) 2 →
          n = x.1.num.toNat ∧ (n : ℤ) = state.rootBusLimit) ∧
      ∀ x ∈ state.expanders,
        Disjoint (declared (appended (pci0Crs state.crsRangeSet state.rootBusLimit
          (0x80000000, 0xfebfffff) (some (0x800000000, 0xfffffffff)))) 2)
          (declared (appended x.2) 2) := by
  have hstate := collectExpanders_eq twoExpanders hostRegisters (some (0xb0000000, 0x10000000))
  obtain ⟨hbelow, hshared, hnone⟩ := pci0_buses (by decide +kernel) (by decide +kernel) hstate
  exact ⟨_, hstate, hbelow, hshared, hnone (by decide +kernel) (by decide +kernel)⟩

end AcpiTables
