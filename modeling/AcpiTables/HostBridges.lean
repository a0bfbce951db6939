import AcpiTables.RootBridge

/-!
# The host bridges divide the holes

When the firmware has given the expander buses disjoint ranges inside the holes
(`Layout`), no address is declared by two host bridges (`hostBridges_apart`), and
none of the holes is left out but, at times, the last address of one
(`hostBridges_cover`).

The registers of CXL are reserved once, however many CXL buses there are. They may
lie in the lower hole or above 4 GiB. Above, they still are among the ranges of the
lower hole, so its last free range goes up to them, and the window of that range
has 32 bits: what lies past the end of the cut window is lost (`CutOff`).
-/

namespace AcpiTables

open AmlBuild MachineInt CrsRangeEntry

/-! ## Ranges that are apart -/

section Apart

variable {l l' : List CrsRangeEntry}

/-- Ranges are apart when they have no address in common. -/
theorem apart_iff_disjoint (hl : ∀ e ∈ l, e.base ≤ e.limit) (hl' : ∀ e ∈ l', e.base ≤ e.limit) :
    (∀ e ∈ l, ∀ e' ∈ l', e.Apart e') ↔ Disjoint (addresses l) (addresses l') := by
  rw [Set.disjoint_left]
  constructor
  · intro h x hx hx'
    obtain ⟨e, he, hlo, hhi⟩ := mem_addresses.mp hx
    obtain ⟨e', he', hlo', hhi'⟩ := mem_addresses.mp hx'
    rcases h e he e' he' with hlt | hlt
    · have := UInt64.lt_iff_toNat_lt.mp hlt
      omega
    · have := UInt64.lt_iff_toNat_lt.mp hlt
      omega
  · intro h e he e' he'
    by_contra hnot
    obtain ⟨hle, hle'⟩ := not_or.mp hnot
    rw [UInt64.not_lt] at hle hle'
    -- the later of the bases is an address of both
    have hbase := UInt64.le_iff_toNat_le.mp hle
    have hbase' := UInt64.le_iff_toNat_le.mp hle'
    have hself := UInt64.le_iff_toNat_le.mp (hl e he)
    have hself' := UInt64.le_iff_toNat_le.mp (hl' e' he')
    rcases le_total e.base.toNat e'.base.toNat with hor | hor
    · exact h (mem_addresses.mpr ⟨e, he, hor, hbase⟩) (mem_addresses.mpr ⟨e', he', le_rfl, hself'⟩)
    · exact h (mem_addresses.mpr ⟨e, he, le_rfl, hself⟩) (mem_addresses.mpr ⟨e', he', hor, hbase'⟩)

/-- Merged ranges are apart when the ranges were. -/
theorem pairwise_crsRangeMerge (h : ∀ e ∈ l, e.IsRegion) (hapart : l.Pairwise Apart) :
    (crsRangeMerge l).Pairwise Apart := by
  have hgaps := ClosedRanges.apart_merge (proper_sortedPairs fun e he => (h e he).2)
    (inOrder_sortedPairs (fun e he => (h e he).2) hapart)
  rw [← crsRangeMerge_pairs fun e he => (h e he).1] at hgaps
  refine (List.pairwise_map.mp hgaps).imp fun hlt => .inl (UInt64.lt_iff_toNat_lt.mpr ?_)
  exact (Nat.lt_succ_self _).trans hlt

/-- The ranges of several buses, merged bus by bus. -/
theorem pairwise_flatMap_merge {α : Type} {buses : List α} {f : α → List CrsRangeEntry}
    (h : ∀ bus ∈ buses, ∀ e ∈ f bus, e.IsRegion) (hapart : (buses.flatMap f).Pairwise Apart) :
    (buses.flatMap fun bus => crsRangeMerge (f bus)).Pairwise Apart := by
  rw [List.pairwise_flatMap] at hapart ⊢
  refine ⟨fun bus hbus => pairwise_crsRangeMerge (h bus hbus) (hapart.1 bus hbus), ?_⟩
  refine hapart.2.imp_of_mem fun {a b} ha hb hab => ?_
  rw [apart_iff_disjoint (fun e he => (isRegion_of_mem_merge (h a ha) he).1.2)
    (fun e he => (isRegion_of_mem_merge (h b hb) he).1.2), addresses_crsRangeMerge (h a ha),
    addresses_crsRangeMerge (h b hb)]
  exact (apart_iff_disjoint (fun e he => (h a ha e he).2) (fun e he => (h b hb e he).2)).mp hab

end Apart

/-- An address lies in the ranges of several buses when it lies in those of one. -/
theorem mem_addresses_flatMap {α : Type} {buses : List α} {f : α → List CrsRangeEntry} {x : ℕ} :
    x ∈ addresses (buses.flatMap f) ↔ ∃ bus ∈ buses, x ∈ addresses (f bus) := by
  simp only [mem_addresses, List.mem_flatMap]
  grind

/-! ## Holes -/

/-- Ranges in use in a hole. -/
structure InHole (used : List CrsRangeEntry) (start end_ : UInt64) : Prop where
  proper : ∀ e ∈ used, e.base ≤ e.limit
  apart : used.Pairwise Apart
  within : ∀ e ∈ used, start ≤ e.base ∧ e.limit ≤ end_
  end_lt : end_ < 0xffffffffffffffff

namespace InHole

variable {used : List CrsRangeEntry} {start end_ : UInt64} {x : ℕ}

/-- No range in a hole ends at the last address. -/
theorem limit_lt (h : InHole used start end_) : ∀ e ∈ used, e.limit < 0xffffffffffffffff :=
  fun e he => UInt64.lt_of_le_of_lt (h.within e he).2 h.end_lt

/-- What is declared free is not in use. -/
theorem notMem_free (h : InHole used start end_)
    (hx : x ∈ addresses (crsReplaceWithFreeRanges used start end_)) : x ∉ addresses used :=
  ((mem_addresses_free h.proper h.limit_lt h.apart).mp hx).1

/-- What is declared free lies in the hole. -/
theorem within_free (h : InHole used start end_)
    (hx : x ∈ addresses (crsReplaceWithFreeRanges used start end_)) :
    start.toNat ≤ x ∧ x ≤ end_.toNat :=
  AmlBuild.within_free h.proper h.limit_lt h.apart h.within hx

/-- What is in use lies in the hole. -/
theorem within_used (h : InHole used start end_) (hx : x ∈ addresses used) :
    start.toNat ≤ x ∧ x ≤ end_.toNat := by
  obtain ⟨e, he, hlo, hhi⟩ := mem_addresses.mp hx
  obtain ⟨hstart, hend⟩ := h.within e he
  exact ⟨(UInt64.le_iff_toNat_le.mp hstart).trans hlo, hhi.trans (UInt64.le_iff_toNat_le.mp hend)⟩

/-- What lies before the end of the hole is used or free. -/
theorem used_or_free (h : InHole used start end_) (hlo : start.toNat ≤ x) (hhi : x < end_.toNat) :
    x ∈ addresses used ∨ x ∈ addresses (crsReplaceWithFreeRanges used start end_) := by
  by_cases hx : x ∈ addresses used
  · exact .inl hx
  · exact .inr ((mem_free_iff h.proper h.limit_lt h.apart hlo hhi.le hx).mpr
      fun hend => hhi.ne hend.1)

/-- The free ranges are ranges, inside the hole. -/
theorem of_mem_free (h : InHole used start end_) {e : CrsRangeEntry}
    (he : e ∈ crsReplaceWithFreeRanges used start end_) : e.base ≤ e.limit ∧ e.limit ≤ end_ := by
  have hproper : ClosedRanges.Proper ((crsReplaceWithFreeRanges used start end_).map pair) := by
    rw [crsReplaceWithFreeRanges_pairs start end_ h.limit_lt]
    exact ClosedRanges.proper_gapsWithin
  have hle : e.base.toNat ≤ e.limit.toNat := hproper _ (List.mem_map_of_mem he)
  have hlimit := h.within_free (mem_addresses.mpr ⟨e, he, hle, le_rfl⟩)
  exact ⟨UInt64.le_iff_toNat_le.mpr hle, UInt64.le_iff_toNat_le.mpr hlimit.2⟩

/-- A free range starts with the hole or behind a range in use, and ends with the
hole or in front of one. -/
theorem ends_of_mem_free (h : InHole used start end_) {e : CrsRangeEntry}
    (he : e ∈ crsReplaceWithFreeRanges used start end_) :
    (e.base = start ∨ ∃ u ∈ used, e.base.toNat = u.limit.toNat + 1) ∧
      (e.limit = end_ ∨ ∃ u ∈ used, e.limit.toNat = u.base.toNat - 1) := by
  have hpair : e.pair ∈ ClosedRanges.gapsWithin start.toNat (sortedPairs used) end_.toNat := by
    rw [← crsReplaceWithFreeRanges_pairs start end_ h.limit_lt]
    exact List.mem_map_of_mem he
  obtain ⟨hfirst, hlast⟩ := ClosedRanges.ends_of_mem_gapsWithin hpair
  rw [exists_sortedPairs] at hfirst hlast
  exact ⟨hfirst.imp_left UInt64.toNat_inj.mp, hlast.imp_left UInt64.toNat_inj.mp⟩

/-- The same ranges in a larger hole. -/
theorem extend (h : InHole used start end_) {end' : UInt64} (hle : end_ ≤ end')
    (hlt : end' < 0xffffffffffffffff) : InHole used start end' where
  proper := h.proper
  apart := h.apart
  within e he := ⟨(h.within e he).1, UInt64.le_trans (h.within e he).2 hle⟩
  end_lt := hlt

/-- The ranges of several buses, merged bus by bus, beside some that are not. -/
theorem merge {α : Type} {buses : List α} {f : α → List CrsRangeEntry} {rest : List CrsRangeEntry}
    (hregion : ∀ bus ∈ buses, ∀ e ∈ f bus, e.IsRegion)
    (h : InHole (buses.flatMap f ++ rest) start end_) :
    InHole ((buses.flatMap fun bus => crsRangeMerge (f bus)) ++ rest) start end_ := by
  have hmerged : ∀ e ∈ buses.flatMap fun bus => crsRangeMerge (f bus), e.IsRegion := by
    intro e he
    obtain ⟨bus, hbus, he⟩ := List.mem_flatMap.mp he
    exact (isRegion_of_mem_merge (hregion bus hbus) he).1
  have haddresses {x : ℕ} : x ∈ addresses (buses.flatMap fun bus => crsRangeMerge (f bus)) ↔
      x ∈ addresses (buses.flatMap f) := by
    simp only [mem_addresses_flatMap]
    refine exists_congr fun bus => and_congr_right fun hbus => ?_
    rw [addresses_crsRangeMerge (hregion bus hbus)]
  obtain ⟨hlist, hrest, hcross⟩ := List.pairwise_append.mp h.apart
  have hlists : ∀ e ∈ buses.flatMap f, e.base ≤ e.limit :=
    fun e he => h.proper e (List.mem_append_left _ he)
  have hrests : ∀ e ∈ rest, e.base ≤ e.limit := fun e he => h.proper e (List.mem_append_right _ he)
  refine ⟨List.forall_mem_append.mpr ⟨fun e he => (hmerged e he).2, hrests⟩,
    List.pairwise_append.mpr ⟨pairwise_flatMap_merge hregion hlist, hrest, ?_⟩,
    List.forall_mem_append.mpr
      ⟨fun e he => ?_, fun e he => h.within e (List.mem_append_right _ he)⟩,
    h.end_lt⟩
  · rw [apart_iff_disjoint (fun e he => (hmerged e he).2) hrests]
    rw [apart_iff_disjoint hlists hrests] at hcross
    exact Set.disjoint_left.mpr fun x hx => Set.disjoint_left.mp hcross (haddresses.mp hx)
  · have hle := UInt64.le_iff_toNat_le.mp (hmerged e he).2
    have hused {x : ℕ} (hx : x ∈ addresses (buses.flatMap f)) :
        start.toNat ≤ x ∧ x ≤ end_.toNat := by
      refine h.within_used ?_
      rw [addresses_append]
      exact .inl hx
    exact ⟨UInt64.le_iff_toNat_le.mpr
        (hused (haddresses.mp (mem_addresses.mpr ⟨e, he, le_rfl, hle⟩))).1,
      UInt64.le_iff_toNat_le.mpr
        (hused (haddresses.mp (mem_addresses.mpr ⟨e, he, hle, le_rfl⟩))).2⟩

end InHole

/-! ## The layout -/

/-- The registers of CXL, in use once there is a CXL bus. -/
def cxlRanges (hostMr : PCIIORegion) (roots : List ChildBus) : List CrsRangeEntry :=
  if roots.any ChildBus.isCxl then [hostMr.range] else []

/-- What is reserved beside the devices: the registers of CXL and the configuration
space. -/
def reserved (hostMr : PCIIORegion) (roots : List ChildBus) (mcfg : Option (UInt64 × UInt64)) :
    List CrsRangeEntry :=
  cxlRanges hostMr roots ++ mcfgRanges mcfg

/-- What of it is reserved in the lower hole. -/
def reservedLow (hostMr : PCIIORegion) (roots : List ChildBus)
    (mcfg : Option (UInt64 × UInt64)) : List CrsRangeEntry :=
  (cxlRanges hostMr roots).filter CrsRangeEntry.IsLow ++ mcfgRanges mcfg

/-- The ports that the expander buses decode. -/
def ports (roots : List ChildBus) : List CrsRangeEntry :=
  roots.flatMap fun child => child.bus.decodes true

/-- The memory below 4 GiB that they decode. -/
def lowMemory (roots : List ChildBus) : List CrsRangeEntry :=
  roots.flatMap fun child => (child.bus.decodes false).filter CrsRangeEntry.IsLow

/-- The memory above 4 GiB that they decode. -/
def highMemory (roots : List ChildBus) : List CrsRangeEntry :=
  roots.flatMap fun child => (child.bus.decodes false).filter fun e => ¬ e.IsLow

/-- There are registers of CXL, and they lie above 4 GiB. -/
def CxlAbove (hostMr : PCIIORegion) (roots : List ChildBus) : Prop :=
  roots.any ChildBus.isCxl = true ∧ ¬ hostMr.range.IsLow

instance (hostMr : PCIIORegion) (roots : List ChildBus) : Decidable (CxlAbove hostMr roots) :=
  inferInstanceAs (Decidable (_ ∧ _))

/-- A range above 4 GiB that the holes do not reach. -/
structure Beyond (e : CrsRangeEntry) (hole : UInt64 × UInt64) (hole64 : Option (UInt64 × UInt64)) :
    Prop where
  proper : e.base ≤ e.limit
  limit_lt : e.limit < 0xffffffffffffffff
  lt_base : 0xffffffff < e.base
  hole_lt : hole.2 < 0xfffffffe
  apart : ∀ h ∈ hole64, e.limit < h.1 ∨ h.2 < e.base

/-- The firmware has given the buses disjoint ranges inside the holes, and the
registers of CXL lie in the lower hole or beyond both. -/
structure Layout (hostMr : PCIIORegion) (roots : List ChildBus) (mcfg : Option (UInt64 × UInt64))
    (hole : UInt64 × UInt64) (hole64 : Option (UInt64 × UInt64)) : Prop where
  ports : InHole (ports roots) 0x0d00 0xffff
  low : InHole (lowMemory roots ++ reservedLow hostMr roots mcfg) hole.1 hole.2
  high : ∀ h ∈ hole64, InHole (highMemory roots) h.1 h.2 ∧ 0xffffffff < h.1
  none_high : hole64 = none → highMemory roots = []
  hole_le : 0x000c0000 ≤ hole.1 ∧ hole.1 ≤ hole.2 ∧ hole.2 ≤ 0xffffffff
  cxl : CxlAbove hostMr roots → Beyond hostMr.range hole hole64
  length_le : roots.length ≤ 256

variable {hostMr : PCIIORegion} {children roots : List ChildBus} {mcfg : Option (UInt64 × UInt64)}
  {hole : UInt64 × UInt64} {hole64 : Option (UInt64 × UInt64)} {x : ℕ}

/-- What is reserved lies in the lower hole, but for registers of CXL above 4 GiB. -/
theorem mem_reserved : x ∈ addresses (reserved hostMr roots mcfg) ↔
    x ∈ addresses (reservedLow hostMr roots mcfg) ∨
      CxlAbove hostMr roots ∧ x ∈ addresses [hostMr.range] := by
  rw [reserved, reservedLow, addresses_append, addresses_append, CxlAbove]
  simp only [cxlRanges, Set.mem_union]
  by_cases hany : roots.any ChildBus.isCxl = true
  · by_cases hlow : hostMr.range.IsLow
    · simp [hany, hlow]
    · have hnil : x ∉ addresses [] := by simp [mem_addresses]
      simp only [hany, if_true, List.filter_cons, hlow, decide_false, Bool.false_eq_true, if_false,
        List.filter_nil, hnil, false_or, not_false_eq_true, true_and]
      exact or_comm
  · simp [hany]

/-! ## The ranges in use in the lower hole -/

/-- The ranges in use in the lower hole, each listed once. -/
def usedLow (hostMr : PCIIORegion) (roots : List ChildBus) (mcfg : Option (UInt64 × UInt64)) :
    List CrsRangeEntry :=
  (roots.flatMap fun child => (mergedSet child.bus).memRanges) ++ reservedLow hostMr roots mcfg

/-- The code lists the registers of CXL for each CXL bus, wherever they lie. -/
theorem mem_inUse_memRanges {e : CrsRangeEntry} : e ∈ (inUse hostMr roots mcfg).memRanges ↔
    e ∈ usedLow hostMr roots mcfg ∨ CxlAbove hostMr roots ∧ e = hostMr.range := by
  have hcxl : (∃ child ∈ roots, child.isCxl = true ∧ e = hostMr.range) ↔
      e ∈ (cxlRanges hostMr roots).filter CrsRangeEntry.IsLow ∨
        CxlAbove hostMr roots ∧ e = hostMr.range := by
    rw [cxlRanges, CxlAbove]
    by_cases hany : roots.any ChildBus.isCxl = true
    · obtain ⟨child, hchild, hisCxl⟩ := List.any_eq_true.mp hany
      have hiff : (∃ child ∈ roots, child.isCxl = true ∧ e = hostMr.range) ↔ e = hostMr.range :=
        ⟨fun ⟨_, _, _, heq⟩ => heq, fun heq => ⟨child, hchild, hisCxl, heq⟩⟩
      rw [hiff, if_pos hany]
      by_cases hlow : hostMr.range.IsLow <;> simp [hany, hlow]
    · have hnone : ¬ ∃ child ∈ roots, child.isCxl = true ∧ e = hostMr.range :=
        fun ⟨child, hchild, hisCxl, _⟩ => hany (List.any_eq_true.mpr ⟨child, hchild, hisCxl⟩)
      simp only [hnone, hany, if_false, List.filter_nil, List.not_mem_nil, false_and, or_self,
        Bool.false_eq_true]
  simp only [inUse, usedByAll, usedBy, CrsRangeSet.append, usedLow, reservedLow, List.mem_append,
    List.mem_flatMap, and_or_left, exists_or]
  have hone (child : ChildBus) : e ∈ (if child.isCxl then [hostMr.range] else []) ↔
      child.isCxl = true ∧ e = hostMr.range := by
    cases child.isCxl <;> simp
  simp only [hone, hcxl]
  exact Iff.of_eq (by ac_rfl)

/-- Listing the merged ranges once changes no address. -/
theorem addresses_usedLow (hostMr : PCIIORegion) (roots : List ChildBus)
    (mcfg : Option (UInt64 × UInt64)) : addresses (usedLow hostMr roots mcfg) =
      addresses (lowMemory roots ++ reservedLow hostMr roots mcfg) := by
  have hmerge (child : ChildBus) : addresses (mergedSet child.bus).memRanges =
      addresses ((child.bus.decodes false).filter CrsRangeEntry.IsLow) :=
    addresses_crsRangeMerge fun e he => isRegion_decodes e (List.mem_filter.mp he).1
  ext x
  simp only [usedLow, lowMemory, addresses_append, Set.mem_union, mem_addresses_flatMap, hmerge]

/-- The ports in use are those that the expander buses decode. -/
theorem addresses_inUse_io (hostMr : PCIIORegion) (roots : List ChildBus)
    (mcfg : Option (UInt64 × UInt64)) :
    addresses (inUse hostMr roots mcfg).ioRanges = addresses (ports roots) := by
  ext x
  simp only [inUse, usedByAll, usedBy, CrsRangeSet.append, List.append_nil, ports,
    mem_addresses_flatMap, addresses_mergedSet_io]

/-- The 64-bit memory in use is the memory above 4 GiB that the expander buses
decode. -/
theorem addresses_inUse_high (hostMr : PCIIORegion) (roots : List ChildBus)
    (mcfg : Option (UInt64 × UInt64)) :
    addresses (inUse hostMr roots mcfg).mem64bitRanges = addresses (highMemory roots) := by
  ext x
  simp only [inUse, usedByAll, usedBy, CrsRangeSet.append, List.append_nil, highMemory,
    mem_addresses_flatMap, mergedSet]
  refine exists_congr fun child => and_congr_right fun _ => ?_
  rw [addresses_crsRangeMerge fun e he => isRegion_decodes e (List.mem_filter.mp he).1]

/-- The end of the free ranges of the lower hole: registers of CXL above 4 GiB move
it in front of them. -/
def freeEnd (hostMr : PCIIORegion) (roots : List ChildBus) (hole : UInt64 × UInt64) : UInt64 :=
  if CxlAbove hostMr roots then hostMr.addr - 1 else hole.2

/-- The address lies behind everything in use in the lower hole, and past the end of
the cut window. -/
def CutOff (hostMr : PCIIORegion) (roots : List ChildBus) (mcfg : Option (UInt64 × UInt64))
    (x : ℕ) : Prop :=
  CxlAbove hostMr roots ∧
    (∀ y ∈ addresses (lowMemory roots ++ reservedLow hostMr roots mcfg), y < x) ∧
    (hostMr.addr.toNat - 1) % 4294967296 < x

namespace Layout

/-- The ports of an expander bus lie below 4 GiB. -/
theorem isLow_ports (h : Layout hostMr roots mcfg hole hole64) :
    ∀ child ∈ roots, ∀ e ∈ child.bus.decodes true, e.IsLow := fun child hchild e he =>
  UInt64.le_trans (h.ports.within e (List.mem_flatMap.mpr ⟨child, hchild, he⟩)).2 (by decide)

/-- The merged ports lie in the ports of the host bridge. -/
theorem inHole_io (h : Layout hostMr roots mcfg hole hole64) :
    InHole (inUse hostMr roots mcfg).ioRanges 0x0d00 0xffff := by
  have hmerge : InHole ((roots.flatMap fun child => crsRangeMerge (child.bus.decodes true)) ++ [])
      0x0d00 0xffff :=
    InHole.merge (fun child _ => isRegion_decodes) (by rw [List.append_nil]; exact h.ports)
  simpa [inUse, usedByAll, usedBy, CrsRangeSet.append, mergedSet] using hmerge

/-- The merged memory and what is reserved lie in the lower hole. -/
theorem inHole_used (h : Layout hostMr roots mcfg hole hole64) :
    InHole (usedLow hostMr roots mcfg) hole.1 hole.2 :=
  InHole.merge (f := fun child : ChildBus => (child.bus.decodes false).filter CrsRangeEntry.IsLow)
    (fun _ _ e he => isRegion_decodes e (List.mem_filter.mp he).1) h.low

/-- The merged memory above 4 GiB lies in the upper hole. -/
theorem inHole_high (h : Layout hostMr roots mcfg hole hole64) :
    ∀ h' ∈ hole64, InHole (inUse hostMr roots mcfg).mem64bitRanges h'.1 h'.2 := by
  intro h' hh'
  have hmerge : InHole ((roots.flatMap fun child =>
      crsRangeMerge ((child.bus.decodes false).filter fun e => ¬ e.IsLow)) ++ []) h'.1 h'.2 :=
    InHole.merge (fun child _ e he => isRegion_decodes e (List.mem_filter.mp he).1)
      (by rw [List.append_nil]; exact (h.high h' hh').1)
  simpa [inUse, usedByAll, usedBy, CrsRangeSet.append, mergedSet] using hmerge

/-- The lower hole lies below 4 GiB. -/
theorem hole_toNat (h : Layout hostMr roots mcfg hole hole64) :
    0x000c0000 ≤ hole.1.toNat ∧ hole.1.toNat ≤ hole.2.toNat ∧ hole.2.toNat ≤ 0xffffffff :=
  ⟨UInt64.le_iff_toNat_le.mp h.hole_le.1, UInt64.le_iff_toNat_le.mp h.hole_le.2.1,
    UInt64.le_iff_toNat_le.mp h.hole_le.2.2⟩

/-- Registers of CXL above 4 GiB come after the lower hole. -/
theorem above_toNat (h : Layout hostMr roots mcfg hole hole64) (habove : CxlAbove hostMr roots) :
    hole.2.toNat < 0xfffffffe ∧ 0xffffffff < hostMr.addr.toNat ∧
      (freeEnd hostMr roots hole).toNat = hostMr.addr.toNat - 1 := by
  have hbeyond := h.cxl habove
  have hbase : 0xffffffff < hostMr.addr.toNat := UInt64.lt_iff_toNat_lt.mp hbeyond.lt_base
  refine ⟨UInt64.lt_iff_toNat_lt.mp hbeyond.hole_lt, hbase, ?_⟩
  rw [freeEnd, if_pos habove]
  have hpos : 1 ≤ hostMr.addr.toNat := by omega
  exact UInt64.toNat_sub_of_le _ _ (UInt64.le_iff_toNat_le.mpr hpos)

/-- The merged memory and what is reserved also lie in the lower hole as it ends
for the free ranges. -/
theorem inHole_low (h : Layout hostMr roots mcfg hole hole64) :
    InHole (usedLow hostMr roots mcfg) hole.1 (freeEnd hostMr roots hole) := by
  by_cases habove : CxlAbove hostMr roots
  · obtain ⟨hhole, hbase, hend⟩ := h.above_toNat habove
    refine h.inHole_used.extend (UInt64.le_iff_toNat_le.mpr (by omega))
      (UInt64.lt_iff_toNat_lt.mpr ?_)
    have := hostMr.addr.toNat_lt
    change _ < 0xffffffffffffffff
    omega
  · rw [freeEnd, if_neg habove]
    exact h.inHole_used

/-- **The free ranges of the lower hole**, although the code lists the registers of
CXL more than once, and among them also those above the hole. -/
theorem freeLow_eq (h : Layout hostMr roots mcfg hole hole64) :
    crsReplaceWithFreeRanges (inUse hostMr roots mcfg).memRanges hole.1 hole.2 =
      crsReplaceWithFreeRanges (usedLow hostMr roots mcfg) hole.1
        (freeEnd hostMr roots hole) := by
  obtain ⟨-, hle, -⟩ := h.hole_toNat
  have hused := h.inHole_used
  by_cases habove : CxlAbove hostMr roots
  · obtain ⟨hhole, hbase, -⟩ := h.above_toNat habove
    have hbeyond := h.cxl habove
    have hreach : hostMr.addr.toNat ≤ hostMr.range.limit.toNat :=
      UInt64.le_iff_toNat_le.mp hbeyond.proper
    rw [freeEnd, if_pos habove]
    refine crsReplaceWithFreeRanges_above hused.proper hused.limit_lt hused.apart
      hbeyond.proper hbeyond.limit_lt ?_ (fun e he => ?_)
      (UInt64.le_iff_toNat_le.mpr (by omega)) fun e => ?_
    · change _ < hostMr.addr.toNat
      omega
    · have := UInt64.le_iff_toNat_le.mp (hused.within e he).2
      change _ < hostMr.addr.toNat
      omega
    · rw [mem_inUse_memRanges, and_iff_right habove]
  · rw [freeEnd, if_neg habove]
    refine crsReplaceWithFreeRanges_congr hused.proper hused.limit_lt hused.apart _ _ fun e => ?_
    rw [mem_inUse_memRanges]
    simp [habove]

/-! ## What the bridges have in common -/

/-- What is in use in the lower hole lies between the window of the first megabyte
and 4 GiB. -/
theorem mem_low (h : Layout hostMr roots mcfg hole hole64)
    (hx : x ∈ addresses (lowMemory roots ++ reservedLow hostMr roots mcfg)) :
    0x000c0000 ≤ x ∧ x ≤ 0xffffffff := by
  have hused := h.low.within_used hx
  have hhole := h.hole_toNat
  omega

/-- So does the memory that the expander buses decode there. -/
theorem mem_lowMemory (h : Layout hostMr roots mcfg hole hole64)
    (hx : x ∈ addresses (lowMemory roots)) : 0x000c0000 ≤ x ∧ x ≤ 0xffffffff :=
  h.mem_low (by rw [addresses_append]; exact .inl hx)

/-- Memory in the upper hole lies above 4 GiB. -/
theorem mem_high (h : Layout hostMr roots mcfg hole hole64)
    (hx : x ∈ addresses (highMemory roots)) : 0xffffffff < x := by
  cases hole64 with
  | none =>
    rw [h.none_high rfl] at hx
    obtain ⟨e, he, -⟩ := mem_addresses.mp hx
    cases he
  | some hole' =>
    obtain ⟨hhole, hlt⟩ := h.high hole' rfl
    exact (UInt64.lt_iff_toNat_lt.mp hlt).trans_le (hhole.within_used hx).1

/-- The free ranges of the lower hole start below 4 GiB. -/
theorem base_lt (h : Layout hostMr roots mcfg hole hole64) :
    ∀ e ∈ crsReplaceWithFreeRanges (usedLow hostMr roots mcfg) hole.1 (freeEnd hostMr roots hole),
      e.base.toNat < 4294967296 := by
  intro e he
  obtain ⟨-, hle, hhole⟩ := h.hole_toNat
  rcases (h.inHole_low.ends_of_mem_free he).1 with heq | ⟨u, hu, heq⟩
  · rw [heq]
    omega
  · have hlimit := UInt64.le_iff_toNat_le.mp (h.inHole_used.within u hu).2
    by_cases habove : CxlAbove hostMr roots
    · have := h.above_toNat habove
      omega
    · -- the range ends with the hole, below 4 GiB
      have hbounds := h.inHole_low.of_mem_free he
      have hself := UInt64.le_iff_toNat_le.mp hbounds.1
      have hend := UInt64.le_iff_toNat_le.mp hbounds.2
      rw [freeEnd, if_neg habove] at hend
      omega

/-- **The windows of the lower hole** tell what is free below 4 GiB, but for what the
last of them has lost to the cut. -/
theorem mem_windowed_low (h : Layout hostMr roots mcfg hole hole64) :
    x ∈ windowed 4294967296
        (crsReplaceWithFreeRanges (inUse hostMr roots mcfg).memRanges hole.1 hole.2) ↔
      x < 4294967296 ∧ x ∈ addresses (crsReplaceWithFreeRanges (usedLow hostMr roots mcfg) hole.1
        (freeEnd hostMr roots hole)) ∧ ¬ CutOff hostMr roots mcfg x := by
  obtain ⟨-, -, hhole⟩ := h.hole_toNat
  rw [h.freeLow_eq, CutOff, ← addresses_usedLow]
  constructor
  · intro hwindow
    obtain ⟨hx, hlt⟩ := of_mem_windowed h.base_lt hwindow
    refine ⟨hlt, hx, ?_⟩
    rintro ⟨habove, hafter, hcut⟩
    obtain ⟨e, he, -, hhi⟩ := hwindow
    rcases (h.inHole_low.ends_of_mem_free he).2 with heq | ⟨u, hu, heq⟩
    · rw [heq, (h.above_toNat habove).2.2] at hhi
      omega
    · have hself := UInt64.le_iff_toNat_le.mp (h.inHole_used.proper u hu)
      have := hafter _ (mem_addresses.mpr ⟨u, hu, hself, le_rfl⟩)
      have := Nat.mod_le e.limit.toNat 4294967296
      omega
  · rintro ⟨hlt, hx, hnot⟩
    obtain ⟨e, he, hlo, hhi⟩ := mem_addresses.mp hx
    refine ⟨e, he, (Nat.mod_le _ _).trans hlo, ?_⟩
    rcases Nat.lt_or_ge e.limit.toNat 4294967296 with hfits | hlarge
    · rwa [Nat.mod_eq_of_lt hfits]
    -- only the last free range goes past 4 GiB
    rcases (h.inHole_low.ends_of_mem_free he).2 with heq | ⟨u, hu, heq⟩
    · by_cases habove : CxlAbove hostMr roots
      · rw [heq, (h.above_toNat habove).2.2]
        by_contra hgt
        refine hnot ⟨habove, fun y hy => ?_, Nat.lt_of_not_ge hgt⟩
        by_contra hge
        have hyHole := (h.inHole_used.within_used hy).2
        exact h.inHole_low.notMem_free (mem_addresses.mpr ⟨e, he, by omega, by omega⟩) hy
      · rw [heq, freeEnd, if_neg habove] at hlarge
        omega
    · have hself := UInt64.le_iff_toNat_le.mp (h.inHole_used.proper u hu)
      have := UInt64.le_iff_toNat_le.mp (h.inHole_used.within u hu).2
      omega

/-- The windows of the upper hole tell what is free in it. -/
theorem windowed_high (h : Layout hostMr roots mcfg hole hole64) :
    windowed 18446744073709551616 (freeHigh (inUse hostMr roots mcfg) hole64) =
      addresses (freeHigh (inUse hostMr roots mcfg) hole64) := by
  refine windowed_eq fun e he => ⟨?_, e.limit.toNat_lt⟩
  cases hole64 with
  | none => cases he
  | some hole' => exact ((h.inHole_high hole' rfl).of_mem_free he).1

/-- What is declared free above 4 GiB lies in the upper hole and is decoded by no
expander bus. -/
theorem mem_freeHigh (h : Layout hostMr roots mcfg hole hole64)
    (hx : x ∈ addresses (freeHigh (inUse hostMr roots mcfg) hole64)) :
    ∃ hole' ∈ hole64, hole'.1.toNat ≤ x ∧ x ≤ hole'.2.toNat ∧ 0xffffffff < hole'.1.toNat ∧
      x ∉ addresses (highMemory roots) := by
  cases hole64 with
  | none =>
    obtain ⟨e, he, -⟩ := mem_addresses.mp hx
    cases he
  | some hole' =>
    have hhole := h.inHole_high hole' rfl
    have hnot := hhole.notMem_free hx
    rw [addresses_inUse_high] at hnot
    obtain ⟨hlo, hhi⟩ := hhole.within_free hx
    exact ⟨hole', rfl, hlo, hhi, UInt64.lt_iff_toNat_lt.mp (h.high hole' rfl).2, hnot⟩

/-- What `PCI0` declares. -/
theorem mem_declared_pci0 (h : Layout hostMr roots mcfg hole hole64) {rootBusLimit : ℤ}
    {kind : ℕ} :
    x ∈ declared (appended (pci0Crs (inUse hostMr roots mcfg) rootBusLimit hole hole64)) kind ↔
      kind = 1 ∧ (x ≤ 0x0cf7 ∨ x ∈ addresses
        (crsReplaceWithFreeRanges (inUse hostMr roots mcfg).ioRanges 0x0d00 0xffff)) ∨
      kind = 0 ∧ (0x000a0000 ≤ x ∧ x ≤ 0x000bffff ∨
        (x < 4294967296 ∧ x ∈ addresses (crsReplaceWithFreeRanges (usedLow hostMr roots mcfg) hole.1
          (freeEnd hostMr roots hole)) ∧ ¬ CutOff hostMr roots mcfg x) ∨
        x ∈ addresses (freeHigh (inUse hostMr roots mcfg) hole64)) ∨
      kind = 2 ∧ x ≤ (UInt16.ofInt rootBusLimit).toNat := by
  have hports : windowed 65536
      (crsReplaceWithFreeRanges (inUse hostMr roots mcfg).ioRanges 0x0d00 0xffff) =
        addresses (crsReplaceWithFreeRanges (inUse hostMr roots mcfg).ioRanges 0x0d00 0xffff) := by
    refine windowed_eq fun e he => ?_
    obtain ⟨hle, hend⟩ := h.inHole_io.of_mem_free he
    exact ⟨hle, Nat.lt_succ_of_le (UInt64.le_iff_toNat_le.mp hend)⟩
  rw [AcpiTables.mem_declared_pci0 h.length_le, hports, h.mem_windowed_low, h.windowed_high]

/-- What an expander bus declares. -/
theorem mem_declared_expander (h : Layout hostMr roots mcfg hole hole64) {child : ChildBus}
    (hchild : child ∈ roots) {kind : ℕ} :
    x ∈ declared (appended (expanderCrs child)) kind ↔
      kind = 1 ∧ x ∈ addresses (child.bus.decodes true) ∨
        kind = 0 ∧ x ∈ addresses (child.bus.decodes false) ∨
          kind = 2 ∧ child.bus.num.toNat ≤ x ∧ x ≤ child.bus.lastBus.toNat := by
  rw [expanderCrs, mem_declared_hostRecords, windowed_ioRanges (h.isLow_ports child hchild)]

end Layout

/-- The memory of a bus lies below or above 4 GiB. -/
theorem mem_memory {child : ChildBus} (hchild : child ∈ roots)
    (hx : x ∈ addresses (child.bus.decodes false)) :
    x ∈ addresses ((child.bus.decodes false).filter CrsRangeEntry.IsLow) ∧
        x ∈ addresses (lowMemory roots) ∨
      x ∈ addresses ((child.bus.decodes false).filter fun e => ¬ e.IsLow) ∧
        x ∈ addresses (highMemory roots) := by
  rw [← addresses_low_high] at hx
  rcases hx with hx | hx
  · exact .inl ⟨hx, mem_addresses_flatMap.mpr ⟨child, hchild, hx⟩⟩
  · exact .inr ⟨hx, mem_addresses_flatMap.mpr ⟨child, hchild, hx⟩⟩

/-- What is free in the lower hole is used by no one. -/
theorem notMem_of_free (h : Layout hostMr roots mcfg hole hole64)
    (hfree : x ∈ addresses (crsReplaceWithFreeRanges (usedLow hostMr roots mcfg) hole.1
      (freeEnd hostMr roots hole))) :
    0x000c0000 ≤ x ∧ x ∉ addresses (lowMemory roots) ∧
      x ∉ addresses (reservedLow hostMr roots mcfg) := by
  have hlo := (h.inHole_low.within_free hfree).1
  have hnot := h.inHole_low.notMem_free hfree
  rw [addresses_usedLow, addresses_append] at hnot
  exact ⟨h.hole_toNat.1.trans hlo, fun hx => hnot (.inl hx), fun hx => hnot (.inr hx)⟩

/-- `PCI0` leaves the ports and the memory of the expander buses alone. -/
theorem pci0_apart (h : Layout hostMr roots mcfg hole hole64) {rootBusLimit : ℤ}
    {child : ChildBus} (hchild : child ∈ roots) {kind : ℕ} (hkind : kind ≠ 2) :
    Disjoint (declared (appended (pci0Crs (inUse hostMr roots mcfg) rootBusLimit hole hole64)) kind)
      (declared (appended (expanderCrs child)) kind) := by
  rw [Set.disjoint_left]
  intro x hdeclared hx'
  rcases h.mem_declared_pci0.mp hdeclared with ⟨rfl, hx⟩ | ⟨rfl, hx⟩ | ⟨rfl, hx⟩
  · have hport : x ∈ addresses (child.bus.decodes true) := by
      simpa using (h.mem_declared_expander hchild).mp hx'
    have hused : x ∈ addresses (ports roots) := mem_addresses_flatMap.mpr ⟨child, hchild, hport⟩
    rcases hx with hx | hx
    · have hlo : 0x0d00 ≤ x := (h.ports.within_used hused).1
      omega
    · have hnot := h.inHole_io.notMem_free hx
      rw [addresses_inUse_io] at hnot
      exact hnot hused
  · have hmemory : x ∈ addresses (child.bus.decodes false) := by
      simpa using (h.mem_declared_expander hchild).mp hx'
    rcases mem_memory hchild hmemory with ⟨-, hlow⟩ | ⟨-, hhigh⟩
    · obtain ⟨hlo, hhi⟩ := h.mem_lowMemory hlow
      rcases hx with hx | hx | hx
      · omega
      · exact (notMem_of_free h hx.2.1).2.1 hlow
      · obtain ⟨_, -, hstart, -, hlt, -⟩ := h.mem_freeHigh hx
        omega
    · have hhi := h.mem_high hhigh
      rcases hx with hx | hx | hx
      · omega
      · omega
      · obtain ⟨_, -, -, -, -, hnot⟩ := h.mem_freeHigh hx
        exact hnot hhigh
  · exact hkind rfl

/-- So do two expander buses. -/
theorem expanders_apart (h : Layout hostMr roots mcfg hole hole64) :
    roots.Pairwise fun child child' => ∀ kind, kind ≠ 2 →
      Disjoint (declared (appended (expanderCrs child)) kind)
        (declared (appended (expanderCrs child')) kind) := by
  have hports := (List.pairwise_flatMap.mp h.ports.apart).2
  have hlow := (List.pairwise_flatMap.mp (List.pairwise_append.mp h.low.apart).1).2
  have hhigh : roots.Pairwise fun child child' =>
      ∀ e ∈ (child.bus.decodes false).filter (fun e => ¬ e.IsLow),
        ∀ e' ∈ (child'.bus.decodes false).filter (fun e => ¬ e.IsLow), e.Apart e' := by
    cases hole64 with
    | none =>
      have hnil : (highMemory roots).Pairwise Apart := by
        rw [h.none_high rfl]
        exact .nil
      exact (List.pairwise_flatMap.mp hnil).2
    | some hole' => exact (List.pairwise_flatMap.mp (h.high hole' rfl).1.apart).2
  refine ((hports.and hlow).and hhigh).imp_of_mem fun {child child'} hchild hchild' happart => ?_
  obtain ⟨⟨hports, hlow⟩, hhigh⟩ := happart
  have hproper (child : ChildBus) (io : Bool) : ∀ e ∈ child.bus.decodes io, e.base ≤ e.limit :=
    fun e he => (isRegion_decodes e he).2
  rw [apart_iff_disjoint (hproper child true) (hproper child' true), Set.disjoint_left] at hports
  rw [apart_iff_disjoint (fun e he => hproper child false e (List.mem_filter.mp he).1)
    fun e he => hproper child' false e (List.mem_filter.mp he).1, Set.disjoint_left] at hlow hhigh
  intro kind hkind
  rw [Set.disjoint_left]
  intro x hx hx'
  rcases (h.mem_declared_expander hchild).mp hx with
    ⟨rfl, hport⟩ | ⟨rfl, hmemory⟩ | ⟨rfl, -⟩
  · have hport' : x ∈ addresses (child'.bus.decodes true) := by
      simpa using (h.mem_declared_expander hchild').mp hx'
    exact hports hport hport'
  · have hmemory' : x ∈ addresses (child'.bus.decodes false) := by
      simpa using (h.mem_declared_expander hchild').mp hx'
    rcases mem_memory hchild hmemory with ⟨hx, hlower⟩ | ⟨hx, hupper⟩ <;>
      rcases mem_memory hchild' hmemory' with ⟨hx', hlower'⟩ | ⟨hx', hupper'⟩
    · exact hlow hx hx'
    · have := h.mem_high hupper'
      have := (h.mem_lowMemory hlower).2
      omega
    · have := h.mem_high hupper
      have := (h.mem_lowMemory hlower').2
      omega
    · exact hhigh hx hx'
  · exact hkind rfl

/-- `PCI0` leaves alone what is reserved, wherever that lies. -/
theorem pci0_reserved (h : Layout hostMr roots mcfg hole hole64) {rootBusLimit : ℤ} :
    Disjoint (declared (appended (pci0Crs (inUse hostMr roots mcfg) rootBusLimit hole hole64)) 0)
      (addresses (reserved hostMr roots mcfg)) := by
  rw [Set.disjoint_left]
  intro x hdeclared hreserved
  have hx : 0x000a0000 ≤ x ∧ x ≤ 0x000bffff ∨
      (x < 4294967296 ∧ x ∈ addresses (crsReplaceWithFreeRanges (usedLow hostMr roots mcfg) hole.1
        (freeEnd hostMr roots hole)) ∧ ¬ CutOff hostMr roots mcfg x) ∨
      x ∈ addresses (freeHigh (inUse hostMr roots mcfg) hole64) := by
    simpa using h.mem_declared_pci0.mp hdeclared
  rcases mem_reserved.mp hreserved with hlow | ⟨habove, hrange⟩
  · have hbounds := h.mem_low (by rw [addresses_append]; exact .inr hlow)
    rcases hx with hx | hx | hx
    · omega
    · exact (notMem_of_free h hx.2.1).2.2 hlow
    · obtain ⟨_, -, hstart, -, hlt, -⟩ := h.mem_freeHigh hx
      omega
  · obtain ⟨e, he, hlo, hhi⟩ := mem_addresses.mp hrange
    obtain rfl := List.mem_singleton.mp he
    have hbase : hostMr.range.base.toNat = hostMr.addr.toNat := rfl
    have hbelow := (h.above_toNat habove).2.1
    rcases hx with hx | hx | hx
    · omega
    · omega
    · obtain ⟨hole', hhole', hstart, hend, -⟩ := h.mem_freeHigh hx
      rcases (h.cxl habove).apart hole' hhole' with hlt | hlt
      · have := UInt64.lt_iff_toNat_lt.mp hlt
        omega
      · have := UInt64.lt_iff_toNat_lt.mp hlt
        omega

/-- **No two host bridges declare the same port or memory.** When the firmware has
laid out the buses, the resources are built, and the windows that are read from
those of `PCI0` and of the expander buses are disjoint, for the ports and for the
memory. `PCI0` declares nothing of what is reserved. -/
theorem hostBridges_apart (h : Layout hostMr (rootChildren children) mcfg hole hole64) :
    ∃ state, collectExpanders children hostMr mcfg = .ok state ∧
      (appended (pci0Crs state.crsRangeSet state.rootBusLimit hole hole64) ::
        state.expanders.map fun x => appended x.2).Pairwise
          (fun crs crs' => ∀ kind, kind ≠ 2 → Disjoint (declared crs kind) (declared crs' kind)) ∧
      Disjoint (declared (appended (pci0Crs state.crsRangeSet state.rootBusLimit hole hole64)) 0)
        (addresses (reserved hostMr (rootChildren children) mcfg)) := by
  refine ⟨_, collectExpanders_eq children hostMr mcfg, ?_, pci0_reserved h⟩
  rw [List.pairwise_cons, List.map_map, List.forall_mem_map, List.pairwise_map]
  exact ⟨fun child hchild kind hkind => pci0_apart h hchild hkind, expanders_apart h⟩

/-- The ranges of two expander buses lie in the holes, beside the configuration
space; the registers of CXL lie above 4 GiB. -/
theorem twoExpanders_layout :
    Layout hostRegisters (rootChildren twoExpanders) (some (0xb0000000, 0x10000000))
      (0x80000000, 0xfebfffff) (some (0x800000000, 0xfffffffff)) where
  ports := ⟨by decide +kernel, by decide +kernel, by decide +kernel, by decide⟩
  low := ⟨by decide +kernel, by decide +kernel, by decide +kernel, by decide⟩
  high h hh := by
    obtain rfl := Option.mem_some_iff.mp hh
    exact ⟨⟨by decide +kernel, by decide +kernel, by decide +kernel, by decide⟩, by decide⟩
  none_high h := by cases h
  hole_le := by decide
  cxl _ := ⟨by decide, by decide, by decide, by decide, fun h hh => by
    obtain rfl := Option.mem_some_iff.mp hh
    exact .inl (by decide)⟩
  length_le := by decide +kernel

theorem hostBridges_apart_twoExpanders :
    ∃ state, collectExpanders twoExpanders hostRegisters (some (0xb0000000, 0x10000000)) =
        .ok state ∧
      (appended (pci0Crs state.crsRangeSet state.rootBusLimit (0x80000000, 0xfebfffff)
          (some (0x800000000, 0xfffffffff))) ::
        state.expanders.map fun x => appended x.2).Pairwise
          (fun crs crs' =>
            ∀ kind, kind ≠ 2 → Disjoint (declared crs kind) (declared crs' kind)) ∧
      Disjoint (declared (appended (pci0Crs state.crsRangeSet state.rootBusLimit
          (0x80000000, 0xfebfffff) (some (0x800000000, 0xfffffffff)))) 0)
        (addresses (reserved hostRegisters (rootChildren twoExpanders)
          (some (0xb0000000, 0x10000000)))) :=
  hostBridges_apart twoExpanders_layout

/-- **Nothing of the holes is left out** but what the cut has lost: every port and
every address below the end of its hole is declared by `PCI0` or by an expander
bus, or reserved. In the lower hole the addresses that are neither are those behind
everything in use and past the low 32 bits of the address before the registers of
CXL, when these lie above 4 GiB. -/
theorem hostBridges_cover (h : Layout hostMr (rootChildren children) mcfg hole hole64)
    {state : ExpanderState} (hstate : collectExpanders children hostMr mcfg = .ok state) :
    (∀ x, 0x0d00 ≤ x → x < 0xffff → ∃ crs ∈
      appended (pci0Crs state.crsRangeSet state.rootBusLimit hole hole64) ::
        state.expanders.map fun x => appended x.2, x ∈ declared crs 1) ∧
    (∀ x, hole.1.toNat ≤ x → x < hole.2.toNat →
      ((x ∈ addresses (reserved hostMr (rootChildren children) mcfg) ∨ ∃ crs ∈
        appended (pci0Crs state.crsRangeSet state.rootBusLimit hole hole64) ::
          state.expanders.map fun x => appended x.2, x ∈ declared crs 0) ↔
        ¬ CutOff hostMr (rootChildren children) mcfg x)) ∧
    ∀ hole' ∈ hole64, ∀ x, hole'.1.toNat ≤ x → x < hole'.2.toNat → ∃ crs ∈
      appended (pci0Crs state.crsRangeSet state.rootBusLimit hole hole64) ::
        state.expanders.map fun x => appended x.2, x ∈ declared crs 0 := by
  rw [collectExpanders_eq] at hstate
  obtain rfl := Except.ok.inj hstate
  simp only [List.map_map, List.mem_cons, List.mem_map, exists_eq_or_imp, Function.comp_apply,
    exists_exists_and_eq_and, h.mem_declared_pci0]
  refine ⟨fun x hlo hhi => ?_, fun x hlo hhi => ?_, fun hole' hhole' x hlo hhi => ?_⟩
  · rcases h.inHole_io.used_or_free (x := x) hlo hhi with hused | hfree
    · rw [addresses_inUse_io] at hused
      obtain ⟨child, hchild, hx⟩ := mem_addresses_flatMap.mp hused
      exact .inr ⟨child, hchild, (h.mem_declared_expander hchild).mpr (.inl ⟨rfl, hx⟩)⟩
    · exact .inl (.inl ⟨trivial, .inr hfree⟩)
  · have hhole := h.hole_toNat
    constructor
    · rintro (hreserved | hpci0 | ⟨child, hchild, hexpander⟩) ⟨habove, hafter, hcut⟩
      · rcases mem_reserved.mp hreserved with hlow | ⟨-, hrange⟩
        · exact lt_irrefl x (hafter x (by rw [addresses_append]; exact .inr hlow))
        · obtain ⟨e, he, hbase, -⟩ := mem_addresses.mp hrange
          obtain rfl := List.mem_singleton.mp he
          have hlt := (h.above_toNat habove).2.1
          have heq : hostMr.range.base.toNat = hostMr.addr.toNat := rfl
          omega
      · have hx : 0x000a0000 ≤ x ∧ x ≤ 0x000bffff ∨ ¬ CutOff hostMr (rootChildren children) mcfg x ∨
            x ∈ addresses (freeHigh (inUse hostMr (rootChildren children) mcfg) hole64) := by
          simp only [zero_ne_one, OfNat.zero_ne_ofNat, false_and, false_or, or_false,
            true_and] at hpci0
          exact hpci0.imp_right (Or.imp_left fun hfree => hfree.2.2)
        rcases hx with hx | hx | hx
        · omega
        · exact hx ⟨habove, hafter, hcut⟩
        · obtain ⟨_, -, hstart, -, hlt, -⟩ := h.mem_freeHigh hx
          omega
      · have hmemory : x ∈ addresses (child.bus.decodes false) := by
          simpa using (h.mem_declared_expander hchild).mp hexpander
        rcases mem_memory hchild hmemory with ⟨-, hlow⟩ | ⟨-, hhigh⟩
        · exact lt_irrefl x (hafter x (by rw [addresses_append]; exact .inl hlow))
        · have := h.mem_high hhigh
          omega
    · intro hkept
      have hend : hole.2.toNat ≤ (freeEnd hostMr (rootChildren children) hole).toNat := by
        by_cases habove : CxlAbove hostMr (rootChildren children)
        · have := h.above_toNat habove
          omega
        · rw [freeEnd, if_neg habove]
      rcases h.inHole_low.used_or_free hlo (hhi.trans_le hend) with hused | hfree
      · rw [addresses_usedLow, addresses_append] at hused
        rcases hused with hused | hreserved
        · obtain ⟨child, hchild, hx⟩ := mem_addresses_flatMap.mp hused
          refine .inr (.inr ⟨child, hchild,
            (h.mem_declared_expander hchild).mpr (.inr (.inl ⟨rfl, ?_⟩))⟩)
          rw [← addresses_low_high]
          exact .inl hx
        · exact .inl (mem_reserved.mpr (.inl hreserved))
      · exact .inr (.inl (.inr (.inl ⟨trivial, .inr (.inl ⟨by omega, hfree, hkept⟩)⟩)))
  · rcases (h.inHole_high hole' hhole').used_or_free (x := x) hlo hhi with hused | hfree
    · rw [addresses_inUse_high] at hused
      obtain ⟨child, hchild, hx⟩ := mem_addresses_flatMap.mp hused
      refine .inr ⟨child, hchild, (h.mem_declared_expander hchild).mpr (.inr (.inl ⟨rfl, ?_⟩))⟩
      rw [← addresses_low_high]
      exact .inr hx
    · refine .inl (.inr (.inl ⟨trivial, .inr (.inr ?_)⟩))
      obtain rfl := Option.mem_def.mp hhole'
      exact hfree

theorem hostBridges_cover_twoExpanders :
    ∃ state, collectExpanders twoExpanders hostRegisters (some (0xb0000000, 0x10000000)) =
        .ok state ∧
      (∀ x, 0x0d00 ≤ x → x < 0xffff → ∃ crs ∈
        appended (pci0Crs state.crsRangeSet state.rootBusLimit (0x80000000, 0xfebfffff)
          (some (0x800000000, 0xfffffffff))) :: state.expanders.map fun x => appended x.2,
        x ∈ declared crs 1) ∧
      (∀ x, UInt64.toNat 0x80000000 ≤ x → x < UInt64.toNat 0xfebfffff →
        ((x ∈ addresses (reserved hostRegisters (rootChildren twoExpanders)
            (some (0xb0000000, 0x10000000))) ∨ ∃ crs ∈
          appended (pci0Crs state.crsRangeSet state.rootBusLimit (0x80000000, 0xfebfffff)
            (some (0x800000000, 0xfffffffff))) :: state.expanders.map fun x => appended x.2,
          x ∈ declared crs 0) ↔
          ¬ CutOff hostRegisters (rootChildren twoExpanders) (some (0xb0000000, 0x10000000)) x)) ∧
      ∀ hole' ∈ some ((0x800000000 : UInt64), (0xfffffffff : UInt64)), ∀ x, hole'.1.toNat ≤ x →
        x < hole'.2.toNat → ∃ crs ∈
          appended (pci0Crs state.crsRangeSet state.rootBusLimit (0x80000000, 0xfebfffff)
            (some (0x800000000, 0xfffffffff))) :: state.expanders.map fun x => appended x.2,
          x ∈ declared crs 0 :=
  ⟨_, collectExpanders_eq twoExpanders hostRegisters (some (0xb0000000, 0x10000000)),
    hostBridges_cover twoExpanders_layout (collectExpanders_eq ..)⟩

end AcpiTables
