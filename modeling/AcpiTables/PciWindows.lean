import AcpiTables.Descriptors
import AcpiTables.PciHost
import AcpiTables.TreeReference
import Mathlib.Data.List.ReduceOption

/-!
# What the host bridges declare

A resource template is a list of records. What it declares is read from the
address space descriptors among them, and the reference writes one of these for
each range that a bus decodes (`Tells`). The bounds in it have fewer bits than the
range may have, and both are cut to them (`windowed`); when the ranges fit, the
windows are the ranges (`windowed_eq`).

* **reading**: a template of records is declared record by record
  (`mem_declared_recordTemplate`), if its records are short enough for their buffer;
* **collecting**: the loop over the devices adds what each of them decodes, a region
  or a window at a time (`foldl_collectDevice`), and takes the largest of the last
  buses behind them (`le_lastBus`);
* **writing**: `build_crs` merges what was collected and appends a record for each
  range that is left (`buildCrs_eq`).

Merging keeps the addresses, so that in the end a bus declares what it decodes
(`buildCrs_declares`), as long as its ports have numbers of 32 bits.
-/

namespace AcpiTables

open AmlBuild MachineInt Reader

/-! ## Windows of a template -/

/-- The windows that are read from a resource template, record by record. -/
def windows (template : Bytes) : Option (List AddressRange) :=
  (templateRecords template).map fun (_, _, records) =>
    records.filterMap fun r => (readAddressRange r).map Prod.fst

/-- The addresses that a template declares of a kind: memory is `0`, ports are `1`
and bus numbers are `2`. -/
def declared (template : Bytes) (kind : ℕ) : Set ℕ :=
  {x | ∃ ws, windows template = some ws ∧ ∃ w ∈ ws, w.type_ = kind ∧ w.min ≤ x ∧ x ≤ w.max}

/-- A template of records, as the reference builds it. -/
def recordTemplate (records : List Bytes) : AmlBuild.Aml :=
  { amlResourceTemplate with buf := records.flatten }

variable {records : List Bytes} {kind x : ℕ}

/-- **Reading a template** finds the windows of its records. -/
theorem windows_recordTemplate (h : ∀ r ∈ records, IsRecord descriptorSize r)
    (hlen : records.flatten.length < 268435456) :
    windows (appended (recordTemplate records)) =
      some (records.filterMap fun r => (readAddressRange r).map Prod.fst) := by
  have hcontent : (templateContent records.flatten).length < 268435456 + 2 := by
    rw [templateContent, List.length_append]
    exact Nat.add_lt_add_right hlen 2
  have hbuild : appended (recordTemplate records) =
      frame [bufferOp] (sizedContent (templateContent records.flatten)) :=
    buildBuffer_eq (hcontent.trans (by decide)) bufferOp
  have hend : (readAddressRange [endTag, 0]).map Prod.fst = none := rfl
  rw [windows, hbuild, templateRecords_frame (hcontent.trans (by decide)), walk_records h]
  simp only [Option.map_some, List.filterMap_append, List.filterMap_cons, hend,
    List.filterMap_nil, List.append_nil]

/-- The record declares a number of the kind. -/
def Declares (record : Bytes) (kind x : ℕ) : Prop :=
  ∃ w, (readAddressRange record).map Prod.fst = some w ∧ w.type_ = kind ∧ w.min ≤ x ∧ x ≤ w.max

/-- A template of records declares what its records declare. -/
theorem mem_declared_recordTemplate (h : ∀ r ∈ records, IsRecord descriptorSize r)
    (hlen : records.flatten.length < 268435456) :
    x ∈ declared (appended (recordTemplate records)) kind ↔ ∃ r ∈ records, Declares r kind x := by
  simp only [declared, windows_recordTemplate h hlen, Option.some.injEq, Set.mem_ofPred_eq,
    exists_eq_left', List.mem_filterMap, Declares]
  constructor
  · rintro ⟨w, ⟨r, hr, hw⟩, hx⟩
    exact ⟨r, hr, w, hw, hx⟩
  · rintro ⟨r, hr, w, hw, hx⟩
    exact ⟨w, ⟨r, hr, hw⟩, hx⟩

/-- Appending adds a record. -/
theorem amlAppend_recordTemplate (records : List Bytes) (a : AmlBuild.Aml) :
    amlAppend (recordTemplate records) a = recordTemplate (records ++ [appended a]) := by
  simp [amlAppend_eq, recordTemplate]

/-- Parts that are appended one after the other are records one after the other. -/
theorem foldl_amlAppend {α : Type} (l : List α) (f : α → AmlBuild.Aml) (records : List Bytes) :
    l.foldl (fun crs a => amlAppend crs (f a)) (recordTemplate records) =
      recordTemplate (records ++ l.map fun a => appended (f a)) := by
  induction l generalizing records with
  | nil => simp
  | cons a l ih => simp [amlAppend_recordTemplate, ih]

/-- The parts of a list of `n` bytes each take at most `n` times as many bytes. -/
theorem length_flatMap_le_mul {α β : Type} {l : List α} {f : α → List β} {n : ℕ}
    (h : ∀ a ∈ l, (f a).length ≤ n) : (l.flatMap f).length ≤ n * l.length := by
  induction l with
  | nil => simp
  | cons a l ih =>
    obtain ⟨ha, hl⟩ := List.forall_mem_cons.mp h
    rw [List.flatMap_cons, List.length_append, List.length_cons, Nat.mul_succ, Nat.add_comm]
    exact Nat.add_le_add (ih hl) ha

/-- Five million descriptors fit the length of a package. -/
theorem length_flatten_lt (h : ∀ r ∈ records, r.length ≤ 46) (hlen : records.length ≤ 5000000) :
    records.flatten.length < 268435456 := by
  have := length_flatMap_le_mul (f := id) h
  rw [List.flatMap_id] at this
  omega

/-! ## Windows of a range -/

/-- The numbers in the windows of some ranges, when the windows have numbers below
`n`: both ends of a range are cut. -/
def windowed (n : ℕ) (l : List CrsRangeEntry) : Set ℕ :=
  {x | ∃ e ∈ l, e.base.toNat % n ≤ x ∧ x ≤ e.limit.toNat % n}

section Windowed

variable {n : ℕ} {l : List CrsRangeEntry}

/-- Ranges that fit their windows are told as they are. -/
theorem windowed_eq (h : ∀ e ∈ l, e.base ≤ e.limit ∧ e.limit.toNat < n) :
    windowed n l = addresses l := by
  ext x
  rw [mem_addresses]
  refine exists_congr fun e => and_congr_right fun he => ?_
  obtain ⟨hle, hlt⟩ := h e he
  rw [Nat.mod_eq_of_lt ((UInt64.le_iff_toNat_le.mp hle).trans_lt hlt), Nat.mod_eq_of_lt hlt]

/-- A window whose base is not cut tells nothing but the range. -/
theorem of_mem_windowed (h : ∀ e ∈ l, e.base.toNat < n) (hx : x ∈ windowed n l) :
    x ∈ addresses l ∧ x < n := by
  obtain ⟨e, he, hlo, hhi⟩ := hx
  have hbase := h e he
  rw [Nat.mod_eq_of_lt hbase] at hlo
  exact ⟨mem_addresses.mpr ⟨e, he, hlo, hhi.trans (Nat.mod_le _ _)⟩,
    hhi.trans_lt (Nat.mod_lt _ (Nat.zero_lt_of_lt hbase))⟩

end Windowed

/-- A record that tells a range as numbers of a kind, below `n`. -/
structure Tells (record : Bytes) (kind n : ℕ) (e : CrsRangeEntry) : Prop where
  isRecord : IsRecord descriptorSize record
  length_le : record.length ≤ 46
  declares (kind' x : ℕ) : Declares record kind' x ↔
    kind' = kind ∧ e.base.toNat % n ≤ x ∧ x ≤ e.limit.toNat % n

/-- The records of some ranges tell their windows. -/
theorem exists_declares {n : ℕ} {f : CrsRangeEntry → Bytes} {kind' : ℕ}
    (h : ∀ e, Tells (f e) kind' n e) (l : List CrsRangeEntry) :
    (∃ r ∈ l.map f, Declares r kind x) ↔ kind = kind' ∧ x ∈ windowed n l := by
  simp only [List.mem_map, exists_exists_and_eq_and, (h _).declares, windowed, Set.mem_ofPred_eq]
  constructor
  · rintro ⟨e, he, hkind, hx⟩
    exact ⟨hkind, e, he, hx⟩
  · rintro ⟨hkind, e, he, hx⟩
    exact ⟨e, he, hkind, hx⟩

section Descriptors

variable {tag descLen type_ minFixed maxFixed dec typeFlags : UInt8} {size : ℕ}
  {gran min max trans len : UInt64} {e : CrsRangeEntry}

/-- An address space descriptor of the reference is read field by field. -/
theorem readAddressRange_amlAsDesc (htag : addressWidth tag = some size)
    (hdesc : descLen.toNat = 3 + 5 * size)
    (hfields : ∀ v ∈ [gran, min, max, trans, len], v.toNat < 256 ^ size) :
    readAddressRange (appended (amlAsDesc tag descLen size type_ minFixed maxFixed dec gran min max
        trans len typeFlags)) =
      some (⟨size, type_.toNat, (maxFixed ||| minFixed ||| dec).toNat, typeFlags.toNat, gran.toNat,
        min.toNat, max.toNat, trans.toNat, len.toNat⟩, []) := by
  rw [Descriptor.appended_amlAsDesc]
  generalize maxFixed ||| minFixed ||| dec = flags
  let fields : List (ℕ × ℕ) := [(2, descLen.toNat), (1, type_.toNat), (1, flags.toNat),
    (1, typeFlags.toNat), (size, gran.toNat), (size, min.toNat), (size, max.toNat),
    (size, trans.toNat), (size, len.toNat)]
  have hfits : ∀ field ∈ fields, field.2 < 256 ^ field.1 := by
    simp only [List.forall_mem_cons] at hfields
    obtain ⟨hgran, hmin, hmax, htrans, hlen, -⟩ := hfields
    simp only [fields, List.forall_mem_cons]
    exact ⟨descLen.toNat_lt.trans (by decide), type_.toNat_lt, flags.toNat_lt, typeFlags.toNat_lt,
      hgran, hmin, hmax, htrans, hlen, by simp⟩
  have hfield : ∀ field ∈ fields,
      Settles (number field.1) (leBytes field.1 field.2) field.2 True :=
    fun field hfield => settles_number (hfits field hfield)
  have hread := (settles_each fields hfield).reads (fun _ _ => trivial) []
  have hbyte (b : UInt8) : leBytes 1 b.toNat = [b] := by simp [leBytes]
  have hhead : leBytes 2 descLen.toNat = [descLen, 0] := by
    have := descLen.toNat_lt
    simp [leBytes, Nat.div_eq_of_lt this]
  have hbytes : [tag, descLen, 0, type_, flags, typeFlags] ++ leBytes size gran.toNat ++
      leBytes size min.toNat ++ leBytes size max.toNat ++ leBytes size trans.toNat ++
      leBytes size len.toNat =
      tag :: (fields.flatMap (fun field => leBytes field.1 field.2) ++ []) := by
    simp [fields, hbyte, hhead]
  rw [hbytes, readAddressRange, htag]
  simp only [fields, List.map_cons, List.map_nil] at hread
  simp only [Option.bind_eq_bind, Option.bind_some, fields, hread]
  rw [if_pos hdesc]

/-- An address space descriptor is one record when its length byte counts its five
values. -/
theorem isRecord_amlAsDesc (htag : ¬ tag.toNat < 128) (hdesc : descLen.toNat = 3 + 5 * size) :
    IsRecord descriptorSize (appended (amlAsDesc tag descLen size type_ minFixed maxFixed dec gran
      min max trans len typeFlags)) := by
  rw [Descriptor.appended_amlAsDesc]
  refine isRecord_large htag ?_
  have hsize : leValue [descLen, 0] = descLen.toNat := by simp [leValue]
  rw [hsize, hdesc]
  simp
  omega

/-- A descriptor tells the range whose ends are its bounds. -/
theorem tells_amlAsDesc {n : ℕ} (hwidth : addressWidth tag = some size)
    (htag : ¬ tag.toNat < 128) (hsize : size ≤ 8) (hdesc : descLen.toNat = 3 + 5 * size)
    (hfields : ∀ v ∈ [gran, min, max, trans, len], v.toNat < 256 ^ size)
    (hmin : min.toNat = e.base.toNat % n) (hmax : max.toNat = e.limit.toNat % n) :
    Tells (appended (amlAsDesc tag descLen size type_ minFixed maxFixed dec gran min max trans len
      typeFlags)) type_.toNat n e where
  isRecord := isRecord_amlAsDesc htag hdesc
  length_le := by
    rw [Descriptor.appended_amlAsDesc]
    simp
    omega
  declares kind' x := by
    rw [Declares, readAddressRange_amlAsDesc hwidth hdesc hfields]
    simp only [Option.map_some, Option.some.injEq, exists_eq_left', hmin, hmax,
      eq_comm (a := kind')]

end Descriptors

section Calls

variable (type_ typeFlags : UInt8) {e : CrsRangeEntry}

/-- A descriptor with 16-bit bounds. -/
theorem tells_word {min max : UInt16} (trans len : UInt16)
    (hmin : min.toNat = e.base.toNat % 65536) (hmax : max.toNat = e.limit.toNat % 65536) :
    Tells (appended (amlWordAsDesc type_ 4 8 0 0 min max trans len typeFlags)) type_.toNat 65536
      e := by
  refine tells_amlAsDesc rfl (by decide) (by decide) rfl ?_ (by simpa using hmin)
    (by simpa using hmax)
  simp only [List.forall_mem_cons, UInt16.toNat_toUInt64]
  exact ⟨UInt16.toNat_lt _, UInt16.toNat_lt _, UInt16.toNat_lt _, UInt16.toNat_lt _,
    UInt16.toNat_lt _, by simp⟩

/-- A descriptor with 32-bit bounds. -/
theorem tells_dword {min max : UInt32} (trans len : UInt32)
    (hmin : min.toNat = e.base.toNat % 4294967296)
    (hmax : max.toNat = e.limit.toNat % 4294967296) :
    Tells (appended (amlDwordAsDesc type_ 4 8 0 0 min max trans len typeFlags)) type_.toNat
      4294967296 e := by
  refine tells_amlAsDesc rfl (by decide) (by decide) rfl ?_ (by simpa using hmin)
    (by simpa using hmax)
  simp only [List.forall_mem_cons, UInt32.toNat_toUInt64]
  exact ⟨UInt32.toNat_lt _, UInt32.toNat_lt _, UInt32.toNat_lt _, UInt32.toNat_lt _,
    UInt32.toNat_lt _, by simp⟩

/-- A descriptor with 64-bit bounds. -/
theorem tells_qword (trans len : UInt64) (e : CrsRangeEntry) :
    Tells (appended (amlQwordAsDesc type_ 4 8 0 0 e.base e.limit trans len typeFlags)) type_.toNat
      18446744073709551616 e := by
  refine tells_amlAsDesc rfl (by decide) (by decide) rfl ?_
    (Nat.mod_eq_of_lt e.base.toNat_lt).symm (Nat.mod_eq_of_lt e.limit.toNat_lt).symm
  simp only [List.forall_mem_cons]
  exact ⟨UInt64.toNat_lt _, UInt64.toNat_lt _, UInt64.toNat_lt _, UInt64.toNat_lt _,
    UInt64.toNat_lt _, by simp⟩

end Calls

/-! ## What a bus decodes -/

/-- The last address of a region. -/
def AmlBuild.PCIIORegion.range (r : PCIIORegion) : CrsRangeEntry := ⟨r.addr, r.addr + r.size - 1⟩

/-- The ranges of ports or of memory that a device decodes: its regions, and the
windows of a bridge. -/
def AmlBuild.PCIDevice.decodes (dev : PCIDevice) (io : Bool) : List CrsRangeEntry :=
  ((dev.ioRegions.toList.filter fun r => r.isIo == io).map PCIIORegion.range ++
    if dev.isBridge then if io then [dev.ioWindow] else [dev.memoryWindow, dev.prefetchWindow]
    else []).filter CrsRangeEntry.IsRegion

/-- The devices that are plugged in. -/
def AmlBuild.PCIBus.present (bus : PCIBus) : List PCIDevice := bus.devices.toList.reduceOption

/-- The ranges that are decoded on a bus. -/
def AmlBuild.PCIBus.decodes (bus : PCIBus) (io : Bool) : List CrsRangeEntry :=
  bus.present.flatMap fun dev => dev.decodes io

/-- The last bus so far, after a bridge: the larger of the two. -/
def laterBus (maxBus subordinate : UInt8) : UInt8 :=
  if subordinate > maxBus then subordinate else maxBus

/-- The last bus behind a host bridge. -/
def AmlBuild.PCIBus.lastBus (bus : PCIBus) : UInt8 :=
  ((bus.present.filter PCIDevice.isBridge).map PCIDevice.subordinateBus).foldl laterBus bus.num

/-- Below 4 GiB. -/
def AmlBuild.CrsRangeEntry.IsLow (e : CrsRangeEntry) : Prop := e.limit ≤ 0xffffffff

instance (e : CrsRangeEntry) : Decidable e.IsLow := inferInstanceAs (Decidable (_ ≤ _))

/-- The set of some ranges of ports and of memory. -/
def rangeSetOf (io memory : List CrsRangeEntry) : CrsRangeSet where
  ioRanges := io
  memRanges := memory.filter CrsRangeEntry.IsLow
  mem64bitRanges := memory.filter fun e => ¬ e.IsLow

/-- Add the ranges of another set. -/
def AmlBuild.CrsRangeSet.append (set set' : CrsRangeSet) : CrsRangeSet where
  ioRanges := set.ioRanges ++ set'.ioRanges
  memRanges := set.memRanges ++ set'.memRanges
  mem64bitRanges := set.mem64bitRanges ++ set'.mem64bitRanges

/-! ## The loop over the devices -/

section Collect

variable (set : CrsRangeSet) (e : CrsRangeEntry)

/-- Sets are added range by range. -/
theorem append_rangeSetOf (io io' memory memory' : List CrsRangeEntry) :
    (set.append (rangeSetOf io memory)).append (rangeSetOf io' memory') =
      set.append (rangeSetOf (io ++ io') (memory ++ memory')) := by
  simp [CrsRangeSet.append, rangeSetOf]

/-- Adding no range changes nothing. -/
theorem append_nil_rangeSetOf : set.append (rangeSetOf [] []) = set := by
  simp [CrsRangeSet.append, rangeSetOf]

/-- A range of ports is added to the ports. -/
theorem collectIo_eq : collectIo set e.base e.limit = set.append (rangeSetOf [e] []) := by
  simp [collectIo, CrsRangeSet.append, rangeSetOf, crsRangeInsert]

/-- A range of memory is added below or above 4 GiB. -/
theorem collectMemory_eq (h : e.IsRegion) :
    collectMemory set e.base e.limit = set.append (rangeSetOf [] [e]) := by
  have hpos : 0 < e.base.toNat := UInt64.lt_iff_toNat_lt.mp h.1
  have hlength : e.IsLow → e.limit - e.base + 1 ≤ 0xffffffff := by
    intro hlow
    have hlimit : e.limit.toNat ≤ 0xffffffff := UInt64.le_iff_toNat_le.mp hlow
    have hsub := UInt64.toNat_sub_of_le _ _ h.2
    refine UInt64.le_iff_toNat_le.mpr ?_
    rw [UInt64.toNat_add, hsub]
    refine (Nat.mod_le _ _).trans (?_ : e.limit.toNat - e.base.toNat + 1 ≤ 0xffffffff)
    omega
  rw [collectMemory]
  by_cases hlow : e.IsLow
  · rw [if_pos ⟨hlow, hlength hlow⟩]
    simp [CrsRangeSet.append, rangeSetOf, crsRangeInsert, hlow]
  · rw [if_neg fun hand => hlow hand.1]
    simp [CrsRangeSet.append, rangeSetOf, crsRangeInsert, hlow]

/-- The ranges of some regions. -/
def decodedRegions (rs : List PCIIORegion) (io : Bool) : List CrsRangeEntry :=
  ((rs.filter fun r => r.isIo == io).map PCIIORegion.range).filter CrsRangeEntry.IsRegion

/-- A register of a device adds the range that it decodes, if it decodes one. -/
theorem collectRegion_eq (r : PCIIORegion) :
    collectRegion set r =
      set.append (rangeSetOf (decodedRegions [r] true) (decodedRegions [r] false)) := by
  have hskip : (r.addr = 0 ∨ r.addr > r.addr + r.size - 1) ↔ ¬ r.range.IsRegion := by
    rw [CrsRangeEntry.IsRegion, PCIIORegion.range, not_and_or, UInt64.not_lt, UInt64.not_le,
      UInt64.le_zero_iff]
  rw [collectRegion]
  by_cases hregion : r.range.IsRegion
  · rw [if_neg (not_not_intro hregion ∘ hskip.mp)]
    cases hio : r.isIo with
    | true =>
      rw [if_pos rfl]
      refine (collectIo_eq set r.range).trans ?_
      simp [decodedRegions, hio, hregion]
    | false =>
      rw [if_neg Bool.false_ne_true]
      refine (collectMemory_eq set r.range hregion).trans ?_
      simp [decodedRegions, hio, hregion]
  · rw [if_pos (hskip.mpr hregion)]
    cases hio : r.isIo <;> simp [decodedRegions, hio, hregion, append_nil_rangeSetOf]

/-- The registers of a device add the ranges that they decode. -/
theorem foldl_collectRegion (rs : List PCIIORegion) :
    rs.foldl collectRegion set =
      set.append (rangeSetOf (decodedRegions rs true) (decodedRegions rs false)) := by
  induction rs generalizing set with
  | nil => exact (append_nil_rangeSetOf set).symm
  | cons r rs ih =>
    have hcons (io : Bool) : decodedRegions [r] io ++ decodedRegions rs io =
        decodedRegions (r :: rs) io := by
      rw [decodedRegions, decodedRegions, decodedRegions, ← List.filter_append, ← List.map_append,
        ← List.filter_append, List.singleton_append]
    rw [List.foldl_cons, ih, collectRegion_eq, append_rangeSetOf, hcons, hcons]

/-- The test on a window is the one on collected ranges. -/
theorem isWindow_iff : e.base ≠ 0 ∧ e.base ≤ e.limit ↔ e.IsRegion := by
  rw [CrsRangeEntry.IsRegion, UInt64.pos_iff_ne_zero]

/-- A window of ports is added when it is a collected range. -/
theorem collectWindow_collectIo :
    collectWindow collectIo set e =
      set.append (rangeSetOf ([e].filter CrsRangeEntry.IsRegion) []) := by
  rw [collectWindow]
  by_cases hregion : e.IsRegion
  · rw [if_pos ((isWindow_iff e).mpr hregion), collectIo_eq]
    simp [hregion]
  · rw [if_neg (mt (isWindow_iff e).mp hregion)]
    simp [hregion, append_nil_rangeSetOf]

/-- A window of memory is added when it is a collected range. -/
theorem collectWindow_collectMemory :
    collectWindow collectMemory set e =
      set.append (rangeSetOf [] ([e].filter CrsRangeEntry.IsRegion)) := by
  rw [collectWindow]
  by_cases hregion : e.IsRegion
  · rw [if_pos ((isWindow_iff e).mpr hregion), collectMemory_eq set e hregion]
    simp [hregion]
  · rw [if_neg (mt (isWindow_iff e).mp hregion)]
    simp [hregion, append_nil_rangeSetOf]

end Collect

/-- A device adds what it decodes, and a bridge also the last bus behind it. -/
theorem collectDevice_some (set : CrsRangeSet) (maxBus : UInt8) (dev : PCIDevice) :
    collectDevice (set, maxBus) (some dev) =
      (set.append (rangeSetOf (dev.decodes true) (dev.decodes false)),
        if dev.isBridge then laterBus maxBus dev.subordinateBus else maxBus) := by
  have hpair : ([dev.memoryWindow].filter CrsRangeEntry.IsRegion) ++
      ([dev.prefetchWindow].filter CrsRangeEntry.IsRegion) =
        [dev.memoryWindow, dev.prefetchWindow].filter CrsRangeEntry.IsRegion := by
    rw [← List.filter_append, List.singleton_append]
  rw [collectDevice, foldl_collectRegion]
  cases hbridge : dev.isBridge with
  | true =>
    simp only [if_true, collectWindow_collectIo, collectWindow_collectMemory, append_rangeSetOf,
      PCIDevice.decodes, hbridge, List.filter_append, decodedRegions, List.append_nil,
      List.append_assoc, Bool.false_eq_true, if_false, hpair]
    rfl
  | false => simp [PCIDevice.decodes, hbridge, decodedRegions]

/-- The loop over the devices adds what all of them decode, and takes the largest
of the last buses. -/
theorem foldl_collectDevice_eq (devices : List (Option PCIDevice)) (set : CrsRangeSet)
    (maxBus : UInt8) :
    devices.foldl collectDevice (set, maxBus) =
      (set.append (rangeSetOf (devices.reduceOption.flatMap fun dev => dev.decodes true)
        (devices.reduceOption.flatMap fun dev => dev.decodes false)),
      ((devices.reduceOption.filter PCIDevice.isBridge).map PCIDevice.subordinateBus).foldl laterBus
        maxBus) := by
  induction devices generalizing set maxBus with
  | nil => exact Prod.ext (append_nil_rangeSetOf set).symm rfl
  | cons dev devices ih =>
    cases dev with
    | none => exact ih set maxBus
    | some dev =>
      rw [List.foldl_cons, collectDevice_some, ih, append_rangeSetOf]
      rw [List.reduceOption_cons_of_some]
      cases hbridge : dev.isBridge <;> simp [hbridge]

/-- **The loop collects what the bus decodes.** -/
theorem foldl_collectDevice (bus : PCIBus) :
    bus.devices.toList.foldl collectDevice (crsRangeSetInit, bus.num) =
      (rangeSetOf (bus.decodes true) (bus.decodes false), bus.lastBus) := by
  rw [foldl_collectDevice_eq]
  rfl

/-! ## The resources of a host bridge -/

/-- The ranges that a host bridge uses, with neighbours joined. -/
def mergedSet (bus : PCIBus) : CrsRangeSet where
  ioRanges := crsRangeMerge (bus.decodes true)
  memRanges := crsRangeMerge ((bus.decodes false).filter CrsRangeEntry.IsLow)
  mem64bitRanges := crsRangeMerge ((bus.decodes false).filter fun e => ¬ e.IsLow)

/-- The bus numbers behind a host bridge. -/
def busRange (bus : PCIBus) : CrsRangeEntry := ⟨bus.num.toUInt64, bus.lastBus.toUInt64⟩

/-- The record of a range of ports. -/
def portRecord (ioOffset : UInt32) (e : CrsRangeEntry) : Bytes :=
  appended (amlDwordIo 4 8 0 3 0 e.base.toUInt32 e.limit.toUInt32 ioOffset
    (e.limit - e.base + 1).toUInt32)

/-- The record of a range of memory below 4 GiB. -/
def lowRecord (mmio32Offset : UInt32) (e : CrsRangeEntry) : Bytes :=
  appended (amlDwordMemory 0 4 8 0 1 0 e.base.toUInt32 e.limit.toUInt32 mmio32Offset
    (e.limit - e.base + 1).toUInt32)

/-- The record of a range of memory that ends above 4 GiB. -/
def highRecord (cacheable : UInt8) (mmio64Offset : UInt64) (e : CrsRangeEntry) : Bytes :=
  appended (amlQwordMemory 0 4 8 cacheable 1 0 e.base e.limit mmio64Offset (e.limit - e.base + 1))

/-- The record of the bus numbers. -/
def busRecord (bus : PCIBus) (busNrOffset : UInt16) : Bytes :=
  appended (amlWordBusNumber 4 8 0 0 bus.num.toUInt16 bus.lastBus.toUInt16 busNrOffset
    (bus.lastBus.toUInt16 - bus.num.toUInt16 + 1))

/-- The record of a port range tells its ports. -/
theorem tells_portRecord (ioOffset : UInt32) (e : CrsRangeEntry) :
    Tells (portRecord ioOffset e) 1 4294967296 e :=
  tells_dword 1 3 ioOffset _ (UInt64.toNat_toUInt32 _) (UInt64.toNat_toUInt32 _)

/-- The record of a memory range below 4 GiB tells its addresses. -/
theorem tells_lowRecord (mmio32Offset : UInt32) (e : CrsRangeEntry) :
    Tells (lowRecord mmio32Offset e) 0 4294967296 e :=
  tells_dword 0 1 mmio32Offset _ (UInt64.toNat_toUInt32 _) (UInt64.toNat_toUInt32 _)

/-- The record of a 64-bit memory range tells its addresses. -/
theorem tells_highRecord (cacheable : UInt8) (mmio64Offset : UInt64) (e : CrsRangeEntry) :
    Tells (highRecord cacheable mmio64Offset e) 0 18446744073709551616 e :=
  tells_qword 0 ((1 : UInt8) ||| (cacheable <<< 1)) mmio64Offset _ e

/-- The record of the buses tells their numbers. -/
theorem tells_busRecord (bus : PCIBus) (busNrOffset : UInt16) :
    Tells (busRecord bus busNrOffset) 2 65536 (busRange bus) := by
  refine tells_word 2 0 busNrOffset _ ?_ ?_
  · simp [busRange]
  · simp [busRange]

/-- The records of a host bridge. -/
def hostRecords (bus : PCIBus) (ioOffset mmio32Offset : UInt32) (mmio64Offset : UInt64)
    (busNrOffset : UInt16) : List Bytes :=
  (mergedSet bus).ioRanges.map (portRecord ioOffset) ++
    (mergedSet bus).memRanges.map (lowRecord mmio32Offset) ++
    (mergedSet bus).mem64bitRanges.map (highRecord 0 mmio64Offset) ++ [busRecord bus busNrOffset]

/-- Merged ranges are regions, and end where some range does. -/
theorem isRegion_of_mem_merge {ranges : List CrsRangeEntry} (h : ∀ e ∈ ranges, e.IsRegion)
    {e : CrsRangeEntry} (he : e ∈ crsRangeMerge ranges) :
    e.IsRegion ∧ ∃ e' ∈ ranges, e.limit ≤ e'.limit := by
  obtain ⟨hle, hbase, hlimit⟩ := mem_merge_ends h he
  obtain ⟨e₁, he₁, hlo, -⟩ := mem_addresses.mp hbase
  obtain ⟨e₂, he₂, -, hhi⟩ := mem_addresses.mp hlimit
  refine ⟨⟨?_, UInt64.le_iff_toNat_le.mpr hle⟩, e₂, he₂, UInt64.le_iff_toNat_le.mpr hhi⟩
  exact UInt64.lt_of_lt_of_le (h e₁ he₁).1 (UInt64.le_iff_toNat_le.mpr hlo)

/-- What a bus decodes are collected ranges. -/
theorem isRegion_decodes {bus : PCIBus} {io : Bool} : ∀ e ∈ bus.decodes io, e.IsRegion := by
  intro e he
  obtain ⟨dev, -, he⟩ := List.mem_flatMap.mp he
  exact of_decide_eq_true (List.mem_filter.mp he).2

/-- The ranges of a set of some kind. -/
theorem addresses_append (ranges ranges' : List CrsRangeEntry) :
    addresses (ranges ++ ranges') = addresses ranges ∪ addresses ranges' := by
  ext x
  simp [mem_addresses, or_and_right, exists_or]

/-- Memory is divided at 4 GiB. -/
theorem addresses_low_high (memory : List CrsRangeEntry) :
    addresses (memory.filter CrsRangeEntry.IsLow) ∪ addresses (memory.filter fun e => ¬ e.IsLow) =
      addresses memory := by
  ext x
  simp only [Set.mem_union, mem_addresses, List.mem_filter, decide_eq_true_eq]
  grind

section Merged

variable (bus : PCIBus)

/-- Merging keeps the ports of a bus. -/
theorem addresses_mergedSet_io :
    addresses (mergedSet bus).ioRanges = addresses (bus.decodes true) :=
  addresses_crsRangeMerge isRegion_decodes

/-- Merging keeps the memory of a bus, below and above 4 GiB. -/
theorem addresses_mergedSet_mem :
    addresses (mergedSet bus).memRanges ∪ addresses (mergedSet bus).mem64bitRanges =
      addresses (bus.decodes false) := by
  rw [mergedSet, addresses_crsRangeMerge fun e he => isRegion_decodes e (List.mem_filter.mp he).1,
    addresses_crsRangeMerge fun e he => isRegion_decodes e (List.mem_filter.mp he).1,
    addresses_low_high]

/-- The merged ranges are collected ranges, and the memory below 4 GiB lies there. -/
theorem isRegion_mergedSet : (∀ e ∈ (mergedSet bus).ioRanges, e.IsRegion) ∧
    (∀ e ∈ (mergedSet bus).memRanges, e.IsRegion ∧ e.IsLow) ∧
    ∀ e ∈ (mergedSet bus).mem64bitRanges, e.IsRegion := by
  refine ⟨fun e he => (isRegion_of_mem_merge isRegion_decodes he).1, fun e he => ?_, fun e he => ?_⟩
  · obtain ⟨hregion, e', he', hle⟩ :=
      isRegion_of_mem_merge (fun e he => isRegion_decodes e (List.mem_filter.mp he).1) he
    exact ⟨hregion, UInt64.le_trans hle (of_decide_eq_true (List.mem_filter.mp he').2)⟩
  · exact (isRegion_of_mem_merge (fun e he => isRegion_decodes e (List.mem_filter.mp he).1) he).1

variable {bus}

/-- Ports below 4 GiB stay below it when they are merged. -/
theorem isLow_mergedSet_io (hio : ∀ e ∈ bus.decodes true, e.IsLow) :
    ∀ e ∈ (mergedSet bus).ioRanges, e.IsLow := by
  intro e he
  obtain ⟨-, e', he', hle⟩ := isRegion_of_mem_merge isRegion_decodes he
  exact UInt64.le_trans hle (hio e' he')

end Merged

/-- A region below 4 GiB is no longer than its limit. -/
theorem length_le_of_isLow {e : CrsRangeEntry} (h : e.IsRegion) (hlow : e.IsLow) :
    e.limit - e.base + 1 ≤ 0xffffffff := by
  have hpos : 0 < e.base.toNat := UInt64.lt_iff_toNat_lt.mp h.1
  have hlimit : e.limit.toNat ≤ 0xffffffff := UInt64.le_iff_toNat_le.mp hlow
  refine UInt64.le_iff_toNat_le.mpr ?_
  rw [UInt64.toNat_add, UInt64.toNat_sub_of_le _ _ h.2]
  refine (Nat.mod_le _ _).trans (?_ : e.limit.toNat - e.base.toNat + 1 ≤ 0xffffffff)
  omega

section Loops

variable {l : List CrsRangeEntry} (records : List Bytes) (set : CrsRangeSet)

/-- The loop over the port ranges appends their records and notes that they are in
use. -/
theorem foldl_crsIoStep (l : List CrsRangeEntry) (ioOffset : UInt32) :
    l.foldl (crsIoStep ioOffset) (recordTemplate records, set) =
      (recordTemplate (records ++ l.map (portRecord ioOffset)), set.append ⟨l, [], []⟩) := by
  induction l generalizing records set with
  | nil => simp [CrsRangeSet.append]
  | cons e l ih =>
    rw [List.foldl_cons, crsIoStep, amlAppend_recordTemplate, ih]
    simp [CrsRangeSet.append, crsRangeInsert, portRecord]

/-- The assertion of the loop over the memory holds of what was collected. -/
theorem foldlM_crsMemStep (h : ∀ e ∈ l, e.IsRegion ∧ e.IsLow) (mmio32Offset : UInt32) :
    l.foldlM (crsMemStep mmio32Offset) (recordTemplate records, set) =
      .ok (recordTemplate (records ++ l.map (lowRecord mmio32Offset)),
        set.append ⟨[], l, []⟩) := by
  induction l generalizing records set with
  | nil => simp [CrsRangeSet.append]
  | cons e l ih =>
    obtain ⟨⟨hregion, hlow⟩, hl⟩ := List.forall_mem_cons.mp h
    rw [List.foldlM_cons, crsMemStep, ensure_of ⟨hlow, length_le_of_isLow hregion hlow⟩,
      Checked.ok_bind, amlAppend_recordTemplate, pure_bind, ih _ _ hl]
    simp [CrsRangeSet.append, crsRangeInsert, lowRecord]

/-- The loop over the 64-bit memory ranges appends their records and notes that
they are in use. -/
theorem foldl_crsMem64Step (l : List CrsRangeEntry) (mmio64Offset : UInt64) :
    l.foldl (crsMem64Step mmio64Offset) (recordTemplate records, set) =
      (recordTemplate (records ++ l.map (highRecord 0 mmio64Offset)),
        set.append ⟨[], [], l⟩) := by
  induction l generalizing records set with
  | nil => simp [CrsRangeSet.append]
  | cons e l ih =>
    rw [List.foldl_cons, crsMem64Step, amlAppend_recordTemplate, ih]
    simp [CrsRangeSet.append, crsRangeInsert, highRecord]

end Loops

/-! ## Bus numbers -/

/-- The last bus after a bridge is at least as large as either. -/
theorem le_laterBus {x : ℕ} {maxBus subordinate : UInt8} :
    x ≤ (laterBus maxBus subordinate).toNat ↔ x ≤ maxBus.toNat ∨ x ≤ subordinate.toNat := by
  rw [laterBus]
  by_cases hlt : subordinate > maxBus
  · have hlt' := UInt8.lt_iff_toNat_lt.mp hlt
    rw [if_pos hlt]
    omega
  · have hge := mt UInt8.lt_iff_toNat_lt.mpr hlt
    rw [if_neg hlt]
    omega

/-- The last bus of all bridges is at least as large as each of them. -/
theorem le_foldl_laterBus {x : ℕ} {subordinates : List UInt8} {maxBus : UInt8} :
    x ≤ (subordinates.foldl laterBus maxBus).toNat ↔
      x ≤ maxBus.toNat ∨ ∃ s ∈ subordinates, x ≤ s.toNat := by
  induction subordinates generalizing maxBus with
  | nil => simp
  | cons s subordinates ih => simp [ih, le_laterBus, or_assoc]

/-- The last bus is that of the host bridge or behind a bridge. -/
theorem le_lastBus {x : ℕ} {bus : PCIBus} :
    x ≤ bus.lastBus.toNat ↔
      x ≤ bus.num.toNat ∨
        ∃ dev ∈ bus.present, dev.isBridge = true ∧ x ≤ dev.subordinateBus.toNat := by
  simp only [PCIBus.lastBus, le_foldl_laterBus, List.mem_map, List.mem_filter]
  grind

/-- **What `build_crs` returns**: a template of the merged ranges, which are added
to the ranges in use. No assertion fails. -/
theorem buildCrs_eq (bus : PCIBus) (set : CrsRangeSet) (ioOffset mmio32Offset : UInt32)
    (mmio64Offset : UInt64) (busNrOffset : UInt16) :
    buildCrs bus set ioOffset mmio32Offset mmio64Offset busNrOffset =
      .ok (recordTemplate (hostRecords bus ioOffset mmio32Offset mmio64Offset busNrOffset),
        set.append (mergedSet bus)) := by
  have hports : (mergedSet bus).ioRanges.foldl (crsIoStep ioOffset) (amlResourceTemplate, set) =
      _ := foldl_crsIoStep [] set _ ioOffset
  rw [buildCrs, foldl_collectDevice]
  dsimp only [rangeSetOf]
  change (do
    let state ← (mergedSet bus).memRanges.foldlM (crsMemStep mmio32Offset)
      ((mergedSet bus).ioRanges.foldl (crsIoStep ioOffset) (amlResourceTemplate, set))
    let last := (mergedSet bus).mem64bitRanges.foldl (crsMem64Step mmio64Offset) state
    return (amlAppend last.1 _, last.2)) = _
  rw [hports, foldlM_crsMemStep _ _ (isRegion_mergedSet bus).2.1, Checked.ok_bind,
    foldl_crsMem64Step]
  dsimp only
  rw [amlAppend_recordTemplate]
  simp [hostRecords, busRecord, CrsRangeSet.append]

/-! ## What is declared -/

/-- A bus has 256 devices with at most nine ranges of a kind. -/
theorem length_decodes_le (bus : PCIBus) (io : Bool) : (bus.decodes io).length ≤ 2304 := by
  have hdev : ∀ dev ∈ bus.present, (dev.decodes io).length ≤ 9 := by
    intro dev _
    refine (List.length_filter_le ..).trans ?_
    have hregions := List.length_filter_le (fun r => r.isIo == io) dev.ioRegions.toList
    rw [Vector.length_toList] at hregions
    rw [List.length_append, List.length_map]
    have hwindows : (if dev.isBridge then if io then [dev.ioWindow]
        else [dev.memoryWindow, dev.prefetchWindow] else []).length ≤ 2 := by
      cases dev.isBridge <;> cases io <;> simp
    omega
  have hpresent : bus.present.length ≤ 256 := by
    have := List.reduceOption_length_le bus.devices.toList
    rwa [Vector.length_toList] at this
  exact (length_flatMap_le_mul hdev).trans (Nat.mul_le_mul_left 9 hpresent)

/-- The resources of a bus are records of one descriptor each, and short enough for
their buffer. -/
theorem hostRecords_wellFormed (bus : PCIBus) (ioOffset mmio32Offset : UInt32)
    (mmio64Offset : UInt64) (busNrOffset : UInt16) :
    (∀ r ∈ hostRecords bus ioOffset mmio32Offset mmio64Offset busNrOffset,
      IsRecord descriptorSize r) ∧
    (hostRecords bus ioOffset mmio32Offset mmio64Offset busNrOffset).flatten.length <
      268435456 := by
  have hall : ∀ r ∈ hostRecords bus ioOffset mmio32Offset mmio64Offset busNrOffset,
      IsRecord descriptorSize r ∧ r.length ≤ 46 := by
    simp only [hostRecords, List.forall_mem_append, List.forall_mem_map, List.forall_mem_singleton]
    exact ⟨⟨⟨fun e _ => ⟨(tells_portRecord ioOffset e).1, (tells_portRecord ioOffset e).2⟩,
      fun e _ => ⟨(tells_lowRecord mmio32Offset e).1, (tells_lowRecord mmio32Offset e).2⟩⟩,
      fun e _ => ⟨(tells_highRecord 0 mmio64Offset e).1, (tells_highRecord 0 mmio64Offset e).2⟩⟩,
      (tells_busRecord bus busNrOffset).1, (tells_busRecord bus busNrOffset).2⟩
  refine ⟨fun r hr => (hall r hr).1, length_flatten_lt (fun r hr => (hall r hr).2) ?_⟩
  have hports := (length_crsRangeMerge_le _).trans (length_decodes_le bus true)
  have hmemory := length_decodes_le bus false
  have hlower := (length_crsRangeMerge_le _).trans
    ((List.length_filter_le (fun e : CrsRangeEntry => e.IsLow) _).trans hmemory)
  have hupper := (length_crsRangeMerge_le _).trans
    ((List.length_filter_le (fun e : CrsRangeEntry => ¬ e.IsLow) _).trans hmemory)
  simp only [hostRecords, mergedSet, List.length_append, List.length_map, List.length_singleton]
  omega

/-- What a host bridge declares, whatever the size of its ports. -/
theorem mem_declared_hostRecords {bus : PCIBus} {ioOffset mmio32Offset : UInt32}
    {mmio64Offset : UInt64} {busNrOffset : UInt16} :
    x ∈ declared (appended (recordTemplate
        (hostRecords bus ioOffset mmio32Offset mmio64Offset busNrOffset))) kind ↔
      kind = 1 ∧ x ∈ windowed 4294967296 (mergedSet bus).ioRanges ∨
        kind = 0 ∧ x ∈ addresses (bus.decodes false) ∨
          kind = 2 ∧ bus.num.toNat ≤ x ∧ x ≤ bus.lastBus.toNat := by
  obtain ⟨-, hlow, hhigh⟩ := isRegion_mergedSet bus
  obtain ⟨hrecords, hlen⟩ :=
    hostRecords_wellFormed bus ioOffset mmio32Offset mmio64Offset busNrOffset
  have hlower : windowed 4294967296 (mergedSet bus).memRanges =
      addresses (mergedSet bus).memRanges := windowed_eq fun e he =>
    ⟨(hlow e he).1.2, Nat.lt_succ_of_le (UInt64.le_iff_toNat_le.mp (hlow e he).2)⟩
  have hupper : windowed 18446744073709551616 (mergedSet bus).mem64bitRanges =
      addresses (mergedSet bus).mem64bitRanges :=
    windowed_eq fun e he => ⟨(hhigh e he).2, e.limit.toNat_lt⟩
  have hbus : Declares (busRecord bus busNrOffset) kind x ↔
      kind = 2 ∧ bus.num.toNat ≤ x ∧ x ≤ bus.lastBus.toNat := by
    have hcut (b : UInt8) : b.toNat % 65536 = b.toNat :=
      Nat.mod_eq_of_lt (b.toNat_lt.trans (by decide))
    rw [(tells_busRecord bus busNrOffset).declares]
    simp only [busRange, UInt8.toNat_toUInt64, hcut]
  rw [mem_declared_recordTemplate hrecords hlen, hostRecords]
  simp only [List.mem_append, or_and_right, exists_or, List.mem_singleton, exists_eq_left, hbus]
  rw [exists_declares (tells_portRecord ioOffset), exists_declares (tells_lowRecord mmio32Offset),
    exists_declares (tells_highRecord 0 mmio64Offset), hlower, hupper, ← addresses_mergedSet_mem,
    Set.mem_union]
  grind

/-- Ports with 32-bit numbers are declared as they are. -/
theorem windowed_ioRanges {bus : PCIBus} (hio : ∀ e ∈ bus.decodes true, e.IsLow) :
    windowed 4294967296 (mergedSet bus).ioRanges = addresses (bus.decodes true) := by
  rw [windowed_eq, addresses_mergedSet_io]
  exact fun e he => ⟨((isRegion_mergedSet bus).1 e he).2,
    Nat.lt_succ_of_le (UInt64.le_iff_toNat_le.mp (isLow_mergedSet_io hio e he))⟩

/-- **A host bridge declares what its bus decodes.** For every bus whose ports have
32-bit numbers the resources are built, with no assertion that fails; the windows
that are read from them are the ports, the memory and the bus numbers behind the
bridge, and nothing else. The ranges in use grow by just these. -/
theorem buildCrs_declares {bus : PCIBus} (hio : ∀ e ∈ bus.decodes true, e.IsLow)
    (set : CrsRangeSet) (ioOffset mmio32Offset : UInt32) (mmio64Offset : UInt64)
    (busNrOffset : UInt16) :
    ∃ crs set', buildCrs bus set ioOffset mmio32Offset mmio64Offset busNrOffset = .ok (crs, set') ∧
      (∃ ws, windows (appended crs) = some ws) ∧
      declared (appended crs) 1 = addresses (bus.decodes true) ∧
      declared (appended crs) 0 = addresses (bus.decodes false) ∧
      declared (appended crs) 2 = {n | bus.num.toNat ≤ n ∧ n ≤ bus.lastBus.toNat} ∧
      addresses set'.ioRanges = addresses set.ioRanges ∪ addresses (bus.decodes true) ∧
      addresses set'.memRanges ∪ addresses set'.mem64bitRanges =
        addresses set.memRanges ∪ addresses set.mem64bitRanges ∪ addresses (bus.decodes false) := by
  obtain ⟨hrecords, hlen⟩ :=
    hostRecords_wellFormed bus ioOffset mmio32Offset mmio64Offset busNrOffset
  refine ⟨_, _, buildCrs_eq bus set ioOffset mmio32Offset mmio64Offset busNrOffset,
    ⟨_, windows_recordTemplate hrecords hlen⟩, ?_, ?_, ?_, ?_, ?_⟩
  · ext x
    simp [mem_declared_hostRecords, windowed_ioRanges hio]
  · ext x
    simp [mem_declared_hostRecords]
  · ext x
    simp [mem_declared_hostRecords]
  · rw [CrsRangeSet.append, addresses_append, addresses_mergedSet_io]
  · rw [CrsRangeSet.append, addresses_append, addresses_append, ← addresses_mergedSet_mem,
      Set.union_union_union_comm]

/-- A bus with one device. -/
def singleBus (num : UInt8) (dev : PCIDevice) : PCIBus :=
  ⟨num, (Vector.replicate 256 none).set 8 (some dev)⟩

/-- A network card: its registers, its ports and a region above 4 GiB. -/
def networkCard (n : UInt64) : PCIDevice where
  ioRegions := #v[⟨0xfea00000 + n * 0x20000, 0x20000, 0⟩, ⟨0xc000 + n * 0x20, 0x20, 1⟩, ⟨0, 0, 0⟩,
    ⟨0x800000000 + n * 0x4000, 0x4000, 4⟩, ⟨0, 0, 0⟩, ⟨0, 0, 0⟩, ⟨0, 0, 0⟩]
  headerType := 0
  subordinateBus := 0
  ioWindow := ⟨0, 0⟩
  memoryWindow := ⟨0, 0⟩
  prefetchWindow := ⟨0, 0⟩

theorem buildCrs_declares_networkCard :
    ∃ crs set',
      buildCrs (singleBus 0x10 (networkCard 0)) crsRangeSetInit 0 0 0 0 = .ok (crs, set') ∧
      (∃ ws, windows (appended crs) = some ws) ∧
      declared (appended crs) 1 = addresses ((singleBus 0x10 (networkCard 0)).decodes true) ∧
      declared (appended crs) 0 = addresses ((singleBus 0x10 (networkCard 0)).decodes false) ∧
      declared (appended crs) 2 = {n | (singleBus 0x10 (networkCard 0)).num.toNat ≤ n ∧
        n ≤ (singleBus 0x10 (networkCard 0)).lastBus.toNat} ∧
      addresses set'.ioRanges = addresses crsRangeSetInit.ioRanges ∪
        addresses ((singleBus 0x10 (networkCard 0)).decodes true) ∧
      addresses set'.memRanges ∪ addresses set'.mem64bitRanges =
        addresses crsRangeSetInit.memRanges ∪ addresses crsRangeSetInit.mem64bitRanges ∪
          addresses ((singleBus 0x10 (networkCard 0)).decodes false) :=
  buildCrs_declares (by decide +kernel) crsRangeSetInit 0 0 0 0

end AcpiTables
