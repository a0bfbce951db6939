import AcpiTables.EisaId
import AcpiTables.Ivrs

/-!
# The device list of an IVRS

The walk of `insert_ivhd` over a tree of buses, as the list of the entries it
appends (`insertIvhd_eq`), and the ranges that a reader makes of them
(`deviceRanges_ivhdEntries`).

Both follow the tree: `ivhdEntries` and `nodeRanges` are recursive in the node, and
so are the proofs, with a lemma for a node and one for the nodes of a bus. In
between the entries are bytes. Each one is a record whose first byte implies its
length, so the reader finds them again (`walk_entries`), and a pair of entries that
starts and ends a range is read as one. A bridge to a conventional bus has the
requests from behind it carry another number, `aliasOf`.
-/

namespace AcpiTables.AmlBuild

/-! ## Numbers of devices -/

/-- The number of a device on a bus. -/
def requesterId (bus devfn : UInt8) : ℕ := bus.toNat * 256 + devfn.toNat

/-- The number of a device takes sixteen bits. -/
theorem requesterId_lt (bus devfn : UInt8) : requesterId bus devfn < 65536 := by
  have hbus := bus.toNat_lt
  have hdevfn := devfn.toNat_lt
  rw [requesterId]
  omega

/-- `PCI_BUILD_BDF` computes the number. -/
theorem toNat_pciBuildBdf (bus devfn : UInt8) :
    (pciBuildBdf bus devfn).toNat = requesterId bus devfn := by
  have hbus := bus.toNat_lt
  have hdevfn := devfn.toNat_lt
  have hor := Nat.shiftLeft_add_eq_or_of_lt (b := devfn.toNat) (i := 8) (by omega) bus.toNat
  rw [pciBuildBdf, UInt32.toNat_or, UInt32.toNat_shiftLeft, UInt8.toNat_toUInt32,
    UInt8.toNat_toUInt32, requesterId]
  change (bus.toNat <<< 8 % 2 ^ 32) ||| devfn.toNat = _
  rw [Nat.mod_eq_of_lt (by rw [Nat.shiftLeft_eq]; omega), ← hor, Nat.shiftLeft_eq]

/-- The number of an entry lies behind its type. -/
theorem toNat_entry {id : UInt32} (hid : id.toNat < 65536) {type : UInt32}
    (htype : type.toNat < 256) : ((id <<< 8) ||| type).toNat = id.toNat * 256 + type.toNat := by
  have hor := Nat.shiftLeft_add_eq_or_of_lt (b := type.toNat) (i := 8) (by omega) id.toNat
  rw [UInt32.toNat_or, UInt32.toNat_shiftLeft]
  change (id.toNat <<< 8 % 2 ^ 32) ||| type.toNat = _
  rw [Nat.mod_eq_of_lt (by rw [Nat.shiftLeft_eq]; omega), ← hor, Nat.shiftLeft_eq]

/-- The four bytes of an entry, as its fields: type, number and no data. -/
theorem leBytes_entry {id type : ℕ} (hid : id < 65536) (htype : type < 256) :
    leBytes 4 (id * 256 + type) = packFields [(1, type), (2, id), (1, 0)] := by
  have hlow : leBytes 1 (id * 256 + type) = leBytes 1 type := by
    rw [← leBytes_mod, ← leBytes_mod 1 type]
    congr 1
    omega
  have hrest : (id * 256 + type) / 256 ^ 1 = id := by omega
  have hlast : id / 256 ^ 2 = 0 := by omega
  rw [leBytes_add 1 3, hlow, hrest, leBytes_add 2 1, hlast]
  simp

/-! ## Entries -/

/-- The bytes of an entry: its type, its number, no data, and for some kinds four
bytes more. -/
def IvhdEntry.encode : IvhdEntry → Bytes
  | .all => packFields [(1, 0x01), (2, 0), (1, 0)]
  | .select id => packFields [(1, 0x02), (2, id), (1, 0)]
  | .rangeStart id => packFields [(1, 0x03), (2, id), (1, 0)]
  | .rangeEnd id => packFields [(1, 0x04), (2, id), (1, 0)]
  | .aliasRangeStart id source =>
    packFields [(1, 0x43), (2, id), (1, 0), (1, 0), (2, source), (1, 0)]
  | .special source => packFields [(1, 0x48), (2, 0), (1, 0), (1, 0), (2, source), (1, 1)]

/-- The numbers of an entry fit their places. -/
def IvhdEntry.Fits : IvhdEntry → Prop
  | .all => True
  | .select id => id < 65536
  | .rangeStart id => id < 65536
  | .rangeEnd id => id < 65536
  | .aliasRangeStart id source => id < 65536 ∧ source < 65536
  | .special source => source < 65536

/-- An entry is appended as its fields. -/
theorem append_entry (tableData : Bytes) {id : UInt32} (hid : id.toNat < 65536) {type : UInt32}
    (htype : type.toNat < 256) :
    buildAppendIntNoprefix tableData ((id <<< 8) ||| type).toUInt64 4 =
      tableData ++ packFields [(1, type.toNat), (2, id.toNat), (1, 0)] := by
  rw [buildAppendIntNoprefix_eq, UInt32.toNat_toUInt64, toNat_entry hid htype,
    leBytes_entry hid htype]

/-- An entry of a device is appended as its fields. -/
theorem append_bdf (tableData : Bytes) (bus devfn : UInt8) {type : UInt32}
    (htype : type.toNat < 256) :
    buildAppendIntNoprefix tableData ((pciBuildBdf bus devfn <<< 8) ||| type).toUInt64 4 =
      tableData ++ packFields [(1, type.toNat), (2, requesterId bus devfn), (1, 0)] := by
  have hid : (pciBuildBdf bus devfn).toNat < 65536 :=
    toNat_pciBuildBdf bus devfn ▸ requesterId_lt bus devfn
  rw [append_entry tableData hid htype, toNat_pciBuildBdf]

/-- A number in sixteen bits is kept. -/
theorem toNat_bdf_u16 (bus devfn : UInt8) :
    (pciBuildBdf bus devfn).toUInt16.toUInt32.toNat = requesterId bus devfn := by
  rw [UInt16.toNat_toUInt32, UInt32.toNat_toUInt16, toNat_pciBuildBdf]
  exact Nat.mod_eq_of_lt (requesterId_lt bus devfn)

/-- An entry of a device is appended as its fields, also when its number went
through sixteen bits. -/
theorem append_u16 (tableData : Bytes) (bus devfn : UInt8) {type : UInt32}
    (htype : type.toNat < 256) :
    buildAppendIntNoprefix tableData
      (((pciBuildBdf bus devfn).toUInt16.toUInt32 <<< 8) ||| type).toUInt64 4 =
      tableData ++ packFields [(1, type.toNat), (2, requesterId bus devfn), (1, 0)] := by
  have hid : (pciBuildBdf bus devfn).toUInt16.toUInt32.toNat < 65536 :=
    toNat_bdf_u16 bus devfn ▸ requesterId_lt bus devfn
  rw [append_entry tableData hid htype, toNat_bdf_u16]

/-- The number that the requests from behind a conventional bus carry. -/
def aliasOf (bus devfn sec : UInt8) (pcieBridge : Bool) : ℕ :=
  if pcieBridge then requesterId sec 0 else requesterId bus devfn

mutual

/-- `insertIvhd`, as the entries it appends. -/
def ivhdEntries (bus : UInt8) : PciNode → List IvhdEntry
  | .endpoint devfn => [.select (requesterId bus devfn)]
  | .bridge devfn sec sub secIsExpress pcieBridge devices =>
    .select (requesterId bus devfn) ::
      if secIsExpress then
        if sec = sub then [.rangeStart (requesterId sec 0), .rangeEnd (requesterId sub 255)]
        else ivhdEntriesEach sec devices
      else [.aliasRangeStart (requesterId sec 0) (aliasOf bus devfn sec pcieBridge),
        .rangeEnd (requesterId sub 255)]

/-- The entries of several nodes of one bus. -/
def ivhdEntriesEach (bus : UInt8) : List PciNode → List IvhdEntry
  | [] => []
  | dev :: devices => ivhdEntries bus dev ++ ivhdEntriesEach bus devices

end

/-- What is appended for a bus without bridges. -/
theorem append_range (tableData : Bytes) (sec sub : UInt8) :
    buildAppendIntNoprefix
      ( buildAppendIntNoprefix tableData
        ((pciBuildBdf sec (pciDevfn 0 0) <<< 8) ||| 0x3).toUInt64 4)
      ((pciBuildBdf sub (pciDevfn 31 7) <<< 8) ||| 0x4).toUInt64 4 =
      tableData ++ [IvhdEntry.rangeStart (requesterId sec 0),
        .rangeEnd (requesterId sub 255)].flatMap IvhdEntry.encode := by
  have hfirst : pciDevfn 0 0 = 0 := rfl
  have hlast : pciDevfn 31 7 = 255 := rfl
  rw [hfirst, hlast, append_bdf _ _ _ (by decide), append_bdf _ _ _ (by decide),
    List.append_assoc]
  rfl

/-- What is appended for a conventional bus. -/
theorem append_alias (tableData : Bytes) (bus devfn sec sub : UInt8) (pcieBridge : Bool) :
    buildAppendIntNoprefix
      ( buildAppendIntNoprefix
        ( buildAppendIntNoprefix tableData
          (((pciBuildBdf sec (pciDevfn 0 0)).toUInt16.toUInt32 <<< 8) ||| 0x43).toUInt64 4)
        (((if pcieBridge then (pciBuildBdf sec (pciDevfn 0 0)).toUInt16
          else (pciBuildBdf bus devfn).toUInt16).toUInt32 <<< 8) ||| 0x0).toUInt64 4)
      ((pciBuildBdf sub (pciDevfn 31 7) <<< 8) ||| 0x4).toUInt64 4 =
      tableData ++ [IvhdEntry.aliasRangeStart (requesterId sec 0)
        (aliasOf bus devfn sec pcieBridge), .rangeEnd (requesterId sub 255)].flatMap
          IvhdEntry.encode := by
  have hfirst : pciDevfn 0 0 = 0 := rfl
  have hlast : pciDevfn 31 7 = 255 := rfl
  rw [hfirst, hlast, append_u16 _ _ _ (by decide), append_bdf _ _ _ (by decide)]
  cases pcieBridge with
  | true =>
    rw [if_pos rfl, append_u16 _ _ _ (by decide), aliasOf, if_pos rfl]
    simp only [List.flatMap_cons, List.flatMap_nil, IvhdEntry.encode, packFields_cons,
      packFields_nil, List.append_assoc, List.append_nil]
    rfl
  | false =>
    rw [if_neg Bool.false_ne_true, append_u16 _ _ _ (by decide), aliasOf,
      if_neg Bool.false_ne_true]
    simp only [List.flatMap_cons, List.flatMap_nil, IvhdEntry.encode, packFields_cons,
      packFields_nil, List.append_assoc, List.append_nil]
    rfl

mutual

/-- A node appends its entries. -/
theorem insertIvhd_eq (bus : UInt8) (tableData : Bytes) : ∀ node : PciNode,
    insertIvhd bus tableData node =
      tableData ++ (ivhdEntries bus node).flatMap IvhdEntry.encode
  | .endpoint devfn => by
    rw [insertIvhd, append_bdf _ _ _ (by decide), ivhdEntries, List.flatMap_singleton]
    rfl
  | .bridge devfn sec sub secIsExpress pcieBridge devices => by
    have hselect : buildAppendIntNoprefix tableData
        ((pciBuildBdf bus devfn <<< 8) ||| 0x2).toUInt64 4 =
          tableData ++ (IvhdEntry.select (requesterId bus devfn)).encode :=
      append_bdf tableData bus devfn (by decide)
    rw [insertIvhd, ivhdEntries, List.flatMap_cons, ← List.append_assoc]
    dsimp only
    rw [hselect]
    generalize tableData ++ (IvhdEntry.select (requesterId bus devfn)).encode = front
    cases secIsExpress with
    | true =>
      rw [if_pos rfl, if_pos rfl]
      by_cases hleaf : sec = sub
      · rw [if_pos hleaf, if_pos hleaf]
        exact append_range ..
      · rw [if_neg hleaf, if_neg hleaf]
        exact insertIvhdEach_eq sec front devices
    | false =>
      rw [if_neg Bool.false_ne_true, if_neg Bool.false_ne_true]
      exact append_alias ..

/-- The nodes of a bus append their entries. -/
theorem insertIvhdEach_eq (bus : UInt8) (tableData : Bytes) : ∀ nodes : List PciNode,
    insertIvhdEach bus tableData nodes =
      tableData ++ (ivhdEntriesEach bus nodes).flatMap IvhdEntry.encode
  | [] => (List.append_nil _).symm
  | node :: nodes => by
    rw [insertIvhdEach, insertIvhdEach_eq, insertIvhd_eq, ivhdEntriesEach, List.flatMap_append,
      List.append_assoc]

end

/-! ## Reading entries -/

/-- Every entry is one record, of the size that its type implies. -/
theorem isRecord_encode (e : IvhdEntry) : IsRecord ivhdSize e.encode := by
  cases e with
  | all => exact ⟨List.cons_ne_nil _ _, fun _ => rfl⟩
  | select id => exact ⟨List.cons_ne_nil _ _, fun _ => rfl⟩
  | rangeStart id => exact ⟨List.cons_ne_nil _ _, fun _ => rfl⟩
  | rangeEnd id => exact ⟨List.cons_ne_nil _ _, fun _ => rfl⟩
  | aliasRangeStart id source => exact ⟨List.cons_ne_nil _ _, fun _ => rfl⟩
  | special source => exact ⟨List.cons_ne_nil _ _, fun _ => rfl⟩

/-- The type and the number in front of an entry. -/
theorem readFields_entry {type id : ℕ} (htype : type < 256) (hid : id < 65536) (rest : Bytes) :
    readFields [1, 2] (packFields [(1, type), (2, id)] ++ rest) = [type, id] :=
  readFields_packFields_of_fit [(1, type), (2, id)] (by simpa using ⟨htype, hid⟩) rest

/-- An entry is read back. -/
theorem readIvhdEntry_encode {e : IvhdEntry} (h : e.Fits) : readIvhdEntry e.encode = some e := by
  have hsplit (type id : ℕ) (rest : List (ℕ × ℕ)) : packFields ((1, type) :: (2, id) :: rest) =
      packFields [(1, type), (2, id)] ++ packFields rest := by
    simp
  cases e with
  | all => rfl
  | select id =>
    rw [readIvhdEntry, IvhdEntry.encode, hsplit, readFields_entry (by decide) h]
    rfl
  | rangeStart id =>
    rw [readIvhdEntry, IvhdEntry.encode, hsplit, readFields_entry (by decide) h]
    rfl
  | rangeEnd id =>
    rw [readIvhdEntry, IvhdEntry.encode, hsplit, readFields_entry (by decide) h]
    rfl
  | aliasRangeStart id source =>
    have hsource : leValue (slice (IvhdEntry.aliasRangeStart id source).encode 5 2) = source :=
      leValue_leBytes_of_lt (n := 2) h.2
    rw [readIvhdEntry, hsource, IvhdEntry.encode, hsplit, readFields_entry (by decide) h.1]
    rfl
  | special source =>
    have hsource : leValue (slice (IvhdEntry.special source).encode 5 2) = source :=
      leValue_leBytes_of_lt (n := 2) h
    rw [readIvhdEntry, hsource, IvhdEntry.encode, hsplit,
      readFields_entry (by decide) (by decide)]
    rfl

/-- **Entries are found again.** -/
theorem walk_entries {entries : List IvhdEntry} (h : ∀ e ∈ entries, e.Fits) :
    (walk ivhdSize (entries.flatMap IvhdEntry.encode).length
      (entries.flatMap IvhdEntry.encode)).bind (List.mapM readIvhdEntry) = some entries := by
  have hrecords : ∀ r ∈ entries.map IvhdEntry.encode, IsRecord ivhdSize r := by
    intro r hr
    obtain ⟨e, -, rfl⟩ := List.mem_map.mp hr
    exact isRecord_encode e
  rw [List.flatMap_def, walk_flatten hrecords (length_le_length_flatten hrecords),
    Option.bind_some, List.mapM_map]
  clear hrecords
  induction entries with
  | nil => rfl
  | cons e entries ih =>
    obtain ⟨he, hentries⟩ := List.forall_mem_cons.mp h
    rw [List.mapM_cons, Function.comp_apply, readIvhdEntry_encode he, ih hentries]
    rfl

/-- The number behind a conventional bridge takes sixteen bits. -/
theorem fits_aliasOf (bus devfn sec : UInt8) (pcieBridge : Bool) :
    aliasOf bus devfn sec pcieBridge < 65536 := by
  unfold aliasOf
  split
  · exact requesterId_lt ..
  · exact requesterId_lt ..

mutual

/-- The entries of a node fit their places. -/
theorem fits_ivhdEntries (bus : UInt8) : ∀ node : PciNode, ∀ e ∈ ivhdEntries bus node, e.Fits
  | .endpoint devfn => by
    intro e he
    rw [ivhdEntries, List.mem_singleton] at he
    subst he
    exact requesterId_lt bus devfn
  | .bridge devfn sec sub secIsExpress pcieBridge devices => by
    intro e he
    rw [ivhdEntries] at he
    rcases List.mem_cons.mp he with rfl | he
    · exact requesterId_lt bus devfn
    · split at he
      · split at he
        · rcases List.mem_pair.mp he with rfl | rfl
          · exact requesterId_lt sec 0
          · exact requesterId_lt sub 255
        · exact fits_ivhdEntriesEach sec devices e he
      · rcases List.mem_pair.mp he with rfl | rfl
        · exact ⟨requesterId_lt sec 0, fits_aliasOf ..⟩
        · exact requesterId_lt sub 255

/-- The entries of the nodes of a bus fit their places. -/
theorem fits_ivhdEntriesEach (bus : UInt8) :
    ∀ nodes : List PciNode, ∀ e ∈ ivhdEntriesEach bus nodes, e.Fits
  | [] => by
    intro e he
    cases he
  | node :: nodes => by
    intro e he
    rw [ivhdEntriesEach] at he
    rcases List.mem_append.mp he with he | he
    · exact fits_ivhdEntries bus node e he
    · exact fits_ivhdEntriesEach bus nodes e he

end

/-! ## Ranges -/

mutual

/-- The ranges that a reader makes of the entries of a device. -/
def nodeRanges (bus : UInt8) : PciNode → List DeviceRange
  | .endpoint devfn => [⟨requesterId bus devfn, requesterId bus devfn, none⟩]
  | .bridge devfn sec sub secIsExpress pcieBridge devices =>
    ⟨requesterId bus devfn, requesterId bus devfn, none⟩ ::
      if secIsExpress then
        if sec = sub then [⟨requesterId sec 0, requesterId sub 255, none⟩]
        else nodeRangesEach sec devices
      else [⟨requesterId sec 0, requesterId sub 255, some (aliasOf bus devfn sec pcieBridge)⟩]

/-- The ranges of several nodes of one bus. -/
def nodeRangesEach (bus : UInt8) : List PciNode → List DeviceRange
  | [] => []
  | dev :: devices => nodeRanges bus dev ++ nodeRangesEach bus devices

end

mutual

/-- The entries of a node are read as its ranges, whatever comes after them. -/
theorem deviceRanges_ivhdEntries (bus : UInt8) (rest : List IvhdEntry) : ∀ node : PciNode,
    deviceRanges (ivhdEntries bus node ++ rest) =
      (nodeRanges bus node ++ ·) <$> deviceRanges rest
  | .endpoint devfn => by
    rw [ivhdEntries, nodeRanges, List.singleton_append, deviceRanges]
    rfl
  | .bridge devfn sec sub secIsExpress pcieBridge devices => by
    rw [ivhdEntries, nodeRanges, List.cons_append, deviceRanges]
    cases secIsExpress with
    | true =>
      rw [if_pos rfl, if_pos rfl]
      by_cases hleaf : sec = sub
      · rw [if_pos hleaf, if_pos hleaf, List.cons_append, List.singleton_append, deviceRanges,
          Functor.map_map]
        rfl
      · rw [if_neg hleaf, if_neg hleaf, deviceRanges_ivhdEntriesEach, Functor.map_map]
        rfl
    | false =>
      rw [if_neg Bool.false_ne_true, if_neg Bool.false_ne_true, List.cons_append,
        List.singleton_append, deviceRanges, Functor.map_map]
      rfl

/-- The entries of the nodes of a bus are read as their ranges. -/
theorem deviceRanges_ivhdEntriesEach (bus : UInt8) (rest : List IvhdEntry) :
    ∀ nodes : List PciNode, deviceRanges (ivhdEntriesEach bus nodes ++ rest) =
      (nodeRangesEach bus nodes ++ ·) <$> deviceRanges rest
  | [] => (id_map _).symm
  | node :: nodes => by
    rw [ivhdEntriesEach, nodeRangesEach, List.append_assoc, deviceRanges_ivhdEntries,
      deviceRanges_ivhdEntriesEach, Functor.map_map]
    simp only [List.append_assoc]

end

/-! ## The table -/

/-- The ranges of all host bridges that the IOMMU serves. -/
def hostRanges (hosts : List PciHostBridge) : List DeviceRange :=
  hosts.flatMap fun host =>
    if host.bypassIommu then [] else nodeRangesEach host.num host.devices

/-- The entries of the host bridges that are served. -/
def hostEntries (hosts : List PciHostBridge) : List IvhdEntry :=
  hosts.flatMap fun host =>
    if host.bypassIommu then [] else ivhdEntriesEach host.num host.devices

/-- The loop over the host bridges appends their entries. -/
theorem foldl_ivrsHostBridges (blob : Bytes) (hosts : List PciHostBridge) :
    hosts.foldl ivrsHostBridges blob =
      blob ++ (hostEntries hosts).flatMap IvhdEntry.encode := by
  induction hosts generalizing blob with
  | nil => exact (List.append_nil _).symm
  | cons host hosts ih =>
    have hhost : ivrsHostBridges blob host = blob ++ (if host.bypassIommu then []
        else ivhdEntriesEach host.num host.devices).flatMap IvhdEntry.encode := by
      unfold ivrsHostBridges
      split
      · exact (List.append_nil _).symm
      · exact insertIvhdEach_eq ..
    rw [List.foldl_cons, ih, hhost, hostEntries, hostEntries, List.flatMap_cons,
      List.flatMap_append, List.append_assoc]

/-- The entries of the host bridges are read as their ranges. -/
theorem deviceRanges_hostEntries (hosts : List PciHostBridge) (rest : List IvhdEntry) :
    deviceRanges (hostEntries hosts ++ rest) = (hostRanges hosts ++ ·) <$> deviceRanges rest := by
  induction hosts with
  | nil => exact (id_map _).symm
  | cons host hosts ih =>
    rw [hostEntries, hostRanges, List.flatMap_cons, List.flatMap_cons, ← hostEntries,
      ← hostRanges, List.append_assoc]
    split
    · exact ih
    · rw [deviceRanges_ivhdEntriesEach, ih, Functor.map_map]
      simp only [List.append_assoc]

end AcpiTables.AmlBuild
