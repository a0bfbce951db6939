import AcpiTables.IvrsEntries
import Mathlib.Data.List.Pairwise

/-!
# The requests of the devices

A request carries the number of its device, unless it crosses a conventional bus
on its way up: from there on it carries a number of the bridge. `requester` walks
up from a device. In a tree whose buses are numbered as firmware numbers them,
the ranges of an IVRS are disjoint and tell this number for every device.

* **territory**: to a device belong its own number and all numbers of the buses
  behind it (`PciNode.Territory`). The territories of a bus do not meet, and the
  ranges of a device stay in its own (`territory_of_mem_nodeRanges`), so the ranges
  of a tree are disjoint (`disjoint_nodeRanges`);
* **requests**: by induction on the tree, each device behind a node lies in one of
  the ranges of the node, which tells what `requester` finds (`nodeRanges_tell`);
* **host bridges**: their buses are apart, so both results hold over all of those
  that the IOMMU serves, and nothing is told of the others
  (`not_holds_of_bypass`).

`ivrs_tells_requests` says it of the bytes of the table, as long as the 16 bits of
its length field can count them.
-/

namespace AcpiTables.AmlBuild

/-! ## Devices and requests -/

/-- A bridge on the way up from a device. -/
structure Hop where
  bus : UInt8
  devfn : UInt8
  sec : UInt8
  secIsExpress : Bool
  pcieBridge : Bool

/-- The number that a request carries after these bridges, the last of which is
the first one it passes. -/
def requester (hops : List Hop) (id : ℕ) : ℕ :=
  hops.foldr (fun hop id =>
    if hop.secIsExpress then id else aliasOf hop.bus hop.devfn hop.sec hop.pcieBridge) id

mutual

/-- The devices at and behind a node: the bridges above them, and their numbers. -/
def pciDevices (bus : UInt8) : PciNode → List (List Hop × ℕ)
  | .endpoint devfn => [([], requesterId bus devfn)]
  | .bridge devfn sec _ secIsExpress pcieBridge devices =>
    ([], requesterId bus devfn) :: (pciDevicesEach sec devices).map fun d =>
      (⟨bus, devfn, sec, secIsExpress, pcieBridge⟩ :: d.1, d.2)

/-- The devices at and behind several nodes of one bus. -/
def pciDevicesEach (bus : UInt8) : List PciNode → List (List Hop × ℕ)
  | [] => []
  | dev :: devices => pciDevices bus dev ++ pciDevicesEach bus devices

end

/-! ## Numbering -/

/-- The place of a node on its bus. -/
def PciNode.devfn : PciNode → UInt8
  | .endpoint devfn => devfn
  | .bridge devfn .. => devfn

/-- Two devices of a bus have two numbers, and the buses behind them are apart. -/
def PciNode.Apart : PciNode → PciNode → Prop
  | .bridge devfn sec sub _ _ _, .bridge devfn' sec' sub' _ _ _ =>
    devfn ≠ devfn' ∧ (sub < sec' ∨ sub' < sec)
  | d, e => d.devfn ≠ e.devfn

mutual

/-- The buses behind a device of a bus are numbered from the next number on,
each as the part of the one above it, none past the last. -/
def Numbered (bus last : UInt8) : PciNode → Prop
  | .endpoint _ => True
  | .bridge _ sec sub _ _ devices =>
    bus < sec ∧ sec ≤ sub ∧ sub ≤ last ∧ NumberedEach sec sub devices

/-- The same for several nodes of one bus, with the buses behind any two of them
apart. -/
def NumberedEach (bus last : UInt8) : List PciNode → Prop
  | [] => True
  | dev :: devices =>
    Numbered bus last dev ∧ (∀ e ∈ devices, dev.Apart e) ∧ NumberedEach bus last devices

end

/-- The numbers that belong to a device: its own, and all of the buses behind it. -/
def PciNode.Territory (bus : UInt8) : PciNode → ℕ → Prop
  | .endpoint devfn, id => id = requesterId bus devfn
  | .bridge devfn sec sub _ _ _, id =>
    id = requesterId bus devfn ∨ requesterId sec 0 ≤ id ∧ id ≤ requesterId sub 255

/-- A number on a bus lies between the first and the last one of the bus. -/
theorem requesterId_bounds (bus devfn : UInt8) :
    requesterId bus 0 ≤ requesterId bus devfn ∧ requesterId bus devfn ≤ requesterId bus 255 := by
  have hdevfn := devfn.toNat_lt
  have hlast : (255 : UInt8).toNat = 255 := rfl
  have hfirst : (0 : UInt8).toNat = 0 := rfl
  simp only [requesterId, hlast, hfirst]
  omega

/-- All numbers of a bus come before those of the next one. -/
theorem requesterId_lt_of_lt {bus bus' : UInt8} (h : bus < bus') :
    requesterId bus 255 < requesterId bus' 0 := by
  have hlt : bus.toNat < bus'.toNat := h
  have hlast : (255 : UInt8).toNat = 255 := rfl
  have hfirst : (0 : UInt8).toNat = 0 := rfl
  simp only [requesterId, hlast, hfirst]
  omega

/-- Numbers grow with the bus. -/
theorem requesterId_mono {bus bus' : UInt8} (h : bus ≤ bus') (devfn : UInt8) :
    requesterId bus devfn ≤ requesterId bus' devfn := by
  have hle : bus.toNat ≤ bus'.toNat := h
  simp only [requesterId]
  omega

/-- Two devices of a bus with the same number are one. -/
theorem requesterId_inj {bus devfn devfn' : UInt8}
    (h : requesterId bus devfn = requesterId bus devfn') : devfn = devfn' := by
  simp only [requesterId] at h
  exact UInt8.toNat_inj.mp (by omega)

/-- What belongs to a device lies on its bus and behind it. -/
theorem PciNode.Territory.bounds {bus last : UInt8} (hbus : bus ≤ last) {node : PciNode}
    (hnum : Numbered bus last node) {id : ℕ} (h : node.Territory bus id) :
    requesterId bus 0 ≤ id ∧ id ≤ requesterId last 255 := by
  have hlast := requesterId_mono hbus 255
  cases node with
  | endpoint devfn =>
    obtain rfl := h
    have hown := requesterId_bounds bus devfn
    exact ⟨hown.1, Nat.le_trans hown.2 hlast⟩
  | bridge devfn sec sub _ _ _ =>
    obtain ⟨hsec, _, hsub, _⟩ := hnum
    rcases h with rfl | ⟨hfirst, hid⟩
    · have hown := requesterId_bounds bus devfn
      exact ⟨hown.1, Nat.le_trans hown.2 hlast⟩
    · have hbelow := requesterId_lt_of_lt hsec
      have hown := requesterId_bounds bus 255
      have habove := requesterId_mono hsub 255
      exact ⟨by omega, by omega⟩

/-- Devices apart have no number in common. -/
theorem PciNode.Apart.disjoint {bus last : UInt8} {d e : PciNode} (h : d.Apart e)
    (hd : Numbered bus last d) (he : Numbered bus last e) {id : ℕ}
    (hid : d.Territory bus id) : ¬e.Territory bus id := by
  intro hid'
  have hown (devfn sec : UInt8) (hsec : bus < sec) :
      requesterId bus devfn < requesterId sec 0 :=
    Nat.lt_of_le_of_lt (requesterId_bounds bus devfn).2 (requesterId_lt_of_lt hsec)
  cases d with
  | endpoint devfn =>
    obtain rfl := hid
    cases e with
    | endpoint devfn' => exact h (requesterId_inj hid')
    | bridge devfn' sec' sub' _ _ _ =>
      rcases hid' with hid' | ⟨hfirst, _⟩
      · exact h (requesterId_inj hid')
      · have := hown devfn sec' he.1
        omega
  | bridge devfn sec sub _ _ _ =>
    cases e with
    | endpoint devfn' =>
      obtain rfl := hid'
      rcases hid with hid | ⟨hfirst, _⟩
      · exact h (requesterId_inj hid.symm)
      · have := hown devfn' sec hd.1
        omega
    | bridge devfn' sec' sub' _ _ _ =>
      rcases hid with rfl | ⟨hfirst, hlast⟩
      · rcases hid' with hid' | ⟨hfirst', _⟩
        · exact h.1 (requesterId_inj hid')
        · have := hown devfn sec' he.1
          omega
      · rcases hid' with rfl | ⟨hfirst', hlast'⟩
        · have := hown devfn' sec hd.1
          omega
        · rcases h.2 with hlt | hlt
          · have := requesterId_lt_of_lt hlt
            omega
          · have := requesterId_lt_of_lt hlt
            omega

mutual

/-- The devices behind a node have its numbers. -/
theorem territory_of_mem_pciDevices {bus last : UInt8} : ∀ node : PciNode,
    Numbered bus last node → ∀ d ∈ pciDevices bus node, node.Territory bus d.2
  | .endpoint devfn, _ => by
    intro d hd
    rw [pciDevices, List.mem_singleton] at hd
    subst hd
    rfl
  | .bridge devfn sec sub secIsExpress pcieBridge devices, hnum => by
    intro d hd
    obtain ⟨_, hle, _, hdevices⟩ := hnum
    rw [pciDevices] at hd
    rcases List.mem_cons.mp hd with rfl | hd
    · exact Or.inl rfl
    · obtain ⟨d, hbehind, rfl⟩ := List.mem_map.mp hd
      exact Or.inr (bounds_of_mem_pciDevicesEach devices hle hdevices d hbehind)

/-- The devices at and behind the nodes of a bus have numbers of the buses that
belong to it. -/
theorem bounds_of_mem_pciDevicesEach {bus last : UInt8} : ∀ nodes : List PciNode,
    bus ≤ last → NumberedEach bus last nodes → ∀ d ∈ pciDevicesEach bus nodes,
      requesterId bus 0 ≤ d.2 ∧ d.2 ≤ requesterId last 255
  | [], _, _ => by
    intro d hd
    cases hd
  | node :: nodes, hle, hnum => by
    intro d hd
    obtain ⟨hnode, _, hnodes⟩ := hnum
    rw [pciDevicesEach] at hd
    rcases List.mem_append.mp hd with hd | hd
    · exact (territory_of_mem_pciDevices node hnode d hd).bounds hle hnode
    · exact bounds_of_mem_pciDevicesEach nodes hle hnodes d hd

end

/-! ## Ranges -/

/-- A number in a range. -/
def DeviceRange.Holds (r : DeviceRange) (id : ℕ) : Prop := r.first ≤ id ∧ id ≤ r.last

/-- No number in two ranges. -/
def DeviceRange.Disjoint (r r' : DeviceRange) : Prop := ∀ id, r.Holds id → ¬r'.Holds id

mutual

/-- The ranges of a node have its numbers. -/
theorem territory_of_mem_nodeRanges {bus last : UInt8} : ∀ node : PciNode,
    Numbered bus last node → ∀ r ∈ nodeRanges bus node, ∀ id, r.Holds id → node.Territory bus id
  | .endpoint devfn, _ => by
    intro r hr id hid
    rw [nodeRanges, List.mem_singleton] at hr
    subst hr
    exact Nat.le_antisymm hid.2 hid.1
  | .bridge devfn sec sub secIsExpress pcieBridge devices, hnum => by
    intro r hr id hid
    obtain ⟨_, hle, _, hdevices⟩ := hnum
    rw [nodeRanges] at hr
    rcases List.mem_cons.mp hr with rfl | hr
    · exact Or.inl (Nat.le_antisymm hid.2 hid.1)
    · right
      split at hr
      · split at hr
        · rw [List.mem_singleton] at hr
          subst hr
          exact hid
        · exact bounds_of_mem_nodeRangesEach devices hle hdevices r hr id hid
      · rw [List.mem_singleton] at hr
        subst hr
        exact hid

/-- So do the ranges of the nodes of a bus. -/
theorem bounds_of_mem_nodeRangesEach {bus last : UInt8} : ∀ nodes : List PciNode,
    bus ≤ last → NumberedEach bus last nodes → ∀ r ∈ nodeRangesEach bus nodes,
      ∀ id, r.Holds id → requesterId bus 0 ≤ id ∧ id ≤ requesterId last 255
  | [], _, _ => by
    intro r hr
    cases hr
  | node :: nodes, hle, hnum => by
    intro r hr id hid
    obtain ⟨hnode, _, hnodes⟩ := hnum
    rw [nodeRangesEach] at hr
    rcases List.mem_append.mp hr with hr | hr
    · exact (territory_of_mem_nodeRanges node hnode r hr id hid).bounds hle hnode
    · exact bounds_of_mem_nodeRangesEach nodes hle hnodes r hr id hid

end

/-- A range of a list of devices belongs to one of them. -/
theorem exists_of_mem_nodeRangesEach {bus : UInt8} {nodes : List PciNode} {r : DeviceRange}
    (hr : r ∈ nodeRangesEach bus nodes) : ∃ node ∈ nodes, r ∈ nodeRanges bus node := by
  induction nodes with
  | nil => cases hr
  | cons node nodes ih =>
    rw [nodeRangesEach] at hr
    rcases List.mem_append.mp hr with hr | hr
    · exact ⟨node, List.mem_cons_self .., hr⟩
    · obtain ⟨node', hmem, hr⟩ := ih hr
      exact ⟨node', List.mem_cons_of_mem _ hmem, hr⟩

/-- Every node of a numbered bus is numbered. -/
theorem numbered_of_mem {bus last : UInt8} {nodes : List PciNode}
    (h : NumberedEach bus last nodes) : ∀ node ∈ nodes, Numbered bus last node := by
  induction nodes with
  | nil => exact fun _ hmem => absurd hmem List.not_mem_nil
  | cons node nodes ih =>
    obtain ⟨hnode, _, hnodes⟩ := h
    intro node' hmem
    rcases List.mem_cons.mp hmem with rfl | hmem
    · exact hnode
    · exact ih hnodes node' hmem

mutual

/-- **The ranges of a tree are disjoint.** -/
theorem disjoint_nodeRanges {bus last : UInt8} : ∀ node : PciNode,
    Numbered bus last node → (nodeRanges bus node).Pairwise DeviceRange.Disjoint
  | .endpoint devfn, _ => by
    rw [nodeRanges]
    exact List.pairwise_singleton ..
  | .bridge devfn sec sub secIsExpress pcieBridge devices, hnum => by
    obtain ⟨hsec, hle, _, hdevices⟩ := hnum
    have hbelow := requesterId_lt_of_lt hsec
    have hown := requesterId_bounds bus devfn
    rw [nodeRanges]
    refine List.Pairwise.cons ?_ ?_
    · intro r hr id hid hid'
      have hid : id = requesterId bus devfn := Nat.le_antisymm hid.2 hid.1
      have hbehind : requesterId sec 0 ≤ id := by
        split at hr
        · split at hr
          · rw [List.mem_singleton] at hr
            subst hr
            exact hid'.1
          · exact (bounds_of_mem_nodeRangesEach devices hle hdevices r hr id hid').1
        · rw [List.mem_singleton] at hr
          subst hr
          exact hid'.1
      omega
    · split
      · split
        · exact List.pairwise_singleton ..
        · exact disjoint_nodeRangesEach devices hle hdevices
      · exact List.pairwise_singleton ..

/-- The ranges of the nodes of a numbered bus are disjoint. -/
theorem disjoint_nodeRangesEach {bus last : UInt8} : ∀ nodes : List PciNode,
    bus ≤ last → NumberedEach bus last nodes →
      (nodeRangesEach bus nodes).Pairwise DeviceRange.Disjoint
  | [], _, _ => List.Pairwise.nil
  | node :: nodes, hle, hnum => by
    obtain ⟨hnode, hapart, hnodes⟩ := hnum
    rw [nodeRangesEach]
    refine List.pairwise_append.mpr ⟨disjoint_nodeRanges node hnode,
      disjoint_nodeRangesEach nodes hle hnodes, fun r hr r' hr' id hid hid' => ?_⟩
    obtain ⟨node', hmem, hr'⟩ := exists_of_mem_nodeRangesEach hr'
    have hnode' := numbered_of_mem hnodes node' hmem
    exact (hapart node' hmem).disjoint hnode hnode'
      (territory_of_mem_nodeRanges node hnode r hr id hid)
      (territory_of_mem_nodeRanges node' hnode' r' hr' id hid')

end

/-! ## Sources -/

/-- There is no bridge on a bus that is the last of its part. -/
theorem hops_of_leaf {bus : UInt8} {nodes : List PciNode} (h : NumberedEach bus bus nodes) :
    ∀ d ∈ pciDevicesEach bus nodes, d.1 = [] := by
  induction nodes with
  | nil => exact fun _ hd => absurd hd List.not_mem_nil
  | cons node nodes ih =>
    obtain ⟨hnode, _, hnodes⟩ := h
    intro d hd
    rw [pciDevicesEach] at hd
    rcases List.mem_append.mp hd with hd | hd
    · cases node with
      | endpoint devfn =>
        rw [pciDevices, List.mem_singleton] at hd
        subst hd
        rfl
      | bridge devfn sec sub _ _ _ =>
        obtain ⟨hsec, hle, hsub, _⟩ := hnode
        exact absurd (UInt8.le_trans hle hsub) (UInt8.not_le.mpr hsec)
    · exact ih hnodes d hd

/-- A range that tells the number of the requests of a device. -/
def Tells (ranges : List DeviceRange) (d : List Hop × ℕ) : Prop :=
  ∃ r ∈ ranges, r.Holds d.2 ∧ r.source.getD d.2 = requester d.1 d.2

mutual

/-- **The ranges of a tree tell the numbers** of all requests. -/
theorem nodeRanges_tell {bus last : UInt8} : ∀ node : PciNode, Numbered bus last node →
    ∀ d ∈ pciDevices bus node, Tells (nodeRanges bus node) d
  | .endpoint devfn, _ => by
    intro d hd
    rw [pciDevices, List.mem_singleton] at hd
    subst hd
    exact ⟨_, List.mem_singleton_self _, ⟨Nat.le_refl _, Nat.le_refl _⟩, rfl⟩
  | .bridge devfn sec sub secIsExpress pcieBridge devices, hnum => by
    intro d hd
    obtain ⟨_, hle, _, hdevices⟩ := hnum
    rw [pciDevices] at hd
    rw [nodeRanges]
    rcases List.mem_cons.mp hd with rfl | hd
    · exact ⟨_, List.mem_cons_self .., ⟨Nat.le_refl _, Nat.le_refl _⟩, rfl⟩
    · obtain ⟨d, hbehind, rfl⟩ := List.mem_map.mp hd
      have hbounds := bounds_of_mem_pciDevicesEach devices hle hdevices d hbehind
      cases secIsExpress with
      | true =>
        rw [if_pos rfl]
        by_cases hleaf : sec = sub
        · subst hleaf
          rw [if_pos rfl]
          have hhops := hops_of_leaf hdevices d hbehind
          refine ⟨_, List.mem_cons_of_mem _ (List.mem_singleton_self _), hbounds, ?_⟩
          rw [hhops]
          rfl
        · rw [if_neg hleaf]
          obtain ⟨r, hr, hholds, hsource⟩ := nodeRangesEach_tell devices hdevices d hbehind
          exact ⟨r, List.mem_cons_of_mem _ hr, hholds, hsource⟩
      | false =>
        rw [if_neg Bool.false_ne_true]
        exact ⟨_, List.mem_cons_of_mem _ (List.mem_singleton_self _), hbounds, rfl⟩

/-- The ranges of the nodes of a numbered bus tell the number that the requests of
each device carry. -/
theorem nodeRangesEach_tell {bus last : UInt8} : ∀ nodes : List PciNode,
    NumberedEach bus last nodes → ∀ d ∈ pciDevicesEach bus nodes,
      Tells (nodeRangesEach bus nodes) d
  | [], _ => by
    intro d hd
    cases hd
  | node :: nodes, hnum => by
    intro d hd
    obtain ⟨hnode, _, hnodes⟩ := hnum
    rw [pciDevicesEach] at hd
    rw [nodeRangesEach]
    rcases List.mem_append.mp hd with hd | hd
    · obtain ⟨r, hr, htells⟩ := nodeRanges_tell node hnode d hd
      exact ⟨r, List.mem_append_left _ hr, htells⟩
    · obtain ⟨r, hr, htells⟩ := nodeRangesEach_tell nodes hnodes d hd
      exact ⟨r, List.mem_append_right _ hr, htells⟩

end

/-! ## Host bridges -/

/-- The last bus behind a host bridge. -/
def PciHostBridge.last (host : PciHostBridge) : UInt8 :=
  host.devices.foldl (fun last dev =>
    match dev with
    | .endpoint _ => last
    | .bridge _ _ sub _ _ _ => if last < sub then sub else last) host.num

/-- Every tree is numbered, and the buses of different host bridges are apart. -/
structure HostsNumbered (hosts : List PciHostBridge) : Prop where
  numbered : ∀ host ∈ hosts, NumberedEach host.num host.last host.devices
  apart : hosts.Pairwise fun host host' => host.last < host'.num ∨ host'.last < host.num

/-- The bus of a host bridge is not past its last bus. -/
theorem num_le_last (host : PciHostBridge) : host.num ≤ host.last := by
  have hfold (devices : List PciNode) (last : UInt8) : last ≤ devices.foldl (fun last dev =>
      match dev with
      | .endpoint _ => last
      | .bridge _ _ sub _ _ _ => if last < sub then sub else last) last := by
    induction devices generalizing last with
    | nil => exact UInt8.le_refl last
    | cons dev devices ih =>
      refine UInt8.le_trans ?_ (ih _)
      cases dev with
      | endpoint devfn => exact UInt8.le_refl last
      | bridge devfn sec sub _ _ _ =>
        dsimp only
        split
        · next hlt => exact UInt8.le_of_lt hlt
        · exact UInt8.le_refl last
  exact hfold host.devices host.num

/-- The numbers behind a host bridge. -/
def PciHostBridge.Bounds (host : PciHostBridge) (id : ℕ) : Prop :=
  requesterId host.num 0 ≤ id ∧ id ≤ requesterId host.last 255

/-- Host bridges whose buses are apart have no number in common. -/
theorem bounds_apart {host host' : PciHostBridge}
    (h : host.last < host'.num ∨ host'.last < host.num) {id : ℕ} (hid : host.Bounds id) :
    ¬host'.Bounds id := by
  intro hid'
  unfold PciHostBridge.Bounds at hid hid'
  rcases h with hlt | hlt
  · have := requesterId_lt_of_lt hlt
    omega
  · have := requesterId_lt_of_lt hlt
    omega

/-- A range of several host bridges is one of a host bridge that is served. -/
theorem exists_of_mem_hostRanges {hosts : List PciHostBridge} {r : DeviceRange}
    (hr : r ∈ hostRanges hosts) : ∃ host ∈ hosts, host.bypassIommu = false ∧
      r ∈ nodeRangesEach host.num host.devices := by
  obtain ⟨host, hhost, hr⟩ := List.mem_flatMap.mp hr
  split at hr
  · cases hr
  · next hserved => exact ⟨host, hhost, Bool.eq_false_iff.mpr hserved, hr⟩

section

variable {hosts : List PciHostBridge} (h : HostsNumbered hosts)

include h

/-- A range of a host bridge holds only numbers behind it. -/
theorem bounds_of_holds {r : DeviceRange} {host : PciHostBridge} (hhost : host ∈ hosts)
    (hr : r ∈ nodeRangesEach host.num host.devices) {id : ℕ} (hid : r.Holds id) :
    host.Bounds id :=
  bounds_of_mem_nodeRangesEach _ (num_le_last host) (h.numbered host hhost) r hr id hid

/-- The ranges of all host bridges are disjoint. -/
theorem disjoint_hostRanges : (hostRanges hosts).Pairwise DeviceRange.Disjoint := by
  rw [hostRanges, List.pairwise_flatMap]
  constructor
  · intro host hhost
    split
    · exact List.Pairwise.nil
    · exact disjoint_nodeRangesEach _ (num_le_last host) (h.numbered host hhost)
  · refine h.apart.imp_of_mem fun {host host'} hhost hhost' hapart r hr r' hr' id hid hid' => ?_
    split at hr
    · cases hr
    · split at hr'
      · cases hr'
      · exact bounds_apart hapart (bounds_of_holds h hhost hr hid)
          (bounds_of_holds h hhost' hr' hid')

/-- The ranges of all host bridges tell the number that the requests of each device
carry, when its host bridge is served. -/
theorem hostRanges_tell {host : PciHostBridge} (hhost : host ∈ hosts)
    (hserved : host.bypassIommu = false) :
    ∀ d ∈ pciDevicesEach host.num host.devices, Tells (hostRanges hosts) d := by
  intro d hd
  obtain ⟨r, hr, htells⟩ := nodeRangesEach_tell _ (h.numbered host hhost) d hd
  refine ⟨r, List.mem_flatMap.mpr ⟨host, hhost, ?_⟩, htells⟩
  rw [hserved]
  exact hr

/-- What another host bridge serves is nothing behind this one. -/
theorem not_holds_of_bypass {host : PciHostBridge} (hhost : host ∈ hosts)
    (hbypass : host.bypassIommu = true) :
    ∀ d ∈ pciDevicesEach host.num host.devices, ∀ r ∈ hostRanges hosts, ¬r.Holds d.2 := by
  intro d hd r hr hholds
  obtain ⟨host', hhost', hserved, hr⟩ := exists_of_mem_hostRanges hr
  have hbounds : host.Bounds d.2 :=
    bounds_of_mem_pciDevicesEach _ (num_le_last host) (h.numbered host hhost) d hd
  have hbounds' := bounds_of_holds h hhost' hr hholds
  have hne : host ≠ host' := by
    rintro rfl
    rw [hbypass] at hserved
    cases hserved
  have : Std.Symm fun host host' : PciHostBridge =>
    host.last < host'.num ∨ host'.last < host.num := ⟨fun _ _ hapart => hapart.symm⟩
  exact bounds_apart (h.apart.forall hhost hhost' hne) hbounds hbounds'

end

/-! ## The table -/

/-- The entries of a table. -/
def AmdIommu.entries (s : AmdIommu) : List IvhdEntry :=
  (if hostEntries s.hosts = [] then [.all] else hostEntries s.hosts) ++
    if s.irSupported then [.special 160] else []

/-- The ranges of a table. -/
def AmdIommu.ranges (s : AmdIommu) : List DeviceRange :=
  if hostEntries s.hosts = [] then [⟨0, 65535, none⟩] else hostRanges s.hosts

/-- The entries that are written fit their places. -/
theorem fits_entries (s : AmdIommu) : ∀ e ∈ s.entries, e.Fits := by
  intro e he
  rcases List.mem_append.mp he with he | he
  · split at he
    · obtain rfl := List.mem_singleton.mp he
      trivial
    · obtain ⟨host, -, he⟩ := List.mem_flatMap.mp he
      split at he
      · cases he
      · exact fits_ivhdEntriesEach _ _ e he
  · split at he
    · obtain rfl := List.mem_singleton.mp he
      exact (by decide : 160 < 65536)
    · cases he

/-- The entries that are written are read as the ranges of the table. The entry of
the interrupt controller adds none. -/
theorem deviceRanges_entries (s : AmdIommu) : deviceRanges s.entries = some s.ranges := by
  have hspecial : deviceRanges (if s.irSupported then [.special 160] else []) = some [] := by
    split <;> rfl
  unfold AmdIommu.entries AmdIommu.ranges
  split
  · rw [List.singleton_append, deviceRanges, hspecial]
    rfl
  · rw [deviceRanges_hostEntries, hspecial, Option.map_eq_map, Option.map_some, List.append_nil]

/-- No entry is empty. -/
theorem encode_ne_nil (e : IvhdEntry) : e.encode ≠ [] := (isRecord_encode e).ne_nil

/-- The list of entries is that of the host bridges, or one entry for all devices
when they have none. -/
theorem ivhdBlobOf_eq (hosts : List PciHostBridge) :
    ivhdBlobOf hosts = (if hostEntries hosts = [] then [.all] else hostEntries hosts).flatMap
      IvhdEntry.encode := by
  have hblob : hosts.foldl ivrsHostBridges [] = (hostEntries hosts).flatMap IvhdEntry.encode :=
    foldl_ivrsHostBridges [] hosts
  have hempty : ((hostEntries hosts).flatMap IvhdEntry.encode).length = 0 ↔
      hostEntries hosts = [] := by
    rw [List.length_eq_zero_iff, List.flatMap_eq_nil_iff]
    refine ⟨fun h => List.eq_nil_iff_forall_not_mem.mpr fun e he => encode_ne_nil e (h e he), ?_⟩
    intro h
    simp [h]
  unfold ivhdBlobOf
  rw [hblob]
  dsimp only
  by_cases hnone : hostEntries hosts = []
  · rw [if_pos (hempty.mpr hnone), if_pos hnone, hnone]
    rfl
  · rw [if_neg (mt hempty.mp hnone), if_neg hnone]

/-- The special entry of the I/O APIC. -/
theorem append_special (tableData : Bytes) :
    buildAppendIntNoprefix tableData (((0x1 : UInt64) <<< 56) ||| (ioapicSbDevid <<< 40) ||| 0x48)
      8 = tableData ++ (IvhdEntry.special 160).encode := by
  rw [buildAppendIntNoprefix_eq]
  congr 1

/-- What is in front of the entries. -/
def ivrsFront (s : AmdIommu) (len : ℕ) : Bytes :=
  packFields [(4, 10240), (8, 0), (1, 0x10), (1, 0xd1), (2, len),
    (2, (UInt64.ofInt s.addr).toNat), (2, s.capabOffset.toNat), (8, s.mmioAddr.toNat), (2, 0),
    (2, 0), (4, 0x44)]

/-- What the builder returns, for a block whose length fits its 16-bit field: the
header and the block behind what was there. -/
theorem buildAmdIommu_eq_ok {appname : Vector UInt8 8} {s : AmdIommu} {tableData file : Bytes}
    {linker linker' : List AddChecksum}
    (h : buildAmdIommu appname s tableData linker = .ok (file, linker'))
    (hfits : 24 + (s.entries.flatMap IvhdEntry.encode).length < 65536) :
    ∃ table header, acpiTableBegin appname table tableData = .ok header ∧
      (file, linker') = acpiTableEnd linker tableData.length
        (header ++ (ivrsFront s (24 + (s.entries.flatMap IvhdEntry.encode).length) ++
          s.entries.flatMap IvhdEntry.encode)) := by
  obtain ⟨header, hheader, h⟩ := Checked.bind_eq_ok.mp h
  have hlength : (if s.irSupported then 24 + (ivhdBlobOf s.hosts).length + 8
      else 24 + (ivhdBlobOf s.hosts).length) =
        24 + (s.entries.flatMap IvhdEntry.encode).length := by
    rw [AmdIommu.entries, List.flatMap_append, List.length_append, ← ivhdBlobOf_eq, ← Nat.add_assoc]
    split <;> rfl
  have hblob (t : Bytes) : (if s.irSupported then
      buildAppendIntNoprefix (t ++ ivhdBlobOf s.hosts)
        (((0x1 : UInt64) <<< 56) ||| (ioapicSbDevid <<< 40) ||| 0x48) 8
      else t ++ ivhdBlobOf s.hosts) = t ++ s.entries.flatMap IvhdEntry.encode := by
    rw [AmdIommu.entries, List.flatMap_append, ← ivhdBlobOf_eq, ← List.append_assoc]
    split
    · rw [append_special, List.flatMap_singleton]
    · exact (List.append_nil _).symm
  have hvalue : (UInt64.ofNat (24 + (s.entries.flatMap IvhdEntry.encode).length)).toNat =
      24 + (s.entries.flatMap IvhdEntry.encode).length :=
    UInt64.toNat_ofNat_of_lt' (Nat.lt_trans hfits (by decide))
  refine ⟨_, header, hheader, ?_⟩
  rw [← Except.ok.inj h, hblob, hlength]
  simp only [buildAppendIntNoprefix_eq, hvalue, ivrsFront, packFields_cons, packFields_nil,
    UInt8.toNat_toUInt64, List.append_assoc, List.append_nil]
  rfl

/-- **The ranges of a finished IVRS.** -/
theorem ivrsRanges_buildAmdIommu {appname : Vector UInt8 8} {s : AmdIommu}
    {tableData file : Bytes} {linker linker' : List AddChecksum}
    (h : buildAmdIommu appname s tableData linker = .ok (file, linker'))
    (hlen : file.length < 4294967296)
    (hfits : 24 + (s.entries.flatMap IvhdEntry.encode).length < 65536) :
    ivrsRanges (tableBody file tableData.length) = some s.ranges := by
  obtain ⟨table, header, hheader, heq⟩ := buildAmdIommu_eq_ok h hfits
  have hfile : file = _ := congrArg Prod.fst heq
  rw [hfile] at hlen ⊢
  rw [acpiTableEnd_body hheader linker _ hlen]
  generalize hlength : (s.entries.flatMap IvhdEntry.encode).length = length at hfits ⊢
  have hfront : (ivrsFront s (24 + length)).length = 36 := length_packFields _
  have hivhd : leValue (slice (ivrsFront s (24 + length) ++ s.entries.flatMap IvhdEntry.encode)
      14 2) = 24 + length := by
    rw [slice_append_left (by rw [hfront]; decide)]
    exact leValue_leBytes_of_lt (n := 2) hfits
  have hdevices : slice (ivrsFront s (24 + length) ++ s.entries.flatMap IvhdEntry.encode) 36
      length = s.entries.flatMap IvhdEntry.encode := by
    have hmid := slice_mid (ivrsFront s (24 + length)) (s.entries.flatMap IvhdEntry.encode) []
    rwa [List.append_nil, hfront, hlength] at hmid
  have hwalk := walk_entries (fits_entries s)
  rw [ivrsRanges]
  simp only [hivhd, Nat.add_sub_cancel_left, hdevices]
  rw [← Option.bind_eq_bind] at hwalk
  rw [← bind_assoc, hwalk]
  exact deviceRanges_entries s

/-- **An IVRS tells the requests of all devices.** In a machine whose buses are
numbered, the ranges that are read from the table are disjoint, and every device
of a host bridge that the IOMMU serves lies in one of them, which tells the number
that its requests carry. No device of another host bridge lies in a range, unless
the table names no device at all. The block of the IOMMU has a length of 16 bits,
which the entries have to fit (`hfits`). -/
theorem ivrs_tells_requests {appname : Vector UInt8 8} {s : AmdIommu} {tableData file : Bytes}
    {linker linker' : List AddChecksum} (hnum : HostsNumbered s.hosts)
    (h : buildAmdIommu appname s tableData linker = .ok (file, linker'))
    (hlen : file.length < 4294967296)
    (hfits : 24 + (ivhdBlobOf s.hosts).length + (if s.irSupported then 8 else 0) < 65536) :
    ∃ ranges, ivrsRanges (tableBody file tableData.length) = some ranges ∧
      ranges.Pairwise DeviceRange.Disjoint ∧
      (∀ host ∈ s.hosts, host.bypassIommu = false →
        ∀ d ∈ pciDevicesEach host.num host.devices, Tells ranges d) ∧
      ((∃ host ∈ s.hosts, host.bypassIommu = false ∧ host.devices ≠ []) →
        ∀ host ∈ s.hosts, host.bypassIommu = true →
          ∀ d ∈ pciDevicesEach host.num host.devices, ∀ r ∈ ranges, ¬r.Holds d.2) := by
  have hentries : (ivhdBlobOf s.hosts).length + (if s.irSupported then 8 else 0) =
      (s.entries.flatMap IvhdEntry.encode).length := by
    rw [AmdIommu.entries, List.flatMap_append, List.length_append, ← ivhdBlobOf_eq]
    split <;> rfl
  rw [Nat.add_assoc, hentries] at hfits
  refine ⟨_, ivrsRanges_buildAmdIommu h hlen hfits, ?_⟩
  unfold AmdIommu.ranges
  split
  · next hnone =>
    have hempty : ∀ host ∈ s.hosts, host.bypassIommu = false → host.devices = [] := by
      intro host hhost hserved
      have hentries := List.flatMap_eq_nil_iff.mp hnone host hhost
      rw [hserved] at hentries
      cases hdevices : host.devices with
      | nil => rfl
      | cons dev devices =>
        rw [hdevices] at hentries
        cases dev with
        | endpoint devfn => cases hentries
        | bridge => cases hentries
    refine ⟨List.pairwise_singleton .., fun host hhost hserved d hd => ?_, ?_⟩
    · rw [hempty host hhost hserved] at hd
      cases hd
    · rintro ⟨host, hhost, hserved, hdevices⟩
      exact absurd (hempty host hhost hserved) hdevices
  · exact ⟨disjoint_hostRanges hnum, fun host hhost hserved => hostRanges_tell hnum hhost hserved,
      fun _ host hhost hbypass => not_holds_of_bypass hnum hhost hbypass⟩

/-- An IOMMU of a machine with a root port, a conventional bridge with a bridge
behind it, and a second host bridge that is not served. -/
def twoHosts : AmdIommu where
  oemId := asBytes "BOCHS "
  oemTableId := asBytes "BXPC    "
  addr := 24
  capabOffset := 0x40
  mmioAddr := 0xfed80000
  irSupported := true
  hosts := [
    ⟨0, false, [.endpoint 0, .bridge 8 1 1 true false [.endpoint 0],
      .bridge 16 2 3 false false [.endpoint 8, .bridge 16 3 3 false false [.endpoint 0]]]⟩,
    ⟨32, true, [.endpoint 0]⟩]

theorem hostsNumbered_twoHosts : HostsNumbered twoHosts.hosts where
  numbered host hhost := by
    simp only [twoHosts, List.mem_cons, List.not_mem_nil, or_false] at hhost
    rcases hhost with rfl | rfl
    · simp [NumberedEach, Numbered, PciNode.Apart, PciNode.devfn, PciHostBridge.last]
    · simp [NumberedEach, Numbered]
  apart := by
    simp [twoHosts, PciHostBridge.last]

theorem ivrs_tells_requests_twoHosts : ∃ file linker',
    buildAmdIommu (bstr "BXPC    ") twoHosts [] [] = .ok (file, linker') ∧
    ∃ ranges, ivrsRanges (tableBody file ([] : Bytes).length) = some ranges ∧
      ranges.Pairwise DeviceRange.Disjoint ∧
      (∀ host ∈ twoHosts.hosts, host.bypassIommu = false →
        ∀ d ∈ pciDevicesEach host.num host.devices, Tells ranges d) ∧
      ((∃ host ∈ twoHosts.hosts, host.bypassIommu = false ∧ host.devices ≠ []) →
        ∀ host ∈ twoHosts.hosts, host.bypassIommu = true →
          ∀ d ∈ pciDevicesEach host.num host.devices, ∀ r ∈ ranges, ¬r.Holds d.2) := by
  obtain ⟨file, linker', h, hlen⟩ :=
    @exists_of_length (buildAmdIommu (bstr "BXPC    ") twoHosts [] []) 112 (by decide +kernel)
  exact ⟨file, linker', h, ivrs_tells_requests hostsNumbered_twoHosts h (hlen ▸ by decide)
    (by decide +kernel)⟩

end AcpiTables.AmlBuild
