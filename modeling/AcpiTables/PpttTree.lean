import AcpiTables.Pptt

/-!
# The tree of a PPTT

What the loop of `build_pptt` has written so far is a list of structures, among
them a tree of containers; the variables of the loop are the containers that are
open. `Written` says the former of a table, `Open` the latter of a list of
variables.

A level of the loop either finds its container open or opens it, in those that are
open above it (`Open.enter`). Nothing else happens to the tree, which is what
`Reaches` says of two states, and each level has one lemma in these terms:
`ppttSocket_spec`, `ppttCluster_spec` and `ppttCore_spec`.
-/

namespace AcpiTables.AmlBuild

open MachineInt ContainerTree

/-! ## Structures -/

/-- The bytes of a structure: type 0, twenty bytes long, and without private
resources. -/
def HierarchyNode.record (node : HierarchyNode) : Bytes :=
  packFields [(1, 0), (1, 20), (2, 0), (4, node.flags), (4, node.parent), (4, node.id), (4, 0)]

/-- The values of a structure fit their fields. -/
structure HierarchyNode.Fits (node : HierarchyNode) : Prop where
  flags : node.flags < 4294967296
  parent : node.parent < 4294967296
  id : node.id < 4294967296

/-- What `build_processor_hierarchy_node` appends, as a structure. -/
def hierarchyNode (flags parent id : UInt32) : HierarchyNode :=
  ⟨flags.toNat, parent.toNat, id.toNat⟩

/-- What is appended fits its fields. -/
theorem fits_hierarchyNode (flags parent id : UInt32) : (hierarchyNode flags parent id).Fits :=
  ⟨flags.toNat_lt, parent.toNat_lt, id.toNat_lt⟩

/-- The builder appends the bytes of the structure. -/
theorem buildProcessorHierarchyNode_eq (tbl : Bytes) (flags parent id : UInt32) :
    buildProcessorHierarchyNode tbl flags parent id [] =
      tbl ++ (hierarchyNode flags parent id).record := by
  simp only [buildProcessorHierarchyNode, buildAppendIntNoprefix_eq, HierarchyNode.record,
    hierarchyNode, packFields_cons, packFields_nil, List.append_assoc, List.foldl_nil,
    UInt32.toNat_toUInt64]
  rfl

/-- A structure takes twenty bytes. -/
@[simp] theorem length_record_node (node : HierarchyNode) : node.record.length = 20 :=
  length_packFields _

/-- A structure is one record. -/
theorem isRecord_node (node : HierarchyNode) : IsRecord structureSize node.record :=
  isRecord_of_length 0 20 rfl (length_record_node node)

/-- A structure is read as it was written. -/
theorem readHierarchyNode_record {node : HierarchyNode} (h : node.Fits) :
    readHierarchyNode node.record = some node := by
  have hread := readFields_packFields_of_fit [(1, 0), (1, 20), (2, 0), (4, node.flags),
    (4, node.parent), (4, node.id), (4, 0)] (by simpa using ⟨h.flags, h.parent, h.id⟩) []
  rw [List.append_nil] at hread
  simp only [List.map_cons, List.map_nil] at hread
  rw [readHierarchyNode, HierarchyNode.record, hread]
  rfl

/-- Where the next structure lies in the table. -/
def nextPosition (nodes : List HierarchyNode) : ℕ := 36 + 20 * nodes.length

/-- Structures take twenty bytes each. -/
theorem length_records (nodes : List HierarchyNode) :
    (nodes.flatMap HierarchyNode.record).length = 20 * nodes.length := by
  induction nodes with
  | nil => rfl
  | cons node nodes ih =>
    rw [List.flatMap_cons, List.length_append, length_record_node, ih, List.length_cons]
    omega

/-- One structure more moves the next one by twenty bytes. -/
theorem nextPosition_push (nodes : List HierarchyNode) (node : HierarchyNode) :
    nextPosition (nodes ++ [node]) = nextPosition nodes + 20 := by
  rw [nextPosition, nextPosition, List.length_append, List.length_singleton]
  omega

/-! ## What has been written -/

/-- The table so far: its structures, and the containers among them. -/
structure Written (front tableData : Bytes) (nodes : List HierarchyNode)
    (tree : List (Container ℕ)) : Prop where
  data : tableData = front ++ nodes.flatMap HierarchyNode.record
  fits : ∀ node ∈ nodes, node.Fits
  lies : ∀ c ∈ tree, ∃ before flags after,
    nodes = before ++ ⟨flags, c.parent, c.id⟩ :: after ∧ c.position = nextPosition before
  below : Below tree (nextPosition nodes)
  distinct : Distinct tree

/-- Another structure, which may be a container. -/
theorem Written.push {front tableData : Bytes} {nodes : List HierarchyNode}
    {tree tree' : List (Container ℕ)} (h : Written front tableData nodes tree)
    (flags parent id : UInt32)
    (htree : ∀ c ∈ tree', c ∈ tree ∨ c = ⟨nextPosition nodes, parent.toNat, id.toNat⟩)
    (hbelow : Below tree' (nextPosition nodes + 20)) (hdistinct : Distinct tree') :
    Written front (buildProcessorHierarchyNode tableData flags parent id [])
      (nodes ++ [hierarchyNode flags parent id]) tree' where
  data := by
    rw [buildProcessorHierarchyNode_eq, h.data, List.append_assoc, List.flatMap_append,
      List.flatMap_singleton]
  fits := by
    intro node hnode
    rcases List.mem_append.mp hnode with hnode | hnode
    · exact h.fits node hnode
    · obtain rfl := List.mem_singleton.mp hnode
      exact fits_hierarchyNode flags parent id
  lies := by
    intro c hc
    rcases htree c hc with hc | rfl
    · obtain ⟨before, flags', after, rfl, hposition⟩ := h.lies c hc
      exact ⟨before, flags', after ++ [hierarchyNode flags parent id],
        by rw [List.append_assoc, List.cons_append], hposition⟩
    · exact ⟨nodes, flags.toNat, [], rfl, rfl⟩
  below := by rwa [nextPosition_push]
  distinct := hdistinct

/-- The table so far, and the containers that are open. -/
structure Open (front tableData : Bytes) (nodes : List HierarchyNode)
    (tree : List (Container ℕ)) (path : List (ℕ × ℕ)) : Prop
    extends Written front tableData nodes tree where
  opened : Opened tree 0 path

/-- A level of the loop: `inner` is open in its container, and -1 stands for no
container. -/
def level (id : ℤ) (offset : UInt32) (inner : List (ℕ × ℕ)) : List (ℕ × ℕ) :=
  if id = -1 then [] else (offset.toNat, id.toNat) :: inner

/-- A level with an id has a container. -/
theorem level_of_nonneg {id : ℤ} (h : 0 ≤ id) (offset : UInt32) (inner : List (ℕ × ℕ)) :
    level id offset inner = (offset.toNat, id.toNat) :: inner := if_neg (by omega)

/-- An id of 32 bits keeps its value. -/
theorem toNat_ofInt_u32 {id : ℤ} (h : 0 ≤ id) (hlt : id < 4294967296) :
    (UInt32.ofInt id).toNat = id.toNat := by
  rw [UInt32.ofInt, UInt32.toNat_ofNat']
  omega

/-- A container is opened on a level, in those that are open above it. -/
theorem Open.enter {front tableData : Bytes} {nodes : List HierarchyNode}
    {tree : List (Container ℕ)} {kept inner : List (ℕ × ℕ)} {last id : ℤ} {offset : UInt32}
    {ppttStart : ℕ} (hfront : front.length = ppttStart + 36)
    (h : Open front tableData nodes tree (kept ++ level last offset inner)) (hlast : -1 ≤ last)
    (hid : last < id) (hfits : id < 4294967296) (flags : UInt32) {parent : UInt32}
    (hparent : parent.toNat = innermost 0 kept)
    (hlen : tableData.length - ppttStart < 4294967296) :
    Open front (buildProcessorHierarchyNode tableData flags parent (UInt32.ofInt id) [])
      (nodes ++ [hierarchyNode flags parent (UInt32.ofInt id)])
      (tree ++ [⟨nextPosition nodes, innermost 0 kept, id.toNat⟩])
      (kept ++ level id (UInt32.ofNat (tableData.length - ppttStart)) []) := by
  have hnonneg : 0 ≤ id := by omega
  have hread := toNat_ofInt_u32 hnonneg hfits
  have hoffset : (UInt32.ofNat (tableData.length - ppttStart)).toNat = nextPosition nodes := by
    rw [UInt32.toNat_ofNat_of_lt' hlen, h.data, List.length_append, length_records, hfront,
      nextPosition]
    omega
  have hlevel : ∀ x ∈ (level last offset inner).head?, x.2 < id.toNat := by
    intro x hx
    rw [level] at hx
    split at hx
    · cases hx
    · obtain rfl := Option.some.inj hx
      dsimp only
      omega
  have hpos : 0 < nextPosition nodes := by
    rw [nextPosition]
    omega
  obtain ⟨hkept, hrest⟩ := Opened.of_append h.opened
  have hinner : innermost 0 kept < nextPosition nodes := h.below.innermost_lt hpos hkept
  refine ⟨h.push flags parent (UInt32.ofInt id) ?_ ?_ ?_, ?_⟩
  · intro c hc
    rcases List.mem_append.mp hc with hc | hc
    · exact Or.inl hc
    · rw [hread, hparent]
      exact Or.inr (List.mem_singleton.mp hc)
  · exact h.below.push (by omega) hinner id.toNat
  · exact h.distinct.push hrest hlevel _
  · rw [level_of_nonneg hnonneg, hoffset]
    exact Opened.push h.below hpos h.opened hlevel

/-! ## The levels -/

/-- The ids that are looked at are numbers of 32 bits. -/
structure CPUArchId.Numbered (cpu : CPUArchId) : Prop where
  socketId : 0 ≤ cpu.props.socketId ∧ cpu.props.socketId < 4294967296
  clusterId : 0 ≤ cpu.props.clusterId ∧ cpu.props.clusterId < 4294967296
  coreId : 0 ≤ cpu.props.coreId ∧ cpu.props.coreId < 4294967296

/-- An id of the loop is that of a processor, or -1. -/
structure PpttState.Sound (s : PpttState) : Prop where
  socketId : -1 ≤ s.socketId
  clusterId : -1 ≤ s.clusterId
  coreId : -1 ≤ s.coreId

/-- The level of the cores. -/
def PpttState.cores (machine : SmpMachine) (s : PpttState) : List (ℕ × ℕ) :=
  if machine.threads = 1 then [] else level s.coreId s.coreOffset []

/-- The level of the clusters, and what is open below it. -/
def PpttState.clusters (machine : SmpMachine) (s : PpttState) : List (ℕ × ℕ) :=
  if machine.clustersSupported ∧ machine.hasClusters then
    level s.clusterId s.clusterOffset (s.cores machine)
  else s.cores machine

/-- The containers that are open. -/
def PpttState.path (machine : SmpMachine) (s : PpttState) : List (ℕ × ℕ) :=
  level s.socketId s.socketOffset (s.clusters machine)

/-- The state is reached, perhaps with more containers. -/
def Reaches (machine : SmpMachine) (front : Bytes) (nodes : List HierarchyNode)
    (tree : List (Container ℕ)) (s : PpttState) : Prop :=
  ∃ nodes' tree', tree ⊆ tree' ∧
    nodes'.filter HierarchyNode.isLeaf = nodes.filter HierarchyNode.isLeaf ∧
    Open front s.tableData nodes' tree' (s.path machine)

section

variable {machine : SmpMachine} {front : Bytes} {ppttStart : ℕ} {nodes : List HierarchyNode}
  {tree : List (Container ℕ)} {cpu : CPUArchId} {s s' : PpttState}

/-- A state is reached from itself. -/
theorem Reaches.refl (h : Open front s.tableData nodes tree (s.path machine)) :
    Reaches machine front nodes tree s := ⟨nodes, tree, List.Subset.refl _, rfl, h⟩

/-- A container is no processor. -/
theorem filter_push_container (nodes : List HierarchyNode) (flags parent id : UInt32)
    (hflags : flags.toNat < 8) :
    (nodes ++ [hierarchyNode flags parent id]).filter HierarchyNode.isLeaf =
      nodes.filter HierarchyNode.isLeaf := by
  have hleaf : (hierarchyNode flags parent id).isLeaf = false := by
    rw [HierarchyNode.isLeaf, hierarchyNode]
    dsimp only
    rw [Nat.div_eq_of_lt hflags]
    rfl
  rw [List.filter_append, List.filter_singleton, hleaf]
  exact List.append_nil _

/-- A container was opened on a level. -/
theorem Reaches.enter (hfront : front.length = ppttStart + 36) {kept inner : List (ℕ × ℕ)}
    {last id : ℤ} {offset flags parent : UInt32}
    (h : Open front s.tableData nodes tree (kept ++ level last offset inner)) (hlast : -1 ≤ last)
    (hid : last < id) (hfits : id < 4294967296) (hflags : flags.toNat < 8)
    (hparent : parent.toNat = innermost 0 kept)
    (hdata : s'.tableData =
      buildProcessorHierarchyNode s.tableData flags parent (UInt32.ofInt id) [])
    (hpath : s'.path machine =
      kept ++ level id (UInt32.ofNat (s.tableData.length - ppttStart)) [])
    (hlen : s'.tableData.length < 4294967296) : Reaches machine front nodes tree s' := by
  have hshort : s.tableData.length - ppttStart < 4294967296 := by
    rw [hdata, buildProcessorHierarchyNode_eq, List.length_append] at hlen
    omega
  have hopen := h.enter hfront hlast hid hfits flags hparent hshort
  rw [← hdata, ← hpath] at hopen
  exact ⟨_, _, List.subset_append_left .., filter_push_container nodes flags parent _ hflags, hopen⟩

/-- The level of the sockets: afterwards the socket of the processor is open. -/
theorem ppttSocket_spec (hfront : front.length = ppttStart + 36) (hcpu : cpu.Numbered)
    (hsound : s.Sound) (h : Open front s.tableData nodes tree (s.path machine))
    (hs : ppttSocket ppttStart cpu s = .ok s') (hlen : s'.tableData.length < 4294967296) :
    Reaches machine front nodes tree s' ∧ s'.Sound ∧ s'.socketId = cpu.props.socketId := by
  rw [ppttSocket] at hs
  split at hs
  · obtain ⟨_, hlarger, hs⟩ := Checked.bind_eq_ok.mp hs
    rw [ensure_eq_ok] at hlarger
    obtain rfl := Except.ok.inj hs
    refine ⟨?_, ⟨hsound.socketId.trans (Int.le_of_lt hlarger), Int.le_refl _, Int.le_refl _⟩, rfl⟩
    have hroot : Open front s.tableData nodes tree
        ([] ++ level s.socketId s.socketOffset (s.clusters machine)) := h
    refine Reaches.enter hfront hroot hsound.socketId hlarger hcpu.socketId.2 (by decide) rfl rfl ?_
      hlen
    -- nothing is open in the new socket
    simp [PpttState.path, PpttState.clusters, PpttState.cores, level]
  · next hsame =>
    obtain rfl := Except.ok.inj hs
    exact ⟨Reaches.refl h, hsound, (not_not.mp hsame).symm⟩

/-- The containers of a processor above the level of the cores. -/
def PpttState.kept (machine : SmpMachine) (s : PpttState) : List (ℕ × ℕ) :=
  (s.socketOffset.toNat, s.socketId.toNat) ::
    if machine.clustersSupported ∧ machine.hasClusters then
      [(s.clusterOffset.toNat, s.clusterId.toNat)] else []

/-- The socket and the cluster of a processor are open. -/
structure Inside (machine : SmpMachine) (cpu : CPUArchId) (s : PpttState) : Prop where
  socketId : s.socketId = cpu.props.socketId
  clusterId : machine.clustersSupported ∧ machine.hasClusters → s.clusterId = cpu.props.clusterId
  clusterOffset : ¬(machine.clustersSupported ∧ machine.hasClusters) →
    s.clusterOffset = s.socketOffset

/-- The open containers of a state whose socket and cluster are those of the
processor. -/
theorem Inside.path_eq (hcpu : cpu.Numbered) (h : Inside machine cpu s) :
    s.path machine = s.kept machine ++ s.cores machine := by
  have hsocket : 0 ≤ s.socketId := h.socketId ▸ hcpu.socketId.1
  rw [PpttState.path, level_of_nonneg hsocket, PpttState.clusters, PpttState.kept]
  split
  · next hon =>
    have hcluster : 0 ≤ s.clusterId := h.clusterId hon ▸ hcpu.clusterId.1
    rw [level_of_nonneg hcluster]
    rfl
  · rfl

/-- The offset of the innermost container that is kept. -/
theorem Inside.innermost_eq (h : Inside machine cpu s) :
    s.clusterOffset.toNat = innermost 0 (s.kept machine) := by
  rw [PpttState.kept]
  split
  · rfl
  · next hoff =>
    rw [h.clusterOffset hoff]
    rfl

/-- The level of the clusters: afterwards the cluster of the processor is open, if
the machine has clusters. -/
theorem ppttCluster_spec (hfront : front.length = ppttStart + 36) (hcpu : cpu.Numbered)
    (hsound : s.Sound) (hsocket : s.socketId = cpu.props.socketId)
    (h : Open front s.tableData nodes tree (s.path machine))
    (hs : ppttCluster machine ppttStart cpu s = .ok s') (hlen : s'.tableData.length < 4294967296) :
    Reaches machine front nodes tree s' ∧ s'.Sound ∧ Inside machine cpu s' := by
  have hnonneg : 0 ≤ s.socketId := hsocket ▸ hcpu.socketId.1
  have hpath : s.path machine =
      [(s.socketOffset.toNat, s.socketId.toNat)] ++ s.clusters machine := by
    rw [PpttState.path, level_of_nonneg hnonneg]
    rfl
  rw [ppttCluster] at hs
  split at hs
  · next hon =>
    split at hs
    · obtain ⟨_, hlarger, hs⟩ := Checked.bind_eq_ok.mp hs
      rw [ensure_eq_ok] at hlarger
      obtain rfl := Except.ok.inj hs
      refine ⟨?_, ⟨hsound.socketId, hsound.clusterId.trans (Int.le_of_lt hlarger), Int.le_refl _⟩,
        ⟨hsocket, fun _ => rfl, fun hoff => absurd hon hoff⟩⟩
      rw [hpath, PpttState.clusters, if_pos hon] at h
      refine Reaches.enter hfront h hsound.clusterId hlarger hcpu.clusterId.2 (by decide) rfl rfl ?_
        hlen
      rw [PpttState.path, level_of_nonneg hnonneg, PpttState.clusters, if_pos hon]
      -- nor is there a core in the new cluster
      simp [PpttState.cores, level]
    · next hsame =>
      obtain rfl := Except.ok.inj hs
      exact ⟨Reaches.refl h, hsound,
        ⟨hsocket, fun _ => (not_not.mp hsame).symm, fun hoff => absurd hon hoff⟩⟩
  · next hoff =>
    obtain rfl := Except.ok.inj hs
    refine ⟨Reaches.refl ?_, ⟨hsound.socketId, hsound.clusterId, hsound.coreId⟩,
      ⟨hsocket, fun hon => absurd hon hoff, fun _ => rfl⟩⟩
    rw [PpttState.path, PpttState.clusters, if_neg hoff] at h ⊢
    exact h

/-- The level of the cores: afterwards the core of the processor is open, if the
machine has threads. -/
theorem ppttCore_spec (hfront : front.length = ppttStart + 36) (hcpu : cpu.Numbered)
    (hsound : s.Sound) (hthreads : machine.threads ≠ 1) (hinside : Inside machine cpu s)
    (h : Open front s.tableData nodes tree (s.path machine))
    (hs : ppttCore ppttStart cpu s = .ok s') (hlen : s'.tableData.length < 4294967296) :
    Reaches machine front nodes tree s' ∧ s'.Sound ∧ Inside machine cpu s' ∧
      s'.coreId = cpu.props.coreId := by
  rw [ppttCore] at hs
  split at hs
  · obtain ⟨_, hlarger, hs⟩ := Checked.bind_eq_ok.mp hs
    rw [ensure_eq_ok] at hlarger
    obtain rfl := Except.ok.inj hs
    have hinside' : Inside machine cpu { s with
        coreId := cpu.props.coreId
        coreOffset := UInt32.ofNat (s.tableData.length - ppttStart)
        tableData := buildProcessorHierarchyNode s.tableData 0 s.clusterOffset
          (UInt32.ofInt cpu.props.coreId) [] } :=
      ⟨hinside.socketId, hinside.clusterId, hinside.clusterOffset⟩
    refine ⟨?_, ⟨hsound.socketId, hsound.clusterId, hsound.coreId.trans (Int.le_of_lt hlarger)⟩,
      hinside', rfl⟩
    rw [hinside.path_eq hcpu, PpttState.cores, if_neg hthreads] at h
    refine Reaches.enter hfront h hsound.coreId hlarger hcpu.coreId.2 (by decide)
      hinside.innermost_eq rfl ?_ hlen
    rw [hinside'.path_eq hcpu, PpttState.cores, if_neg hthreads]
    simp only [PpttState.kept]
  · next hsame =>
    obtain rfl := Except.ok.inj hs
    exact ⟨Reaches.refl h, hsound, hinside, (not_not.mp hsame).symm⟩

end

end AcpiTables.AmlBuild
