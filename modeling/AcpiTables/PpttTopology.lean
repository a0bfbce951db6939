import AcpiTables.PpttTree

/-!
# The containers of the processors

What a reader of a PPTT finds around a processor are the socket, the cluster and
the core that the machine has for it, and two processors are in the same
container if and only if the machine has them in the same one
(`pptt_tells_containers`).

* **the writer**: `Loop` says which processors have been written, each in a path of
  containers. A turn adds one (`Loop.step`), in the containers that are open at its
  end, and the loop adds all of them (`Loop.run`);
* **the reader** follows the offsets of the parents. It goes from a container to the
  one around it (`Written.containersAbove_container`), and the number of bytes is
  enough steps (`Loop.length_le`);
* two paths that go through the same offset are the same from there on, so that a
  shared offset is a shared container.
-/

namespace AcpiTables.AmlBuild

open MachineInt ContainerTree

section

variable {machine : SmpMachine} {front : Bytes} {ppttStart : ℕ} {nodes : List HierarchyNode}
  {tree : List (Container ℕ)} {cpu : CPUArchId} {s s' : PpttState}

/-! ## The table grows -/

/-- The level of the sockets does not shorten the table. -/
theorem length_le_ppttSocket (h : ppttSocket ppttStart cpu s = .ok s') :
    s.tableData.length ≤ s'.tableData.length := by
  rw [ppttSocket] at h
  split at h
  · obtain ⟨_, _, h⟩ := Checked.bind_eq_ok.mp h
    obtain rfl := Except.ok.inj h
    simp [buildProcessorHierarchyNode_eq]
  · obtain rfl := Except.ok.inj h
    exact Nat.le_refl _

/-- The level of the clusters does not shorten the table. -/
theorem length_le_ppttCluster (h : ppttCluster machine ppttStart cpu s = .ok s') :
    s.tableData.length ≤ s'.tableData.length := by
  rw [ppttCluster] at h
  split at h
  · split at h
    · obtain ⟨_, _, h⟩ := Checked.bind_eq_ok.mp h
      obtain rfl := Except.ok.inj h
      simp [buildProcessorHierarchyNode_eq]
    · obtain rfl := Except.ok.inj h
      exact Nat.le_refl _
  · obtain rfl := Except.ok.inj h
    exact Nat.le_refl _

/-- The level of the cores does not shorten the table. -/
theorem length_le_ppttCore (h : ppttCore ppttStart cpu s = .ok s') :
    s.tableData.length ≤ s'.tableData.length := by
  rw [ppttCore] at h
  split at h
  · obtain ⟨_, _, h⟩ := Checked.bind_eq_ok.mp h
    obtain rfl := Except.ok.inj h
    simp [buildProcessorHierarchyNode_eq]
  · obtain rfl := Except.ok.inj h
    exact Nat.le_refl _

/-- The structure of the processor does not shorten the table. -/
theorem length_le_ppttProcessor {n : ℕ} (h : ppttProcessor machine ppttStart cpu n s = .ok s') :
    s.tableData.length ≤ s'.tableData.length := by
  rw [ppttProcessor] at h
  split at h
  · obtain rfl := Except.ok.inj h
    simp [buildProcessorHierarchyNode_eq]
  · obtain ⟨t, ht, h⟩ := Checked.bind_eq_ok.mp h
    obtain rfl := Except.ok.inj h
    have hcore := length_le_ppttCore ht
    rw [buildProcessorHierarchyNode_eq, List.length_append]
    exact Nat.le_trans hcore (Nat.le_add_right _ _)

/-- One turn of the loop does not shorten the table. -/
theorem length_le_ppttCpu {x : CPUArchId × ℕ} (h : ppttCpu machine ppttStart s x = .ok s') :
    s.tableData.length ≤ s'.tableData.length := by
  obtain ⟨s₁, h₁, h⟩ := Checked.bind_eq_ok.mp h
  obtain ⟨s₂, h₂, h⟩ := Checked.bind_eq_ok.mp h
  exact Nat.le_trans (length_le_ppttSocket h₁)
    (Nat.le_trans (length_le_ppttCluster h₂) (length_le_ppttProcessor h))

/-- The loop does not shorten the table. -/
theorem length_le_foldlM {l : List (CPUArchId × ℕ)}
    (h : l.foldlM (ppttCpu machine ppttStart) s = .ok s') :
    s.tableData.length ≤ s'.tableData.length := by
  induction l generalizing s with
  | nil =>
    obtain rfl := Except.ok.inj h
    exact Nat.le_refl _
  | cons x l ih =>
    obtain ⟨t, ht, h⟩ := Checked.bind_eq_ok.mp h
    exact Nat.le_trans (length_le_ppttCpu ht) (ih h)

/-! ## A processor -/

/-- The structure of a processor that is in these containers. -/
def leafNode (machine : SmpMachine) (path : List (ℕ × ℕ)) (n : ℕ) : HierarchyNode :=
  ⟨if machine.threads = 1 then 10 else 14, innermost 0 path, n⟩

/-- The state after some processors, each in a path of containers. -/
structure Loop (machine : SmpMachine) (front : Bytes) (s : PpttState) (done : List CPUArchId)
    (nodes : List HierarchyNode) (tree : List (Container ℕ)) (paths : List (List (ℕ × ℕ))) : Prop
    extends Open front s.tableData nodes tree (s.path machine) where
  sound : s.Sound
  leaves : nodes.filter HierarchyNode.isLeaf = paths.zipIdx.map fun x => leafNode machine x.1 x.2
  chains : ∀ path ∈ paths, Chain tree 0 path
  ids : paths.map (List.map fun c => (c.2 : ℤ)) = done.map machine.containerIds

/-- All containers of the processor are open. -/
structure Within (machine : SmpMachine) (cpu : CPUArchId) (s : PpttState) : Prop
    extends Inside machine cpu s where
  coreId : machine.threads ≠ 1 → s.coreId = cpu.props.coreId

/-- When all containers of a processor are open, they have the ids of the
processor. -/
theorem Within.ids (hcpu : cpu.Numbered) (h : Within machine cpu s) :
    (s.path machine).map (fun c => (c.2 : ℤ)) = machine.containerIds cpu := by
  have hsocket : ((s.socketId.toNat : ℕ) : ℤ) = cpu.props.socketId := by
    rw [h.socketId]
    exact Int.toNat_of_nonneg hcpu.socketId.1
  have hkept : (s.kept machine).map (fun c => (c.2 : ℤ)) = [cpu.props.socketId] ++
      if machine.clustersSupported ∧ machine.hasClusters then [cpu.props.clusterId] else [] := by
    rw [PpttState.kept, List.map_cons, hsocket]
    split
    · next hon =>
      rw [List.map_singleton, h.clusterId hon, Int.toNat_of_nonneg hcpu.clusterId.1]
      rfl
    · rfl
  have hcores : (s.cores machine).map (fun c => (c.2 : ℤ)) =
      if machine.threads = 1 then [] else [cpu.props.coreId] := by
    rw [PpttState.cores]
    split
    · rfl
    · next hthreads =>
      have hcore := h.coreId hthreads
      rw [level_of_nonneg (hcore ▸ hcpu.coreId.1), List.map_singleton, hcore,
        Int.toNat_of_nonneg hcpu.coreId.1]
  rw [h.path_eq hcpu, List.map_append, hkept, hcores, SmpMachine.containerIds]

/-- The open containers are in the state of the loop, not in the bytes. -/
theorem path_tableData (s : PpttState) (data : Bytes) :
    PpttState.path machine { s with tableData := data } = s.path machine := by
  simp only [PpttState.path, PpttState.clusters, PpttState.cores]

/-- The end of a turn: the structure of the processor, in the containers that
are open. -/
theorem Loop.leaf {done : List CPUArchId} {paths : List (List (ℕ × ℕ))}
    {nodes' : List HierarchyNode} {tree' : List (Container ℕ)}
    (h : Loop machine front s done nodes tree paths)
    (hcpu : cpu.Numbered) {t : PpttState} (htree : tree ⊆ tree')
    (hleaves : nodes'.filter HierarchyNode.isLeaf = nodes.filter HierarchyNode.isLeaf)
    (hopen : Open front t.tableData nodes' tree' (t.path machine)) (hsound : t.Sound)
    (hwithin : Within machine cpu t) {flags parent id : UInt32}
    (hnode : hierarchyNode flags parent id = leafNode machine (t.path machine) paths.length)
    (hs : s' = { t with
      tableData := buildProcessorHierarchyNode t.tableData flags parent id [] }) :
    Loop machine front s' (done ++ [cpu]) (nodes' ++ [hierarchyNode flags parent id]) tree'
      (paths ++ [t.path machine]) := by
  subst hs
  have hwritten := hopen.push flags parent id (fun c hc => Or.inl hc)
    (hopen.below.mono (Nat.le_add_right _ 20)) hopen.distinct
  refine ⟨⟨hwritten, (path_tableData t _).symm ▸ hopen.opened⟩,
    ⟨hsound.socketId, hsound.clusterId, hsound.coreId⟩, ?_, ?_, ?_⟩
  · have hleaf : (leafNode machine (t.path machine) paths.length).isLeaf = true := by
      rw [HierarchyNode.isLeaf, leafNode]
      dsimp only
      split <;> rfl
    rw [List.filter_append, hleaves, h.leaves, hnode, List.filter_singleton, hleaf,
      List.zipIdx_append, List.map_append]
    simp
  · intro path hpath
    rcases List.mem_append.mp hpath with hpath | hpath
    · exact (h.chains path hpath).mono htree
    · obtain rfl := List.mem_singleton.mp hpath
      exact hopen.opened.chain
  · rw [List.map_append, List.map_append, h.ids, List.map_singleton, List.map_singleton,
      hwithin.ids hcpu]

/-- There are fewer processors than the table has bytes. -/
theorem Loop.length_lt {done : List CPUArchId} {paths : List (List (ℕ × ℕ))}
    (h : Loop machine front s done nodes tree paths) (hlen : s.tableData.length < 4294967296) :
    paths.length < 4294967296 := by
  have hleaves := congrArg List.length h.leaves
  rw [List.length_map, List.length_zipIdx] at hleaves
  have hnodes := List.length_filter_le HierarchyNode.isLeaf nodes
  rw [h.data, List.length_append, length_records] at hlen
  omega

/-- **One turn of the loop** leaves the processor in its containers. -/
theorem Loop.step {done : List CPUArchId} {paths : List (List (ℕ × ℕ))}
    (hfront : front.length = ppttStart + 36) (h : Loop machine front s done nodes tree paths)
    (hcpu : cpu.Numbered) (hs : ppttCpu machine ppttStart s (cpu, paths.length) = .ok s')
    (hlen : s'.tableData.length < 4294967296) :
    ∃ nodes' tree' path, Loop machine front s' (done ++ [cpu]) nodes' tree' (paths ++ [path]) := by
  have hgrows := length_le_ppttCpu hs
  have hn := h.length_lt (Nat.lt_of_le_of_lt hgrows hlen)
  obtain ⟨s₁, h₁, hs⟩ := Checked.bind_eq_ok.mp hs
  obtain ⟨s₂, h₂, hs⟩ := Checked.bind_eq_ok.mp hs
  have hlen₂ := Nat.lt_of_le_of_lt (length_le_ppttProcessor hs) hlen
  have hlen₁ := Nat.lt_of_le_of_lt (length_le_ppttCluster h₂) hlen₂
  obtain ⟨⟨nodes₁, tree₁, htree₁, hleaves₁, hopen₁⟩, hsound₁, hsocket⟩ :=
    ppttSocket_spec hfront hcpu h.sound h.toOpen h₁ hlen₁
  obtain ⟨⟨nodes₂, tree₂, htree₂, hleaves₂, hopen₂⟩, hsound₂, hinside⟩ :=
    ppttCluster_spec hfront hcpu hsound₁ hsocket hopen₁ h₂ hlen₂
  have htree := List.Subset.trans htree₁ htree₂
  have hleaves := hleaves₂.trans hleaves₁
  rw [ppttProcessor] at hs
  split at hs
  · next hthreads =>
    have hwithin : Within machine cpu s₂ := ⟨hinside, fun hmany => absurd hthreads hmany⟩
    have hpath : s₂.clusterOffset.toNat = innermost 0 (s₂.path machine) := by
      rw [hinside.path_eq hcpu, PpttState.cores, if_pos hthreads, List.append_nil,
        hinside.innermost_eq]
    refine ⟨_, _, _, h.leaf hcpu htree hleaves hopen₂ hsound₂ hwithin ?_ (Except.ok.inj hs).symm⟩
    rw [hierarchyNode, leafNode, if_pos hthreads, hpath, UInt32.toNat_ofNat_of_lt' hn]
    rfl
  · next hthreads =>
    obtain ⟨s₃, h₃, hs⟩ := Checked.bind_eq_ok.mp hs
    have hs' := (Except.ok.inj hs).symm
    have hlen₃ : s₃.tableData.length < 4294967296 := by
      rw [hs', buildProcessorHierarchyNode_eq, List.length_append] at hlen
      omega
    obtain ⟨⟨nodes₃, tree₃, htree₃, hleaves₃, hopen₃⟩, hsound₃, hinside₃, hcore⟩ :=
      ppttCore_spec hfront hcpu hsound₂ hthreads hinside hopen₂ h₃ hlen₃
    have hpath : s₃.coreOffset.toNat = innermost 0 (s₃.path machine) := by
      rw [hinside₃.path_eq hcpu, PpttState.cores, if_neg hthreads, innermost_append,
        level_of_nonneg (hcore ▸ hcpu.coreId.1)]
      rfl
    refine ⟨_, _, _, h.leaf hcpu (List.Subset.trans htree htree₃) (hleaves₃.trans hleaves) hopen₃
      hsound₃ ⟨hinside₃, fun _ => hcore⟩ ?_ hs'⟩
    rw [hierarchyNode, leafNode, if_neg hthreads, hpath, UInt32.toNat_ofNat_of_lt' hn]
    rfl

/-- **The loop** leaves every processor in its containers. -/
theorem Loop.run (hfront : front.length = ppttStart + 36) {cpus done : List CPUArchId}
    (hcpus : ∀ cpu ∈ cpus, cpu.Numbered) {paths : List (List (ℕ × ℕ))}
    (h : Loop machine front s done nodes tree paths)
    (hs : (cpus.zipIdx paths.length).foldlM (ppttCpu machine ppttStart) s = .ok s')
    (hlen : s'.tableData.length < 4294967296) :
    ∃ nodes' tree' paths', Loop machine front s' (done ++ cpus) nodes' tree' paths' := by
  induction cpus generalizing s done nodes tree paths with
  | nil =>
    obtain rfl := Except.ok.inj hs
    rw [List.append_nil]
    exact ⟨nodes, tree, paths, h⟩
  | cons cpu cpus ih =>
    obtain ⟨hcpu, hcpus⟩ := List.forall_mem_cons.mp hcpus
    rw [List.zipIdx_cons, List.foldlM_cons] at hs
    obtain ⟨t, ht, hs⟩ := Checked.bind_eq_ok.mp hs
    obtain ⟨nodes', tree', path, h'⟩ :=
      h.step hfront hcpu ht (Nat.lt_of_le_of_lt (length_le_foldlM hs) hlen)
    have hlength : (paths ++ [path]).length = paths.length + 1 := List.length_append
    rw [List.append_cons]
    exact ih hcpus h' (hlength ▸ hs)

/-! ## The reader -/

/-- The structure of a node stands at its place in the table. -/
theorem slice_record {body : Bytes} {before after : List HierarchyNode} {node : HierarchyNode}
    (hbody : body = (before ++ node :: after).flatMap HierarchyNode.record) :
    slice body (nextPosition before - 36) 20 = node.record := by
  have hmid := slice_mid (before.flatMap HierarchyNode.record) node.record
    (after.flatMap HierarchyNode.record)
  rw [length_records, length_record_node] at hmid
  rw [hbody, List.flatMap_append, List.flatMap_cons, ← List.append_assoc, nextPosition,
    Nat.add_sub_cancel_left]
  exact hmid

/-- A container that is read is followed by those above its parent. -/
theorem containersAbove_of_read {body : Bytes} {offset : ℕ} (hpos : 0 < offset)
    {node : HierarchyNode}
    (h : readHierarchyNode (slice body (offset - 36) 20) = some node) (fuel : ℕ) :
    containersAbove body (fuel + 1) offset =
      (containersAbove body fuel node.parent).map ((offset, node.id) :: ·) := by
  rw [containersAbove, if_neg (Nat.ne_of_gt hpos), h]
  exact Option.map_eq_bind.symm

/-- From a container the reader goes to the one around it. -/
theorem Written.containersAbove_container {tableData : Bytes}
    (h : Written front tableData nodes tree) {c : Container ℕ} (hc : c ∈ tree) (fuel : ℕ) :
    containersAbove (nodes.flatMap HierarchyNode.record) (fuel + 1) c.position =
      (containersAbove (nodes.flatMap HierarchyNode.record) fuel c.parent).map
        ((c.position, c.id) :: ·) := by
  obtain ⟨before, flags, after, hnodes, hposition⟩ := h.lies c hc
  have hfits : HierarchyNode.Fits ⟨flags, c.parent, c.id⟩ := by
    apply h.fits
    rw [hnodes]
    exact List.mem_append_right _ (List.mem_cons_self ..)
  have hslice := slice_record (congrArg (List.flatMap HierarchyNode.record) hnodes)
  have hread := readHierarchyNode_record hfits
  rw [← hslice, ← hposition] at hread
  have hpos : 0 < c.position := by
    rw [hposition, nextPosition]
    omega
  exact containersAbove_of_read hpos hread fuel

/-- From an open container the reader goes through all containers around it. -/
theorem Written.containersAbove_innermost {tableData : Bytes}
    (h : Written front tableData nodes tree) {parent : ℕ} {path : List (ℕ × ℕ)}
    (hpath : Chain tree parent path) {fuel : ℕ} {above : List (ℕ × ℕ)}
    (habove : containersAbove (nodes.flatMap HierarchyNode.record) fuel parent = some above) :
    containersAbove (nodes.flatMap HierarchyNode.record) (fuel + path.length)
      (innermost parent path) = some (path.reverse ++ above) := by
  induction path generalizing parent fuel above with
  | nil => exact habove
  | cons x path ih =>
    have hstep := h.containersAbove_container hpath.1 fuel
    rw [habove] at hstep
    have hrest := ih hpath.2 hstep
    rw [List.length_cons, ← Nat.add_assoc, Nat.add_right_comm, List.reverse_cons, List.append_assoc]
    exact hrest

/-- A processor is in at most three containers. -/
theorem length_containerIds_le (machine : SmpMachine) (cpu : CPUArchId) :
    (machine.containerIds cpu).length ≤ 3 := by
  rw [SmpMachine.containerIds, List.length_append, List.length_append]
  split <;> split <;> simp

/-- There are no more containers around a processor than bytes. -/
theorem Loop.length_le {done : List CPUArchId} {paths : List (List (ℕ × ℕ))}
    (h : Loop machine front s done nodes tree paths) {x : List (ℕ × ℕ) × ℕ}
    (hx : x ∈ paths.zipIdx) : x.1.length ≤ (nodes.flatMap HierarchyNode.record).length := by
  have hids : x.1.map (fun c => (c.2 : ℤ)) ∈ done.map machine.containerIds := by
    rw [← h.ids]
    exact List.mem_map_of_mem (List.fst_mem_of_mem_zipIdx hx)
  obtain ⟨cpu, -, hcpu⟩ := List.mem_map.mp hids
  have hshort := length_containerIds_le machine cpu
  rw [hcpu, List.length_map] at hshort
  have hleaf : leafNode machine x.1 x.2 ∈ nodes.filter HierarchyNode.isLeaf := by
    rw [h.leaves]
    exact List.mem_map_of_mem (f := fun x => leafNode machine x.1 x.2) hx
  have hpos := List.length_pos_of_mem (List.mem_of_mem_filter hleaf)
  rw [length_records]
  omega

/-- A map that finds something for every element returns what it found. -/
theorem mapM_eq_some_map {α β : Type} {l : List α} {f : α → Option β} {g : α → β}
    (h : ∀ a ∈ l, f a = some (g a)) : l.mapM f = some (l.map g) := by
  induction l with
  | nil => rfl
  | cons a l ih =>
    obtain ⟨ha, hl⟩ := List.forall_mem_cons.mp h
    rw [List.mapM_cons, ha, ih hl]
    rfl

/-- **The processors are read back**, each with its containers. -/
theorem Loop.read {done : List CPUArchId} {paths : List (List (ℕ × ℕ))}
    (h : Loop machine front s done nodes tree paths) :
    ppttProcessors (nodes.flatMap HierarchyNode.record) =
      some (paths.zipIdx.map Prod.swap) := by
  have hwalk : walk structureSize (nodes.flatMap HierarchyNode.record).length
      (nodes.flatMap HierarchyNode.record) = some (nodes.map HierarchyNode.record) := by
    have hrecords : ∀ r ∈ nodes.map HierarchyNode.record, IsRecord structureSize r := by
      intro r hr
      obtain ⟨node, -, rfl⟩ := List.mem_map.mp hr
      exact isRecord_node node
    exact walk_flatten hrecords (length_le_length_flatten hrecords)
  have hread : (nodes.map HierarchyNode.record).filterMap readHierarchyNode = nodes := by
    rw [List.filterMap_map]
    exact (List.filterMap_congr fun node hnode =>
      readHierarchyNode_record (h.fits node hnode)).trans List.filterMap_some
  have habove : ∀ x ∈ paths.zipIdx,
      ((containersAbove (nodes.flatMap HierarchyNode.record)
        (nodes.flatMap HierarchyNode.record).length (leafNode machine x.1 x.2).parent).map
          fun above => ((leafNode machine x.1 x.2).id, above.reverse)) = some x.swap := by
    intro x hx
    have hmem : x.1 ∈ paths := List.fst_mem_of_mem_zipIdx hx
    have hroot : containersAbove (nodes.flatMap HierarchyNode.record)
        ((nodes.flatMap HierarchyNode.record).length - x.1.length) 0 = some [] := by
      cases (nodes.flatMap HierarchyNode.record).length - x.1.length <;> rfl
    have hfound := h.containersAbove_innermost (h.chains x.1 hmem) hroot
    rw [Nat.sub_add_cancel (h.length_le hx), List.append_nil] at hfound
    rw [leafNode, hfound, Option.map_some, List.reverse_reverse]
    rfl
  rw [ppttProcessors, hwalk, Option.bind_eq_bind, Option.bind_some, hread, h.leaves]
  dsimp only
  rw [List.mapM_map]
  exact mapM_eq_some_map habove

/-! ## The table -/

/-- Before the loop nothing is open. -/
theorem loop_start {front : Bytes} :
    Loop machine front ⟨front, -1, -1, -1, 0, 0, 0⟩ [] [] [] [] where
  data := (List.append_nil front).symm
  fits := fun _ hnode => absurd hnode List.not_mem_nil
  lies := fun _ hc => absurd hc List.not_mem_nil
  below := fun _ hc => absurd hc List.not_mem_nil
  distinct := fun _ hc => absurd hc List.not_mem_nil
  opened := fun _ hc => absurd hc List.not_mem_nil
  sound := ⟨Int.le_refl _, Int.le_refl _, Int.le_refl _⟩
  leaves := rfl
  chains := fun _ hpath => absurd hpath List.not_mem_nil
  ids := rfl

end

section

variable {appname : Vector UInt8 8} {oemId oemTableId tableData file : Bytes} {machine : SmpMachine}
  {linker linker' : List AddChecksum}

/-- **A PPTT tells the containers of every processor**: what is read from the
table are all processors in their order, each in containers with the ids that the
machine has for it, and two of them share a container if and only if the ids agree
down to there. -/
theorem pptt_tells_containers (hcpus : ∀ cpu ∈ machine.possibleCpus, cpu.Numbered)
    (h : buildPptt appname oemId oemTableId machine tableData linker = .ok (file, linker'))
    (hlen : file.length < 4294967296) :
    ∃ paths : List (List (ℕ × ℕ)),
      ppttProcessors (tableBody file tableData.length) = some (paths.zipIdx.map Prod.swap) ∧
      paths.map (List.map fun c => (c.2 : ℤ)) = machine.possibleCpus.map machine.containerIds ∧
      ∀ p ∈ paths, ∀ q ∈ paths, ∀ n,
        p.take n = q.take n ↔ (p.map Prod.snd).take n = (q.map Prod.snd).take n := by
  obtain ⟨front, hfront, h⟩ := Checked.bind_eq_ok.mp h
  obtain ⟨s, hs, h⟩ := Checked.bind_eq_ok.mp h
  have hfile : file = (acpiTableEnd linker tableData.length s.tableData).1 :=
    (congrArg Prod.fst (Except.ok.inj h)).symm
  have hlength := length_acpiTableBegin hfront
  have hgrows := length_le_foldlM hs
  dsimp only at hgrows
  have hsame : file.length = s.tableData.length := by
    rw [hfile, acpiTableEnd]
    apply length_patch
    rw [length_toLeBytes, width_u32]
    omega
  obtain ⟨nodes, tree, paths, hloop⟩ :=
    Loop.run hlength hcpus (@loop_start machine front) hs (hsame ▸ hlen)
  have hbody : tableBody file tableData.length = nodes.flatMap HierarchyNode.record := by
    rw [hfile, hloop.data] at hlen ⊢
    exact acpiTableEnd_body hfront linker _ hlen
  refine ⟨paths, hbody ▸ hloop.read, hloop.ids, fun p hp q hq n => ?_⟩
  exact (hloop.chains p hp).take_eq_take_iff hloop.distinct (hloop.chains q hq) n

end

/-- Two threads of a core, a processor in another cluster of the same socket, and
one in another socket. -/
def twoSockets : SmpMachine where
  possibleCpus := [⟨0, ⟨0, 0, 0, 0⟩⟩, ⟨1, ⟨0, 0, 0, 0⟩⟩, ⟨2, ⟨0, 0, 1, 2⟩⟩, ⟨3, ⟨1, 1, 0, 4⟩⟩]
  threads := 2
  clustersSupported := true
  hasClusters := true

/-- The ids of the two sockets are 32-bit numbers. -/
theorem numbered_twoSockets : ∀ cpu ∈ twoSockets.possibleCpus, cpu.Numbered := by
  simp only [twoSockets, List.forall_mem_cons]
  exact ⟨⟨by decide, by decide, by decide⟩, ⟨by decide, by decide, by decide⟩,
    ⟨by decide, by decide, by decide⟩, ⟨by decide, by decide, by decide⟩, by simp⟩

/-- The builder in front of an empty file. -/
def pptt (machine : SmpMachine) : Checked (Bytes × List AddChecksum) :=
  buildPptt (bstr "BXPC    ") (asBytes "BOCHS ") (asBytes "BXPC    ") machine [] []

theorem pptt_tells_containers_twoSockets : ∃ file linker', pptt twoSockets = .ok (file, linker') ∧
    ∃ paths : List (List (ℕ × ℕ)),
      ppttProcessors (tableBody file ([] : Bytes).length) = some (paths.zipIdx.map Prod.swap) ∧
      paths.map (List.map fun c => (c.2 : ℤ)) =
        twoSockets.possibleCpus.map twoSockets.containerIds ∧
      ∀ p ∈ paths, ∀ q ∈ paths, ∀ n,
        p.take n = q.take n ↔ (p.map Prod.snd).take n = (q.map Prod.snd).take n := by
  obtain ⟨file, linker', h, hlen⟩ := @exists_of_length (pptt twoSockets) 276 (by decide +kernel)
  refine ⟨file, linker', h, ?_⟩
  rw [pptt] at h
  exact pptt_tells_containers numbered_twoSockets h (hlen ▸ by decide)

end AcpiTables.AmlBuild
