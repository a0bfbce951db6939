import AcpiTables.PpttTopology
import Mathlib.Data.Int.Order.Basic

/-!
# The order of the processors

`build_pptt` asserts that a container that it opens has a larger id than the one
before it. It returns if and only if the processors come in the lexicographic
order of the ids of their containers (`pptt_returns_iff`).

The three levels of a turn have two lemmas each: what follows when the level
returns, and when it does return (`ppttSocket_eq_ok`, `ppttSocket_isOk` and so on).
Together they make a turn a comparison of two lists of ids, `InOrder`: those of the
open containers and those of the processor. After the turn the open containers are
the processor's own, so the loop compares each processor with the one before it
(`foldlM_ppttCpu_isOk_iff`).
-/

namespace AcpiTables.AmlBuild

/-- The ids of the open containers, -1 for none. -/
def PpttState.ids (machine : SmpMachine) (s : PpttState) : List ℤ :=
  [s.socketId] ++
    (if machine.clustersSupported ∧ machine.hasClusters then [s.clusterId] else []) ++
    (if machine.threads = 1 then [] else [s.coreId])

/-- The second list of ids does not come before the first one, by the first
difference between them. -/
def InOrder (l m : List ℤ) : Prop := ¬List.Lex (· < ·) m l

/-- Equal lists are in order. -/
theorem inOrder_refl (l : List ℤ) : InOrder l l := List.lex_irrefl Int.lt_irrefl l

/-- Lists are compared by their first ids, and then by the others. -/
theorem inOrder_cons {a b : ℤ} {l m : List ℤ} :
    InOrder (a :: l) (b :: m) ↔ a < b ∨ a = b ∧ InOrder l m := by
  rw [InOrder, InOrder, List.cons_lex_cons_iff]
  by_cases h : List.Lex (· < ·) m l
  · simp only [h, and_true, not_true, and_false, or_false]
    omega
  · simp only [h, and_false, or_false, not_false_eq_true, and_true]
    omega

section

variable {machine : SmpMachine} {ppttStart : ℕ} {cpu : CPUArchId} {n : ℕ} {s s' : PpttState}

/-! ## The parts of a turn -/

/-- What the level of the sockets does: a new socket has a larger id and closes
what is open, the same one changes nothing. -/
theorem ppttSocket_eq_ok (h : ppttSocket ppttStart cpu s = .ok s') :
    s'.socketId = cpu.props.socketId ∧
      (s.socketId < cpu.props.socketId ∧ s'.clusterId = -1 ∧ s'.coreId = -1 ∨
        s.socketId = cpu.props.socketId ∧ s'.clusterId = s.clusterId ∧ s'.coreId = s.coreId) := by
  rw [ppttSocket] at h
  split at h
  · obtain ⟨_, hlarger, h⟩ := Checked.bind_eq_ok.mp h
    rw [ensure_eq_ok] at hlarger
    obtain rfl := Except.ok.inj h
    exact ⟨rfl, Or.inl ⟨hlarger, rfl, rfl⟩⟩
  · next hsame =>
    obtain rfl := Except.ok.inj h
    have hid := (not_not.mp hsame).symm
    exact ⟨hid, Or.inr ⟨hid, rfl, rfl⟩⟩

/-- The level of the sockets returns unless the socket's id is smaller. -/
theorem ppttSocket_isOk (h : s.socketId ≤ cpu.props.socketId) :
    ∃ s', ppttSocket ppttStart cpu s = .ok s' := by
  rw [ppttSocket]
  split
  · next hother =>
    rw [ensure_of (lt_of_le_of_ne h (Ne.symm hother))]
    exact ⟨_, rfl⟩
  · exact ⟨s, rfl⟩

/-- What the level of the clusters does, if the machine has clusters: as that of
the sockets, inside the socket. -/
theorem ppttCluster_eq_ok (h : ppttCluster machine ppttStart cpu s = .ok s') :
    s'.socketId = s.socketId ∧
      if machine.clustersSupported ∧ machine.hasClusters then
        s'.clusterId = cpu.props.clusterId ∧
          (s.clusterId < cpu.props.clusterId ∧ s'.coreId = -1 ∨
            s.clusterId = cpu.props.clusterId ∧ s'.coreId = s.coreId)
      else s'.coreId = s.coreId := by
  rw [ppttCluster] at h
  split at h
  · next hon =>
    rw [if_pos hon]
    split at h
    · obtain ⟨_, hlarger, h⟩ := Checked.bind_eq_ok.mp h
      rw [ensure_eq_ok] at hlarger
      obtain rfl := Except.ok.inj h
      exact ⟨rfl, rfl, Or.inl ⟨hlarger, rfl⟩⟩
    · next hsame =>
      obtain rfl := Except.ok.inj h
      have hid := (not_not.mp hsame).symm
      exact ⟨rfl, hid, Or.inr ⟨hid, rfl⟩⟩
  · next hoff =>
    rw [if_neg hoff]
    obtain rfl := Except.ok.inj h
    exact ⟨rfl, rfl⟩

/-- The level of the clusters returns unless the cluster's id is smaller. -/
theorem ppttCluster_isOk (h : machine.clustersSupported ∧ machine.hasClusters →
    s.clusterId ≤ cpu.props.clusterId) : ∃ s', ppttCluster machine ppttStart cpu s = .ok s' := by
  rw [ppttCluster]
  split
  · next hon =>
    split
    · next hother =>
      rw [ensure_of (lt_of_le_of_ne (h hon) (Ne.symm hother))]
      exact ⟨_, rfl⟩
    · exact ⟨s, rfl⟩
  · exact ⟨_, rfl⟩

/-- The level of the cores returns only if the core's id is not smaller, and keeps
the levels above. -/
theorem ppttCore_eq_ok (h : ppttCore ppttStart cpu s = .ok s') :
    s.coreId ≤ cpu.props.coreId ∧ s'.coreId = cpu.props.coreId ∧ s'.socketId = s.socketId ∧
      s'.clusterId = s.clusterId := by
  rw [ppttCore] at h
  split at h
  · obtain ⟨_, hlarger, h⟩ := Checked.bind_eq_ok.mp h
    rw [ensure_eq_ok] at hlarger
    obtain rfl := Except.ok.inj h
    exact ⟨le_of_lt hlarger, rfl, rfl, rfl⟩
  · next hsame =>
    obtain rfl := Except.ok.inj h
    have hid := (not_not.mp hsame).symm
    exact ⟨le_of_eq hid, hid, rfl, rfl⟩

/-- The level of the cores returns unless the core's id is smaller. -/
theorem ppttCore_isOk (h : s.coreId ≤ cpu.props.coreId) :
    ∃ s', ppttCore ppttStart cpu s = .ok s' := by
  rw [ppttCore]
  split
  · next hother =>
    rw [ensure_of (lt_of_le_of_ne h (Ne.symm hother))]
    exact ⟨_, rfl⟩
  · exact ⟨s, rfl⟩

/-- What the structure of a processor does to the ids: that of the core is checked
only when the machine has threads. -/
theorem ppttProcessor_eq_ok (h : ppttProcessor machine ppttStart cpu n s = .ok s') :
    s'.socketId = s.socketId ∧ s'.clusterId = s.clusterId ∧
      (machine.threads ≠ 1 → s.coreId ≤ cpu.props.coreId ∧ s'.coreId = cpu.props.coreId) := by
  rw [ppttProcessor] at h
  split at h
  · next hthreads =>
    obtain rfl := Except.ok.inj h
    exact ⟨rfl, rfl, fun hmany => absurd hthreads hmany⟩
  · obtain ⟨t, ht, h⟩ := Checked.bind_eq_ok.mp h
    obtain rfl := Except.ok.inj h
    obtain ⟨hle, hcore, hsocket, hcluster⟩ := ppttCore_eq_ok ht
    exact ⟨hsocket, hcluster, fun _ => ⟨hle, hcore⟩⟩

/-- The structure of a processor returns unless its core's id is smaller. -/
theorem ppttProcessor_isOk (h : machine.threads ≠ 1 → s.coreId ≤ cpu.props.coreId) :
    ∃ s', ppttProcessor machine ppttStart cpu n s = .ok s' := by
  rw [ppttProcessor]
  split
  · exact ⟨_, rfl⟩
  · next hthreads =>
    obtain ⟨t, ht⟩ := @ppttCore_isOk ppttStart cpu s (h hthreads)
    exact ⟨_, Checked.bind_eq_ok.mpr ⟨t, ht, rfl⟩⟩

/-! ## A turn -/

/-- Whether one list of ids comes before another is decided level by level. -/
theorem inOrder_containerIds_iff :
    InOrder (s.ids machine) (machine.containerIds cpu) ↔
      s.socketId < cpu.props.socketId ∨ s.socketId = cpu.props.socketId ∧
        if machine.clustersSupported ∧ machine.hasClusters then
          s.clusterId < cpu.props.clusterId ∨ s.clusterId = cpu.props.clusterId ∧
            (machine.threads ≠ 1 → s.coreId ≤ cpu.props.coreId)
        else machine.threads ≠ 1 → s.coreId ≤ cpu.props.coreId := by
  have hcores : InOrder (if machine.threads = 1 then [] else [s.coreId])
      (if machine.threads = 1 then [] else [cpu.props.coreId]) ↔
        (machine.threads ≠ 1 → s.coreId ≤ cpu.props.coreId) := by
    split
    · next hthreads => exact ⟨fun _ hmany => absurd hthreads hmany, fun _ => inOrder_refl []⟩
    · next hthreads =>
      rw [inOrder_cons, and_iff_left (inOrder_refl _), ← le_iff_lt_or_eq]
      exact ⟨fun h _ => h, fun h => h hthreads⟩
  rw [PpttState.ids, SmpMachine.containerIds, List.append_assoc, List.append_assoc,
    List.singleton_append, List.singleton_append, inOrder_cons]
  split
  · rw [List.singleton_append, List.singleton_append, inOrder_cons, hcores]
  · rw [List.nil_append, List.nil_append, hcores]

/-- A turn returns only when the processor does not come before the open
containers. They are then its own. -/
theorem ppttCpu_eq_ok (h : ppttCpu machine ppttStart s (cpu, n) = .ok s') :
    InOrder (s.ids machine) (machine.containerIds cpu) ∧
      s'.ids machine = machine.containerIds cpu := by
  obtain ⟨s₁, h₁, h⟩ := Checked.bind_eq_ok.mp h
  obtain ⟨s₂, h₂, h⟩ := Checked.bind_eq_ok.mp h
  obtain ⟨hsocket₁, hopen₁⟩ := ppttSocket_eq_ok h₁
  obtain ⟨hsocket₂, hopen₂⟩ := ppttCluster_eq_ok h₂
  obtain ⟨hsocket₃, hcluster₃, hcore⟩ := ppttProcessor_eq_ok h
  have hsocket : s'.socketId = cpu.props.socketId := by rw [hsocket₃, hsocket₂, hsocket₁]
  have hcores : (if machine.threads = 1 then [] else [s'.coreId]) =
      if machine.threads = 1 then [] else [cpu.props.coreId] := by
    split
    · rfl
    · next hthreads => rw [(hcore hthreads).2]
  rw [inOrder_containerIds_iff, PpttState.ids, SmpMachine.containerIds, hsocket, hcores]
  split at hopen₂
  · next hon =>
    rw [if_pos hon, if_pos hon, if_pos hon, hcluster₃, hopen₂.1]
    refine ⟨?_, rfl⟩
    rcases hopen₁ with ⟨hlarger, _⟩ | ⟨hsame, hcluster₁, hcore₁⟩
    · exact Or.inl hlarger
    · refine Or.inr ⟨hsame, ?_⟩
      rcases hopen₂.2 with ⟨hlarger, _⟩ | ⟨hcluster, hcore₂⟩
      · exact Or.inl (hcluster₁ ▸ hlarger)
      · refine Or.inr ⟨hcluster₁ ▸ hcluster, fun hthreads => ?_⟩
        rw [← hcore₁, ← hcore₂]
        exact (hcore hthreads).1
  · next hoff =>
    rw [if_neg hoff, if_neg hoff, if_neg hoff]
    refine ⟨?_, rfl⟩
    rcases hopen₁ with ⟨hlarger, _⟩ | ⟨hsame, _, hcore₁⟩
    · exact Or.inl hlarger
    · refine Or.inr ⟨hsame, fun hthreads => ?_⟩
      rw [← hcore₁, ← hopen₂]
      exact (hcore hthreads).1

/-- A turn returns when the processor is in order behind the one before. -/
theorem ppttCpu_isOk (hcpu : cpu.Numbered)
    (h : InOrder (s.ids machine) (machine.containerIds cpu)) :
    ∃ s', ppttCpu machine ppttStart s (cpu, n) = .ok s' := by
  rw [inOrder_containerIds_iff] at h
  have hcluster₀ : -1 < cpu.props.clusterId := Int.lt_of_lt_of_le (by decide) hcpu.clusterId.1
  have hcore₀ : -1 < cpu.props.coreId := Int.lt_of_lt_of_le (by decide) hcpu.coreId.1
  have hsocket : s.socketId ≤ cpu.props.socketId := by omega
  obtain ⟨s₁, h₁⟩ := @ppttSocket_isOk ppttStart cpu s hsocket
  obtain ⟨hsocket₁, hopen₁⟩ := ppttSocket_eq_ok h₁
  have hcluster : machine.clustersSupported ∧ machine.hasClusters →
      s₁.clusterId ≤ cpu.props.clusterId := by
    intro hon
    rw [if_pos hon] at h
    omega
  obtain ⟨s₂, h₂⟩ := @ppttCluster_isOk machine ppttStart cpu s₁ hcluster
  obtain ⟨hsocket₂, hopen₂⟩ := ppttCluster_eq_ok h₂
  have hcore : machine.threads ≠ 1 → s₂.coreId ≤ cpu.props.coreId := by
    intro hthreads
    split at hopen₂
    · next hon =>
      rw [if_pos hon] at h
      rcases hopen₁ with ⟨hlarger, hcluster₁, hcore₁⟩ | ⟨hsame, hcluster₁, hcore₁⟩
      · omega
      · rcases h with hlarger | ⟨_, hlarger | ⟨_, hle⟩⟩
        · omega
        · omega
        · have := hle hthreads
          omega
    · next hoff =>
      rw [if_neg hoff] at h
      rcases h with hlarger | ⟨_, hle⟩
      · omega
      · have := hle hthreads
        omega
  obtain ⟨s₃, h₃⟩ := @ppttProcessor_isOk machine ppttStart cpu n s₂ hcore
  exact ⟨s₃, Checked.bind_eq_ok.mpr ⟨s₁, h₁, Checked.bind_eq_ok.mpr ⟨s₂, h₂, h₃⟩⟩⟩

/-! ## The loop -/

/-- **The loop returns** if and only if no processor comes before the one before
it. -/
theorem foldlM_ppttCpu_isOk_iff {l : List (CPUArchId × ℕ)} (hcpus : ∀ x ∈ l, x.1.Numbered) :
    (∃ s', l.foldlM (ppttCpu machine ppttStart) s = .ok s') ↔
      (s.ids machine :: l.map fun x => machine.containerIds x.1).IsChain InOrder := by
  induction l generalizing s with
  | nil =>
    exact ⟨fun _ => List.IsChain.singleton _, fun _ => ⟨s, rfl⟩⟩
  | cons x l ih =>
    obtain ⟨hcpu, hcpus⟩ := List.forall_mem_cons.mp hcpus
    rw [List.map_cons, List.isChain_cons_cons, List.foldlM_cons]
    constructor
    · rintro ⟨s', h⟩
      obtain ⟨t, ht, h⟩ := Checked.bind_eq_ok.mp h
      obtain ⟨hle, hids⟩ := ppttCpu_eq_ok ht
      exact ⟨hle, hids ▸ (ih hcpus).mp ⟨s', h⟩⟩
    · rintro ⟨hle, hchain⟩
      obtain ⟨t, ht⟩ := @ppttCpu_isOk machine ppttStart x.1 x.2 s hcpu hle
      obtain ⟨_, hids⟩ := ppttCpu_eq_ok ht
      obtain ⟨s', h⟩ := (ih hcpus).mpr (hids ▸ hchain)
      exact ⟨s', Checked.bind_eq_ok.mpr ⟨t, ht, h⟩⟩

/-- The loop starts before all processors. -/
theorem ids_start_inOrder (hcpu : cpu.Numbered) (front : Bytes) :
    InOrder (PpttState.ids machine ⟨front, -1, -1, -1, 0, 0, 0⟩) (machine.containerIds cpu) := by
  rw [inOrder_containerIds_iff]
  have hfirst : (-1 : ℤ) < 0 := by decide
  exact Or.inl (lt_of_lt_of_le hfirst hcpu.socketId.1)

end

section

variable {machine : SmpMachine}

/-- **The table is built** if and only if the processors come in the
lexicographic order of the ids of their containers, for OEM strings that fit in
their fields and ids of 32 bits that are not negative. Otherwise one of the
assertions on the ids fails: a container would be opened a second time. -/
theorem pptt_returns_iff (appname : Vector UInt8 8) {oemId oemTableId : Bytes}
    (hoemId : oemId.length ≤ 6) (hoemTableId : oemTableId.length ≤ 8)
    (hcpus : ∀ cpu ∈ machine.possibleCpus, cpu.Numbered) (tableData : Bytes)
    (linker : List AddChecksum) :
    (∃ r, buildPptt appname oemId oemTableId machine tableData linker = .ok r) ↔
      (machine.possibleCpus.map machine.containerIds).IsChain InOrder := by
  obtain ⟨front, hfront⟩ := @acpiTableBegin_isOk
    { sig := asBytes "PPTT", rev := 2, oemId, oemTableId } appname tableData rfl hoemId hoemTableId
  have hnumbered : ∀ x ∈ machine.possibleCpus.zipIdx, x.1.Numbered := fun x hx =>
    hcpus x.1 (List.fst_mem_of_mem_zipIdx hx)
  have hids : (machine.possibleCpus.zipIdx.map fun x => machine.containerIds x.1) =
      machine.possibleCpus.map machine.containerIds := by
    have hfst := congrArg (List.map machine.containerIds)
      (List.zipIdx_map_fst 0 machine.possibleCpus)
    rw [List.map_map] at hfst
    exact hfst
  have hloop := @foldlM_ppttCpu_isOk_iff machine tableData.length ⟨front, -1, -1, -1, 0, 0, 0⟩
    machine.possibleCpus.zipIdx hnumbered
  have hbuild : (∃ r, buildPptt appname oemId oemTableId machine tableData linker = .ok r) ↔
      ∃ s', machine.possibleCpus.zipIdx.foldlM (ppttCpu machine tableData.length)
        ⟨front, -1, -1, -1, 0, 0, 0⟩ = .ok s' := by
    constructor
    · rintro ⟨r, h⟩
      obtain ⟨front', hfront', h⟩ := Checked.bind_eq_ok.mp h
      obtain rfl := Except.ok.inj (hfront.symm.trans hfront')
      obtain ⟨s', hs, _⟩ := Checked.bind_eq_ok.mp h
      exact ⟨s', hs⟩
    · rintro ⟨s', hs⟩
      exact ⟨_, Checked.bind_eq_ok.mpr ⟨front, hfront, Checked.bind_eq_ok.mpr ⟨s', hs, rfl⟩⟩⟩
  rw [hbuild, hloop, hids]
  cases hlist : machine.possibleCpus with
  | nil => exact ⟨fun _ => List.IsChain.nil, fun _ => List.IsChain.singleton _⟩
  | cons cpu cpus =>
    have hfirst := hcpus cpu (hlist ▸ List.mem_cons_self ..)
    rw [List.map_cons, List.isChain_cons_cons, and_iff_right (ids_start_inOrder hfirst front)]

end

theorem pptt_returns_iff_twoSockets : (∃ r, pptt twoSockets = .ok r) ↔
    (twoSockets.possibleCpus.map twoSockets.containerIds).IsChain InOrder :=
  pptt_returns_iff (bstr "BXPC    ") (by decide) (by decide) numbered_twoSockets [] []

end AcpiTables.AmlBuild
