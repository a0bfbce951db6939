import AcpiTables.SratRecords

/-!
# The memory of the nodes

The loop of `build_srat` over the nodes, as the list of the entries it appends.
The bytes of RAM are numbered by their offsets; `ramAddress` says where they lie
around the hole of PCI, and the hole below 1 MiB shows no RAM. Each turn of the
loop describes the offsets of one node (`nodeEntries_spec`), and the whole loop
those of all (`ramEntries_spec`). A node that ends inside the low hole moves the
nodes behind it: `nodeSpans` are the offsets that the loop gives to the nodes.

A turn has three parts with a list of entries each: the piece in front of the low
hole, the piece up to the hole of PCI, and the one behind that. `Describes` says of
entries that they ascend, that they assign the RAM between two offsets, and where
the loop goes on; this is what one turn hands to the next.
-/

namespace AcpiTables.AmlBuild

/-! ## Memory -/

/-- No RAM is seen from 640 KiB to 1 MiB. -/
def LowHole (a : ℕ) : Prop := 655360 ≤ a ∧ a < 1048576

instance (a : ℕ) : Decidable (LowHole a) := inferInstanceAs (Decidable (_ ∧ _))

/-- Where the byte of RAM with this offset lies. -/
def Machine.ramAddress (machine : Machine) (offset : ℕ) : ℕ :=
  if offset < machine.below4gMemSize.toNat then offset
  else machine.above4gMemStart.toNat + (offset - machine.below4gMemSize.toNat)

/-- The address shows a byte of RAM with an offset in the span. -/
def Machine.Holds (machine : Machine) (span : ℕ × ℕ) (a : ℕ) : Prop :=
  ¬LowHole a ∧ ∃ offset, span.1 ≤ offset ∧ offset < span.2 ∧ machine.ramAddress offset = a

/-- The offset behind a node that ends at `e`. -/
def skipHole (e : ℕ) : ℕ := if 655360 < e ∧ e ≤ 1048576 then 1048576 else e

/-- The offsets that are given to nodes of these sizes. -/
def nodeSpans : ℕ → List ℕ → List (ℕ × ℕ)
  | _, [] => []
  | start, size :: sizes => (start, start + size) :: nodeSpans (skipHole (start + size)) sizes

/-- The sizes of the nodes. -/
def Machine.sizes (machine : Machine) : List ℕ := machine.numaInfo.map UInt64.toNat

/-- Memory as machines have it: there are nodes, fewer than an `int` can count, the
hole of PCI lies behind the low one, and the memory ends within 64 bits. -/
structure Machine.Sound (machine : Machine) : Prop where
  nodes : 0 < machine.numaInfo.length ∧ machine.numaInfo.length < 2147483648
  low : 1048576 ≤ machine.below4gMemSize.toNat
  order : machine.below4gMemSize.toNat ≤ machine.above4gMemStart.toNat
  fits : machine.above4gMemStart.toNat + machine.sizes.sum ≤ 18446744073709551616

/-- An address of a node's RAM is one below the hole of PCI, or one above it that
was moved there. -/
theorem holds_iff {machine : Machine} (h : machine.Sound) {start stop a : ℕ} :
    machine.Holds (start, stop) a ↔ ¬LowHole a ∧
      (a < machine.below4gMemSize.toNat ∧ start ≤ a ∧ a < stop ∨
        machine.above4gMemStart.toNat ≤ a ∧
          start + machine.above4gMemStart.toNat ≤ a + machine.below4gMemSize.toNat ∧
          a + machine.below4gMemSize.toNat < stop + machine.above4gMemStart.toNat) := by
  have horder := h.order
  refine and_congr_right fun _ => ⟨?_, ?_⟩
  · rintro ⟨offset, hstart, hstop, rfl⟩
    unfold Machine.ramAddress
    split
    · left
      omega
    · right
      dsimp only at hstart hstop
      omega
  · rintro (⟨ha, hstart, hstop⟩ | ⟨ha, hstart, hstop⟩)
    · exact ⟨a, hstart, hstop, if_pos ha⟩
    · refine ⟨a - machine.above4gMemStart.toNat + machine.below4gMemSize.toNat, ?_, ?_, ?_⟩
      · dsimp only
        omega
      · dsimp only
        omega
      · rw [Machine.ramAddress, if_neg (by omega)]
        omega

/-! ## The entries of one node -/

/-- Entries in the order of their addresses, between two bounds. -/
structure Ascending (lo hi : ℕ) (entries : List MemoryAffinity) : Prop where
  within : ∀ e ∈ entries, lo ≤ e.base ∧ e.base + e.length ≤ hi
  sorted : entries.Pairwise fun e f => e.base + e.length ≤ f.base

/-- No entries ascend within any bounds. -/
theorem Ascending.nil (lo hi : ℕ) : Ascending lo hi [] :=
  ⟨fun _ h => absurd h List.not_mem_nil, List.Pairwise.nil⟩

/-- Entries that ascend, and behind them entries that ascend, ascend together. -/
theorem Ascending.append {lo mid mid' hi : ℕ} {xs ys : List MemoryAffinity}
    (hxs : Ascending lo mid xs) (hys : Ascending mid' hi ys) (hlo : lo ≤ mid') (hhi : mid ≤ hi)
    (hmid : mid ≤ mid') : Ascending lo hi (xs ++ ys) where
  within e he := by
    rcases List.mem_append.mp he with he | he
    · exact ⟨(hxs.within e he).1, Nat.le_trans (hxs.within e he).2 hhi⟩
    · exact ⟨Nat.le_trans hlo (hys.within e he).1, (hys.within e he).2⟩
  sorted := List.pairwise_append.mpr ⟨hxs.sorted, hys.sorted, fun e he f hf =>
    Nat.le_trans (hxs.within e he).2 (Nat.le_trans hmid (hys.within f hf).1)⟩

/-- No entry assigns nothing. -/
@[simp] theorem assigned_nil (a k : ℕ) : ¬Assigned [] a k :=
  fun ⟨_, h, _⟩ => List.not_mem_nil h

/-- Two lists of entries together assign what each of them assigns. -/
theorem assigned_append (xs ys : List MemoryAffinity) (a k : ℕ) :
    Assigned (xs ++ ys) a k ↔ Assigned xs a k ∨ Assigned ys a k := by
  simp only [Assigned, List.mem_append, or_and_right, exists_or]

section

variable (flags : MemoryAffinityFlags) (machine : Machine)

/-- `sratPiece`, as the entries it appends. -/
def pieceEntries (i : ℕ) (memBase memLen : UInt64) : List MemoryAffinity :=
  if memLen > 0 then [memoryAffinity memBase memLen i flags.enabled] else []

/-- `cutPciHole`, in the same way. -/
def pciHoleEntries (i : ℕ) (memBase memLen nextBase : UInt64) : List MemoryAffinity × UInt64 :=
  if memBase ≤ machine.below4gMemSize ∧ nextBase > machine.below4gMemSize then
    (pieceEntries flags i memBase (memLen - (nextBase - machine.below4gMemSize)) ++
      pieceEntries flags i machine.above4gMemStart (nextBase - machine.below4gMemSize),
      machine.above4gMemStart + (nextBase - machine.below4gMemSize))
  else (pieceEntries flags i memBase memLen, nextBase)

/-- `sratNode`, in the same way. -/
def nodeEntries (i : ℕ) (base nodeMem : UInt64) : List MemoryAffinity × UInt64 :=
  let nextBase := base + nodeMem
  if base ≤ hole640kStart ∧ nextBase > hole640kStart then
    let first := pieceEntries flags i base (nodeMem - (nextBase - hole640kStart))
    if nextBase ≤ hole640kEnd then (first, hole640kEnd)
    else
      let rest := pciHoleEntries flags machine i hole640kEnd (nextBase - hole640kEnd) nextBase
      (first ++ rest.1, rest.2)
  else pciHoleEntries flags machine i base nodeMem nextBase

/-- The entries of the nodes from number `i` on. -/
def ramEntries : ℕ → UInt64 → List UInt64 → List MemoryAffinity
  | _, _, [] => []
  | i, base, nodeMem :: rest =>
    (nodeEntries flags machine i base nodeMem).1 ++
      ramEntries (i + 1) (nodeEntries flags machine i base nodeMem).2 rest

/-- A piece of memory is appended as its entry, if it has bytes. -/
theorem sratPiece_eq (tableData : Bytes) (memBase memLen : UInt64) (i : ℕ) :
    sratPiece flags tableData memBase memLen i =
      tableData ++ (pieceEntries flags i memBase memLen).flatMap MemoryAffinity.record := by
  unfold sratPiece pieceEntries
  split
  · rw [buildSratMemory_eq, List.flatMap_singleton]
  · exact (List.append_nil _).symm

/-- What is appended for a node at the hole of PCI, and what is left of the node. -/
theorem cutPciHole_eq (tableData : Bytes) (memBase memLen nextBase : UInt64) (i : ℕ) :
    cutPciHole flags machine tableData memBase memLen nextBase i =
      (tableData ++ (pciHoleEntries flags machine i memBase memLen nextBase).1.flatMap
        MemoryAffinity.record, (pciHoleEntries flags machine i memBase memLen nextBase).2) := by
  unfold cutPciHole pciHoleEntries
  split
  · simp only [sratPiece_eq, List.flatMap_append, List.append_assoc]
  · rw [sratPiece_eq]

/-- What is appended for a node, and where the next one begins. -/
theorem sratNode_eq (tableData : Bytes) (base nodeMem : UInt64) (i : ℕ) :
    sratNode flags machine (tableData, base) (nodeMem, i) =
      (tableData ++ (nodeEntries flags machine i base nodeMem).1.flatMap MemoryAffinity.record,
        (nodeEntries flags machine i base nodeMem).2) := by
  simp only [sratNode, nodeEntries]
  split
  · split
    · rw [sratPiece_eq]
    · simp only [sratPiece_eq, cutPciHole_eq, List.flatMap_append, List.append_assoc]
  · rw [cutPciHole_eq]

/-- The loop over the nodes appends the entries of all of them. -/
theorem foldl_sratNode (tableData : Bytes) (base : UInt64) (sizes : List UInt64) (i : ℕ) :
    ((sizes.zipIdx i).foldl (sratNode flags machine) (tableData, base)).1 =
      tableData ++ (ramEntries flags machine i base sizes).flatMap MemoryAffinity.record := by
  induction sizes generalizing tableData base i with
  | nil => exact (List.append_nil _).symm
  | cons nodeMem sizes ih =>
    rw [List.zipIdx_cons, List.foldl_cons, sratNode_eq, ih, ramEntries, List.flatMap_append,
      List.append_assoc]

variable {flags machine}

/-- A piece belongs to its node. -/
theorem assigned_pieceEntries {i : ℕ} (hi : i < 4294967296) (memBase memLen : UInt64) (a k : ℕ) :
    Assigned (pieceEntries flags i memBase memLen) a k ↔
      i = k ∧ memBase.toNat ≤ a ∧ a < memBase.toNat + memLen.toNat := by
  have hdomain : ((i : ℤ) % 4294967296).toNat = i := by omega
  unfold pieceEntries
  split
  · simp [Assigned, memoryAffinity, hdomain, flags.enabled_set]
  · next hzero =>
    have hlen : ¬0 < memLen.toNat := hzero
    refine ⟨fun h => absurd h (assigned_nil a k), ?_⟩
    rintro ⟨-, hbase, hlast⟩
    omega

/-- A piece within bounds ascends in them. -/
theorem ascending_pieceEntries {i : ℕ} {memBase memLen : UInt64} {lo hi : ℕ}
    (hlo : lo ≤ memBase.toNat) (hhi : memBase.toNat + memLen.toNat ≤ hi) :
    Ascending lo hi (pieceEntries flags i memBase memLen) := by
  unfold pieceEntries
  split
  · refine ⟨fun e he => ?_, List.pairwise_singleton ..⟩
    obtain rfl := List.mem_singleton.mp he
    exact ⟨hlo, hhi⟩
  · exact .nil lo hi

/-- Where the loop goes on, for a node that begins at an offset. -/
def Machine.loopBase (machine : Machine) (offset : ℕ) : ℕ :=
  if offset ≤ machine.below4gMemSize.toNat then offset
  else machine.above4gMemStart.toNat + (offset - machine.below4gMemSize.toNat)

/-- Entries for the offsets from `start` to `stop`, after which the loop goes on
at `next`. -/
structure Describes (machine : Machine) (i start stop next : ℕ)
    (r : List MemoryAffinity × UInt64) : Prop where
  next_eq : r.2.toNat = machine.loopBase next
  assigned : ∀ a k, Assigned r.1 a k ↔ i = k ∧ machine.Holds (start, stop) a
  ascending : Ascending (machine.loopBase start) (machine.loopBase next) r.1

/-- A node at the hole of PCI: its RAM in front of the hole and behind it is that
of its offsets. -/
theorem pciHoleEntries_spec (h : machine.Sound) {i : ℕ} (hi : i < 4294967296)
    {base len next : UInt64} {start stop : ℕ} (hbase : base.toNat = machine.loopBase start)
    (hnext : next.toNat = base.toNat + len.toNat) (hstop : stop = start + len.toNat)
    (hlow : stop ≤ 655360 ∨ 1048576 ≤ start)
    (hfits : machine.above4gMemStart.toNat + stop ≤
      18446744073709551616 + machine.below4gMemSize.toNat - 1) :
    Describes machine i start stop stop (pciHoleEntries flags machine i base len next) := by
  have horder := h.order
  have hpci := h.low
  unfold Machine.loopBase at hbase
  unfold pciHoleEntries
  simp only [UInt64.le_iff_toNat_le, gt_iff_lt, UInt64.lt_iff_toNat_lt]
  split
  · next hcut =>
    -- the node goes past the hole
    have hstart : start ≤ machine.below4gMemSize.toNat := by
      by_contra hpast
      rw [if_neg hpast] at hbase
      omega
    rw [if_pos hstart] at hbase
    have hpast : (next - machine.below4gMemSize).toNat =
        next.toNat - machine.below4gMemSize.toNat :=
      UInt64.toNat_sub_of_le _ _ (UInt64.le_iff_toNat_le.mpr (Nat.le_of_lt hcut.2))
    have hfirst : (len - (next - machine.below4gMemSize)).toNat =
        len.toNat - (next.toNat - machine.below4gMemSize.toNat) := by
      rw [UInt64.toNat_sub_of_le _ _ (UInt64.le_iff_toNat_le.mpr (by omega)), hpast]
    have hsum : (machine.above4gMemStart + (next - machine.below4gMemSize)).toNat =
        machine.above4gMemStart.toNat + (next.toNat - machine.below4gMemSize.toNat) := by
      rw [UInt64.toNat_add, hpast, Nat.mod_eq_of_lt (by omega)]
    have hloop : machine.loopBase start = start ∧ machine.loopBase stop =
        machine.above4gMemStart.toNat + (stop - machine.below4gMemSize.toNat) :=
      ⟨if_pos hstart, if_neg (by omega)⟩
    refine ⟨?_, fun a k => ?_, ?_⟩
    · dsimp only
      omega
    · rw [assigned_append, assigned_pieceEntries hi, assigned_pieceEntries hi, holds_iff h,
        LowHole]
      omega
    · have hlower : Ascending (machine.loopBase start) machine.below4gMemSize.toNat
          (pieceEntries flags i base (len - (next - machine.below4gMemSize))) :=
        ascending_pieceEntries (by omega) (by omega)
      have hupper : Ascending machine.above4gMemStart.toNat (machine.loopBase stop)
          (pieceEntries flags i machine.above4gMemStart (next - machine.below4gMemSize)) :=
        ascending_pieceEntries (by omega) (by omega)
      exact hlower.append hupper (by omega) (by omega) horder
  · next hcut =>
    have hloop : next.toNat = machine.loopBase stop := by
      unfold Machine.loopBase
      split_ifs at hbase ⊢ <;> omega
    refine ⟨hloop, fun a k => ?_, ascending_pieceEntries (Nat.le_of_eq hbase.symm) ?_⟩
    · rw [assigned_pieceEntries hi, holds_iff h, LowHole]
      split_ifs at hbase <;> omega
    · rw [← hloop, hnext]

/-- A node: its entries assign the RAM of its offsets, without the low hole, and
the next node begins behind it. -/
theorem nodeEntries_spec (h : machine.Sound) {i : ℕ} (hi : i < 4294967296)
    {base nodeMem : UInt64} {start : ℕ} (hbase : base.toNat = machine.loopBase start)
    (hstart : start ≤ 655360 ∨ 1048576 ≤ start)
    (hfits : machine.above4gMemStart.toNat + (start + nodeMem.toNat) ≤
      18446744073709551616 + machine.below4gMemSize.toNat - 1) :
    Describes machine i start (start + nodeMem.toNat) (skipHole (start + nodeMem.toNat))
      (nodeEntries flags machine i base nodeMem) := by
  have horder := h.order
  have hpci := h.low
  have hbase' := hbase
  unfold Machine.loopBase at hbase'
  have hnext : (base + nodeMem).toNat = base.toNat + nodeMem.toNat := by
    rw [UInt64.toNat_add]
    apply Nat.mod_eq_of_lt
    split_ifs at hbase' <;> omega
  have hholeStart : hole640kStart.toNat = 655360 := rfl
  have hholeEnd : hole640kEnd.toNat = 1048576 := rfl
  unfold nodeEntries
  simp only [UInt64.le_iff_toNat_le, gt_iff_lt, UInt64.lt_iff_toNat_lt]
  split
  · next hcut =>
    -- the node goes past the beginning of the low hole
    have hlow : base.toNat = start := by
      split_ifs at hbase' <;> omega
    have hfirst : (nodeMem - (base + nodeMem - hole640kStart)).toNat = 655360 - start := by
      have hpast : (base + nodeMem - hole640kStart).toNat = start + nodeMem.toNat - 655360 := by
        rw [UInt64.toNat_sub_of_le _ _ (UInt64.le_iff_toNat_le.mpr (Nat.le_of_lt hcut.2)), hnext,
          hlow, hholeStart]
      rw [UInt64.toNat_sub_of_le _ _ (UInt64.le_iff_toNat_le.mpr (by omega)), hpast]
      omega
    have hloop : machine.loopBase start = start ∧ machine.loopBase 1048576 = 1048576 :=
      ⟨if_pos (by omega), if_pos hpci⟩
    have hascending : Ascending (machine.loopBase start) 655360
        (pieceEntries flags i base (nodeMem - (base + nodeMem - hole640kStart))) :=
      ascending_pieceEntries (by omega) (by omega)
    split
    · next hinside =>
      have hskip : skipHole (start + nodeMem.toNat) = 1048576 := if_pos (by omega)
      rw [hskip]
      refine ⟨hloop.2.symm, fun a k => ?_, ?_⟩
      · rw [assigned_pieceEntries hi, holds_iff h, LowHole]
        omega
      · have hempty := hascending.append (Ascending.nil 655360 1048576) (by omega) (by omega)
          (Nat.le_refl _)
        rwa [List.append_nil, ← hloop.2] at hempty
    · next hpast =>
      have hrest : (base + nodeMem - hole640kEnd).toNat = start + nodeMem.toNat - 1048576 := by
        rw [UInt64.toNat_sub_of_le _ _ (UInt64.le_iff_toNat_le.mpr (by omega)), hnext, hlow,
          hholeEnd]
      have hskip : skipHole (start + nodeMem.toNat) = start + nodeMem.toNat := if_neg (by omega)
      have hspec : Describes machine i 1048576 (start + nodeMem.toNat) (start + nodeMem.toNat)
          (pciHoleEntries flags machine i hole640kEnd (base + nodeMem - hole640kEnd)
            (base + nodeMem)) :=
        pciHoleEntries_spec h hi hloop.2.symm (by omega) (by omega) (Or.inr (Nat.le_refl _)) hfits
      rw [hskip]
      refine ⟨hspec.next_eq, fun a k => ?_, ?_⟩
      · rw [assigned_append, assigned_pieceEntries hi, hspec.assigned, holds_iff h, holds_iff h,
          LowHole]
        omega
      · have hmono := hspec.ascending
        rw [hloop.2] at hmono
        refine hascending.append hmono (by omega) ?_ (by decide)
        unfold Machine.loopBase
        split_ifs <;> omega
  · next hcut =>
    have hskip : skipHole (start + nodeMem.toNat) = start + nodeMem.toNat := by
      unfold skipHole
      split_ifs at hbase' ⊢ <;> omega
    have hlow : start + nodeMem.toNat ≤ 655360 ∨ 1048576 ≤ start := by
      split_ifs at hbase' <;> omega
    rw [hskip]
    exact pciHoleEntries_spec h hi hbase hnext rfl hlow hfits

/-! ## The entries of all nodes -/

/-- Where the next node begins: behind the node, or behind the low hole when the
node ends in it. -/
theorem skipHole_cases (e : ℕ) :
    skipHole e = e ∧ (e ≤ 655360 ∨ 1048576 ≤ e) ∨
      skipHole e = 1048576 ∧ 655360 < e ∧ e ≤ 1048576 := by
  unfold skipHole
  split <;> omega

/-- The address at which the loop goes on grows with the offset. -/
theorem loopBase_mono (h : machine.Sound) {m n : ℕ} (hmn : m ≤ n) :
    machine.loopBase m ≤ machine.loopBase n := by
  have horder := h.order
  unfold Machine.loopBase
  split_ifs <;> omega

/-- **The loop describes the spans of the nodes**, in the order of the
addresses. -/
theorem ramEntries_spec (flags : MemoryAffinityFlags) (h : machine.Sound)
    (sizes : List UInt64) {i : ℕ}
    (hi : i + sizes.length ≤ 4294967296) {base : UInt64} {start : ℕ}
    (hbase : base.toNat = machine.loopBase start) (hstart : start ≤ 655360 ∨ 1048576 ≤ start)
    (hfits : machine.above4gMemStart.toNat + start + (sizes.map UInt64.toNat).sum ≤
      18446744073709551616 + (if start ≤ 655360 then 0 else 393216)) :
    (∀ a k, Assigned (ramEntries flags machine i base sizes) a k ↔
      ∃ j span, (nodeSpans start (sizes.map UInt64.toNat))[j]? = some span ∧ i + j = k ∧
        machine.Holds span a) ∧
    ∃ hi, machine.loopBase start ≤ hi ∧
      Ascending (machine.loopBase start) hi (ramEntries flags machine i base sizes) := by
  induction sizes generalizing i base start with
  | nil =>
    refine ⟨fun a k => ⟨fun h => absurd h (assigned_nil a k), ?_⟩, _, Nat.le_refl _, .nil _ _⟩
    rintro ⟨j, span, hspan, -⟩
    cases hspan
  | cons nodeMem sizes ih =>
    have hpci := h.low
    rw [List.map_cons, List.sum_cons] at hfits
    rw [List.length_cons] at hi
    have hnode : Describes machine i start (start + nodeMem.toNat)
        (skipHole (start + nodeMem.toNat)) (nodeEntries flags machine i base nodeMem) :=
      nodeEntries_spec h (by omega) hbase hstart (by split_ifs at hfits <;> omega)
    have hskip := skipHole_cases (start + nodeMem.toNat)
    have hle : start + nodeMem.toNat ≤ skipHole (start + nodeMem.toNat) := by omega
    obtain ⟨hassigned, last, hlast, hascending⟩ := ih (i := i + 1) (by omega) hnode.next_eq
      (by omega) (by split_ifs at hfits ⊢ <;> omega)
    refine ⟨fun a k => ?_, last, Nat.le_trans (loopBase_mono h (by omega)) hlast,
      hnode.ascending.append hascending (loopBase_mono h (by omega)) hlast (Nat.le_refl _)⟩
    rw [ramEntries, assigned_append, hnode.assigned, hassigned, List.map_cons, nodeSpans]
    constructor
    · rintro (⟨rfl, hholds⟩ | ⟨j, span, hspan, rfl, hholds⟩)
      · exact ⟨0, _, rfl, rfl, hholds⟩
      · exact ⟨j + 1, span, hspan, by omega, hholds⟩
    · rintro ⟨j, span, hspan, rfl, hholds⟩
      cases j with
      | zero =>
        obtain rfl := Option.some.inj hspan
        exact Or.inl ⟨rfl, hholds⟩
      | succ j => exact Or.inr ⟨j, span, hspan, by omega, hholds⟩

variable (flags) in
/-- The loop from its beginning. -/
theorem ramEntries_all (h : machine.Sound) :
    (∀ a k, Assigned (ramEntries flags machine 0 0 machine.numaInfo) a k ↔
      ∃ span, (nodeSpans 0 machine.sizes)[k]? = some span ∧ machine.Holds span a) ∧
    (ramEntries flags machine 0 0 machine.numaInfo).Pairwise
      fun e f => e.base + e.length ≤ f.base := by
  have hnodes := h.nodes
  have hfits := h.fits
  unfold Machine.sizes at hfits
  have hbase : (0 : UInt64).toNat = machine.loopBase 0 := (if_pos (Nat.zero_le _)).symm
  obtain ⟨hassigned, _, _, hascending⟩ := ramEntries_spec flags h machine.numaInfo
    (i := 0) (by omega) hbase (by omega) (by rw [if_pos (by decide)]; omega)
  refine ⟨fun a k => (hassigned a k).trans ⟨?_, ?_⟩, hascending.sorted⟩
  · rintro ⟨j, span, hspan, hj, hholds⟩
    obtain rfl : j = k := by omega
    exact ⟨span, hspan, hholds⟩
  · rintro ⟨span, hspan, hholds⟩
    exact ⟨k, span, hspan, Nat.zero_add k, hholds⟩

end

end AcpiTables.AmlBuild
