import AcpiTables.Blob

/-!
# Runs of the blob builder

Any sequence of the builder's operations, with what it appended (`appendedBy`)
as the reference. One step extends the data at its end and records at most one
table, at the old end (`step_cases`); so what is recorded stays where it is, and
the tables lie one after the other (`Recorded`, `recorded_run`).

Offsets are cast to 32 bits. As the data only grows, a final length below `2 ^ 32`
makes every cast of the run exact.
-/

namespace AcpiTables

open MachineInt

/-- The operations on a builder that a caller has. -/
inductive BuilderOp where
  | reserveFront (len : ℕ)
  | align (alignment : ℕ)
  | appendTable (signature : Vector UInt8 4) (bytes : Bytes)
  | appendPlaceholderTable (signature : Vector UInt8 4) (length : UInt32)

namespace BuilderOp

/-- Call the operation: what it returns, and the builder after it. -/
def call (self : AcpiBlobBuilder) : BuilderOp → Checked (Option UInt32 × AcpiBlobBuilder)
  | .reserveFront len => return (none, self.reserveFront len)
  | .align alignment => return (none, ← self.align alignment)
  | .appendTable signature bytes =>
    let (offset, self) := self.appendTable signature bytes
    return (some offset, self)
  | .appendPlaceholderTable signature length =>
    let (offset, self) := self.appendPlaceholderTable signature length
    return (some offset, self)

/-- The table that an operation appends. -/
def appended : BuilderOp → Option Chunk
  | .reserveFront _ | .align _ => none
  | .appendTable signature bytes => some (signature, bytes)
  | .appendPlaceholderTable signature length => some (signature, List.replicate length.toNat 0)

end BuilderOp

/-- A run: the offsets that were returned, in order, and the builder at the end. -/
def runBuilder (self : AcpiBlobBuilder) : List BuilderOp → Checked (List UInt32 × AcpiBlobBuilder)
  | [] => return ([], self)
  | op :: ops => do
    let (offset, self) ← op.call self
    let (offsets, self) ← runBuilder self ops
    return (offset.toList ++ offsets, self)

/-- The tables that a run appends. -/
def appendedBy (ops : List BuilderOp) : List Chunk := ops.filterMap BuilderOp.appended

/-! ## One step -/

/-- What one call does: it adds to the end of the data, and when it appends a
table it records and returns where the table starts. -/
theorem step_cases {op : BuilderOp} {b b' : AcpiBlobBuilder} {out : Option UInt32}
    (h : op.call b = .ok (out, b')) :
    b'.baseAddress = b.baseAddress ∧
      ((out = none ∧ op.appended = none ∧ b'.tables = b.tables ∧ b.data <+: b'.data) ∨
        ∃ c, out = some (UInt32.ofNat b.data.length) ∧ op.appended = some c ∧
          b'.data = b.data ++ c.2 ∧
          b'.tables =
            b.tables ++ [⟨c.1, UInt32.ofNat b.data.length, UInt32.ofNat c.2.length⟩]) := by
  cases op with
  | reserveFront len =>
    obtain ⟨rfl, rfl⟩ := Prod.mk.inj (Except.ok.inj h)
    rw [AcpiBlobBuilder.reserveFront]
    split
    · exact ⟨rfl, .inl ⟨rfl, rfl, rfl, List.prefix_append ..⟩⟩
    · exact ⟨rfl, .inl ⟨rfl, rfl, rfl, List.prefix_rfl⟩⟩
  | align alignment =>
    obtain ⟨a, ha, h⟩ := Checked.bind_eq_ok.mp h
    obtain ⟨rfl, rfl⟩ := Prod.mk.inj (Except.ok.inj h)
    obtain ⟨-, -, ha⟩ := Checked.bind_eq_ok.mp ha
    dsimp only at ha
    split at ha
    · obtain rfl := Except.ok.inj ha
      exact ⟨rfl, .inl ⟨rfl, rfl, rfl, List.prefix_append ..⟩⟩
    · obtain rfl := Except.ok.inj ha
      exact ⟨rfl, .inl ⟨rfl, rfl, rfl, List.prefix_rfl⟩⟩
  | appendTable signature bytes =>
    obtain ⟨rfl, rfl⟩ := Prod.mk.inj (Except.ok.inj h)
    exact ⟨rfl, .inr ⟨(signature, bytes), rfl, rfl, rfl, rfl⟩⟩
  | appendPlaceholderTable signature length =>
    obtain ⟨rfl, rfl⟩ := Prod.mk.inj (Except.ok.inj h)
    have hlength : UInt32.ofNat (List.replicate length.toNat (0 : UInt8)).length = length := by
      rw [List.length_replicate, UInt32.ofNat_toNat]
    refine ⟨rfl, .inr ⟨(signature, List.replicate length.toNat 0), rfl, rfl, rfl, ?_⟩⟩
    rw [hlength]

/-- A call fails only at an alignment of zero. -/
theorem call_isOk {op : BuilderOp} (h : ∀ alignment, op = .align alignment → alignment ≠ 0)
    (b : AcpiBlobBuilder) : ∃ out, op.call b = .ok out := by
  cases op with
  | align alignment =>
    rw [BuilderOp.call, AcpiBlobBuilder.align, ensure_of (h alignment rfl), Checked.ok_bind]
    dsimp only
    split <;> exact ⟨_, rfl⟩
  | _ => exact ⟨_, rfl⟩

/-! ## What is recorded -/

/-- The tables of a builder are those of a log, in order, at their places. -/
structure Recorded (b : AcpiBlobBuilder) (log : List Chunk) : Prop where
  /-- each reference finds the bytes it was recorded for -/
  readBack : b.tables.map (fun t => (t.signature, slice b.data t.offset.toNat t.length.toNat)) = log
  /-- the tables end within the data -/
  inside : ∀ t ∈ b.tables, t.offset.toNat + t.length.toNat ≤ b.data.length
  /-- each ends before the next one starts -/
  ordered : b.tables.Pairwise fun t u => t.offset.toNat + t.length.toNat ≤ u.offset.toNat

/-- A new builder has recorded nothing. -/
theorem recorded_new (base : UInt64) : Recorded (.new base) [] :=
  ⟨rfl, nofun, .nil⟩

/-- Data that is added at the end hides nothing. -/
theorem Recorded.grow {b b' : AcpiBlobBuilder} {log : List Chunk} (h : Recorded b log)
    (htables : b'.tables = b.tables) (hdata : b.data <+: b'.data) : Recorded b' log := by
  obtain ⟨more, hmore⟩ := hdata
  refine ⟨?_, ?_, ?_⟩
  · rw [htables, ← h.readBack]
    refine List.map_congr_left fun t ht => ?_
    rw [← hmore, slice_append_left (h.inside t ht)]
  · intro t ht
    rw [htables] at ht
    have := h.inside t ht
    rw [← hmore, List.length_append]
    omega
  · rw [htables]
    exact h.ordered

/-- **One step keeps the record.** -/
theorem Recorded.step {op : BuilderOp} {b b' : AcpiBlobBuilder} {out : Option UInt32}
    {log : List Chunk} (h : Recorded b log) (hcall : op.call b = .ok (out, b'))
    (hfit : b'.data.length < 4294967296) :
    Recorded b' (log ++ op.appended.toList) ∧
      b'.tables.map TableRef.offset = b.tables.map TableRef.offset ++ out.toList := by
  obtain ⟨-, ⟨rfl, happended, htables, hdata⟩ | ⟨c, rfl, happended, hdata, htables⟩⟩ :=
    step_cases hcall
  · rw [happended, htables]
    simpa using h.grow htables hdata
  rw [hdata, List.length_append] at hfit
  have hoffset : (UInt32.ofNat b.data.length).toNat = b.data.length :=
    MachineInt.toNat_ofNat_u32 (by omega)
  have hlength : (UInt32.ofNat c.2.length).toNat = c.2.length :=
    MachineInt.toNat_ofNat_u32 (by omega)
  -- the old tables, over the longer data
  have hold : Recorded ⟨b.data ++ c.2, b.tables, b.baseAddress⟩ log :=
    h.grow rfl (List.prefix_append ..)
  refine ⟨⟨?_, ?_, ?_⟩, ?_⟩
  · have hnew : slice (b.data ++ c.2) b.data.length c.2.length = c.2 := by
      have := slice_mid b.data c.2 []
      rwa [List.append_nil] at this
    rw [htables, hdata, List.map_append, hold.readBack, happended, List.map_singleton, hoffset,
      hlength, hnew]
    rfl
  · intro t ht
    rw [htables] at ht
    rw [hdata, List.length_append]
    rcases List.mem_append.mp ht with ht | ht
    · have := h.inside t ht
      omega
    · obtain rfl := List.mem_singleton.mp ht
      rw [hoffset, hlength]
  · rw [htables, List.pairwise_append]
    refine ⟨h.ordered, List.pairwise_singleton .., ?_⟩
    intro t ht u hu
    obtain rfl := List.mem_singleton.mp hu
    rw [hoffset]
    exact h.inside t ht
  · rw [htables, List.map_append]
    rfl

/-! ## Runs -/

/-- A run returns when its first operation does and then the others do. -/
theorem runBuilder_cons_eq_ok {op : BuilderOp} {ops : List BuilderOp} {b b' : AcpiBlobBuilder}
    {offsets : List UInt32} (h : runBuilder b (op :: ops) = .ok (offsets, b')) :
    ∃ out mid offsets', op.call b = .ok (out, mid) ∧ runBuilder mid ops = .ok (offsets', b') ∧
      offsets = out.toList ++ offsets' := by
  obtain ⟨⟨out, mid⟩, hcall, h⟩ := Checked.bind_eq_ok.mp h
  obtain ⟨⟨offsets', last⟩, hrun, h⟩ := Checked.bind_eq_ok.mp h
  obtain ⟨rfl, rfl⟩ := Prod.mk.inj (Except.ok.inj h)
  exact ⟨out, mid, offsets', hcall, hrun, rfl⟩

/-- The data only grows, and the base address stays. -/
theorem prefix_of_runBuilder {ops : List BuilderOp} {b b' : AcpiBlobBuilder}
    {offsets : List UInt32} (h : runBuilder b ops = .ok (offsets, b')) :
    b.data <+: b'.data ∧ b'.baseAddress = b.baseAddress := by
  induction ops generalizing b offsets with
  | nil =>
    obtain ⟨-, rfl⟩ := Prod.mk.inj (Except.ok.inj h)
    exact ⟨List.prefix_rfl, rfl⟩
  | cons op ops ih =>
    obtain ⟨out, mid, offsets', hcall, hrun, -⟩ := runBuilder_cons_eq_ok h
    obtain ⟨hdata, hbase⟩ := ih hrun
    obtain ⟨hbase', ⟨-, -, -, hdata'⟩ | ⟨c, -, -, hdata', -⟩⟩ := step_cases hcall
    · exact ⟨hdata'.trans hdata, hbase.trans hbase'⟩
    · rw [hdata'] at hdata
      exact ⟨(List.prefix_append ..).trans hdata, hbase.trans hbase'⟩

/-- **A run keeps the record** of everything it appended. -/
theorem recorded_run {ops : List BuilderOp} {b b' : AcpiBlobBuilder} {offsets : List UInt32}
    {log : List Chunk} (hrecorded : Recorded b log) (h : runBuilder b ops = .ok (offsets, b'))
    (hfit : b'.data.length < 4294967296) :
    Recorded b' (log ++ appendedBy ops) ∧
      b'.tables.map TableRef.offset = b.tables.map TableRef.offset ++ offsets := by
  induction ops generalizing b offsets log with
  | nil =>
    obtain ⟨rfl, rfl⟩ := Prod.mk.inj (Except.ok.inj h)
    simpa [appendedBy] using hrecorded
  | cons op ops ih =>
    obtain ⟨out, mid, offsets', hcall, hrun, rfl⟩ := runBuilder_cons_eq_ok h
    have hmid := (prefix_of_runBuilder hrun).1.length_le
    obtain ⟨hstep, hoffsets⟩ := hrecorded.step hcall (by omega)
    obtain ⟨hlast, hoffsets'⟩ := ih hstep hrun
    have happended :
        log ++ op.appended.toList ++ appendedBy ops = log ++ appendedBy (op :: ops) := by
      rw [appendedBy, appendedBy, List.filterMap_cons, List.append_assoc]
      cases op.appended <;> rfl
    rw [happended] at hlast
    refine ⟨hlast, ?_⟩
    rw [hoffsets', hoffsets, List.append_assoc]

/-- A run returns unless it aligns to zero. -/
theorem runBuilder_isOk {ops : List BuilderOp}
    (h : ∀ alignment, .align alignment ∈ ops → alignment ≠ 0) (b : AcpiBlobBuilder) :
    ∃ out, runBuilder b ops = .ok out := by
  induction ops generalizing b with
  | nil => exact ⟨_, rfl⟩
  | cons op ops ih =>
    have hop : ∀ alignment, op = .align alignment → alignment ≠ 0 := by
      rintro alignment rfl
      exact h alignment (.head _)
    obtain ⟨⟨out, mid⟩, hcall⟩ := call_isOk hop b
    obtain ⟨⟨offsets, last⟩, hrun⟩ := ih (fun alignment hmem => h alignment (.tail _ hmem)) mid
    refine ⟨(out.toList ++ offsets, last), ?_⟩
    rw [runBuilder, hcall, Checked.ok_bind]
    dsimp only
    rw [hrun]
    rfl

/-! ## Addresses -/

/-- The address of an offset is the sum with the base, where 64 bits hold it. -/
theorem addressOf_eq_ok_iff {b : AcpiBlobBuilder} {offset : UInt32} {address : UInt64} :
    b.addressOf offset = .ok address ↔
      address.toNat = b.baseAddress.toNat + offset.toNat := by
  have hoffset : toNat offset.toUInt64 = offset.toNat := UInt32.toNat_toUInt64 offset
  have hbase : toNat b.baseAddress = b.baseAddress.toNat := rfl
  constructor
  · intro h
    have hvalue := checkedAdd_eq_ok h
    rwa [hoffset, hbase] at hvalue
  · intro h
    have hlt := address.toNat_lt
    obtain ⟨sum, hsum, hvalue⟩ := checkedAdd_isOk (x := b.baseAddress)
      (y := offset.toUInt64) (by simp only [width_u64, hoffset, hbase]; omega)
    rw [hoffset, hbase, ← h] at hvalue
    rwa [UInt64.toNat_inj.mp hvalue] at hsum

/-- Where the data ends in the address space, a table that is not empty has an
address. -/
theorem Recorded.addressOf_isOk {b : AcpiBlobBuilder} {log : List Chunk} (h : Recorded b log)
    (hbase : b.baseAddress.toNat + b.data.length ≤ 18446744073709551616) {t : TableRef}
    (ht : t ∈ b.tables) (hpos : 0 < t.length.toNat) :
    ∃ address, b.addressOf t.offset = .ok address := by
  have hinside := h.inside t ht
  have hlt : b.baseAddress.toNat + t.offset.toNat < 18446744073709551616 := by omega
  exact ⟨UInt64.ofNat (b.baseAddress.toNat + t.offset.toNat),
    addressOf_eq_ok_iff.mpr (UInt64.toNat_ofNat_of_lt' hlt)⟩

/-- A table behind one that is not empty has the larger address. -/
theorem Recorded.addresses {b : AcpiBlobBuilder} {log : List Chunk} (h : Recorded b log) :
    b.tables.Pairwise fun t u => 0 < t.length.toNat → ∀ a c,
      b.addressOf t.offset = .ok a → b.addressOf u.offset = .ok c → a < c := by
  refine h.ordered.imp ?_
  intro t u hlt hpos a c ha hc
  have haValue := addressOf_eq_ok_iff.mp ha
  have hcValue := addressOf_eq_ok_iff.mp hc
  rw [UInt64.lt_iff_toNat_lt]
  omega

/-- **The layout of any run**: what was appended lies in the data, in order and
without overlap, at the offsets that were returned. The address of a table is the
sum of the base and its offset, if 64 bits hold that: so a table behind one that is
not empty has the larger address, and every table that is not empty has one if the
data ends in the address space. -/
theorem runBuilder_layout (base : UInt64) {ops : List BuilderOp}
    (halign : ∀ alignment, .align alignment ∈ ops → alignment ≠ 0) :
    ∃ offsets b, runBuilder (.new base) ops = .ok (offsets, b) ∧
      (b.data.length < 4294967296 →
        Recorded b (appendedBy ops) ∧ b.tables.map TableRef.offset = offsets ∧
        (∀ t ∈ b.tables, ∀ address, b.addressOf t.offset = .ok address ↔
          address.toNat = base.toNat + t.offset.toNat) ∧
        (b.tables.Pairwise fun t u => 0 < t.length.toNat → ∀ a c,
          b.addressOf t.offset = .ok a → b.addressOf u.offset = .ok c → a < c) ∧
        (base.toNat + b.data.length ≤ 18446744073709551616 →
          ∀ t ∈ b.tables, 0 < t.length.toNat → ∃ a, b.addressOf t.offset = .ok a)) := by
  obtain ⟨⟨offsets, b⟩, hrun⟩ := runBuilder_isOk halign (.new base)
  refine ⟨offsets, b, hrun, fun hfit => ?_⟩
  obtain ⟨hrecorded, hoffsets⟩ := recorded_run (recorded_new base) hrun hfit
  have hbase : b.baseAddress = base := (prefix_of_runBuilder hrun).2
  subst hbase
  exact ⟨hrecorded, hoffsets, fun _ _ _ => addressOf_eq_ok_iff, hrecorded.addresses,
    fun haddr _ => hrecorded.addressOf_isOk haddr⟩

/-- A run with all four operations: what is recorded, the offsets and all addresses. -/
theorem runBuilder_layout_pair :
    ∃ offsets b, runBuilder (.new 4096)
        [.reserveFront 2, .appendTable (bstr "FACS") [1, 2, 3], .align 4,
          .appendPlaceholderTable (bstr "SSDT") 2] = .ok (offsets, b) ∧
      b.data.length < 4294967296 ∧ (4096 : UInt64).toNat + b.data.length ≤ 18446744073709551616 ∧
      Recorded b [(bstr "FACS", [1, 2, 3]), (bstr "SSDT", [0, 0])] ∧
      b.tables.map TableRef.offset = offsets ∧
      (∀ t ∈ b.tables, ∀ address, b.addressOf t.offset = .ok address ↔
        address.toNat = (4096 : UInt64).toNat + t.offset.toNat) ∧
      (b.tables.Pairwise fun t u => 0 < t.length.toNat → ∀ a c,
        b.addressOf t.offset = .ok a → b.addressOf u.offset = .ok c → a < c) ∧
      ∀ t ∈ b.tables, 0 < t.length.toNat → ∃ a, b.addressOf t.offset = .ok a := by
  obtain ⟨offsets, b, hrun, h⟩ := @runBuilder_layout 4096
    [.reserveFront 2, .appendTable (bstr "FACS") [1, 2, 3], .align 4,
      .appendPlaceholderTable (bstr "SSDT") 2] (by simp)
  have hlength : b.data.length = 10 := by
    obtain rfl := congrArg Prod.snd (Except.ok.inj hrun)
    rfl
  obtain ⟨hrecorded, hoffsets, haddress, hordered, hisOk⟩ := h (by omega)
  have hend : (4096 : UInt64).toNat + b.data.length ≤ 18446744073709551616 := by
    rw [hlength]
    decide
  exact ⟨offsets, b, hrun, by omega, hend, hrecorded, hoffsets, haddress, hordered, hisOk hend⟩

/-- Behind the last address, `addressOf` panics. -/
theorem addressOf_overflow :
    ∃ b, runBuilder (.new 0xffffffffffffffff)
        [.appendTable (bstr "FACS") [0], .appendTable (bstr "DSDT") [0]] = .ok ([0, 1], b) ∧
      b.data.length < 4294967296 ∧ b.addressOf 1 = .error .overflow :=
  ⟨_, rfl, by decide, rfl⟩

end AcpiTables
