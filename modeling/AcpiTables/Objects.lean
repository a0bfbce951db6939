import AcpiTables.Encoding

/-!
# The objects of the object layer

`IsObject` is every object that the object layer can build: a constructor for each
type that can be written, with any fields, over objects built before. Unlike the
term trees it leaves out nothing, so it is what a statement about all objects is
about.

Every object is `Uniform`: what it writes, or the panic it ends in, does not depend
on the sink. Most objects are one of two things, a sequence of parts or a frame
around one, and each is uniform when its parts are (`Uniform.of_emitAll`,
`Frames.uniform`).
-/

namespace AcpiTables

open MachineInt

/-! ## Uniform objects -/

/-- The object panics, with any lawful sink. -/
structure Fails (x : DynAml) (e : Panic) : Prop where
  run : ∀ {S : Type} [AmlSink S] [LawfulAmlSink S] (s : S), x.emit s = .error e

/-- The sink decides nothing. -/
inductive Uniform (x : DynAml) : Prop
  | writes {w : Bytes} (h : Writes x w)
  | fails {e : Panic} (h : Fails x e)

/-- Emitting no object changes nothing. -/
@[simp] theorem emitAll_nil {S : Type} [AmlSink S] :
    (emitAll [] : S → Checked S) = Except.ok := rfl

/-- Emitting a sequence is emitting its first object and then the others. -/
theorem emitAll_cons {S : Type} [AmlSink S] (x : DynAml) (l : List DynAml) (s : S) :
    emitAll (x :: l) s = x.emit s >>= emitAll l :=
  List.foldlM_cons ..

/-- As a function, for a sequence inside of another. -/
@[simp] theorem emitAll_cons_fun {S : Type} [AmlSink S] (x : DynAml) (l : List DynAml) :
    (emitAll (x :: l) : S → Checked S) = fun s => x.emit s >>= emitAll l :=
  funext (emitAll_cons x l)

/-- The end of a sequence. -/
@[simp] theorem bind_except_ok {α : Type} (x : Checked α) : x >>= Except.ok = x :=
  Checked.bind_ok x

/-- Bytes that stand for themselves. -/
def raw (w : Bytes) : DynAml := dyn (Name.mk w)

/-- Raw bytes write themselves. -/
theorem writes_raw (w : Bytes) : Writes (raw w) w := writes_name ⟨w⟩

namespace Uniform

variable {x : DynAml} {l : List DynAml}

/-- Raw bytes are uniform. -/
theorem raw (w : Bytes) : Uniform (raw w) := .writes (writes_raw w)

/-- What goes to a sink is what goes to an empty buffer. -/
theorem emit_eq (h : Uniform x) {S : Type} [AmlSink S] [LawfulAmlSink S] (s : S) :
    x.emit s = AmlSink.vec s <$> x.emit ([] : Bytes) := by
  cases h with
  | writes h => rw [h.run s, h.runNil, Checked.map_ok]
  | fails h => rw [h.run s, h.run, Checked.map_error]

/-- A sequence ends in the first panic, or it is the words of its parts. -/
theorem emitAll_eq (h : ∀ y ∈ l, Uniform y) {S : Type} [AmlSink S] [LawfulAmlSink S] (s : S) :
    emitAll l s = AmlSink.vec s <$> emitAll l ([] : Bytes) := by
  induction l generalizing S with
  | nil => simp
  | cons y l ih =>
    obtain ⟨hy, hl⟩ := List.forall_mem_cons.mp h
    simp only [emitAll_cons]
    cases hy with
    | fails hy => rw [hy.run s, hy.run, Checked.error_bind, Checked.error_bind, Checked.map_error]
    | @writes w hy =>
      rw [hy.run s, hy.runNil, Checked.ok_bind, Checked.ok_bind, ih hl, ih hl w]
      cases emitAll l ([] : Bytes) with
      | error e => rfl
      | ok v => simp

/-- An object that is a sequence of parts. -/
theorem of_emitAll (hl : ∀ y ∈ l, Uniform y)
    (hx : ∀ {S : Type} [AmlSink S] [LawfulAmlSink S] (s : S), x.emit s = emitAll l s) :
    Uniform x := by
  cases h : emitAll l ([] : Bytes) with
  | error e => exact .fails ⟨fun s => by rw [hx, emitAll_eq hl, h, Checked.map_error]⟩
  | ok w => exact .writes ⟨fun s => by rw [hx, emitAll_eq hl, h, Checked.map_ok]⟩

end Uniform

/-- The object writes its parts to a buffer, makes a content of it and writes that in
a frame. -/
structure Frames (x : DynAml) (op : Bytes) (parts : List DynAml) (content : Bytes → Bytes) :
    Prop where
  emit_eq : ∀ {S : Type} [AmlSink S] [LawfulAmlSink S] (s : S),
    x.emit s = (do
      let bytes ← emitAll parts ([] : Bytes)
      return AmlSink.vec s (frame op (content bytes)))

/-- The parts of a frame never see the sink. -/
theorem Frames.uniform {x : DynAml} {op : Bytes} {parts : List DynAml} {content : Bytes → Bytes}
    (hx : Frames x op parts content) : Uniform x := by
  cases h : emitAll parts ([] : Bytes) with
  | error e => exact .fails ⟨fun s => by rw [hx.emit_eq, h, Checked.error_bind]⟩
  | ok w => exact .writes ⟨fun s => by rw [hx.emit_eq, h, Checked.ok_bind, Checked.pure_eq]⟩

/-! ## Objects -/

/-- What can be built, type by type. -/
inductive IsObject : DynAml → Prop
  | zero : IsObject (dyn ZeroObject.zero)
  | one : IsObject (dyn OneObject.one)
  | ones : IsObject (dyn OnesObject.ones)
  | path (p : Path) : IsObject (dyn p)
  | byte (v : UInt8) : IsObject (dyn v)
  | word (v : UInt16) : IsObject (dyn v)
  | dword (v : UInt32) : IsObject (dyn v)
  | qword (v : UInt64) : IsObject (dyn v)
  | usize (n : ℕ) : IsObject ⟨usizeToAmlBytes n⟩
  | name (x : Name) : IsObject (dyn x)
  | package (x : Package) (h : ∀ c ∈ x.children, IsObject c) : IsObject (dyn x)
  | packageBuilder (x : PackageBuilder) : IsObject (dyn x)
  | varPackageTerm (x : VarPackageTerm) (h : IsObject x.data) : IsObject (dyn x)
  | eisaName (x : EISAName) : IsObject (dyn x)
  | string (x : String) : IsObject (dyn x)
  | resourceTemplate (x : ResourceTemplate) (h : ∀ c ∈ x.children, IsObject c) : IsObject (dyn x)
  | descriptor (d : Descriptor) : IsObject d.object
  | gas (x : GAS) : IsObject (dyn x)
  | device (x : Device) (h : ∀ c ∈ x.children, IsObject c) : IsObject (dyn x)
  | scope (x : Scope) (h : ∀ c ∈ x.children, IsObject c) : IsObject (dyn x)
  | method (x : Method) (h : ∀ c ∈ x.children, IsObject c) : IsObject (dyn x)
  | field (x : FieldObject) : IsObject (dyn x)
  | opRegion (x : OpRegion) (hoffset : IsObject x.offset) (hlength : IsObject x.length) :
    IsObject (dyn x)
  | powerResource (x : PowerResource) (h : ∀ c ∈ x.children, IsObject c) : IsObject (dyn x)
  | ifObject (x : If) (hpredicate : IsObject x.predicate) (h : ∀ c ∈ x.ifChildren, IsObject c) :
    IsObject (dyn x)
  | elseObject (x : Else) (h : ∀ c ∈ x.body, IsObject c) : IsObject (dyn x)
  | whileObject (x : While) (hpredicate : IsObject x.predicate)
    (h : ∀ c ∈ x.whileChildren, IsObject c) : IsObject (dyn x)
  | compare {op : CompareOp} (x : Compare op) (hleft : IsObject x.left)
    (hright : IsObject x.right) :
    IsObject (dyn x)
  | onObject {op : ObjectOp} (x : OnObject op) (h : IsObject x.a) : IsObject (dyn x)
  | binary {op : BinaryOp} (x : Binary op) (htarget : IsObject x.target) (ha : IsObject x.a)
    (hb : IsObject x.b) : IsObject (dyn x)
  | convert {op : ConvertOp} (x : Convert op) (htarget : IsObject x.target) (ha : IsObject x.a) :
    IsObject (dyn x)
  | arg (x : Arg) : IsObject (dyn x)
  | localVar (x : Local) : IsObject (dyn x)
  | store (x : Store) (hname : IsObject x.name) (hvalue : IsObject x.value) : IsObject (dyn x)
  | mutex (x : Mutex) : IsObject (dyn x)
  | acquire (x : Acquire) : IsObject (dyn x)
  | release (x : Release) : IsObject (dyn x)
  | notify (x : Notify) (hobject : IsObject x.object) (hvalue : IsObject x.value) :
    IsObject (dyn x)
  | createField (x : CreateField) (hname : IsObject x.nameString) (hsource : IsObject x.source)
    (hindex : IsObject x.bitIndex) (hnum : IsObject x.bitNum) : IsObject (dyn x)
  | mid (x : Mid) (hsource : IsObject x.source) (hindex : IsObject x.index)
    (hlength : IsObject x.length) (hresult : IsObject x.result) : IsObject (dyn x)
  | methodCall (x : MethodCall) (h : ∀ c ∈ x.args, IsObject c) : IsObject (dyn x)
  | bufferTerm (x : BufferTerm) (h : IsObject x.data) : IsObject (dyn x)
  | bufferData (x : BufferData) : IsObject (dyn x)
  | uuid (x : Uuid) : IsObject (dyn x)

/-- A path without a segment cannot be written. -/
theorem uniform_path (p : Path) : Uniform (dyn p) := by
  by_cases h : p.nameParts = []
  · refine .fails (e := .explicit "Name cannot be empty") ⟨fun s => ?_⟩
    change p.toAmlBytes s = _
    rw [Path.toAmlBytes, h]
    rfl
  · exact .writes (writes_path h)

/-- A range that does not fit overflows, before the length is written. -/
theorem AddressSpace.emit_of_not_fits {T : Type} [MachineInt T] {space : AddressSpace T}
    (hone : 1 < 256 ^ width T) (h : ¬ space.Fits) (descriptor : UInt8) {S : Type} [AmlSink S]
    (s : S) : space.emit descriptor s = .error .overflow := by
  have hlt := toNat_lt space.max
  by_cases hle : toNat space.min ≤ toNat space.max
  · have hsub : checkedSub space.max space.min =
        .ok (ofNat (toNat space.max - toNat space.min)) := if_pos hle
    have hadd : checkedAdd (ofNat (toNat space.max - toNat space.min) : T) (ofNat 1) =
        .error .overflow := by
      rw [checkedAdd, toNat_ofNat, toNat_ofNat, Nat.mod_eq_of_lt (by omega), Nat.mod_eq_of_lt hone]
      exact if_neg fun hfits => h ⟨hle, hfits⟩
    simp only [AddressSpace.emit, hsub, hadd, Checked.ok_bind, Checked.error_bind]
  · have hsub : checkedSub space.max space.min = .error .overflow := if_neg hle
    simp only [AddressSpace.emit, hsub, Checked.error_bind]

/-- A descriptor is uniform: it writes its bytes, or the length of its range
overflows, with any sink. -/
theorem uniform_descriptor (d : Descriptor) : Uniform d.object := by
  by_cases h : d.Fits
  · exact .writes (Descriptor.writes h)
  · cases d with
    | wordSpace space =>
      exact .fails ⟨fun s => AddressSpace.emit_of_not_fits (by decide) h wordAddrSpaceDesc s⟩
    | dwordSpace space =>
      exact .fails ⟨fun s => AddressSpace.emit_of_not_fits (by decide) h dwordAddrSpaceDesc s⟩
    | qwordSpace space =>
      exact .fails ⟨fun s => AddressSpace.emit_of_not_fits (by decide) h qwordAddrSpaceDesc s⟩
    | memory32Fixed _ | io _ | interrupt _ | register _ => exact absurd trivial h

/-- A generic address structure writes its bytes. -/
theorem writes_gas (x : GAS) : Writes (dyn x) x.encode :=
  ⟨fun s => by simp [dyn, toAmlBytes, AmlSink.qword, GAS.encode]⟩

/-! ## Frames -/

section

variable {S : Type} [AmlSink S]

/-- Raw bytes go to a sink as they are. -/
@[simp] theorem raw_emit (w : Bytes) (s : S) : (raw w).emit s = .ok (AmlSink.vec s w) := rfl

end

/-- A package frames its count and its children. The count keeps its low byte. -/
theorem frames_package (x : Package) :
    Frames (dyn x) [packageOp] (raw [UInt8.ofNat x.children.length] :: x.children) id :=
  ⟨fun s => by simp [dyn, toAmlBytes]⟩

/-- A package that is built up frames its count and its data. -/
theorem frames_packageBuilder (x : PackageBuilder) :
    Frames (dyn x) [packageOp] [raw (UInt8.ofNat x.elements :: x.data)] id :=
  ⟨fun s => by simp [dyn, toAmlBytes, frame]⟩

/-- A package of variable size frames its size. -/
theorem frames_varPackageTerm (x : VarPackageTerm) : Frames (dyn x) [varPackageOp] [x.data] id :=
  ⟨fun s => by simp [dyn, toAmlBytes]⟩

/-- A device frames its path and its children. -/
theorem frames_device (x : Device) :
    Frames (dyn x) [extOpPrefix, deviceOp] (dyn x.path :: x.children) id :=
  ⟨fun s => by simp [dyn, toAmlBytes]⟩

/-- A scope frames its path and its children. -/
theorem frames_scope (x : Scope) : Frames (dyn x) [scopeOp] (dyn x.path :: x.children) id :=
  ⟨fun s => by simp [dyn, toAmlBytes]⟩

/-- A method frames its path, its flags and its children. -/
theorem frames_method (x : Method) :
    Frames (dyn x) [methodOp] (dyn x.path :: raw [x.flags] :: x.children) id :=
  ⟨fun s => by simp [dyn, toAmlBytes]⟩

/-- A field frames its path, its flags and its entries. -/
theorem frames_field (x : FieldObject) :
    Frames (dyn x) [extOpPrefix, fieldOp]
      [dyn x.path, raw (x.flags :: x.fields.flatMap FieldEntry.bytes)] id :=
  ⟨fun s => by simp [dyn, toAmlBytes, List.flatMap_def]⟩

/-- A power resource frames its name, its level, its order and its children. The
two bytes of its opcode are in the wrong order. -/
theorem frames_powerResource (x : PowerResource) :
    Frames (dyn x) [powerResourceOp, extOpPrefix]
      (dyn x.name :: raw (x.level :: toLeBytes x.order) :: x.children) id :=
  ⟨fun s => by simp [dyn, toAmlBytes]⟩

/-- An if frames its predicate and its children. -/
theorem frames_if (x : If) : Frames (dyn x) [ifOp] (x.predicate :: x.ifChildren) id :=
  ⟨fun s => by simp [dyn, toAmlBytes]⟩

/-- An else frames its body. -/
theorem frames_else (x : Else) : Frames (dyn x) [elseOp] x.body id :=
  ⟨fun s => by simp [dyn, toAmlBytes]⟩

/-- A while frames its predicate and its children. -/
theorem frames_while (x : While) : Frames (dyn x) [whileOp] (x.predicate :: x.whileChildren) id :=
  ⟨fun s => by simp [dyn, toAmlBytes]⟩

/-- A buffer of variable size frames its size. -/
theorem frames_bufferTerm (x : BufferTerm) : Frames (dyn x) [bufferOp] [x.data] id :=
  ⟨fun s => by simp [dyn, toAmlBytes]⟩

/-- A buffer frames its size and its bytes. -/
theorem frames_bufferData (x : BufferData) : Frames (dyn x) [bufferOp] [raw x.data] sizedContent :=
  ⟨fun s => by simp [dyn, toAmlBytes, usizeToAmlBytes_eq, sizedContent]⟩

/-- An identifier frames a buffer of its bytes. -/
theorem frames_uuid (x : Uuid) : Frames (dyn x) [bufferOp] [raw x.name.data] sizedContent :=
  ⟨fun s => (frames_bufferData x.name).emit_eq s⟩

/-- A resource template frames a buffer of its descriptors and the end tag. -/
theorem frames_resourceTemplate (x : ResourceTemplate) :
    Frames (dyn x) [bufferOp] x.children (fun bytes => sizedContent (templateContent bytes)) := by
  refine ⟨fun s => ?_⟩
  change (emitAll x.children ([] : Bytes) >>= _) = _
  cases emitAll x.children ([] : Bytes) with
  | error e => rfl
  | ok bytes =>
    simp [usizeToAmlBytes_eq, frame, sizedContent, templateContent, Nat.add_comm]

/-! ## Every object is uniform -/

/-- **The sink decides nothing**, for any object. -/
theorem uniform_of_isObject {x : DynAml} (h : IsObject x) : Uniform x := by
  induction h with
  | zero => exact .writes writes_zero
  | one => exact .writes writes_one
  | ones => exact .writes writes_ones
  | path p => exact uniform_path p
  | byte v => exact .writes (writes_u8 v)
  | word v => exact .writes (writes_u16 v)
  | dword v => exact .writes (writes_u32 v)
  | qword v => exact .writes (writes_u64 v)
  | usize n => exact .writes ⟨(writes_u64 (UInt64.ofNat n)).run⟩
  | name x => exact .writes (writes_name x)
  | eisaName x => exact .writes (writes_eisaName x)
  | string x => exact .writes (writes_string x)
  | descriptor d => exact uniform_descriptor d
  | gas x => exact .writes (writes_gas x)
  -- frames
  | package x => exact (frames_package x).uniform
  | packageBuilder x => exact (frames_packageBuilder x).uniform
  | varPackageTerm x => exact (frames_varPackageTerm x).uniform
  | resourceTemplate x => exact (frames_resourceTemplate x).uniform
  | device x => exact (frames_device x).uniform
  | scope x => exact (frames_scope x).uniform
  | method x => exact (frames_method x).uniform
  | field x => exact (frames_field x).uniform
  | powerResource x => exact (frames_powerResource x).uniform
  | ifObject x => exact (frames_if x).uniform
  | elseObject x => exact (frames_else x).uniform
  | whileObject x => exact (frames_while x).uniform
  | bufferTerm x => exact (frames_bufferTerm x).uniform
  | bufferData x => exact (frames_bufferData x).uniform
  | uuid x => exact (frames_uuid x).uniform
  -- sequences
  | opRegion x _ _ hoffset hlength =>
    refine .of_emitAll (l := [raw [extOpPrefix, opRegionOp], dyn x.path, raw [x.space.toByte],
      x.offset, x.length]) ?_ fun s => by simp [dyn, toAmlBytes]
    simp [Uniform.raw, uniform_path, hoffset, hlength]
  | @compare op x _ _ hleft hright =>
    refine .of_emitAll (l := [raw op.bytes, x.left, x.right]) ?_ fun s => ?_
    · simp [Uniform.raw, hleft, hright]
    · cases hop : op.invert <;> simp [dyn, toAmlBytes, CompareOp.bytes, hop]
  | @onObject op x _ ha =>
    refine .of_emitAll (l := [raw [op.opcode], x.a]) ?_ fun s => by simp [dyn, toAmlBytes]
    simp [Uniform.raw, ha]
  | @binary op x _ _ _ htarget ha hb =>
    refine .of_emitAll (l := [raw [op.opcode], x.a, x.b, x.target]) ?_
      fun s => by simp [dyn, toAmlBytes]
    simp [Uniform.raw, htarget, ha, hb]
  | @convert op x _ _ htarget ha =>
    refine .of_emitAll (l := [raw [op.opcode], x.a, x.target]) ?_
      fun s => by simp [dyn, toAmlBytes]
    simp [Uniform.raw, htarget, ha]
  | arg x =>
    by_cases h : x.index ≤ 6
    · exact .writes (writes_arg h)
    · exact .fails (e := .assertion) ⟨fun s => by simp [dyn, toAmlBytes, ensure_of_not h]⟩
  | localVar x =>
    by_cases h : x.index ≤ 7
    · exact .writes (writes_local h)
    · exact .fails (e := .assertion) ⟨fun s => by simp [dyn, toAmlBytes, ensure_of_not h]⟩
  | store x _ _ hname hvalue =>
    refine .of_emitAll (l := [raw [storeOp], x.value, x.name]) ?_
      fun s => by simp [dyn, toAmlBytes]
    simp [Uniform.raw, hname, hvalue]
  | mutex x =>
    refine .of_emitAll (l := [raw [extOpPrefix, mutexOp], dyn x.path, raw [x.syncLevel]]) ?_
      fun s => by simp [dyn, toAmlBytes]
    simp [Uniform.raw, uniform_path]
  | acquire x =>
    refine .of_emitAll (l := [raw [extOpPrefix, acquireOp], dyn x.mutex,
      raw (toLeBytes x.timeout)]) ?_ fun s => by simp [dyn, toAmlBytes, AmlSink.word]
    simp [Uniform.raw, uniform_path]
  | release x =>
    refine .of_emitAll (l := [raw [extOpPrefix, releaseOp], dyn x.mutex]) ?_
      fun s => by simp [dyn, toAmlBytes]
    simp [Uniform.raw, uniform_path]
  | notify x _ _ hobject hvalue =>
    refine .of_emitAll (l := [raw [notifyOp], x.object, x.value]) ?_
      fun s => by simp [dyn, toAmlBytes]
    simp [Uniform.raw, hobject, hvalue]
  | createField x _ _ _ _ hname hsource hindex hnum =>
    refine .of_emitAll (l := [raw [extOpPrefix, createFieldOp], x.source, x.bitIndex, x.bitNum,
      x.nameString]) ?_ fun s => by simp [dyn, toAmlBytes]
    simp [Uniform.raw, hname, hsource, hindex, hnum]
  | mid x _ _ _ _ hsource hindex hlength hresult =>
    refine .of_emitAll (l := [raw [midOp], x.source, x.index, x.length, x.result]) ?_
      fun s => by simp [dyn, toAmlBytes]
    simp [Uniform.raw, hsource, hindex, hlength, hresult]
  | methodCall x _ hargs =>
    refine .of_emitAll (l := dyn x.name :: x.args) ?_ fun s => by simp [dyn, toAmlBytes]
    exact List.forall_mem_cons.mpr ⟨uniform_path x.name, hargs⟩

end AcpiTables
