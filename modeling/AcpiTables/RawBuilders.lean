import AcpiTables.Objects

/-!
# The raw builders and the structured ones

A scope or a device can be built from the bytes of its children instead of the
children, and a package element by element. `builders_agree`: it makes no difference,
nor does it make one which of the sinks an object is written to.

The children are any objects, given by what they write (`Encodings`). Where one of
them panics so do all the builders, the one for packages at the element that is
added (`foldlM_addElement_eq`); and a path without a segment stops whatever it is
part of (`toAmlBytes_empty`).
-/

namespace AcpiTables

section

variable {path : Path} {children : List DynAml} {ws : List Bytes}

/-- The encodings of the children. -/
def Encodings (children : List DynAml) (ws : List Bytes) : Prop :=
  List.Forall₂ (fun child w => toAmlBytes child ([] : Bytes) = .ok w) children ws

/-- Children that have encodings write them one after the other. -/
theorem emitAll_of_encodings (hobjects : ∀ child ∈ children, IsObject child)
    (h : Encodings children ws) (s : Bytes) : emitAll children s = .ok (s ++ ws.flatten) := by
  induction h generalizing s with
  | nil => simp
  | @cons child w children ws hchild _ ih =>
    obtain ⟨hobject, hobjects⟩ := List.forall_mem_cons.mp hobjects
    have hrun : child.emit ([] : Bytes) = .ok w := hchild
    rw [emitAll_cons, (uniform_of_isObject hobject).emit_eq s, hrun, Checked.map_ok,
      Checked.ok_bind, ih hobjects]
    simp

/-- A path without a segment stops whatever it is part of. -/
theorem toAmlBytes_empty (hp : path.nameParts = []) (s : Bytes) :
    path.toAmlBytes s = .error (.explicit "Name cannot be empty") := by
  rw [Path.toAmlBytes, hp]
  rfl

/-- A path without parts is not written. -/
theorem dyn_empty (hp : path.nameParts = []) :
    (dyn path).emit ([] : Bytes) = .error (.explicit "Name cannot be empty") :=
  toAmlBytes_empty hp []

/-- A scope of raw bytes is the scope of the objects that wrote them. -/
theorem scopeRaw_eq (hobjects : ∀ child ∈ children, IsObject child)
    (h : Encodings children ws) :
    Scope.raw path ws.flatten = toAmlBytes (Scope.mk path children) ([] : Bytes) := by
  have hemit := (frames_scope ⟨path, children⟩).emit_eq ([] : Bytes)
  refine Eq.trans ?_ hemit.symm
  by_cases hp : path.nameParts = []
  · -- both stop at the name
    rw [emitAll_cons, dyn_empty hp, Scope.raw]
    change (path.toAmlBytes [scopeOp] >>= _) = _
    rw [toAmlBytes_empty hp]
    rfl
  · rw [Scope.raw_eq hp, emitAll_cons, (writes_path hp).runNil, Checked.ok_bind,
      emitAll_of_encodings hobjects h]
    rfl

/-- A device of raw bytes is the device of the objects that wrote them. -/
theorem deviceRaw_eq (hobjects : ∀ child ∈ children, IsObject child)
    (h : Encodings children ws) :
    Device.raw path ws.flatten = toAmlBytes (Device.mk path children) ([] : Bytes) := by
  have hemit := (frames_device ⟨path, children⟩).emit_eq ([] : Bytes)
  refine Eq.trans ?_ hemit.symm
  by_cases hp : path.nameParts = []
  · rw [emitAll_cons, dyn_empty hp, Device.raw]
    change (path.toAmlBytes [] >>= _) = _
    rw [toAmlBytes_empty hp]
    rfl
  · rw [Device.raw_eq hp, emitAll_cons, (writes_path hp).runNil, Checked.ok_bind,
      emitAll_of_encodings hobjects h]
    rfl

/-- The builder after the children, or the panic of the first one that panics. -/
theorem foldlM_addElement_eq (hobjects : ∀ child ∈ children, IsObject child)
    (builder : PackageBuilder) :
    children.foldlM PackageBuilder.addElement builder = (do
      let bytes ← emitAll children ([] : Bytes)
      return {
        data := builder.data ++ bytes
        elements := builder.elements + children.length }) := by
  induction children generalizing builder with
  | nil => simp
  | cons child children ih =>
    obtain ⟨hobject, hobjects⟩ := List.forall_mem_cons.mp hobjects
    have huniform := uniform_of_isObject hobject
    rw [List.foldlM_cons, PackageBuilder.addElement]
    change ((child.emit builder >>= _) >>= _) = _
    rw [huniform.emit_eq builder, emitAll_cons]
    cases hchild : child.emit ([] : Bytes) with
    | error e => rfl
    | ok w =>
      have htail := Uniform.emitAll_eq
        (fun y hy => uniform_of_isObject (hobjects y hy)) w
      simp only [Checked.map_ok, Checked.ok_bind, Checked.pure_eq, ih hobjects, htail]
      cases emitAll children ([] : Bytes) with
      | error e => rfl
      | ok v => simp [AmlSink.vec, Nat.add_assoc, Nat.add_comm 1]

end

/-- A package built element by element. -/
def buildPackageFrom (children : List DynAml) (sink : Bytes) : Checked Bytes := do
  let builder ← children.foldlM PackageBuilder.addElement PackageBuilder.new
  toAmlBytes builder sink

/-- A package from an iterator is the package of its elements. -/
theorem buildPackageFrom_eq {children : List DynAml} (hobjects : ∀ child ∈ children, IsObject child)
    (sink : Bytes) : buildPackageFrom children sink = toAmlBytes (Package.mk children) sink := by
  have hemit := (frames_package ⟨children⟩).emit_eq sink
  have hcontent : emitAll children (AmlSink.vec ([] : Bytes) [UInt8.ofNat children.length]) = _ :=
    Uniform.emitAll_eq (fun y hy => uniform_of_isObject (hobjects y hy)) _
  refine Eq.trans ?_ hemit.symm
  rw [buildPackageFrom, foldlM_addElement_eq hobjects, emitAll_cons, raw_emit, Checked.ok_bind,
    hcontent]
  cases emitAll children ([] : Bytes) with
  | error e => rfl
  | ok bytes =>
    have hbuilder := (frames_packageBuilder ⟨bytes, children.length⟩).emit_eq sink
    simp only [PackageBuilder.new, List.nil_append, Nat.zero_add, Checked.ok_bind,
      Checked.pure_eq, Checked.map_ok]
    exact hbuilder

/-- **The builders agree.** A raw scope or device of the encodings of its children is
the scope or device of the children; a package filled element by element is the package
of the elements; and no object depends on which of the sinks it is written to. -/
theorem builders_agree :
    (∀ (path : Path) (children : List DynAml) (ws : List Bytes),
      (∀ child ∈ children, IsObject child) → Encodings children ws →
        Scope.raw path ws.flatten = toAmlBytes (Scope.mk path children) ([] : Bytes) ∧
        Device.raw path ws.flatten = toAmlBytes (Device.mk path children) ([] : Bytes)) ∧
    (∀ (children : List DynAml) (sink : Bytes), (∀ child ∈ children, IsObject child) →
      buildPackageFrom children sink = toAmlBytes (Package.mk children) sink) ∧
    (∀ (x : DynAml) (builder : PackageBuilder) (buffer : Bytes), IsObject x →
      toAmlBytes x builder =
        (fun w => { builder with data := builder.data ++ w }) <$> toAmlBytes x ([] : Bytes) ∧
      toAmlBytes x buffer = (fun w => buffer ++ w) <$> toAmlBytes x ([] : Bytes)) := by
  refine ⟨fun path children ws hobjects hws => ?_, fun children sink hobjects => ?_,
    fun x builder buffer hx => ?_⟩
  · exact ⟨scopeRaw_eq hobjects hws, deviceRaw_eq hobjects hws⟩
  · exact buildPackageFrom_eq hobjects sink
  · have huniform := uniform_of_isObject hx
    exact ⟨huniform.emit_eq builder, huniform.emit_eq buffer⟩

theorem builders_agree_pair :
    Scope.raw ⟨true, [bstr "_SB_"]⟩ [0x00, 0x01] =
      toAmlBytes (Scope.mk ⟨true, [bstr "_SB_"]⟩ [dyn ZeroObject.zero, dyn OneObject.one])
        ([] : Bytes) ∧
    buildPackageFrom [dyn ZeroObject.zero] [] =
      toAmlBytes (Package.mk [dyn ZeroObject.zero]) ([] : Bytes) := by
  have hpair : ∀ child ∈ [dyn ZeroObject.zero, dyn OneObject.one], IsObject child :=
    List.forall_mem_cons.mpr ⟨.zero, List.forall_mem_singleton.mpr .one⟩
  have hws : Encodings [dyn ZeroObject.zero, dyn OneObject.one] [[0x00], [0x01]] :=
    .cons rfl (.cons rfl .nil)
  exact ⟨(builders_agree.1 ⟨true, [bstr "_SB_"]⟩ _ _ hpair hws).1,
    builders_agree.2.1 _ _ (List.forall_mem_singleton.mpr .zero)⟩

end AcpiTables
