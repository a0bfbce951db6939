import AcpiTables.AmlReference
import AcpiTables.RawBuilders
import AcpiTables.RoundTrip

/-!
# Counts and lengths of framed objects

What an object says of itself in front of its content: the length of its frame, the
number of its elements, the bits of its fields. Each is a number of a limited width
that a larger value is cut to, and nothing refuses a larger value. `truthful_iff`:
what an object says is true exactly when its values fit.

All the objects that are written in a frame are one type, `FramedObject`, and each
is a frame around a content (`emit_eq`). So lengths are dealt with once
(`truthful_frame_iff`), the counts where they stand in front of their elements
(`head_counted`), and the bits entry by entry of a field list (`each_reader_iff`).
-/

namespace AcpiTables

open Reader MachineInt

/-- The objects that are written in a frame. -/
inductive FramedObject where
  | package (x : Package)
  /-- a builder to which the elements are added one by one -/
  | packageBuilder (elements : List DynAml)
  | varPackageTerm (x : VarPackageTerm)
  | device (x : Device)
  | scope (x : Scope)
  | method (x : Method)
  | powerResource (x : PowerResource)
  | field (x : FieldObject)
  | ifObject (x : If)
  | elseObject (x : Else)
  | whileObject (x : While)
  | bufferTerm (x : BufferTerm)
  | bufferData (x : BufferData)
  | uuid (x : Uuid)
  | resourceTemplate (x : ResourceTemplate)

namespace FramedObject

/-- What is written to an empty buffer. -/
def emit : FramedObject → Checked Bytes
  | package x => toAmlBytes x []
  | packageBuilder elements => buildPackageFrom elements []
  | varPackageTerm x => toAmlBytes x []
  | device x => toAmlBytes x []
  | scope x => toAmlBytes x []
  | method x => toAmlBytes x []
  | powerResource x => toAmlBytes x []
  | field x => toAmlBytes x []
  | ifObject x => toAmlBytes x []
  | elseObject x => toAmlBytes x []
  | whileObject x => toAmlBytes x []
  | bufferTerm x => toAmlBytes x []
  | bufferData x => toAmlBytes x []
  | uuid x => toAmlBytes x []
  | resourceTemplate x => toAmlBytes x []

/-- The operator in front of the length. -/
def op : FramedObject → Bytes
  | package _ | packageBuilder _ => [packageOp]
  | varPackageTerm _ => [varPackageOp]
  | device _ => [extOpPrefix, deviceOp]
  | scope _ => [scopeOp]
  | method _ => [methodOp]
  | powerResource _ => [powerResourceOp, extOpPrefix]
  | field _ => [extOpPrefix, fieldOp]
  | ifObject _ => [ifOp]
  | elseObject _ => [elseOp]
  | whileObject _ => [whileOp]
  | bufferTerm _ | bufferData _ | uuid _ | resourceTemplate _ => [bufferOp]

/-- What the content is written from. -/
def parts : FramedObject → List DynAml
  | package x => raw [UInt8.ofNat x.children.length] :: x.children
  | packageBuilder elements => raw [UInt8.ofNat elements.length] :: elements
  | varPackageTerm x => [x.data]
  | device x => dyn x.path :: x.children
  | scope x => dyn x.path :: x.children
  | method x => dyn x.path :: raw [x.flags] :: x.children
  | powerResource x => dyn x.name :: raw (x.level :: toLeBytes x.order) :: x.children
  | field x => [dyn x.path, raw (x.flags :: x.fields.flatMap FieldEntry.bytes)]
  | ifObject x => x.predicate :: x.ifChildren
  | elseObject x => x.body
  | whileObject x => x.predicate :: x.whileChildren
  | bufferTerm x => [x.data]
  | bufferData x => [raw x.data]
  | uuid x => [raw x.name.data]
  | resourceTemplate x => x.children

/-- The content that is made of it. -/
def content : FramedObject → Bytes → Bytes
  | bufferData _ | uuid _ => sizedContent
  | resourceTemplate _ => fun bytes => sizedContent (templateContent bytes)
  | _ => id

/-- The elements that are counted. -/
def elements : FramedObject → Option (List DynAml)
  | package x => some x.children
  | packageBuilder elements => some elements
  | _ => none

/-- The field list. -/
def fields : FramedObject → Option FieldObject
  | field x => some x
  | _ => none

/-- A framed object writes the frame of its content. -/
theorem emit_eq (x : FramedObject) (helements : ∀ l, x.elements = some l → ∀ c ∈ l, IsObject c) :
    x.emit = (do
      let bytes ← emitAll x.parts ([] : Bytes)
      return frame x.op (x.content bytes)) := by
  cases x with
  | package x => exact (frames_package x).emit_eq []
  | packageBuilder elements =>
    exact (buildPackageFrom_eq (helements elements rfl) []).trans
      ((frames_package ⟨elements⟩).emit_eq [])
  | varPackageTerm x => exact (frames_varPackageTerm x).emit_eq []
  | device x => exact (frames_device x).emit_eq []
  | scope x => exact (frames_scope x).emit_eq []
  | method x => exact (frames_method x).emit_eq []
  | powerResource x => exact (frames_powerResource x).emit_eq []
  | field x => exact (frames_field x).emit_eq []
  | ifObject x => exact (frames_if x).emit_eq []
  | elseObject x => exact (frames_else x).emit_eq []
  | whileObject x => exact (frames_while x).emit_eq []
  | bufferTerm x => exact (frames_bufferTerm x).emit_eq []
  | bufferData x => exact (frames_bufferData x).emit_eq []
  | uuid x => exact (frames_uuid x).emit_eq []
  | resourceTemplate x => exact (frames_resourceTemplate x).emit_eq []

end FramedObject

/-! ## What is said and what is true -/

/-- The length behind an operator, and the content behind the length. -/
def readFrame (op w : Bytes) : Option (ℕ × Bytes) :=
  if op.isPrefixOf w then (pkgLength (w.drop op.length)).map fun x => (x.1.1, x.2) else none

/-- The length counts itself: it goes from its first byte to the end of the frame, if
that is below `2 ^ 28`. -/
theorem readFrame_frame (op content : Bytes) :
    readFrame op (frame op content) =
      some ((content.length + pkgWidth content.length) % 268435456, content) := by
  have hprefix : op.isPrefixOf (frame op content) = true := by
    rw [List.isPrefixOf_iff_prefix, frame, List.append_assoc]
    exact List.prefix_append ..
  rw [readFrame, if_pos hprefix, frame, List.append_assoc, List.drop_left,
    pkgLength_createPkgLength]
  rfl

/-- What follows the opcode of a frame: the package length and the content. -/
theorem length_frame_eq (op content : Bytes) :
    (frame op content).length - op.length = content.length + pkgWidth content.length := by
  rw [frame, List.length_append, List.length_append, length_createPkgLength_eq]
  omega

namespace FieldEntry

/-- What is in front of the bits. -/
def nameBytes : FieldEntry → Bytes
  | named name _ => name.toList
  | reserved _ => [0x00]

/-- Read an entry of a known kind: what is in front, and the bits. -/
def reader (e : FieldEntry) : Reader UInt8 (Bytes × ℕ) :=
  seq (take e.nameBytes.length) pkgValue

/-- A field entry is read back by its own reader when its length fits. -/
theorem settles_reader (e : FieldEntry) :
    Settles e.reader e.bytes (e.nameBytes, e.bits) (e.bits < 268435456) := by
  have hbytes : e.nameBytes ++ createPkgLength e.bits false = e.bytes := by
    cases e <;> rfl
  exact ((settles_take rfl).seq (settles_pkgValue e.bits)).cast hbytes (by simp)

/-- A field list is read back as long as each of its entries is. -/
theorem each_reader_iff (es : List FieldEntry) :
    each reader es (es.flatMap bytes) = some (es.map fun e => (e.nameBytes, e.bits), []) ↔
      ∀ e ∈ es, e.bits < 268435456 := by
  have hall := settles_each (f := reader) (k := id) es fun e _ => settles_reader e
  rw [List.map_id] at hall
  constructor
  · intro hread
    by_contra hbits
    rw [← List.append_nil (es.flatMap bytes)] at hread
    exact hall.misses hbits [] [] hread
  · intro hbits
    have hread := hall.reads hbits []
    rwa [List.append_nil] at hread

end FieldEntry

/-- What an object says of itself is so. -/
structure Truthful (x : FramedObject) (w : Bytes) : Prop where
  /-- the length goes from its first byte to the end -/
  length_eq : ∃ content, readFrame x.op w = some (w.length - x.op.length, content)
  /-- the first byte of the content is the number of elements -/
  elements_eq : ∀ l, x.elements = some l →
    ∃ n content, readFrame x.op w = some (n, content) ∧
      content.head?.map UInt8.toNat = some l.length
  /-- the field list, behind the name and the flags, has the bits of its entries -/
  bits_eq : ∀ f, x.fields = some f →
    ∃ n content, readFrame x.op w = some (n, content) ∧
      each FieldEntry.reader f.fields (content.drop (f.path.encode.length + 1)) =
        some (f.fields.map fun e => (e.nameBytes, e.bits), [])

namespace FramedObject

/-- The number of bytes that the parts make. -/
def contentLength (x : FramedObject) : ℕ :=
  match emitAll x.parts ([] : Bytes) with
  | .ok bytes => (x.content bytes).length
  | .error _ => 0

/-- The values fit: at most 255 elements, contents below `2 ^ 28` with the length
itself, bits below `2 ^ 28`. -/
structure Expressible (x : FramedObject) : Prop where
  elements_le : ∀ l, x.elements = some l → l.length ≤ 255
  length_lt : x.contentLength < 268435452
  bits_lt : ∀ f, x.fields = some f → ∀ e ∈ f.fields, e.bits < 268435456

variable {x : FramedObject} {bytes : Bytes}

/-- Elements behind a count are written behind it. -/
theorem head_counted {l : List DynAml} (hobjects : ∀ c ∈ l, IsObject c) {count : UInt8}
    (h : emitAll (raw [count] :: l) ([] : Bytes) = .ok bytes) : bytes.head? = some count := by
  rw [emitAll_cons, raw_emit, Checked.ok_bind,
    Uniform.emitAll_eq fun y hy => uniform_of_isObject (hobjects y hy)] at h
  cases hrest : emitAll l ([] : Bytes) with
  | error e =>
    rw [hrest] at h
    cases h
  | ok rest =>
    rw [hrest] at h
    obtain rfl := Except.ok.inj h
    rfl

/-- The content of a package starts with its count. -/
theorem head_content (helements : ∀ l, x.elements = some l → ∀ c ∈ l, IsObject c)
    (hparts : emitAll x.parts ([] : Bytes) = .ok bytes) {l : List DynAml}
    (hl : x.elements = some l) :
    (x.content bytes).head? = some (UInt8.ofNat l.length) := by
  cases x with
  | package x =>
    obtain rfl : x.children = l := Option.some.inj hl
    exact head_counted (helements _ rfl) hparts
  | packageBuilder elements =>
    obtain rfl : elements = l := Option.some.inj hl
    exact head_counted (helements _ rfl) hparts
  | _ => cases hl

/-- The content of a field object: its path, its flags and its entries. -/
theorem content_field {f : FieldObject} (hparts : emitAll x.parts ([] : Bytes) = .ok bytes)
    (hf : x.fields = some f) :
    x.content bytes = f.path.encode ++ f.flags :: f.fields.flatMap FieldEntry.bytes := by
  cases x with
  | field x =>
    obtain rfl : x = f := Option.some.inj hf
    change emitAll [dyn x.path, raw (x.flags :: x.fields.flatMap FieldEntry.bytes)] _ = _ at hparts
    rw [emitAll_cons] at hparts
    obtain ⟨name, hname, hrest⟩ := Checked.bind_eq_ok.mp hparts
    obtain ⟨-, rfl⟩ := Path.encode_of_toAmlBytes hname
    exact (Except.ok.inj hrest).symm
  | _ => cases hf

/-- The fields of a frame tell the truth exactly when the object is expressible. -/
theorem truthful_frame_iff (helements : ∀ l, x.elements = some l → ∀ c ∈ l, IsObject c)
    (hparts : emitAll x.parts ([] : Bytes) = .ok bytes) :
    Truthful x (frame x.op (x.content bytes)) ↔ x.Expressible := by
  have hlength : x.contentLength = (x.content bytes).length := by
    rw [contentLength, hparts]
  have hread := readFrame_frame x.op (x.content bytes)
  constructor
  · rintro ⟨⟨content, hcontent⟩, hcount, hbits⟩
    refine ⟨fun l hl => ?_, ?_, fun f hf => ?_⟩
    -- what is read was written, the count modulo 2 ^ 8 and the length modulo 2 ^ 28
    · obtain ⟨n, content, hcontent, hhead⟩ := hcount l hl
      rw [hread] at hcontent
      obtain ⟨-, rfl⟩ := Prod.mk.inj (Option.some.inj hcontent)
      rw [head_content helements hparts hl, Option.map_some, Option.some.injEq,
        UInt8.toNat_ofNat'] at hhead
      omega
    · rw [hread, length_frame_eq] at hcontent
      have hvalue := (Prod.mk.inj (Option.some.inj hcontent)).1
      rw [hlength, ← add_pkgWidth_lt_iff]
      omega
    · obtain ⟨n, content, hcontent, heach⟩ := hbits f hf
      rw [hread] at hcontent
      obtain ⟨-, rfl⟩ := Prod.mk.inj (Option.some.inj hcontent)
      rw [content_field hparts hf, ← List.drop_drop, List.drop_left, List.drop_one,
        List.tail_cons] at heach
      exact (FieldEntry.each_reader_iff f.fields).mp heach
  · rintro ⟨hcount, hsize, hbits⟩
    refine ⟨⟨x.content bytes, ?_⟩, fun l hl => ⟨_, _, hread, ?_⟩,
      fun f hf => ⟨_, _, hread, ?_⟩⟩
    · rw [hlength, ← add_pkgWidth_lt_iff] at hsize
      rw [hread, length_frame_eq, Nat.mod_eq_of_lt hsize]
    · have hle := hcount l hl
      rw [head_content helements hparts hl, Option.map_some, UInt8.toNat_ofNat',
        Nat.mod_eq_of_lt (by omega)]
    · rw [content_field hparts hf, ← List.drop_drop, List.drop_left, List.drop_one,
        List.tail_cons]
      exact (FieldEntry.each_reader_iff f.fields).mpr (hbits f hf)

end FramedObject

/-- **Counts and lengths are true exactly when they fit.** An object that is written
says its own length, the number of its elements and the bits of its fields when these
are below the limits of the format, and something else when one of them is not. -/
theorem truthful_iff {x : FramedObject} {w : Bytes} (h : x.emit = .ok w)
    (helements : ∀ l, x.elements = some l → ∀ c ∈ l, IsObject c) :
    Truthful x w ↔ x.Expressible := by
  rw [x.emit_eq helements] at h
  obtain ⟨bytes, hparts, h⟩ := Checked.bind_eq_ok.mp h
  obtain rfl := Except.ok.inj h
  exact FramedObject.truthful_frame_iff helements hparts

theorem truthful_iff_pair :
    Truthful (.package ⟨[dyn ZeroObject.zero, dyn OneObject.one]⟩)
      [0x12, 0x04, 0x02, 0x00, 0x01] := by
  have hobjects : ∀ l, (FramedObject.package ⟨[dyn ZeroObject.zero, dyn OneObject.one]⟩).elements =
      some l → ∀ c ∈ l, IsObject c := by
    intro l hl
    obtain rfl := Option.some.inj hl
    exact List.forall_mem_cons.mpr ⟨.zero, List.forall_mem_singleton.mpr .one⟩
  refine (truthful_iff rfl hobjects).mpr ⟨fun l hl => ?_, by decide, fun f hf => ?_⟩
  · obtain rfl := Option.some.inj hl
    decide
  · cases hf

/-- 256 elements are counted as none, and a run of `2 ^ 28` bits has no bit. -/
theorem wrapped_not_truthful :
    (∃ w, (FramedObject.package ⟨List.replicate 256 (dyn ZeroObject.zero)⟩).emit = .ok w ∧
      ¬ Truthful (.package ⟨List.replicate 256 (dyn ZeroObject.zero)⟩) w) ∧
    (∃ w, (FramedObject.field ⟨⟨false, [bstr "PCI0"]⟩, [.reserved 268435456], .any, .noLock,
        .preserve⟩).emit = .ok w ∧
      ¬ Truthful (.field ⟨⟨false, [bstr "PCI0"]⟩, [.reserved 268435456], .any, .noLock,
        .preserve⟩) w) := by
  constructor
  · have hzero : ∀ c ∈ List.replicate 256 (dyn ZeroObject.zero), Writes (id c) [zeroOp] := by
      intro c hc
      rw [List.eq_of_mem_replicate hc]
      exact writes_zero
    have hwrites := writes_package hzero
    rw [List.map_id] at hwrites
    refine ⟨_, hwrites.runNil, fun h => ?_⟩
    obtain ⟨n, content, hcontent, hhead⟩ := h.elements_eq _ rfl
    have hframe := (readFrame_frame [packageOp] _).symm.trans hcontent
    obtain ⟨-, rfl⟩ := Prod.mk.inj (Option.some.inj hframe)
    rw [List.length_replicate, List.head?_cons, Option.map_some] at hhead
    exact absurd (Option.some.inj hhead) (by decide)
  · have hwrites := @writes_field ⟨⟨false, [bstr "PCI0"]⟩, [.reserved 268435456], .any, .noLock,
      .preserve⟩ (List.cons_ne_nil _ _)
    refine ⟨_, hwrites.runNil, fun h => ?_⟩
    obtain ⟨n, content, hcontent, hread⟩ := h.bits_eq _ rfl
    have hframe := (readFrame_frame [extOpPrefix, fieldOp] _).symm.trans hcontent
    obtain ⟨-, rfl⟩ := Prod.mk.inj (Option.some.inj hframe)
    have hbits := (FieldEntry.each_reader_iff [.reserved 268435456]).mp hread
    exact absurd (hbits _ (List.mem_singleton_self _)) (by decide)

end AcpiTables
