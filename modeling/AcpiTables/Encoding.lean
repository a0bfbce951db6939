import AcpiTables.Aml

/-!
# What the objects write

An object's emission is a function of a sink. `Writes x w` says it is no more
than that: whatever lawful sink is handed over, the run returns and the sink has
received the bytes `w`. So a word determines the emission, into a `Vec`, into a
`PackageBuilder` and into the private buffer of an enclosing object alike.

There is one `Writes` lemma per object type, each from `Writes` facts about the
object's parts, and one word per object type, defined without monads and sinks:
`encodeInt`, `Path.encode`, `frame`, …. These are what the proofs about
bytecode are about.
-/

namespace AcpiTables

universe u

open MachineInt

/-! ## Lawful sinks -/

/-- A sink that only accumulates. -/
class LawfulAmlSink (S : Type) [AmlSink S] : Prop where
  byte_eq : ∀ (s : S) (b : UInt8), AmlSink.byte s b = AmlSink.vec s [b]
  vec_nil : ∀ s : S, AmlSink.vec s [] = s
  vec_vec : ∀ (s : S) (v w : Bytes), AmlSink.vec (AmlSink.vec s v) w = AmlSink.vec s (v ++ w)

/-- A vector of bytes takes a sequence as it takes its bytes one by one. -/
instance : LawfulAmlSink Bytes where
  byte_eq _ _ := rfl
  vec_nil := List.append_nil
  vec_vec := List.append_assoc

/-- The builder of a package keeps its bytes in a vector, so it does too. -/
instance : LawfulAmlSink PackageBuilder where
  byte_eq _ _ := rfl
  vec_nil builder := by
    cases builder
    simp [AmlSink.vec]
  vec_vec builder v w := by simp [AmlSink.vec]

/-- On a vector, what is written is appended. -/
@[simp] theorem vec_bytes (s w : Bytes) : AmlSink.vec s w = s ++ w := rfl

section Lawful

variable {S : Type} [AmlSink S] [LawfulAmlSink S]

/-- A byte is a sequence of one: all writing is brought to this form. -/
@[simp] theorem byte_eq_vec (s : S) (b : UInt8) : AmlSink.byte s b = AmlSink.vec s [b] :=
  LawfulAmlSink.byte_eq s b

@[simp] theorem vec_nil (s : S) : AmlSink.vec s [] = s := LawfulAmlSink.vec_nil s

/-- Two writes are one write of both sequences. -/
@[simp] theorem vec_vec (s : S) (v w : Bytes) :
    AmlSink.vec (AmlSink.vec s v) w = AmlSink.vec s (v ++ w) :=
  LawfulAmlSink.vec_vec s v w

/-- The default of `vec`, byte by byte, is `vec`. -/
@[simp] theorem foldl_byte (s : S) (v : Bytes) :
    v.foldl AmlSink.byte s = AmlSink.vec s v := by
  induction v generalizing s with
  | nil => rw [vec_nil]; rfl
  | cons b v ih => rw [List.foldl_cons, ih, byte_eq_vec, vec_vec, List.singleton_append]

/-- A loop that writes a word for each element writes the words one after the
other. -/
theorem foldl_vec {α : Type u} (f : α → Bytes) (l : List α) (s : S) :
    l.foldl (fun s x => AmlSink.vec s (f x)) s = AmlSink.vec s (l.flatMap f) := by
  induction l generalizing s with
  | nil => rw [List.flatMap_nil, vec_nil]; rfl
  | cons x l ih => rw [List.foldl_cons, ih, vec_vec, List.flatMap_cons]

end Lawful

/-- The object writes exactly `w`, to any lawful sink. -/
structure Writes (x : DynAml) (w : Bytes) : Prop where
  /-- the run returns, and the sink has received the word -/
  run : ∀ {S : Type} [AmlSink S] [LawfulAmlSink S] (s : S), x.emit s = .ok (AmlSink.vec s w)

namespace Writes

variable {x : DynAml} {w : Bytes}

/-- Into an empty buffer. -/
theorem runNil (h : Writes x w) : x.emit ([] : Bytes) = .ok w := h.run []

/-- An object writes one word. -/
theorem unique {v : Bytes} (h : Writes x w) (h' : Writes x v) : w = v :=
  Except.ok.inj (h.runNil.symm.trans h'.runNil)

end Writes

/-- Children write their words one after the other. -/
theorem emitAll_eq {α : Type u} {S : Type} [AmlSink S] [LawfulAmlSink S] {f : α → DynAml}
    {g : α → Bytes} {l : List α} (h : ∀ a ∈ l, Writes (f a) (g a)) (s : S) :
    emitAll (l.map f) s = .ok (AmlSink.vec s (l.flatMap g)) := by
  induction l generalizing s with
  | nil => simp [emitAll]
  | cons a l ih =>
    have ha : toAmlBytes (f a) s = .ok (AmlSink.vec s (g a)) :=
      (h a (List.mem_cons_self ..)).run s
    have ih' := ih (fun b hb => h b (List.mem_cons_of_mem _ hb)) (AmlSink.vec s (g a))
    simp only [emitAll] at ih' ⊢
    rw [List.map_cons, List.foldlM_cons, ha, Checked.ok_bind, ih', vec_vec, List.flatMap_cons]

/-! ## Leaves -/

theorem writes_zero : Writes (dyn ZeroObject.zero) [zeroOp] := ⟨fun s => by simp [dyn, toAmlBytes]⟩

theorem writes_one : Writes (dyn OneObject.one) [oneOp] := ⟨fun s => by simp [dyn, toAmlBytes]⟩

theorem writes_ones : Writes (dyn OnesObject.ones) [onesOp] := ⟨fun s => by simp [dyn, toAmlBytes]⟩

/-- The shortest integer encoding of `n`. -/
def encodeInt (n : ℕ) : Bytes :=
  if n = 0 then [zeroOp]
  else if n = 1 then [oneOp]
  else if n < 256 then bytePrefix :: leBytes 1 n
  else if n < 65536 then wordPrefix :: leBytes 2 n
  else if n < 4294967296 then dwordPrefix :: leBytes 4 n
  else qwordPrefix :: leBytes 8 n

/-- The bytes of an integer: its prefix, and its value in the width chosen for it. -/
def intLength (n : ℕ) : ℕ :=
  if n < 2 then 1 else if n < 256 then 2 else if n < 65536 then 3
  else if n < 4294967296 then 5 else 9

/-- **The length of an integer**, from which the bounds below are derived. -/
theorem length_encodeInt (n : ℕ) : (encodeInt n).length = intLength n := by
  unfold encodeInt intLength
  split_ifs <;> simp_all <;> omega

/-- No integer takes more than its prefix and eight bytes. -/
theorem length_encodeInt_le (n : ℕ) : (encodeInt n).length ≤ 9 := by
  rw [length_encodeInt, intLength]
  split_ifs <;> omega

/-- A larger integer is not shorter. -/
theorem length_encodeInt_mono {m n : ℕ} (h : m ≤ n) :
    (encodeInt m).length ≤ (encodeInt n).length := by
  rw [length_encodeInt, length_encodeInt, intLength, intLength]
  split_ifs <;> omega

/-- A byte, written by the width it needs. -/
theorem writes_u8 (v : UInt8) : Writes (dyn v) (encodeInt v.toNat) := by
  refine ⟨fun s => ?_⟩
  have hlt : v.toNat < 256 := v.toNat_lt
  by_cases h0 : v = 0
  · subst h0
    simp [dyn, toAmlBytes, encodeInt]
  by_cases h1 : v = 1
  · subst h1
    simp [dyn, toAmlBytes, encodeInt]
  · have hn0 : v.toNat ≠ 0 := fun h => h0 (UInt8.toNat_inj.mp h)
    have hn1 : v.toNat ≠ 1 := fun h => h1 (UInt8.toNat_inj.mp h)
    simp [dyn, toAmlBytes, encodeInt, h0, h1, hn0, hn1, hlt, leBytes]

/-- A number of 16 bits is written as a byte when it is one. -/
theorem writes_u16 (v : UInt16) : Writes (dyn v) (encodeInt v.toNat) := by
  refine ⟨fun s => ?_⟩
  by_cases h : v ≤ 0xff
  · have hn : v.toNat < 256 := by
      have : v.toNat ≤ 255 := UInt16.le_iff_toNat_le.mp h
      omega
    have hv : v.toUInt8.toNat = v.toNat := by simp [Nat.mod_eq_of_lt hn]
    have := (writes_u8 v.toUInt8).run s
    rw [hv] at this
    simpa [dyn, toAmlBytes, h] using this
  · have hn : ¬ v.toNat < 256 := by
      have : ¬ v.toNat ≤ 255 := fun h' => h (UInt16.le_iff_toNat_le.mpr h')
      omega
    have hlt : v.toNat < 65536 := v.toNat_lt
    have h0 : v.toNat ≠ 0 := by omega
    have h1 : v.toNat ≠ 1 := by omega
    simp [dyn, toAmlBytes, AmlSink.word, encodeInt, h, hn, hlt, h0, h1, toLeBytes, width,
      MachineInt.toNat]

/-- A number of 32 bits is written with as few bytes as a number of 16 bits that
equals it. -/
theorem writes_u32 (v : UInt32) : Writes (dyn v) (encodeInt v.toNat) := by
  refine ⟨fun s => ?_⟩
  by_cases h : v ≤ 0xffff
  · have hn : v.toNat < 65536 := by
      have : v.toNat ≤ 65535 := UInt32.le_iff_toNat_le.mp h
      omega
    have hv : v.toUInt16.toNat = v.toNat := by simp [Nat.mod_eq_of_lt hn]
    have := (writes_u16 v.toUInt16).run s
    rw [hv] at this
    simpa [dyn, toAmlBytes, h] using this
  · have hn : ¬ v.toNat < 65536 := by
      have : ¬ v.toNat ≤ 65535 := fun h' => h (UInt32.le_iff_toNat_le.mpr h')
      omega
    have hlt : v.toNat < 4294967296 := v.toNat_lt
    have h0 : v.toNat ≠ 0 := by omega
    have h1 : v.toNat ≠ 1 := by omega
    have h2 : ¬ v.toNat < 256 := by omega
    simp [dyn, toAmlBytes, AmlSink.dword, encodeInt, h, hn, hlt, h0, h1, h2, toLeBytes, width,
      MachineInt.toNat]

/-- A number of 64 bits, by the width it needs. -/
theorem writes_u64 (v : UInt64) : Writes (dyn v) (encodeInt v.toNat) := by
  refine ⟨fun s => ?_⟩
  by_cases h : v ≤ 0xffffffff
  · have hn : v.toNat < 4294967296 := by
      have : v.toNat ≤ 4294967295 := UInt64.le_iff_toNat_le.mp h
      omega
    have hv : v.toUInt32.toNat = v.toNat := by simp [Nat.mod_eq_of_lt hn]
    have := (writes_u32 v.toUInt32).run s
    rw [hv] at this
    simpa [dyn, toAmlBytes, h] using this
  · have hn : ¬ v.toNat < 4294967296 := by
      have : ¬ v.toNat ≤ 4294967295 := fun h' => h (UInt64.le_iff_toNat_le.mpr h')
      omega
    have h0 : v.toNat ≠ 0 := by omega
    have h1 : v.toNat ≠ 1 := by omega
    have h2 : ¬ v.toNat < 256 := by omega
    have h3 : ¬ v.toNat < 65536 := by omega
    simp [dyn, toAmlBytes, AmlSink.qword, encodeInt, h, hn, h0, h1, h2, h3, toLeBytes, width,
      MachineInt.toNat]

/-- A length is written as the 64-bit number it is. -/
theorem usizeToAmlBytes_eq (n : ℕ) (s : Bytes) :
    usizeToAmlBytes n s = .ok (s ++ encodeInt (n % 18446744073709551616)) := by
  have hn : (UInt64.ofNat n).toNat = n % 18446744073709551616 := by simp
  have := (writes_u64 (UInt64.ofNat n)).run s
  rwa [hn] at this

/-- The prefix that announces the number of segments. -/
def segCountPrefix : ℕ → Bytes
  | 0 | 1 => []
  | 2 => [dualNamePrefix]
  | n => [multiNamePrefix, UInt8.ofNat n]

/-- The word of a path: the root sign, the prefix for two or more segments, and the
segments. -/
def Path.encode (path : Path) : Bytes :=
  (if path.root then [0x5c] else []) ++ segCountPrefix path.nameParts.length ++
    path.nameParts.flatMap Vector.toList

/-- A path that has a segment is written as its word. Without one, the index of the
first segment panics. -/
theorem Path.toAmlBytes_eq {path : Path} (h : path.nameParts ≠ []) {S : Type} [AmlSink S]
    [LawfulAmlSink S] (s : S) : path.toAmlBytes s = .ok (AmlSink.vec s path.encode) := by
  have hlen : path.nameParts.length ≠ 0 := fun h' => h (List.eq_nil_of_length_eq_zero h')
  have hroot : (if path.root then AmlSink.byte s 0x5c else s) =
      AmlSink.vec s (if path.root then [0x5c] else []) := by
    cases path.root <;> simp
  simp only [Path.toAmlBytes, hroot, Path.encode]
  rcases hn : path.nameParts.length with _ | _ | _ | n
  · exact absurd hn hlen
  all_goals simp [segCountPrefix, foldl_vec]

/-- So a path that has a segment has a word, on every sink. -/
theorem writes_path {path : Path} (h : path.nameParts ≠ []) : Writes (dyn path) path.encode :=
  ⟨fun s => path.toAmlBytes_eq h s⟩

/-- An EISA id is written as the number it was packed to. -/
theorem writes_eisaName (name : EISAName) : Writes (dyn name) (encodeInt name.value.toNat) :=
  ⟨fun s => (writes_u32 name.value).run s⟩

/-- The word of a string: its operator, its bytes in UTF-8 and a zero byte. -/
def encodeString (v : String) : Bytes := stringOp :: asBytes v ++ [0x0]

/-- A string is written as its word. -/
theorem writes_string (v : String) : Writes (dyn v) (encodeString v) :=
  ⟨fun s => by simp [dyn, toAmlBytes, createAmlString, encodeString]⟩

/-- An argument is one byte, for the seven that there are. -/
theorem writes_arg {x : Arg} (h : x.index ≤ 6) : Writes (dyn x) [arg0Op + x.index] :=
  ⟨fun s => by simp [dyn, toAmlBytes, ensure_of h]⟩

/-- A local is one byte, for the eight that there are. -/
theorem writes_local {x : Local} (h : x.index ≤ 7) : Writes (dyn x) [local0Op + x.index] :=
  ⟨fun s => by simp [dyn, toAmlBytes, ensure_of h]⟩

/-! ## Framing -/

/-- Operator, package length, content. -/
def frame (op content : Bytes) : Bytes := op ++ createPkgLength content.length true ++ content

/-- What is framed is a single word: operator, package length, content. -/
@[simp] theorem emitFramed_eq {S : Type} [AmlSink S] [LawfulAmlSink S] (op bytes : Bytes) (s : S) :
    emitFramed op bytes s = AmlSink.vec s (frame op bytes) := by
  simp [emitFramed, frame]

/-- A package length has one to four bytes. -/
theorem length_createPkgLength (len : ℕ) (includeSelf : Bool) :
    1 ≤ (createPkgLength len includeSelf).length ∧
      (createPkgLength len includeSelf).length ≤ 4 := by
  unfold createPkgLength
  split_ifs <;> simp

/-- A frame is longer than its operator and its content: there is at least one byte
of length. -/
theorem length_frame (op content : Bytes) :
    op.length + 1 + content.length ≤ (frame op content).length := by
  have := (length_createPkgLength content.length true).1
  simp only [frame, List.length_append]
  omega

section Containers

variable {α : Type u} {f : α → DynAml} {g : α → Bytes} {l : List α}
variable {x y z t : DynAml} {wx wy wz wt : Bytes} {path : Path}

/-- A package: the number of its elements, cut to a byte, and the elements. -/
theorem writes_package (h : ∀ a ∈ l, Writes (f a) (g a)) :
    Writes (dyn (Package.mk (l.map f)))
      (frame [packageOp] (UInt8.ofNat l.length :: l.flatMap g)) :=
  ⟨fun s => by simp [dyn, toAmlBytes, emitAll_eq h]⟩

/-- The builder after elements have been added one by one. -/
theorem foldlM_addElement (h : ∀ a ∈ l, Writes (f a) (g a)) (builder : PackageBuilder) :
    (l.map f).foldlM PackageBuilder.addElement builder =
      .ok { data := builder.data ++ l.flatMap g, elements := builder.elements + l.length } := by
  induction l generalizing builder with
  | nil => simp
  | cons a l ih =>
    have hadd : builder.addElement (f a) =
        .ok { data := builder.data ++ g a, elements := builder.elements + 1 } := by
      have ha : toAmlBytes (f a) builder = .ok (AmlSink.vec builder (g a)) :=
        (h a (List.mem_cons_self ..)).run builder
      rw [PackageBuilder.addElement, ha]
      rfl
    rw [List.map_cons, List.foldlM_cons, hadd, Checked.ok_bind,
      ih fun b hb => h b (List.mem_cons_of_mem _ hb)]
    simp [List.append_assoc, Nat.add_assoc, Nat.add_comm 1]

/-- The builder of a package has counted its elements itself. -/
theorem writes_packageBuilder (builder : PackageBuilder) :
    Writes (dyn builder)
      (frame [packageOp] (UInt8.ofNat builder.elements :: builder.data)) :=
  ⟨fun s => by simp [dyn, toAmlBytes, frame]⟩

/-- A package of variable length: the term for the number of elements. -/
theorem writes_varPackageTerm (hx : Writes x wx) :
    Writes (dyn (VarPackageTerm.mk x)) (frame [varPackageOp] wx) :=
  ⟨fun s => by simp [dyn, toAmlBytes, hx.runNil]⟩

/-- A name definition is built when its parts are, and then written as it is. -/
theorem name_new_eq (hp : path.nameParts ≠ []) (hx : Writes x wx) :
    Name.new path x = .ok { bytes := nameOp :: path.encode ++ wx } := by
  simp [Name.new, toAmlBytes, path.toAmlBytes_eq hp, hx.run]

/-- A name holds the bytes that were written when it was made. -/
theorem writes_name (name : Name) : Writes (dyn name) name.bytes :=
  ⟨fun s => by simp [dyn, toAmlBytes]⟩

/-- A device: its path and its children, framed. -/
theorem writes_device (hp : path.nameParts ≠ []) (h : ∀ a ∈ l, Writes (f a) (g a)) :
    Writes (dyn (Device.mk path (l.map f)))
      (frame [extOpPrefix, deviceOp] (path.encode ++ l.flatMap g)) :=
  ⟨fun s => by simp [dyn, toAmlBytes, path.toAmlBytes_eq hp, emitAll_eq h]⟩

/-- A scope: its path and its children, framed. -/
theorem writes_scope (hp : path.nameParts ≠ []) (h : ∀ a ∈ l, Writes (f a) (g a)) :
    Writes (dyn (Scope.mk path (l.map f)))
      (frame [scopeOp] (path.encode ++ l.flatMap g)) :=
  ⟨fun s => by simp [dyn, toAmlBytes, path.toAmlBytes_eq hp, emitAll_eq h]⟩

/-- A method: its path, the byte of its flags and its children, framed. -/
theorem writes_method (args : UInt8) (serialized : Bool) (hp : path.nameParts ≠ [])
    (h : ∀ a ∈ l, Writes (f a) (g a)) :
    Writes (dyn (Method.new path args serialized (l.map f)))
      (frame [methodOp]
        (path.encode ++ (Method.new path args serialized []).flags :: l.flatMap g)) :=
  ⟨fun s => by
    simp [dyn, toAmlBytes, Method.new, Method.flags, path.toAmlBytes_eq hp, emitAll_eq h]⟩

/-- A power resource. The two bytes of its operator are exchanged: this is the
order of the source. -/
theorem writes_powerResource (level : UInt8) (order : UInt16) (hp : path.nameParts ≠ [])
    (h : ∀ a ∈ l, Writes (f a) (g a)) :
    Writes (dyn (PowerResource.mk path level order (l.map f)))
      (frame [powerResourceOp, extOpPrefix]
        (path.encode ++ level :: toLeBytes order ++ l.flatMap g)) :=
  ⟨fun s => by simp [dyn, toAmlBytes, path.toAmlBytes_eq hp, emitAll_eq h]⟩

/-- A field: the path of its region, its flags and its entries, framed. -/
theorem writes_field {field : FieldObject} (hp : field.path.nameParts ≠ []) :
    Writes (dyn field)
      (frame [extOpPrefix, fieldOp]
        (field.path.encode ++ field.flags :: field.fields.flatMap FieldEntry.bytes)) :=
  ⟨fun s => by simp [dyn, toAmlBytes, field.path.toAmlBytes_eq hp, List.flatMap_def]⟩

/-- An operation region is not framed: its offset and its length are terms that end
by themselves. -/
theorem writes_opRegion (space : OpRegionSpace) (hp : path.nameParts ≠ []) (hx : Writes x wx)
    (hy : Writes y wy) :
    Writes (dyn (OpRegion.mk path space x y))
      ([extOpPrefix, opRegionOp] ++ path.encode ++ space.toByte :: wx ++ wy) :=
  ⟨fun s => by simp [dyn, toAmlBytes, path.toAmlBytes_eq hp, hx.run, hy.run]⟩

/-- A condition: the predicate and the children, framed. -/
theorem writes_if (hx : Writes x wx) (h : ∀ a ∈ l, Writes (f a) (g a)) :
    Writes (dyn (If.mk x (l.map f))) (frame [ifOp] (wx ++ l.flatMap g)) :=
  ⟨fun s => by simp [dyn, toAmlBytes, hx.runNil, emitAll_eq h]⟩

/-- The other branch: the children, framed. -/
theorem writes_else (h : ∀ a ∈ l, Writes (f a) (g a)) :
    Writes (dyn (Else.mk (l.map f))) (frame [elseOp] (l.flatMap g)) :=
  ⟨fun s => by simp [dyn, toAmlBytes, emitAll_eq h]⟩

/-- A loop: the predicate and the children, framed. -/
theorem writes_while (hx : Writes x wx) (h : ∀ a ∈ l, Writes (f a) (g a)) :
    Writes (dyn (While.mk x (l.map f))) (frame [whileOp] (wx ++ l.flatMap g)) :=
  ⟨fun s => by simp [dyn, toAmlBytes, hx.runNil, emitAll_eq h]⟩

/-! ## Operators -/

/-- The operator bytes of a comparison. -/
def CompareOp.bytes (op : CompareOp) : Bytes :=
  if op.invert then [lnotOp, op.opcode] else [op.opcode]

/-- A comparison: one or two bytes of operator and the operands in order. -/
theorem writes_compare (op : CompareOp) (hx : Writes x wx) (hy : Writes y wy) :
    Writes (dyn (Compare.mk x y : Compare op)) (op.bytes ++ wx ++ wy) :=
  ⟨fun s => by
    cases hop : op.invert <;> simp [dyn, toAmlBytes, CompareOp.bytes, hop, hx.run, hy.run]⟩

/-- An operator on an object. -/
theorem writes_onObject (op : ObjectOp) (hx : Writes x wx) :
    Writes (dyn (OnObject.mk x : OnObject op)) (op.opcode :: wx) :=
  ⟨fun s => by simp [dyn, toAmlBytes, hx.run]⟩

/-- A binary operator: the operands, and then the target, which is the first field. -/
theorem writes_binary (op : BinaryOp) (hx : Writes x wx) (hy : Writes y wy) (hz : Writes z wz) :
    Writes (dyn (Binary.mk x y z : Binary op)) (op.opcode :: wy ++ wz ++ wx) :=
  ⟨fun s => by simp [dyn, toAmlBytes, hx.run, hy.run, hz.run]⟩

/-- A conversion: the operand, and then the target. -/
theorem writes_convert (op : ConvertOp) (hx : Writes x wx) (hy : Writes y wy) :
    Writes (dyn (Convert.mk x y : Convert op)) (op.opcode :: wy ++ wx) :=
  ⟨fun s => by simp [dyn, toAmlBytes, hx.run, hy.run]⟩

/-- A store: the value, and then the name. -/
theorem writes_store (hx : Writes x wx) (hy : Writes y wy) :
    Writes (dyn (Store.mk x y)) (storeOp :: wy ++ wx) :=
  ⟨fun s => by simp [dyn, toAmlBytes, hx.run, hy.run]⟩

/-- A mutex: its path and its level. -/
theorem writes_mutex (syncLevel : UInt8) (hp : path.nameParts ≠ []) :
    Writes (dyn (Mutex.mk path syncLevel)) ([extOpPrefix, mutexOp] ++ path.encode ++ [syncLevel]) :=
  ⟨fun s => by simp [dyn, toAmlBytes, path.toAmlBytes_eq hp]⟩

/-- An acquire: the path of the mutex and the timeout. -/
theorem writes_acquire (timeout : UInt16) (hp : path.nameParts ≠ []) :
    Writes (dyn (Acquire.mk path timeout))
      ([extOpPrefix, acquireOp] ++ path.encode ++ toLeBytes timeout) :=
  ⟨fun s => by simp [dyn, toAmlBytes, AmlSink.word, path.toAmlBytes_eq hp]⟩

/-- A release: the path of the mutex. -/
theorem writes_release (hp : path.nameParts ≠ []) :
    Writes (dyn (Release.mk path)) ([extOpPrefix, releaseOp] ++ path.encode) :=
  ⟨fun s => by simp [dyn, toAmlBytes, path.toAmlBytes_eq hp]⟩

/-- A notification: the object and the value. -/
theorem writes_notify (hx : Writes x wx) (hy : Writes y wy) :
    Writes (dyn (Notify.mk x y)) (notifyOp :: wx ++ wy) :=
  ⟨fun s => by simp [dyn, toAmlBytes, hx.run, hy.run]⟩

/-- A created field: the source, the two indices, and then the name, which is the
first field. -/
theorem writes_createField (hx : Writes x wx) (hy : Writes y wy) (hz : Writes z wz)
    (ht : Writes t wt) :
    Writes (dyn (CreateField.mk x y z t))
      ([extOpPrefix, createFieldOp] ++ wy ++ wz ++ wt ++ wx) :=
  ⟨fun s => by simp [dyn, toAmlBytes, hx.run, hy.run, hz.run, ht.run]⟩

/-- A part of a source: its four operands in order. -/
theorem writes_mid (hx : Writes x wx) (hy : Writes y wy) (hz : Writes z wz) (ht : Writes t wt) :
    Writes (dyn (Mid.mk x y z t)) (midOp :: wx ++ wy ++ wz ++ wt) :=
  ⟨fun s => by simp [dyn, toAmlBytes, hx.run, hy.run, hz.run, ht.run]⟩

/-! ## Buffers -/

/-- Buffer size, then content. -/
def sizedContent (data : Bytes) : Bytes :=
  encodeInt (data.length % 18446744073709551616) ++ data

/-- A buffer whose content is a term. -/
theorem writes_bufferTerm (hx : Writes x wx) :
    Writes (dyn (BufferTerm.mk x)) (frame [bufferOp] wx) :=
  ⟨fun s => by simp [dyn, toAmlBytes, hx.runNil]⟩

/-- A buffer of bytes: their number, and the bytes. -/
theorem writes_bufferData (data : Bytes) :
    Writes (dyn (BufferData.mk data)) (frame [bufferOp] (sizedContent data)) :=
  ⟨fun s => by simp [dyn, toAmlBytes, usizeToAmlBytes_eq, sizedContent]⟩

/-- A UUID is a buffer of its sixteen bytes. -/
theorem writes_uuid (uuid : Uuid) :
    Writes (dyn uuid) (frame [bufferOp] (sizedContent uuid.name.data)) :=
  ⟨fun s => (writes_bufferData uuid.name.data).run s⟩

/-- The content of a resource template: the descriptors and the end tag with its
zero checksum. -/
def templateContent (descriptors : Bytes) : Bytes := descriptors ++ [endTag, 0]

/-- A template: a buffer of its descriptors and the end tag. -/
theorem writes_resourceTemplate (h : ∀ a ∈ l, Writes (f a) (g a)) :
    Writes (dyn (ResourceTemplate.mk (l.map f)))
      (frame [bufferOp] (sizedContent (templateContent (l.flatMap g)))) := by
  have hcontent : l.flatMap g ++ [endTag] ++ [0] = templateContent (l.flatMap g) := by
    simp [templateContent]
  refine ⟨fun s => ?_⟩
  simp only [dyn, toAmlBytes, emitAll_eq h, vec_bytes, List.nil_append, Checked.ok_bind, hcontent,
    usizeToAmlBytes_eq]
  simp [frame, sizedContent, Nat.add_comm]

end Containers

/-! ## Raw containers -/

/-- `Device::raw` writes the device whose children wrote the raw bytes. -/
theorem Device.raw_eq {path : Path} (hp : path.nameParts ≠ []) (children : Bytes) :
    Device.raw path children = .ok (frame [extOpPrefix, deviceOp] (path.encode ++ children)) := by
  simp [Device.raw, toAmlBytes, path.toAmlBytes_eq hp, frame]

/-- `Scope::raw` moves and patches its buffer into the framed scope. -/
theorem Scope.raw_eq {path : Path} (hp : path.nameParts ≠ []) (children : Bytes) :
    Scope.raw path children = .ok (frame [scopeOp] (path.encode ++ children)) := by
  set body := path.encode ++ children with hbody
  set pkgLength := createPkgLength body.length true with hpkg
  have hstart : toAmlBytes path ([scopeOp] : Bytes) = .ok (scopeOp :: path.encode) :=
    path.toAmlBytes_eq hp [scopeOp]
  have hbytes : (scopeOp :: path.encode) ++ children = scopeOp :: body := by simp [hbody]
  simp only [Scope.raw, hstart, Checked.ok_bind, hbytes, List.length_cons,
    Nat.add_sub_cancel]
  have hcopy : copyWithin (scopeOp :: body ++ List.replicate pkgLength.length 0xff) 1
      (body.length + 1) (pkgLength.length + 1) =
      .ok ((scopeOp :: body ++ List.replicate pkgLength.length 0xff).take (pkgLength.length + 1)
        ++ body) := by
    have hslice : slice (scopeOp :: body ++ List.replicate pkgLength.length 0xff) 1 body.length =
        body := by
      simpa using slice_mid [scopeOp] body (List.replicate pkgLength.length 0xff)
    rw [copyWithin, Nat.add_sub_cancel, hslice, copyFromSlice_of_le rfl (by simp; omega), patch,
      List.drop_eq_nil_of_le (by simp; omega), List.append_nil]
  rw [← hpkg, hcopy, Checked.ok_bind]
  set front := (scopeOp :: body ++ List.replicate pkgLength.length 0xff).take
    (pkgLength.length + 1) with hfront
  have hfrontLen : front.length = pkgLength.length + 1 := by simp [hfront]
  rw [copyFromSlice_of_le (by omega) (by rw [List.length_append, hfrontLen]; omega), patch,
    frame, ← hpkg]
  have htake : (front ++ body).take 1 = [scopeOp] := by
    rw [List.take_append_of_le_length (by omega), hfront, List.take_take]
    simp
  have hdrop : (front ++ body).drop (1 + pkgLength.length) = body := by
    rw [Nat.add_comm, ← hfrontLen, List.drop_left]
  rw [htake, hdrop]

/-! ## Resource descriptors -/

/-- The objects a resource template lists. -/
inductive Descriptor where
  | memory32Fixed (memory : Memory32Fixed)
  | wordSpace (space : AddressSpace UInt16)
  | dwordSpace (space : AddressSpace UInt32)
  | qwordSpace (space : AddressSpace UInt64)
  | io (port : IOPort)
  | interrupt (irq : Interrupt)
  | register (reg : Register)

/-- The object of a descriptor. -/
def Descriptor.object : Descriptor → DynAml
  | memory32Fixed memory => dyn memory
  | wordSpace space => dyn space
  | dwordSpace space => dyn space
  | qwordSpace space => dyn space
  | io port => dyn port
  | interrupt irq => dyn irq
  | register reg => dyn reg

/-- The bounds of an address space are ordered and its length fits its type. -/
def AddressSpace.Fits {T : Type} [MachineInt T] (space : AddressSpace T) : Prop :=
  toNat space.min ≤ toNat space.max ∧ toNat space.max - toNat space.min + 1 < 256 ^ width T

/-- The word of an address space descriptor. -/
def AddressSpace.encode {T : Type} [MachineInt T] (descriptor : UInt8) (space : AddressSpace T) :
    Bytes :=
  descriptor :: leBytes 2 (3 + 5 * width T) ++ [space.type_.toByte, 0xc, space.typeFlags] ++
    toLeBytes (ofNat 0 : T) ++ toLeBytes space.min ++ toLeBytes space.max ++
    toLeBytes (space.translation.getD (ofNat 0)) ++
    leBytes (width T) (toNat space.max - toNat space.min + 1)

/-- An address space that fits is written: neither the difference nor the length
overflows. -/
theorem AddressSpace.emit_eq {T : Type} [MachineInt T] {space : AddressSpace T}
    (h : space.Fits) (hw : 3 + 5 * width T < 65536) (hone : 1 < 256 ^ width T)
    (descriptor : UInt8) {S : Type} [AmlSink S] [LawfulAmlSink S] (s : S) :
    space.emit descriptor s = .ok (AmlSink.vec s (space.encode descriptor)) := by
  obtain ⟨hle, hlt⟩ := h
  have hsub : checkedSub space.max space.min = .ok (ofNat (toNat space.max - toNat space.min)) :=
    if_pos hle
  have hdiff : toNat (ofNat (toNat space.max - toNat space.min) : T) =
      toNat space.max - toNat space.min := by
    rw [toNat_ofNat, Nat.mod_eq_of_lt (by omega)]
  have h1 : toNat (ofNat 1 : T) = 1 := by rw [toNat_ofNat, Nat.mod_eq_of_lt hone]
  have hadd : checkedAdd (ofNat (toNat space.max - toNat space.min) : T) (ofNat 1) =
      .ok (ofNat (toNat space.max - toNat space.min + 1)) := by
    rw [checkedAdd, hdiff, h1, fit_of_lt hlt]
  have hlen : toLeBytes (UInt16.ofNat (3 + 5 * width T)) = leBytes 2 (3 + 5 * width T) := by
    rw [toLeBytes]
    congr 1
    change (UInt16.ofNat (3 + 5 * width T)).toNat = 3 + 5 * width T
    simpa using hw
  have hlast : toLeBytes (ofNat (toNat space.max - toNat space.min + 1) : T) =
      leBytes (width T) (toNat space.max - toNat space.min + 1) := by
    rw [toLeBytes, toNat_ofNat, Nat.mod_eq_of_lt hlt]
  have hflags : ((1 : UInt8) <<< 2) ||| ((1 : UInt8) <<< 3) = 0xc := by decide
  simp only [AddressSpace.emit, AddressSpace.pushHeader, hlen, hflags, hsub, hadd,
    Checked.ok_bind]
  simp [hlast, AddressSpace.encode]

/-- A descriptor that is written fits. -/
theorem AddressSpace.fits_of_emit {T : Type} [MachineInt T] {space : AddressSpace T}
    (hone : 1 < 256 ^ width T) {descriptor : UInt8} {S : Type} [AmlSink S] {s s' : S}
    (h : space.emit descriptor s = .ok s') : space.Fits := by
  obtain ⟨diff, hsub, h⟩ := Checked.bind_eq_ok.mp h
  obtain ⟨len, hadd, -⟩ := Checked.bind_eq_ok.mp h
  unfold checkedSub at hsub
  split at hsub
  · next hle =>
    obtain rfl := Except.ok.inj hsub
    have hmin := toNat_lt space.max
    have hlen := checkedAdd_eq_ok hadd
    have hlt := toNat_lt len
    rw [toNat_ofNat, toNat_ofNat, Nat.mod_eq_of_lt (by omega), Nat.mod_eq_of_lt hone] at hlen
    exact ⟨hle, by omega⟩
  · cases hsub

/-- The flags of an interrupt, in the bits that the descriptor has for them. -/
def Interrupt.flags (irq : Interrupt) : UInt8 :=
  (irq.shared.toUInt8 <<< 3) ||| (irq.activeLow.toUInt8 <<< 2) |||
    (irq.edgeTriggered.toUInt8 <<< 1) ||| irq.consumer.toUInt8

/-- The twelve bytes of a generic address. -/
def GAS.encode (gas : GAS) : Bytes :=
  [gas.addressSpaceId.toByte, gas.registerBitWidth, gas.registerBitOffset,
    gas.accessSize.toByte] ++ toLeBytes gas.address

namespace Descriptor

/-- No arithmetic of the descriptor overflows. -/
def Fits : Descriptor → Prop
  | wordSpace space => space.Fits
  | dwordSpace space => space.Fits
  | qwordSpace space => space.Fits
  | memory32Fixed _ | io _ | interrupt _ | register _ => True

/-- The word of a descriptor. A register has a length that is not that of its
bytes: this is what the source writes. -/
def encode : Descriptor → Bytes
  | memory32Fixed memory =>
    [memory32FixedDesc, 9, 0, memory.readWrite.toUInt8] ++ toLeBytes memory.base ++
      toLeBytes memory.length
  | wordSpace space => space.encode wordAddrSpaceDesc
  | dwordSpace space => space.encode dwordAddrSpaceDesc
  | qwordSpace space => space.encode qwordAddrSpaceDesc
  | io port =>
    [ioPortDesc, 1] ++ toLeBytes port.min ++ toLeBytes port.max ++ [port.alignment, port.length]
  | interrupt irq => [extIrqDesc, 6, 0, irq.flags, 1] ++ toLeBytes irq.number
  | register reg => [regDesc, 0x12, 0] ++ reg.reg.encode

/-- Only address spaces have a condition, and it can be decided. -/
instance : DecidablePred Fits
  | wordSpace _ | dwordSpace _ | qwordSpace _ => inferInstanceAs (Decidable (_ ∧ _))
  | memory32Fixed _ | io _ | interrupt _ | register _ => inferInstanceAs (Decidable True)

/-- Of a descriptor that was written the length has fit. -/
theorem fits_of_emit {d : Descriptor} {S : Type} [AmlSink S] {s s' : S}
    (h : d.object.emit s = .ok s') : d.Fits := by
  cases d with
  | wordSpace space => exact AddressSpace.fits_of_emit (by decide) h
  | dwordSpace space => exact AddressSpace.fits_of_emit (by decide) h
  | qwordSpace space => exact AddressSpace.fits_of_emit (by decide) h
  | memory32Fixed _ | io _ | interrupt _ | register _ => trivial

/-- A descriptor that fits has its word. -/
theorem writes {d : Descriptor} (h : d.Fits) : Writes d.object d.encode := by
  cases d with
  | memory32Fixed memory =>
    have h9 : toLeBytes (9 : UInt16) = [9, 0] := by decide
    exact ⟨fun s => by simp [object, dyn, toAmlBytes, AmlSink.dword, encode, h9]⟩
  | wordSpace space => exact ⟨fun s => space.emit_eq h (by decide) (by decide) _ s⟩
  | dwordSpace space => exact ⟨fun s => space.emit_eq h (by decide) (by decide) _ s⟩
  | qwordSpace space => exact ⟨fun s => space.emit_eq h (by decide) (by decide) _ s⟩
  | io port => exact ⟨fun s => by simp [object, dyn, toAmlBytes, AmlSink.word, encode]⟩
  | interrupt irq =>
    have h6 : toLeBytes (6 : UInt16) = [6, 0] := by decide
    exact ⟨fun s => by
      simp [object, dyn, toAmlBytes, AmlSink.word, AmlSink.dword, encode, h6, Interrupt.flags]⟩
  | register reg =>
    have h12 : toLeBytes (0x12 : UInt16) = [0x12, 0] := by decide
    exact ⟨fun s => by
      simp [object, dyn, toAmlBytes, AmlSink.word, AmlSink.qword, encode, h12, GAS.encode]⟩

end Descriptor

end AcpiTables
