import AcpiTables.AmlTree
import AcpiTables.Lexical

/-!
# The round trip of term trees

A tree stands for a term of the grammar, `toTerm`; the grammar's reader, run on
the word the tree writes, should give that term back. `settles` says when it
does: exactly when the tree is `CleanHere` at every node. Three kinds of node are
not:

* a power resource, whose two encoding bytes are written in the wrong order —
  what the reader finds is a `ConcatRes`;
* a field with an entry of `2 ^ 28` bits or more, which a package length does
  not hold;
* a method with more arguments than the three bits for their number hold.

The proof is an induction over trees with one case for each constructor. The
word of a node is its encoding and a list of `Piece`s, each of which settles by
itself; the node settles as its pieces do.
-/

namespace AcpiTables

open Reader

/-! ## Terms of trees -/

/-- The production that reads a comparison back. Three of them are read as
negations. -/
def CompareOp.production : CompareOp → Production
  | equal => .lEqual
  | lessThan => .lLess
  | greaterThan => .lGreater
  | notEqual => .lNotEqual
  | greaterEqual => .lGreaterEqual
  | lessEqual => .lLessEqual

/-- The production that reads an operator on an object back. -/
def ObjectOp.production : ObjectOp → Production
  | objectType => .objectType
  | sizeOf => .sizeOf
  | return_ => .return_
  | deRefOf => .derefOf

/-- The production that reads an operator with a destination back. -/
def BinaryOp.production : BinaryOp → Production
  | add => .add
  | concat => .concat
  | subtract => .subtract
  | multiply => .multiply
  | shiftLeft => .shiftLeft
  | shiftRight => .shiftRight
  | and => .and
  | nand => .nand
  | or => .or
  | nor => .nor
  | xor => .xor
  | concatRes => .concatRes
  | mod => .mod
  | index => .index
  | toString => .toString
  | createDWordField => .createDWordField
  | createQWordField => .createQWordField

/-- The production that reads a conversion back. -/
def ConvertOp.production : ConvertOp → Production
  | toBuffer => .toBuffer
  | toInteger => .toInteger

namespace FieldEntry

/-- The length of an entry, in bits. -/
def bits : FieldEntry → ℕ
  | named _ length | reserved length => length

/-- What an entry is read back as: its name, if it has one, and its length. -/
def toTerm : FieldEntry → Term
  | named name length => .fieldUnit (some name.toList) length
  | reserved length => .fieldUnit none length

/-- A named entry has a name segment for its name. -/
def Valid : FieldEntry → Prop
  | named name _ => isNameSeg name.toList = true
  | reserved _ => True

instance : DecidablePred Valid
  | named name _ => inferInstanceAs (Decidable (isNameSeg name.toList = true))
  | reserved _ => .isTrue trivial

end FieldEntry

/-- `FieldFlags`: access type, lock rule and update rule. -/
def FieldObject.flagsValue (f : FieldObject) : ℕ :=
  f.accessType.toByte.toNat + 16 * f.lockRule.toByte.toNat + 32 * f.updateRule.toByte.toNat

namespace AmlTree

mutual

/-- The term a tree stands for. -/
def toTerm : AmlTree → Term
  | zero => .int 0
  | one => .int 1
  | ones => .ones
  | byte v => .int v.toNat
  | word v => .int v.toNat
  | dword v => .int v.toNat
  | qword v => .int v.toNat
  | string v => .str (asBytes v)
  | eisaName v => .int v.value.toNat
  | path p => .ref p.nameString
  | name p inner => .node .name [.ref p.nameString, inner.toTerm] []
  | package children => .node .package [.int children.length] (toTerms children)
  | packageBuilder elements => .node .package [.int elements.length] (toTerms elements)
  | varPackageTerm data => .node .varPackage [data.toTerm] []
  | bufferTerm data => .node .buffer [data.toTerm] [.bytes []]
  | bufferData data => .node .buffer [.int data.length] [.bytes data]
  | uuid u => .node .buffer [.int u.name.data.length] [.bytes u.name.data]
  | resourceTemplate children =>
    let data := templateContent (children.flatMap Descriptor.encode)
    .node .buffer [.int data.length] [.bytes data]
  | scope p children => .node .scope [.ref p.nameString] (toTerms children)
  | device p children => .node .device [.ref p.nameString] (toTerms children)
  | method p args serialized children =>
    .node .method [.ref p.nameString, .int (args.toNat + 8 * serialized.toNat)] (toTerms children)
  | powerResource p level order children =>
    .node .powerRes [.ref p.nameString, .int level.toNat, .int order.toNat] (toTerms children)
  | field f =>
    .node .field [.ref f.path.nameString, .int f.flagsValue] (f.fields.map FieldEntry.toTerm)
  | opRegion p space offset length =>
    .node .opRegion [.ref p.nameString, .int space.toByte.toNat, offset.toTerm, length.toTerm] []
  | mutex m => .node .mutex [.ref m.path.nameString, .int m.syncLevel.toNat] []
  | acquire a => .node .acquire [.ref a.mutex.nameString, .int a.timeout.toNat] []
  | release r => .node .release [.ref r.mutex.nameString] []
  | notify object value => .node .notify [object.toTerm, value.toTerm] []
  | store target value => .node .store [value.toTerm, target.toTerm] []
  | ifTree predicate children => .node .ifElse [predicate.toTerm] (toTerms children)
  | elseTree body => .node .else_ [] (toTerms body)
  | whileTree predicate children => .node .while_ [predicate.toTerm] (toTerms children)
  | compare op left right => .node op.production [left.toTerm, right.toTerm] []
  | onObject op a => .node op.production [a.toTerm] []
  | binary op target a b => .node op.production [a.toTerm, b.toTerm, target.toTerm] []
  | convert op target a => .node op.production [a.toTerm, target.toTerm] []
  | createField nameString source bitIndex bitNum =>
    .node .createField [source.toTerm, bitIndex.toTerm, bitNum.toTerm, nameString.toTerm] []
  | mid source index length result =>
    .node .mid [source.toTerm, index.toTerm, length.toTerm, result.toTerm] []
  | arg x => .arg x.index.toNat
  | localVar x => .localVar x.index.toNat

/-- The terms of a list of trees, one by one. -/
def toTerms : List AmlTree → List Term
  | [] => []
  | t :: ts => t.toTerm :: toTerms ts

end

@[simp] theorem toTerms_eq (ts : List AmlTree) : toTerms ts = ts.map toTerm := by
  induction ts with
  | nil => rfl
  | cons t ts ih => rw [toTerms, ih, List.map_cons]

/-- What the grammar asks of a node's own data. -/
def AdmissibleHere (t : AmlTree) : Prop :=
  (∀ p ∈ t.paths, p.Valid) ∧
  match t with
  | string v => '\x00' ∉ v.toList
  | package cs | packageBuilder cs => cs.length ≤ 255
  | field f => ∀ e ∈ f.fields, e.Valid
  | arg x => x.index ≤ 6
  | localVar x => x.index ≤ 7
  | _ => True

/-- The node's own bytes say what the node is. -/
def CleanHere : AmlTree → Prop
  | powerResource _ _ _ _ => False
  | method _ args _ _ => args.toNat < 8
  | field f => ∀ e ∈ f.fields, e.bits < 268435456
  | _ => True

instance : DecidablePred AdmissibleHere
  | string _ => inferInstanceAs (Decidable (_ ∧ ¬ _ ∈ _))
  | package _ | packageBuilder _ => inferInstanceAs (Decidable (_ ∧ _ ≤ _))
  | field f => inferInstanceAs (Decidable (_ ∧ ∀ e ∈ f.fields, e.Valid))
  | arg _ | localVar _ => inferInstanceAs (Decidable (_ ∧ _ ≤ _))
  | zero | one | ones | byte _ | word _ | dword _ | qword _ | eisaName _ | path _ | name _ _
  | varPackageTerm _ | bufferTerm _ | bufferData _ | uuid _ | resourceTemplate _ | scope _ _
  | device _ _ | method _ _ _ _ | powerResource _ _ _ _ | opRegion _ _ _ _ | mutex _ | acquire _
  | release _ | notify _ _ | store _ _ | ifTree _ _ | elseTree _ | whileTree _ _ | compare _ _ _
  | onObject _ _ | binary _ _ _ _ | convert _ _ _ | createField _ _ _ _ | mid _ _ _ _ =>
    inferInstanceAs (Decidable (_ ∧ True))

instance : DecidablePred CleanHere
  | powerResource _ _ _ _ => .isFalse id
  | method _ args _ _ => inferInstanceAs (Decidable (args.toNat < 8))
  | field f => inferInstanceAs (Decidable (∀ e ∈ f.fields, e.bits < 268435456))
  | zero | one | ones | byte _ | word _ | dword _ | qword _ | string _ | eisaName _ | path _
  | name _ _ | package _ | packageBuilder _ | varPackageTerm _ | bufferTerm _ | bufferData _
  | uuid _ | resourceTemplate _ | scope _ _ | device _ _ | opRegion _ _ _ _ | mutex _ | acquire _
  | release _ | notify _ _ | store _ _ | ifTree _ _ | elseTree _ | whileTree _ _ | compare _ _ _
  | onObject _ _ | binary _ _ _ _ | convert _ _ _ | createField _ _ _ _ | mid _ _ _ _ | arg _
  | localVar _ => .isTrue trivial

/-! ## Lengths of words -/

/-- No element's bytes are more than those of all elements. -/
theorem length_le_length_flatMap {α : Type} {f : α → Bytes} {l : List α} {a : α} (h : a ∈ l) :
    (f a).length ≤ (l.flatMap f).length := by
  induction l with
  | nil => cases h
  | cons b l ih =>
    rw [List.flatMap_cons, List.length_append]
    rcases List.mem_cons.mp h with rfl | h
    · omega
    · have := ih h
      omega

/-- A comparison has an opcode. -/
theorem length_compareOp_pos (op : CompareOp) : 0 < op.bytes.length := by
  cases op <;> decide

/-- Nested words are shorter. -/
theorem length_encode_lt_of_mem_children {c t : AmlTree} (h : c ∈ t.children) :
    c.encode.length < t.encode.length := by
  have hframed := length_frame
  cases t <;>
    simp only [children, List.mem_cons, List.not_mem_nil, or_false] at h <;>
    simp only [encode, encodeAll_eq]
  case package cs | packageBuilder cs | scope cs | device cs | method cs | powerResource cs
      | elseTree cs =>
    have := length_le_length_flatMap (f := encode) h
    refine lt_of_lt_of_le ?_ (hframed _ _)
    simp only [List.length_append, List.length_cons, List.length_nil]
    omega
  case ifTree p cs | whileTree p cs =>
    refine lt_of_lt_of_le ?_ (hframed _ _)
    simp only [List.length_append, List.length_cons, List.length_nil]
    rcases h with rfl | h
    · omega
    · have := length_le_length_flatMap (f := encode) h
      omega
  case varPackageTerm | bufferTerm =>
    subst h
    refine lt_of_lt_of_le ?_ (hframed _ _)
    simp only [List.length_cons, List.length_nil]
    omega
  case compare op x y =>
    have := length_compareOp_pos op
    simp only [List.length_append]
    rcases h with rfl | rfl <;> omega
  all_goals
    simp only [List.length_append, List.length_cons, List.length_nil]
    rcases h with rfl | rfl | rfl | rfl <;> omega

/-- A constant takes at least one byte. -/
theorem encodeInt_ne_nil (n : ℕ) : encodeInt n ≠ [] := by
  unfold encodeInt
  split_ifs <;> simp

/-- A frame takes at least one byte. -/
theorem frame_ne_nil {op content : Bytes} : frame op content ≠ [] := by
  intro h
  have := length_frame op content
  rw [h, List.length_nil] at this
  omega

/-- A word has a first byte. -/
theorem encode_ne_nil {t : AmlTree} (h : t.AdmissibleHere) : t.encode ≠ [] := by
  cases t <;> simp only [encode, encodeAll_eq]
  case path p =>
    obtain ⟨-, b, s, hword, -⟩ :=
      settles_namePath (h.1 p (by simp [paths])).ne_nil (h.1 p (by simp [paths])).length_le
        (h.1 p (by simp [paths])).segs
    rw [Path.encode, List.append_assoc, hword]
    simp
  case compare op x y =>
    have := length_compareOp_pos op
    intro hnil
    simp only [List.append_eq_nil_iff] at hnil
    rw [hnil.1.1] at this
    cases this
  all_goals
    first
    | exact encodeInt_ne_nil _
    | exact frame_ne_nil
    | simp [encodeString]

end AmlTree

/-! ## Pieces -/

/-- One part of a production as it is written: the word, the value that is to be
read, and the condition under which it is. -/
structure Piece where
  key : Part
  word : Bytes
  value : Term
  ok : Prop

/-- The part settles as the piece says. -/
def Piece.Holds (p : Reader UInt8 Term) (x : Piece) : Prop :=
  Settles (part p x.key) x.word x.value x.ok

/-- A path, read back as a reference. -/
def Path.piece (path : Path) : Piece := ⟨.nameString, path.encode, .ref path.nameString, True⟩

/-- A number of a fixed width, read back as its value. -/
def numberPiece (width n : ℕ) : Piece := ⟨.number width, leBytes width n, .int n, True⟩

/-- A tree, read back as its term if it is clean. -/
def AmlTree.piece (t : AmlTree) : Piece :=
  ⟨.termArg, t.encode, t.toTerm, t.Everywhere AmlTree.CleanHere⟩

@[simp] theorem Path.piece_word (path : Path) : path.piece.word = path.encode := rfl

@[simp] theorem Path.piece_ok (path : Path) : path.piece.ok = True := rfl

@[simp] theorem numberPiece_word (width n : ℕ) : (numberPiece width n).word = leBytes width n := rfl

@[simp] theorem numberPiece_ok (width n : ℕ) : (numberPiece width n).ok = True := rfl

@[simp] theorem AmlTree.piece_word (t : AmlTree) : t.piece.word = t.encode := rfl

@[simp] theorem AmlTree.piece_ok (t : AmlTree) :
    t.piece.ok = t.Everywhere AmlTree.CleanHere := rfl

section

variable {p : Reader UInt8 Term} {w body : Bytes} {bodyTerms : List Term} {c c' : Prop}

/-- A valid path is read back. -/
theorem Path.holds_piece {path : Path} (h : path.Valid) : path.piece.Holds p :=
  (settles_nameString h).map fun _ _ heq => Term.ref.inj heq

/-- The bytes of a 16-bit value, as those of its number. -/
theorem toLeBytes_u16 (x : UInt16) : MachineInt.toLeBytes x = leBytes 2 x.toNat := rfl

/-- A number that its bytes can hold is read back. -/
theorem holds_numberPiece {k n : ℕ} (h : n < 256 ^ k) : (numberPiece k n).Holds p :=
  (settles_number h).map fun _ _ heq => Term.int.inj heq

/-- Pieces that are read back one by one are read back one after the other. -/
theorem settles_pieces {xs : List Piece} (h : ∀ x ∈ xs, x.Holds p) :
    Settles (each (part p) (xs.map Piece.key)) (xs.flatMap Piece.word) (xs.map Piece.value)
      (∀ x ∈ xs, x.ok) :=
  settles_each xs h

/-- A path in the place of a name. -/
theorem settles_pathPart {path : Path} (h : path.Valid) :
    Settles (each (part p) [.nameString]) path.encode [.ref path.nameString] True := by
  have := @settles_pieces p [path.piece] (List.forall_mem_singleton.mpr (Path.holds_piece h))
  simpa [Path.piece] using this

/-- A production without a frame settles as its pieces do. -/
theorem settles_plain (op : Production) (xs : List Piece) (hframed : op.rule.framed = false)
    (hrest : op.rule.rest = .nothing) (hparts : op.rule.parts = xs.map Piece.key)
    (h : ∀ x ∈ xs, x.Holds p) (hw : op.rule.encoding ++ xs.flatMap Piece.word = w)
    (hok : (∀ x ∈ xs, x.ok) ↔ c) :
    Settles (termStep p) w (.node op (xs.map Piece.value) []) c :=
  (settles_production hframed hrest (hparts ▸ settles_pieces h)).cast hw hok

/-- A production with a frame settles as its pieces and the rest of its frame
do, when a package length can count the frame. -/
theorem settles_countedFrame (op : Production) (xs : List Piece)
    (hframed : op.rule.framed = true) (hparts : op.rule.parts = xs.map Piece.key)
    (h : ∀ x ∈ xs, x.Holds p)
    (hbody : SettlesEnd (frameRest p op.rule.rest) body bodyTerms c)
    (hw : frame op.rule.encoding (xs.flatMap Piece.word ++ body) = w)
    (hlen : (xs.flatMap Piece.word ++ body).length +
      pkgWidth (xs.flatMap Piece.word ++ body).length < 268435456)
    (hok : ((∀ x ∈ xs, x.ok) ∧ c) ↔ c') :
    Settles (termStep p) w (.node op (xs.map Piece.value) bodyTerms) c' := by
  subst hw
  have := settles_framed hframed (settles_pkgContent hlen) (hparts ▸ settles_pieces h) hbody
  exact this.cast (by simp [frame]) hok

/-- A package length can count what is in a word below `2 ^ 28` bytes. -/
theorem add_pkgWidth_lt_of_frame {op content : Bytes}
    (h : (frame op content).length < 268435456) :
    content.length + pkgWidth content.length < 268435456 := by
  rw [frame, List.length_append, List.length_append, length_createPkgLength_eq] at h
  omega

/-- The same, when the whole word is short enough for a package length. -/
theorem settles_frame (op : Production) (xs : List Piece) (hframed : op.rule.framed = true)
    (hparts : op.rule.parts = xs.map Piece.key) (h : ∀ x ∈ xs, x.Holds p)
    (hbody : SettlesEnd (frameRest p op.rule.rest) body bodyTerms c)
    (hw : frame op.rule.encoding (xs.flatMap Piece.word ++ body) = w)
    (hlen : w.length < 268435456) (hok : ((∀ x ∈ xs, x.ok) ∧ c) ↔ c') :
    Settles (termStep p) w (.node op (xs.map Piece.value) bodyTerms) c' :=
  settles_countedFrame op xs hframed hparts h hbody hw
    (add_pkgWidth_lt_of_frame (hw ▸ hlen)) hok

/-- Bytes to the end of a frame are themselves. -/
theorem settlesEnd_byteList (data : Bytes) :
    SettlesEnd (frameRest p .byteList) data [.bytes data] True :=
  (settlesEnd_rest data).map (f := fun bs => [Term.bytes bs]) fun _ _ heq =>
    Term.bytes.inj (List.cons.inj heq).1

/-- A body of terms is read back up to the end of its frame. -/
theorem settlesEnd_termList {cs : List AmlTree} (h : ∀ c ∈ cs, c.piece.Holds p)
    (hadm : ∀ c ∈ cs, c.AdmissibleHere) :
    SettlesEnd (frameRest p .termList) (cs.flatMap AmlTree.encode) (cs.map AmlTree.toTerm)
      (∀ c ∈ cs, c.Everywhere AmlTree.CleanHere) :=
  settlesEnd_many cs h fun c hc => AmlTree.encode_ne_nil (hadm c hc)

/-! ### Fields -/

/-- A valid field entry is read back when its length fits a package length. -/
theorem settles_fieldUnit {e : FieldEntry} (h : e.Valid) :
    Settles fieldUnit e.bytes e.toTerm (e.bits < 268435456) := by
  cases e with
  | reserved bits =>
    have := (settles_pkgValue bits).map (f := Term.fieldUnit none) fun _ _ heq =>
      (Term.fieldUnit.inj heq).2
    exact ⟨fun hc s => this.reads hc s, fun hc s r => this.misses hc s r⟩
  | named name bits =>
    have hseg := ((settles_nameSeg h).seq (settles_pkgValue bits)).map
      (f := fun x : Bytes × ℕ => Term.fieldUnit (some x.1) x.2) (by
        rintro ⟨x, m⟩ ⟨y, n⟩ heq
        obtain ⟨hname, hbits⟩ := Term.fieldUnit.inj heq
        exact Prod.ext (Option.some.inj hname) hbits)
    rw [true_and] at hseg
    obtain ⟨b, s, hname, hb⟩ := lead_of_isNameSeg h
    -- a name segment does not start like a reserved entry
    have hstep : ∀ r, fieldUnit (name.toList ++ r) =
        map (fun x : Bytes × ℕ => Term.fieldUnit (some x.1) x.2) (seq nameSeg pkgValue)
          (name.toList ++ r) := by
      intro r
      rw [hname, List.cons_append]
      unfold fieldUnit
      split
      · next heq => exact absurd (List.cons.inj heq).1 (not_prefix_of_isLeadNameChar hb).1
      · rfl
    refine ⟨fun hc r => ?_, fun hc r r' => ?_⟩
    · rw [FieldEntry.bytes, List.append_assoc, hstep, ← List.append_assoc]
      exact hseg.reads hc r
    · rw [FieldEntry.bytes, List.append_assoc, hstep, ← List.append_assoc]
      exact hseg.misses hc r r'

/-- A list of field entries is read back up to the end of its frame. -/
theorem settlesEnd_fieldList {es : List FieldEntry} (h : ∀ e ∈ es, e.Valid) :
    SettlesEnd (frameRest p .fieldList) (es.flatMap FieldEntry.bytes)
      (es.map FieldEntry.toTerm) (∀ e ∈ es, e.bits < 268435456) := by
  refine settlesEnd_many es (fun e he => settles_fieldUnit (h e he)) fun e he hnil => ?_
  cases e with
  | reserved bits => simp [FieldEntry.bytes] at hnil
  | named name bits =>
    have hlen := congrArg List.length hnil
    simp [FieldEntry.bytes] at hlen

/-- The flags byte of a field holds all three enumerations. -/
theorem FieldObject.toNat_flags (f : FieldObject) : f.flags.toNat = f.flagsValue := by
  obtain ⟨path, fields, access, locking, update⟩ := f
  dsimp only [FieldObject.flags, FieldObject.flagsValue]
  cases access <;> cases locking <;> cases update <;> decide

/-! ### Methods -/

/-- The number of arguments of a method, and whether it is serialized. -/
def methodFlagsPiece (args : UInt8) (serialized : Bool) : Piece :=
  ⟨.number 1, [(Method.new ⟨false, []⟩ args serialized []).flags],
    .int (args.toNat + 8 * serialized.toNat), args.toNat < 8⟩

/-- The flags of a method are read back when the number of arguments has three
bits. -/
@[simp] theorem methodFlagsPiece_ok (args : UInt8) (serialized : Bool) :
    (methodFlagsPiece args serialized).ok = (args.toNat < 8) := rfl

/-- The flags of a method as a number: three bits of arguments and the mark for
serialized ones. -/
theorem toNat_methodFlags (path : Path) (args : UInt8) (serialized : Bool)
    (children : List DynAml) :
    (Method.new path args serialized children).flags.toNat =
      args.toNat % 8 + 8 * serialized.toNat := by
  have hall : ∀ (n : Fin 256) (b : Bool),
      ((UInt8.ofNat n &&& (0x7 : UInt8)) ||| (b.toUInt8 <<< 3)).toNat = n % 8 + 8 * b.toNat := by
    decide +kernel
  have := hall ⟨args.toNat, args.toNat_lt⟩ serialized
  rwa [UInt8.ofNat_toNat] at this

/-- The three bits hold up to seven arguments. -/
theorem holds_methodFlagsPiece (args : UInt8) (serialized : Bool) :
    (methodFlagsPiece args serialized).Holds p := by
  have hread : ∀ s, part p (.number 1) ([(Method.new ⟨false, []⟩ args serialized []).flags] ++ s) =
      some (.int (args.toNat % 8 + 8 * serialized.toNat), s) := by
    intro s
    refine map_eq_some.mpr
      ⟨_, map_eq_some.mpr ⟨_, (settles_take (n := 1) rfl).reads trivial s, rfl⟩, ?_⟩
    rw [leValue_cons, leValue_nil, toNat_methodFlags]
    rfl
  have hser := serialized.toNat_lt
  refine ⟨fun hc s => ?_, fun hc s r he => ?_⟩
  · change args.toNat < 8 at hc
    have := hread s
    rwa [Nat.mod_eq_of_lt hc] at this
  · have heq := (hread s).symm.trans he
    have : args.toNat % 8 + 8 * serialized.toNat = args.toNat + 8 * serialized.toNat :=
      Term.int.inj (Prod.mk.inj (Option.some.inj heq)).1
    change ¬ args.toNat < 8 at hc
    omega

end

/-- A buffer with its size in front of its content. The size is a term of its
own, one level down. -/
theorem settles_buffer {data : Bytes} {fuel : ℕ}
    (hlen : (sizedContent data).length + pkgWidth (sizedContent data).length < 268435456)
    (hfuel : (frame [bufferOp] (sizedContent data)).length ≤ fuel + 1) (hc : True ↔ c) :
    Settles (termStep (term fuel)) (frame [bufferOp] (sizedContent data))
      (.node .buffer [.int data.length] [.bytes data]) c := by
  have hbound := length_frame [bufferOp] (sizedContent data)
  have hcontent : data.length ≤ (sizedContent data).length := by
    rw [sizedContent, List.length_append]
    omega
  rw [List.length_singleton] at hbound
  obtain ⟨k, rfl⟩ : ∃ k, fuel = k + 1 := ⟨fuel - 1, by omega⟩
  have hmod : data.length % 18446744073709551616 = data.length := Nat.mod_eq_of_lt (by omega)
  have hsize : (⟨.termArg, encodeInt data.length, .int data.length, True⟩ : Piece).Holds
      (term (k + 1)) := settles_int (by omega)
  have hword : [(⟨.termArg, encodeInt data.length, .int data.length, True⟩ : Piece)].flatMap
      Piece.word ++ data = sizedContent data := by
    simp [sizedContent, hmod]
  exact settles_countedFrame .buffer [⟨.termArg, encodeInt data.length, .int data.length, True⟩]
    rfl rfl (by simp [hsize]) (settlesEnd_byteList data) (by rw [hword]; rfl)
    (by rw [hword]; exact hlen) (by simpa using hc)

/-! ## The round trip -/

namespace AmlTree

/-- **One node**: a node settles when the nodes below it do. -/
theorem settles_step {t : AmlTree} {fuel : ℕ} (hadm : t.AdmissibleHere)
    (hadm' : ∀ c ∈ t.children, c.AdmissibleHere) (hlen : t.encode.length < 268435456)
    (hfuel : t.encode.length ≤ fuel + 1) (ih : ∀ c ∈ t.children, c.piece.Holds (term fuel)) :
    Settles (termStep (term fuel)) t.encode t.toTerm (t.Everywhere CleanHere) := by
  obtain ⟨hpaths, hhere⟩ := hadm
  have hpath : ∀ p ∈ t.paths, p.piece.Holds (term fuel) := fun p hp =>
    Path.holds_piece (hpaths p hp)
  rw [everywhere_iff]
  have hleaf : t.children = [] → t.CleanHere →
      (True ↔ t.CleanHere ∧ ∀ c ∈ t.children, c.Everywhere CleanHere) := by
    intro hnil hclean
    simp [hnil, hclean]
  cases t <;> simp only [encode, encodeAll_eq] at hlen hfuel ⊢ <;> simp only [toTerm, toTerms_eq]
  -- integers of any width, and what a row of the table reads
  case zero => exact (settles_int (n := 0) (by decide)).congr (hleaf rfl trivial)
  case one => exact (settles_int (n := 1) (by decide)).congr (hleaf rfl trivial)
  case ones =>
    have hrow : ([0xff], Head.ones) ∈ rows := by decide
    exact (settles_row (w := []) hrow (.of_reads fun _ => rfl)).cast rfl (hleaf rfl trivial)
  case byte v =>
    have := v.toNat_lt
    exact (settles_int (by omega)).congr (hleaf rfl trivial)
  case word v =>
    have := v.toNat_lt
    exact (settles_int (by omega)).congr (hleaf rfl trivial)
  case dword v =>
    have := v.toNat_lt
    exact (settles_int (by omega)).congr (hleaf rfl trivial)
  case qword v => exact (settles_int v.toNat_lt).congr (hleaf rfl trivial)
  case string v => exact (settles_string hhere).congr (hleaf rfl trivial)
  case eisaName v =>
    have := v.value.toNat_lt
    exact (settles_int (by omega)).congr (hleaf rfl trivial)
  case path p => exact (settles_ref (hpaths p (by simp [paths]))).congr (hleaf rfl trivial)
  case arg x =>
    have hx : x.index.toNat ≤ 6 := UInt8.le_iff_toNat_le.mp hhere
    have hrow : ([arg0Op + x.index], Head.arg x.index.toNat) ∈ rows := by
      have hall : ∀ i < 7, ([0x68 + UInt8.ofNat i], Head.arg i) ∈ rows := by decide +kernel
      simpa using hall x.index.toNat (by omega)
    exact (settles_row (w := []) hrow (.of_reads fun _ => rfl)).cast rfl (hleaf rfl trivial)
  case localVar x =>
    have hx : x.index.toNat ≤ 7 := UInt8.le_iff_toNat_le.mp hhere
    have hrow : ([local0Op + x.index], Head.localVar x.index.toNat) ∈ rows := by
      have hall : ∀ i < 8, ([0x60 + UInt8.ofNat i], Head.localVar i) ∈ rows := by decide +kernel
      simpa using hall x.index.toNat (by omega)
    exact (settles_row (w := []) hrow (.of_reads fun _ => rfl)).cast rfl (hleaf rfl trivial)
  case name p inner =>
    have hp := hpath p (by simp [paths])
    have hi := ih inner (by simp [children])
    exact settles_plain .name [p.piece, inner.piece] rfl rfl rfl (by simp [hp, hi])
      (by simp [Production.rule]) (by simp [children, CleanHere])
  case package cs | packageBuilder cs =>
    have hn := holds_numberPiece (p := term fuel) (k := 1) (Nat.lt_succ_of_le hhere)
    exact settles_frame .package [numberPiece 1 cs.length] rfl rfl (by simp [hn])
      (settlesEnd_termList ih hadm') (by simp [Production.rule, leBytes]) hlen
      (by simp [children, CleanHere])
  case varPackageTerm data =>
    have hd := ih data (by simp [children])
    exact settles_frame .varPackage [data.piece] rfl rfl (by simp [hd])
      (settlesEnd_termList (List.forall_mem_nil _) (List.forall_mem_nil _))
      (by simp [Production.rule]) hlen
      (by simp [children, CleanHere])
  case bufferTerm data =>
    have hd := ih data (by simp [children])
    exact settles_frame .buffer [data.piece] rfl rfl (by simp [hd])
      (settlesEnd_byteList []) (by simp [Production.rule]) hlen
      (by simp [children, CleanHere])
  case bufferData data =>
    exact settles_buffer (add_pkgWidth_lt_of_frame hlen) hfuel (hleaf rfl trivial)
  case uuid u => exact settles_buffer (add_pkgWidth_lt_of_frame hlen) hfuel (hleaf rfl trivial)
  case resourceTemplate ds =>
    exact settles_buffer (add_pkgWidth_lt_of_frame hlen) hfuel (hleaf rfl trivial)
  case scope p cs =>
    have hp := hpath p (by simp [paths])
    exact settles_frame .scope [p.piece] rfl rfl (by simp [hp])
      (settlesEnd_termList ih hadm') (by simp [Production.rule]) hlen
      (by simp [children, CleanHere])
  case device p cs =>
    have hp := hpath p (by simp [paths])
    exact settles_frame .device [p.piece] rfl rfl (by simp [hp])
      (settlesEnd_termList ih hadm') (by simp [Production.rule]) hlen
      (by simp [children, CleanHere])
  case method p args ser cs =>
    have hp := hpath p (by simp [paths])
    have hf := holds_methodFlagsPiece (p := term fuel) args ser
    exact settles_frame .method [p.piece, methodFlagsPiece args ser] rfl rfl (by simp [hp, hf])
      (settlesEnd_termList ih hadm')
      (by simp [Production.rule, methodFlagsPiece, Method.flags, Method.new]) hlen
      (by simp [children, CleanHere])
  case powerResource p level order cs =>
    refine ⟨fun hc => absurd hc.1 id, fun _ r r' he => ?_⟩
    -- the reader is in front of a `ConcatRes`
    have hpre := encoding_prefix_of_termStep he
    simp only [Production.rule, frame, List.cons_append, List.cons_prefix_cons] at hpre
    exact absurd hpre.1 (by decide)
  case field f =>
    have hp := hpath f.path (by simp [paths])
    have hlt := f.flags.toNat_lt
    rw [f.toNat_flags] at hlt
    have hn := holds_numberPiece (p := term fuel) (k := 1) hlt
    have hflags : UInt8.ofNat f.flagsValue = f.flags := by rw [← f.toNat_flags, UInt8.ofNat_toNat]
    exact settles_frame .field [f.path.piece, numberPiece 1 f.flagsValue] rfl rfl
      (by simp [hp, hn]) (settlesEnd_fieldList hhere) (by simp [Production.rule, leBytes, hflags])
      hlen (by simp [children, CleanHere])
  case opRegion p space off len =>
    have hp := hpath p (by simp [paths])
    have hn := holds_numberPiece (p := term fuel) (k := 1) space.toByte.toNat_lt
    have ho := ih off (by simp [children])
    have hl := ih len (by simp [children])
    exact settles_plain .opRegion [p.piece, numberPiece 1 space.toByte.toNat, off.piece, len.piece]
      rfl rfl rfl (by simp [hp, hn, ho, hl])
      (by simp [Production.rule, leBytes]) (by simp [children, CleanHere])
  case mutex m =>
    have hp := hpath m.path (by simp [paths])
    have hn := holds_numberPiece (p := term fuel) (k := 1) m.syncLevel.toNat_lt
    exact settles_plain .mutex [m.path.piece, numberPiece 1 m.syncLevel.toNat] rfl rfl rfl
      (by simp [hp, hn])
      (by simp [Production.rule, leBytes]) (by simp [children, CleanHere])
  case acquire a =>
    have hp := hpath a.mutex (by simp [paths])
    have hn := holds_numberPiece (p := term fuel) (k := 2) a.timeout.toNat_lt
    exact settles_plain .acquire [a.mutex.piece, numberPiece 2 a.timeout.toNat] rfl rfl rfl
      (by simp [hp, hn])
      (by simp [Production.rule, toLeBytes_u16]) (by simp [children, CleanHere])
  case release r =>
    have hp := hpath r.mutex (by simp [paths])
    exact settles_plain .release [r.mutex.piece] rfl rfl rfl (by simp [hp])
      (by simp [Production.rule]) (by simp [children, CleanHere])
  case notify x y =>
    have hx := ih x (by simp [children])
    have hy := ih y (by simp [children])
    exact settles_plain .notify [x.piece, y.piece] rfl rfl rfl (by simp [hx, hy])
      (by simp [Production.rule]) (by simp [children, CleanHere])
  -- the target is behind the value
  case store x y =>
    have hx := ih x (by simp [children])
    have hy := ih y (by simp [children])
    exact settles_plain .store [y.piece, x.piece] rfl rfl rfl (by simp [hx, hy])
      (by simp [Production.rule]) (by simp [children, CleanHere, and_comm])
  case ifTree x cs =>
    have hx := ih x (by simp [children])
    exact settles_frame .ifElse [x.piece] rfl rfl (by simp [hx])
      (settlesEnd_termList (fun c hc => ih c (by simp [children, hc]))
        fun c hc => hadm' c (by simp [children, hc])) (by simp [Production.rule]) hlen
      (by simp [children, CleanHere])
  case elseTree cs =>
    exact settles_frame .else_ [] rfl rfl (by simp [])
      (settlesEnd_termList ih hadm') (by simp [Production.rule]) hlen
      (by simp [children, CleanHere])
  case whileTree x cs =>
    have hx := ih x (by simp [children])
    exact settles_frame .while_ [x.piece] rfl rfl (by simp [hx])
      (settlesEnd_termList (fun c hc => ih c (by simp [children, hc]))
        fun c hc => hadm' c (by simp [children, hc])) (by simp [Production.rule]) hlen
      (by simp [children, CleanHere])
  case compare op x y =>
    have hx := ih x (by simp [children])
    have hy := ih y (by simp [children])
    exact settles_plain op.production [x.piece, y.piece] (by cases op <;> rfl) (by cases op <;> rfl)
      (by cases op <;> rfl) (by simp [hx, hy])
      (by
        cases op <;> simp [Production.rule, CompareOp.production, CompareOp.bytes,
          CompareOp.invert, CompareOp.opcode])
      (by simp [children, CleanHere])
  case onObject op x =>
    have hx := ih x (by simp [children])
    exact settles_plain op.production [x.piece] (by cases op <;> rfl) (by cases op <;> rfl)
      (by cases op <;> rfl) (by simp [hx])
      (by cases op <;> simp [Production.rule, ObjectOp.production, ObjectOp.opcode])
      (by simp [children, CleanHere])
  case binary op z x y =>
    have hx := ih x (by simp [children])
    have hy := ih y (by simp [children])
    have hz := ih z (by simp [children])
    exact settles_plain op.production [x.piece, y.piece, z.piece] (by cases op <;> rfl)
      (by cases op <;> rfl)
      (by cases op <;> rfl) (by simp [hx, hy, hz])
      (by cases op <;> simp [Production.rule, BinaryOp.production, BinaryOp.opcode])
      (by simp [children, CleanHere]; tauto)
  case convert op z x =>
    have hx := ih x (by simp [children])
    have hz := ih z (by simp [children])
    exact settles_plain op.production [x.piece, z.piece] (by cases op <;> rfl) (by cases op <;> rfl)
      (by cases op <;> rfl) (by simp [hx, hz])
      (by cases op <;> simp [Production.rule, ConvertOp.production, ConvertOp.opcode])
      (by simp [children, CleanHere, and_comm])
  case createField n x y z =>
    have hn := ih n (by simp [children])
    have hx := ih x (by simp [children])
    have hy := ih y (by simp [children])
    have hz := ih z (by simp [children])
    exact settles_plain .createField [x.piece, y.piece, z.piece, n.piece] rfl rfl rfl
      (by simp [hn, hx, hy, hz])
      (by simp [Production.rule]) (by simp [children, CleanHere]; tauto)
  case mid x y z r =>
    have hx := ih x (by simp [children])
    have hy := ih y (by simp [children])
    have hz := ih z (by simp [children])
    have hr := ih r (by simp [children])
    exact settles_plain .mid [x.piece, y.piece, z.piece, r.piece] rfl rfl rfl
      (by simp [hx, hy, hz, hr])
      (by simp [Production.rule]) (by simp [children, CleanHere])

/-- A tree with admissible names and a short word is read back, or not, as its
cleanness says. -/
theorem settles {t : AmlTree} {fuel : ℕ} (hadm : t.Everywhere AdmissibleHere)
    (hfuel : t.encode.length ≤ fuel) (hlen : t.encode.length < 268435456) :
    Settles (term fuel) t.encode t.toTerm (t.Everywhere CleanHere) := by
  induction t using AmlTree.induction generalizing fuel with
  | step t ih =>
    obtain ⟨hhere, hbelow⟩ := everywhere_iff.mp hadm
    have hpos : 0 < t.encode.length := List.length_pos_of_ne_nil (encode_ne_nil hhere)
    obtain ⟨k, rfl⟩ : ∃ k, fuel = k + 1 := ⟨fuel - 1, by omega⟩
    refine settles_step hhere (fun c hc => (everywhere_iff.mp (hbelow c hc)).1) hlen hfuel ?_
    intro c hc
    have hlt := length_encode_lt_of_mem_children hc
    exact ih c hc (hbelow c hc) (by omega) (by omega)

/-- Admissible nodes have names that can be read. -/
theorem namesHere_of_admissibleHere {t : AmlTree} (h : t.AdmissibleHere) : t.NamesHere := by
  refine ⟨fun p hp => (h.1 p hp).ne_nil, ?_⟩
  cases t with
  | arg x | localVar x => exact h.2
  | _ => trivial

/-- **Exactly the clean trees are decodable**: what is written for an admissible
tree is read back as its term, in front of any continuation, if and only if the
tree has no power resource, no field entry of `2 ^ 28` bits or more and no
method of more than seven arguments. -/
theorem decodeTerm_iff_clean {t : AmlTree} {w : Bytes} (hadm : t.Everywhere AdmissibleHere)
    (hw : toAmlBytes t.object ([] : Bytes) = .ok w) (hlen : w.length < 268435456) :
    (∀ rest, decodeTerm (w ++ rest) = some (t.toTerm, rest)) ↔ t.Everywhere CleanHere := by
  obtain rfl := eq_encode_of_emit (hadm.mono fun _ => namesHere_of_admissibleHere) hw
  constructor
  · intro h
    by_contra hdirty
    refine (settles hadm (Nat.le_refl _) hlen).misses hdirty [] [] ?_
    have := h []
    rwa [List.append_nil] at this ⊢
  · intro hclean rest
    exact (settles hadm (by rw [List.length_append]; omega) hlen).reads hclean rest

theorem decodeTerm_iff_clean_name :
    (∀ rest, decodeTerm ([0x08, 0x51, 0x50, 0x41, 0x44, 0x00] ++ rest) =
        some (.node .name [.ref ⟨false, 0, [[0x51, 0x50, 0x41, 0x44]]⟩, .int 0] [], rest)) ↔
      (name ⟨false, [bstr "QPAD"]⟩ zero).Everywhere CleanHere := by
  refine decodeTerm_iff_clean (t := name ⟨false, [bstr "QPAD"]⟩ zero) (.node ?_ ?_) rfl (by decide)
  · exact ⟨List.forall_mem_singleton.mpr (by decide), trivial⟩
  · exact List.forall_mem_singleton.mpr (.node ⟨by simp [paths], trivial⟩ (by simp [children]))

/-- A power resource is written with its two encoding bytes exchanged, and is not
read as anything. -/
theorem powerResource_not_decodable :
    (powerResource ⟨false, [bstr "PWR0"]⟩ 0 0 []).Everywhere AdmissibleHere ∧
    toAmlBytes (powerResource ⟨false, [bstr "PWR0"]⟩ 0 0 []).object ([] : Bytes) =
      .ok [0x84, 0x5b, 0x08, 0x50, 0x57, 0x52, 0x30, 0x00, 0x00, 0x00] ∧
    decodeTerm [0x84, 0x5b, 0x08, 0x50, 0x57, 0x52, 0x30, 0x00, 0x00, 0x00] ≠
      some ((powerResource ⟨false, [bstr "PWR0"]⟩ 0 0 []).toTerm, []) := by
  refine ⟨.node ⟨?_, trivial⟩ (by simp [children]), rfl, ?_⟩
  · exact List.forall_mem_singleton.mpr (by decide)
  · have : decodeTerm [0x84, 0x5b, 0x08, 0x50, 0x57, 0x52, 0x30, 0x00, 0x00, 0x00] = none := by
      rfl
    rw [this]
    exact (Option.some_ne_none _).symm

/-! ## Lists of trees -/

/-- A node that the grammar accepts and that says what it is. -/
def RegularHere (t : AmlTree) : Prop := t.AdmissibleHere ∧ t.CleanHere

instance : DecidablePred RegularHere := fun t =>
  inferInstanceAs (Decidable (t.AdmissibleHere ∧ t.CleanHere))

/-- A regular tree of moderate length is read as its term. -/
theorem settles_regular {t : AmlTree} {fuel : ℕ} (h : t.Everywhere RegularHere)
    (hfuel : t.encode.length ≤ fuel) (hlen : t.encode.length < 268435456) :
    Settles (term fuel) t.encode t.toTerm True ∧ t.encode ≠ [] := by
  have hadm : t.Everywhere AdmissibleHere := h.mono fun _ => And.left
  have hclean : t.Everywhere CleanHere := h.mono fun _ => And.right
  exact ⟨(settles hadm hfuel hlen).congr (iff_true_intro hclean),
    encode_ne_nil (everywhere_iff.mp hadm).1⟩

/-- Regular trees that are read as their terms, in front of anything. -/
theorem settles_regular_of_mem {ts : List AmlTree} {fuel : ℕ}
    (h : ∀ t ∈ ts, t.Everywhere RegularHere) (hfuel : (ts.flatMap encode).length ≤ fuel)
    (hlen : (ts.flatMap encode).length < 268435456) :
    ∀ t ∈ ts, Settles (term fuel) t.encode t.toTerm True ∧ t.encode ≠ [] := by
  intro t ht
  have hle := length_le_length_flatMap (f := encode) ht
  exact settles_regular (h t ht) (by omega) (by omega)

/-- A named frame of regular trees, a scope or a device, is read when a package
length can count it. -/
theorem settles_namedFrame (op : Production) {path : Path} {ts : List AmlTree} {fuel : ℕ}
    (hframed : op.rule.framed = true) (hparts : op.rule.parts = [.nameString])
    (hrest : op.rule.rest = .termList) (hpath : path.Valid)
    (h : ∀ t ∈ ts, t.Everywhere RegularHere)
    (hlen : (path.encode ++ ts.flatMap encode).length +
      pkgWidth (path.encode ++ ts.flatMap encode).length < 268435456)
    (hfuel : (path.encode ++ ts.flatMap encode).length ≤ fuel) :
    Settles (term (fuel + 1)) (frame op.rule.encoding (path.encode ++ ts.flatMap encode))
      (.node op [.ref path.nameString] (ts.map toTerm)) True := by
  have hcontent : (ts.flatMap encode).length ≤ (path.encode ++ ts.flatMap encode).length := by
    rw [List.length_append]
    omega
  have hts := settles_regular_of_mem h (hcontent.trans hfuel) (by omega)
  have hbody : SettlesEnd (frameRest (term fuel) op.rule.rest) (ts.flatMap encode)
      (ts.map toTerm) (∀ t ∈ ts, True) := by
    rw [hrest]
    exact settlesEnd_many ts (fun t ht => (hts t ht).1) fun t ht => (hts t ht).2
  have hname : Settles (each (part (term fuel)) op.rule.parts) path.encode
      [.ref path.nameString] True := by
    rw [hparts]
    exact settles_pathPart hpath
  exact (settles_framed hframed (settles_pkgContent hlen) hname hbody).cast
    (by simp [frame]) (by simp)

/-- The words of trees that are read one by one parse as a term list. -/
theorem decodeTermList_of_settles {ts : List AmlTree}
    (h : ∀ t ∈ ts, Settles (term (ts.flatMap encode).length) t.encode t.toTerm True ∧
      t.encode ≠ []) :
    decodeTermList (ts.flatMap encode) = some (ts.map toTerm) := by
  have hlist := settlesEnd_many ts (fun t ht => (h t ht).1) fun t ht => (h t ht).2
  rw [decodeTermList, hlist.reads fun _ _ => trivial]

/-- **The words of regular trees parse as a term list**, to the last byte. -/
theorem decodeTermList_encode {ts : List AmlTree} (h : ∀ t ∈ ts, t.Everywhere RegularHere)
    (hlen : (ts.flatMap encode).length < 268435456) :
    decodeTermList (ts.flatMap encode) = some (ts.map toTerm) :=
  decodeTermList_of_settles (settles_regular_of_mem h le_rfl hlen)

end AmlTree

end AcpiTables
