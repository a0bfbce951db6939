import AcpiTables.ByteSeq
import AcpiTables.Reader

/-!
# The AML grammar

The part of the ACPI Machine Language grammar (ACPI specification, 20.2) that
the object layer can emit, as a decoder from bytes to terms. It is stated with
the specification's own encoding bytes and shares nothing with the emission.

* `nameString`, `pkgLength`, `charList`, `fieldUnit` — the lexical items.
* `Production.rule` — one row for each production: its encoding, whether a
  `PkgLength` frames it, what it consists of and what fills the rest of the
  frame. The table is all that tells productions apart.
* `term` — a term, by the row its first bytes select. A term is nested inside
  another by at least one byte, so as much fuel as there are bytes is enough.

A namestring in the place of a term is a reference; the arity of a method call
is not in its bytes, so calls are not terms here. `lookup_row` is the one fact
about the table that the proofs use: no encoding is a prefix of another.
-/

namespace AcpiTables

open Reader

/-! ## Names -/

/-- `LeadNameChar`: an uppercase letter or an underscore. -/
def isLeadNameChar (b : UInt8) : Bool := (0x41 ≤ b && b ≤ 0x5a) || b == 0x5f

/-- `NameChar`: a lead character or a digit. -/
def isNameChar (b : UInt8) : Bool := isLeadNameChar b || (0x30 ≤ b && b ≤ 0x39)

/-- `NameSeg`: four characters, the first not a digit. -/
def isNameSeg : Bytes → Bool
  | [a, b, c, d] => isLeadNameChar a && isNameChar b && isNameChar c && isNameChar d
  | _ => false

/-- `NameString`: whether it starts at the root, and its segments. -/
structure NameString where
  root : Bool
  /-- the number of parent prefixes -/
  parents : ℕ
  segs : List Bytes
  deriving DecidableEq

/-- The reader of `NameSeg`. -/
def nameSeg : Reader UInt8 Bytes := filter isNameSeg (take 4)

/-- `NamePath`: nothing, one segment, two or a counted number. -/
def namePath : Reader UInt8 (List Bytes)
  | 0x00 :: s => some ([], s)
  | 0x2e :: s => count nameSeg 2 s
  | 0x2f :: n :: s => count nameSeg n.toNat s
  | s => count nameSeg 1 s

/-- `NameString`: a root or parent prefixes, and a path. -/
def nameString : Reader UInt8 NameString
  | 0x5c :: s => map (fun segs => ⟨true, 0, segs⟩) namePath s
  | s =>
    let parents := (s.takeWhile (· == 0x5e)).length
    map (fun segs => ⟨false, parents, segs⟩) namePath (s.drop parents)

/-- The bytes a namestring in the place of a term can start with. -/
def startsName (b : UInt8) : Bool :=
  b == 0x5c || b == 0x5e || b == 0x2e || b == 0x2f || isLeadNameChar b

/-! ## Lengths, numbers and strings -/

/-- `PkgLength`: its value and its own width. The lead byte gives the number of
bytes that follow; when there are any, its bits 4 and 5 must be zero. -/
def pkgLength : Reader UInt8 (ℕ × ℕ)
  | [] => none
  | lead :: s =>
    let follow := lead.toNat / 64
    if follow = 0 then some ((lead.toNat, 1), s)
    else if lead.toNat / 16 % 4 = 0 then
      map (fun bs => (lead.toNat % 16 + 16 * leValue bs, follow + 1)) (take follow) s
    else none

/-- A `PkgLength` that counts nothing but what it is about. -/
def pkgValue : Reader UInt8 ℕ := map Prod.fst pkgLength

/-- The length of the content that a `PkgLength`, which counts itself, leaves. -/
def pkgContent : Reader UInt8 ℕ :=
  map (fun x => x.1 - x.2) (filter (fun x => x.2 ≤ x.1) pkgLength)

/-- A little-endian number of `width` bytes. -/
def number (width : ℕ) : Reader UInt8 ℕ := map leValue (take width)

/-- Characters up to a `NullChar`. -/
def charList : Reader UInt8 Bytes := fun s =>
  match s.dropWhile (· != 0) with
  | [] => none
  | _ :: r => some (s.takeWhile (· != 0), r)

/-! ## Productions -/

/-- The productions that are framed or have parts. -/
inductive Production where
  | name | scope | buffer | package | varPackage | method
  | mutex | createField | acquire | release | opRegion | field | device | powerRes
  | store | add | concat | subtract | multiply | shiftLeft | shiftRight | and | nand | or | nor
  | xor | derefOf | concatRes | mod | notify | sizeOf | index | createDWordField | objectType
  | createQWordField | lNotEqual | lLessEqual | lGreaterEqual | lEqual | lGreater | lLess
  | toBuffer | toInteger | toString | mid | ifElse | else_ | while_ | return_
  deriving DecidableEq

/-- What a production consists of. -/
inductive Part where
  | nameString
  | number (width : ℕ)
  | termArg
  deriving DecidableEq

/-- What fills the rest of a production's frame. -/
inductive Rest where
  | nothing | termList | byteList | fieldList
  deriving DecidableEq

/-- One row of the grammar. -/
structure Rule where
  encoding : Bytes
  framed : Bool
  parts : List Part
  rest : Rest
  deriving DecidableEq

namespace Production

/-- The row of each production: its encoding, whether it is framed, its parts and
what follows them. -/
def rule : Production → Rule
  | name => ⟨[0x08], false, [.nameString, .termArg], .nothing⟩
  | scope => ⟨[0x10], true, [.nameString], .termList⟩
  | buffer => ⟨[0x11], true, [.termArg], .byteList⟩
  | package => ⟨[0x12], true, [.number 1], .termList⟩
  | varPackage => ⟨[0x13], true, [.termArg], .termList⟩
  | method => ⟨[0x14], true, [.nameString, .number 1], .termList⟩
  | mutex => ⟨[0x5b, 0x01], false, [.nameString, .number 1], .nothing⟩
  | createField =>
    ⟨[0x5b, 0x13], false, [.termArg, .termArg, .termArg, .termArg], .nothing⟩
  | acquire => ⟨[0x5b, 0x23], false, [.nameString, .number 2], .nothing⟩
  | release => ⟨[0x5b, 0x27], false, [.nameString], .nothing⟩
  | opRegion => ⟨[0x5b, 0x80], false, [.nameString, .number 1, .termArg, .termArg], .nothing⟩
  | field => ⟨[0x5b, 0x81], true, [.nameString, .number 1], .fieldList⟩
  | device => ⟨[0x5b, 0x82], true, [.nameString], .termList⟩
  | powerRes => ⟨[0x5b, 0x84], true, [.nameString, .number 1, .number 2], .termList⟩
  | store => ⟨[0x70], false, [.termArg, .termArg], .nothing⟩
  | add => ⟨[0x72], false, [.termArg, .termArg, .termArg], .nothing⟩
  | concat => ⟨[0x73], false, [.termArg, .termArg, .termArg], .nothing⟩
  | subtract => ⟨[0x74], false, [.termArg, .termArg, .termArg], .nothing⟩
  | multiply => ⟨[0x77], false, [.termArg, .termArg, .termArg], .nothing⟩
  | shiftLeft => ⟨[0x79], false, [.termArg, .termArg, .termArg], .nothing⟩
  | shiftRight => ⟨[0x7a], false, [.termArg, .termArg, .termArg], .nothing⟩
  | and => ⟨[0x7b], false, [.termArg, .termArg, .termArg], .nothing⟩
  | nand => ⟨[0x7c], false, [.termArg, .termArg, .termArg], .nothing⟩
  | or => ⟨[0x7d], false, [.termArg, .termArg, .termArg], .nothing⟩
  | nor => ⟨[0x7e], false, [.termArg, .termArg, .termArg], .nothing⟩
  | xor => ⟨[0x7f], false, [.termArg, .termArg, .termArg], .nothing⟩
  | derefOf => ⟨[0x83], false, [.termArg], .nothing⟩
  | concatRes => ⟨[0x84], false, [.termArg, .termArg, .termArg], .nothing⟩
  | mod => ⟨[0x85], false, [.termArg, .termArg, .termArg], .nothing⟩
  | notify => ⟨[0x86], false, [.termArg, .termArg], .nothing⟩
  | sizeOf => ⟨[0x87], false, [.termArg], .nothing⟩
  | index => ⟨[0x88], false, [.termArg, .termArg, .termArg], .nothing⟩
  | createDWordField => ⟨[0x8a], false, [.termArg, .termArg, .termArg], .nothing⟩
  | objectType => ⟨[0x8e], false, [.termArg], .nothing⟩
  | createQWordField => ⟨[0x8f], false, [.termArg, .termArg, .termArg], .nothing⟩
  | lNotEqual => ⟨[0x92, 0x93], false, [.termArg, .termArg], .nothing⟩
  | lLessEqual => ⟨[0x92, 0x94], false, [.termArg, .termArg], .nothing⟩
  | lGreaterEqual => ⟨[0x92, 0x95], false, [.termArg, .termArg], .nothing⟩
  | lEqual => ⟨[0x93], false, [.termArg, .termArg], .nothing⟩
  | lGreater => ⟨[0x94], false, [.termArg, .termArg], .nothing⟩
  | lLess => ⟨[0x95], false, [.termArg, .termArg], .nothing⟩
  | toBuffer => ⟨[0x96], false, [.termArg, .termArg], .nothing⟩
  | toInteger => ⟨[0x99], false, [.termArg, .termArg], .nothing⟩
  | toString => ⟨[0x9c], false, [.termArg, .termArg, .termArg], .nothing⟩
  | mid => ⟨[0x9e], false, [.termArg, .termArg, .termArg, .termArg], .nothing⟩
  | ifElse => ⟨[0xa0], true, [.termArg], .termList⟩
  | else_ => ⟨[0xa1], true, [], .termList⟩
  | while_ => ⟨[0xa2], true, [.termArg], .termList⟩
  | return_ => ⟨[0xa4], false, [.termArg], .nothing⟩

/-- All productions. -/
def all : List Production :=
  [name, scope, buffer, package, varPackage, method, mutex, createField, acquire, release,
    opRegion, field, device, powerRes, store, add, concat, subtract, multiply, shiftLeft,
    shiftRight, and, nand, or, nor, xor, derefOf, concatRes, mod, notify, sizeOf, index,
    createDWordField, objectType, createQWordField, lNotEqual, lLessEqual, lGreaterEqual, lEqual,
    lGreater, lLess, toBuffer, toInteger, toString, mid, ifElse, else_, while_, return_]

/-- The list of productions is complete. -/
theorem mem_all (op : Production) : op ∈ all := by
  cases op <;> decide

end Production

/-- A term: a leaf, or a production with its parts and the rest of its frame. -/
inductive Term where
  | int (value : ℕ)
  | ones
  | str (chars : Bytes)
  | ref (name : NameString)
  | arg (i : ℕ)
  | localVar (i : ℕ)
  | node (op : Production) (parts body : List Term)
  /-- the bytes of a `ByteList` -/
  | bytes (data : Bytes)
  /-- an entry of a `FieldList`: a named or a reserved run of bits -/
  | fieldUnit (name : Option Bytes) (bits : ℕ)

/-- What a lead encoding announces. -/
inductive Head where
  | constant (value : ℕ)
  | ones
  | number (width : ℕ)
  | string
  | localVar (i : ℕ)
  | arg (i : ℕ)
  | node (op : Production)
  deriving DecidableEq

/-- The lead encodings. -/
def rows : List (Bytes × Head) :=
  [([0x00], .constant 0), ([0x01], .constant 1), ([0xff], .ones), ([0x0a], .number 1),
    ([0x0b], .number 2), ([0x0c], .number 4), ([0x0e], .number 8), ([0x0d], .string)] ++
  (List.range 8).map (fun i => ([0x60 + UInt8.ofNat i], .localVar i)) ++
  (List.range 7).map (fun i => ([0x68 + UInt8.ofNat i], .arg i)) ++
  Production.all.map fun op => (op.rule.encoding, .node op)

/-- The row whose encoding the text begins with. -/
def lookup (s : Bytes) : Option (Bytes × Head) := rows.find? fun row => row.1.isPrefixOf s

/-! ## Terms -/

/-- `FieldElement`: a named or a reserved field with its length. -/
def fieldUnit : Reader UInt8 Term
  | 0x00 :: s => map (.fieldUnit none) pkgValue s
  | s => map (fun x => .fieldUnit (some x.1) x.2) (seq nameSeg pkgValue) s

section

variable (p : Reader UInt8 Term)

/-- Read one part, nested terms with `p`. -/
def part : Part → Reader UInt8 Term
  | .nameString => map .ref nameString
  | .number width => map .int (number width)
  | .termArg => p

/-- Read the rest of a frame. -/
def frameRest : Rest → Reader UInt8 (List Term)
  | .nothing => fun s => some ([], s)
  | .termList => many p
  | .byteList => map (fun bs => [.bytes bs]) rest
  | .fieldList => many fieldUnit

/-- Read what follows a production's encoding. -/
def production (op : Production) : Reader UInt8 Term :=
  let content := map (fun x => Term.node op x.1 x.2)
    (seq (each (part p) op.rule.parts) (frameRest p op.rule.rest))
  if op.rule.framed then Reader.framed pkgContent content else content

/-- Read what follows a lead encoding. -/
def headRest : Head → Reader UInt8 Term
  | .constant value => fun s => some (.int value, s)
  | .ones => fun s => some (.ones, s)
  | .number width => map .int (number width)
  | .string => map .str charList
  | .localVar i => fun s => some (.localVar i, s)
  | .arg i => fun s => some (.arg i, s)
  | .node op => production p op

/-- One level of a term: its head, and what the head asks for. -/
def termStep : Reader UInt8 Term := fun s =>
  match lookup s with
  | some row => headRest p row.2 (s.drop row.1.length)
  | none => map .ref nameString s

end

/-- Read a term of nesting depth below `fuel`. -/
def term : ℕ → Reader UInt8 Term
  | 0 => fun _ => none
  | fuel + 1 => termStep (term fuel)

/-- Read one term. -/
def decodeTerm : Reader UInt8 Term := fun s => term s.length s

/-- Read the whole input as a `TermList`. -/
def decodeTermList (s : Bytes) : Option (List Term) :=
  match many (term s.length) s with
  | some (ts, []) => some ts
  | _ => none

/-! ## The table -/

/-- No lead encoding is a prefix of another. -/
theorem rows_prefixFree : ∀ row ∈ rows, ∀ row' ∈ rows, row.1 <+: row'.1 → row = row' := by
  decide +kernel

/-- **The table tells encodings apart**: in front of any continuation, an
encoding selects its own row. -/
theorem lookup_row {row : Bytes × Head} (h : row ∈ rows) (s : Bytes) :
    lookup (row.1 ++ s) = some row := by
  have hself : row.1.isPrefixOf (row.1 ++ s) = true := by simp
  rcases hfind : lookup (row.1 ++ s) with _ | row'
  · exact absurd hself (List.find?_eq_none.mp hfind row h)
  · have hmem : row' ∈ rows := List.mem_of_find?_eq_some hfind
    have hpre : row'.1 <+: row.1 ++ s := by simpa using List.find?_some hfind
    rcases List.prefix_or_prefix_of_prefix hpre (List.prefix_append row.1 s) with hle | hle
    · rw [rows_prefixFree row' hmem row h hle]
    · rw [rows_prefixFree row h row' hmem hle]

/-- Each production has a row. -/
theorem mem_rows_node (op : Production) : (op.rule.encoding, Head.node op) ∈ rows :=
  List.mem_append_right _ (List.mem_map.mpr ⟨op, op.mem_all, rfl⟩)

/-- The encoding of a production's row is its own. -/
theorem encoding_eq_of_mem_rows {code : Bytes} {op : Production}
    (h : (code, Head.node op) ∈ rows) : code = op.rule.encoding := by
  simp only [rows, List.mem_append, List.mem_map, List.mem_cons, Prod.mk.injEq] at h
  rcases h with ((h | h) | h) | h
  · simp at h
  · simp at h
  · simp at h
  · obtain ⟨op', -, rfl, hop⟩ := h
    rw [Head.node.inj hop]

/-- No lead encoding starts like a name. -/
theorem rows_startsName : ∀ row ∈ rows, ∃ b s, row.1 = b :: s ∧ startsName b = false := by
  have hall : (rows.all fun row => match row.1 with
      | b :: _ => !startsName b
      | [] => false) = true := by decide +kernel
  intro row hrow
  have := List.all_eq_true.mp hall row hrow
  split at this
  · next b s heq => exact ⟨b, s, heq, by simpa using this⟩
  · cases this

/-- A name starts with no encoding of the table. -/
theorem lookup_name {b : UInt8} (h : startsName b = true) (s : Bytes) : lookup (b :: s) = none := by
  refine List.find?_eq_none.mpr fun row hrow hpre => ?_
  obtain ⟨b', s', heq, hb'⟩ := rows_startsName row hrow
  rw [heq] at hpre
  have hb : b' = b := by simpa using (List.isPrefixOf_iff_prefix.mp hpre).head
  rw [hb, h] at hb'
  cases hb'

section

variable {p : Reader UInt8 Term} {w w₁ w₂ wl : Bytes} {t : Term} {c c₁ c₂ : Prop}

/-- After an encoding its head is read. -/
theorem termStep_row {e : Bytes} {head : Head} (h : (e, head) ∈ rows) (s : Bytes) :
    termStep p (e ++ s) = headRest p head s := by
  simp [termStep, lookup_row h]

/-- A term settles as what its lead encoding announces does. -/
theorem settles_row {e : Bytes} {head : Head} (hrow : (e, head) ∈ rows)
    (h : Settles (headRest p head) w t c) : Settles (termStep p) (e ++ w) t c := by
  refine ⟨fun hc s => ?_, fun hc s r => ?_⟩
  · rw [List.append_assoc, termStep_row hrow]
    exact h.reads hc s
  · rw [List.append_assoc, termStep_row hrow]
    exact h.misses hc s r

/-- A production settles as its parts do. -/
theorem settles_production {op : Production} {parts : List Term} (hframed : op.rule.framed = false)
    (hrest : op.rule.rest = .nothing) (h : Settles (each (part p) op.rule.parts) w parts c) :
    Settles (termStep p) (op.rule.encoding ++ w) (.node op parts []) c := by
  refine settles_row (mem_rows_node op) ?_
  have hnil : Settles (frameRest p op.rule.rest) [] ([] : List Term) True := by
    rw [hrest]
    exact .of_reads fun _ => rfl
  have hcontent := (h.seq hnil).map (f := fun x => Term.node op x.1 x.2) (by
    rintro ⟨x, y⟩ ⟨x', y'⟩ heq
    injection heq with _ hx hy
    exact Prod.ext hx hy)
  rw [List.append_nil, and_true] at hcontent
  simp only [headRest, production, hframed]
  exact hcontent

/-- A framed production settles as its parts and the rest of its frame do. -/
theorem settles_framed {op : Production} {parts body : List Term} (hframed : op.rule.framed = true)
    (hlen : Settles pkgContent wl (w₁ ++ w₂).length True)
    (h : Settles (each (part p) op.rule.parts) w₁ parts c₁)
    (hrest : SettlesEnd (frameRest p op.rule.rest) w₂ body c₂) :
    Settles (termStep p) (op.rule.encoding ++ (wl ++ (w₁ ++ w₂))) (.node op parts body)
      (c₁ ∧ c₂) := by
  refine settles_row (mem_rows_node op) ?_
  have hcontent := (h.seqEnd hrest).map (f := fun x => Term.node op x.1 x.2) (by
    rintro ⟨x, y⟩ ⟨x', y'⟩ heq
    injection heq with _ hx hy
    exact Prod.ext hx hy)
  simp only [headRest, production, hframed]
  exact hcontent.framed hlen

/-- Inversion: a production is only read after its own encoding. -/
theorem encoding_prefix_of_termStep {op : Production} {parts body : List Term} {s r : Bytes}
    (h : termStep p s = some (.node op parts body, r)) : op.rule.encoding <+: s := by
  unfold termStep at h
  split at h
  · next row hrow =>
    obtain ⟨code, head⟩ := row
    have hcode : code <+: s := by simpa using List.find?_some hrow
    cases head with
    | node op' =>
      obtain rfl : op' = op := by
        simp only [headRest, production] at h
        split at h
        · obtain ⟨n, content, -, -, h, -⟩ := framed_eq_some.mp h
          obtain ⟨x, -, hx⟩ := map_eq_some.mp h
          exact (Term.node.inj hx).1
        · obtain ⟨x, -, hx⟩ := map_eq_some.mp h
          exact (Term.node.inj hx).1
      rwa [← encoding_eq_of_mem_rows (List.mem_of_find?_eq_some hrow)]
    | constant value => cases h
    | ones => cases h
    | number width =>
      obtain ⟨x, -, hx⟩ := map_eq_some.mp h
      cases hx
    | string =>
      obtain ⟨x, -, hx⟩ := map_eq_some.mp h
      cases hx
    | localVar i => cases h
    | arg i => cases h
  · obtain ⟨x, -, hx⟩ := map_eq_some.mp h
    cases hx

end

end AcpiTables
