import Mathlib.Data.List.TakeWhile
import AcpiTables.AmlReference

/-!
# The interrupt routing of the reference

`append_q35_prt_entry` and `build_q35_routing_table` of `acpi-build.c`. The
loop over the pins rotates the link name within its group of four letters, with
a `head` that becomes negative; its packages are
`appendQ35PrtEntry_eq_reference`, the table is `referenceTable_eq`. A link that
starts with a prefix character is not written as one segment (`namestring`).

The packages are said in terms of the bytes of the link, its letter and its group
(`prtEntries`, `rotatedLetter`), which do not know how either program moves the
letter. A link is a C string of four characters, so none of its bytes is zero
(`strlen_eq_four_iff`), and that is asserted before anything is appended.
-/

namespace AcpiTables

open MachineInt

/-! ## The reference -/

namespace AcpiBuild

open AmlBuild

/-- The state of the loop: the package that is filled, the name and `head`. -/
structure PrtState where
  ctx : AmlBuild.Aml
  s : Bytes
  head : ℤ

/-- `name[3]`. -/
def fourthByte (name : Bytes) : Checked UInt8 :=
  match name[3]? with
  | some c => .ok c
  | none => .error .outOfRange

/-- `strlen`: the bytes in front of the first NUL. -/
def strlen (s : Bytes) : ℕ := (s.takeWhile (· ≠ 0)).length

/-- One round of the loop. -/
def appendQ35PrtPin (aNr : AmlBuild.Aml) (base : UInt8) (state : PrtState) (i : ℕ) :
    Checked PrtState := do
  let head := if state.head + i > 3 then (i : ℤ) * -1 else state.head
  let s ← setByte state.s 3 (UInt8.ofInt (base.toNat + head + i))
  let pkg := amlPackage 4
  let pkg := amlAppend pkg aNr
  let pkg := amlAppend pkg (amlInt (UInt64.ofNat i))
  let pkg := amlAppend pkg (← amlName s)
  let pkg := amlAppend pkg (amlInt 0)
  return { ctx := amlAppend state.ctx pkg, s, head }

/-- `append_q35_prt_entry`: the four packages of a slot, from a link of four
characters. -/
def appendQ35PrtEntry (ctx : AmlBuild.Aml) (nr : UInt32) (name : Bytes) :
    Checked AmlBuild.Aml := do
  let base : UInt8 := if (← fourthByte name) < 0x45 then 0x41 else 0x45
  let s := name
  let aNr := amlInt ((nr <<< 16) ||| 0xffff).toUInt64
  ensure (strlen s = 4) .assertion
  let head : ℤ := (← fourthByte name).toNat - base.toNat
  let state ← [0, 1, 2, 3].foldlM (appendQ35PrtPin aNr base) { ctx, s, head }
  return state.ctx

/-- The slots of the table and the letter that `name[3]` is set to for each. -/
def q35Slots : List (UInt32 × UInt8) :=
  (List.range 0x18).map (fun i => (UInt32.ofNat i, 0x45 + UInt8.ofNat (i &&& 0x3))) ++
    [(0x18, 0x45)] ++ (List.range' 0x19 5).map (fun i => (UInt32.ofNat i, 0x41)) ++
    [(0x1e, 0x45), (0x1f, 0x41)]

/-- `build_q35_routing_table`: the letter in `name[3]` goes from slot to slot. -/
def buildQ35RoutingTable (str : Bytes) : Checked AmlBuild.Aml := do
  let name := str ++ [0x20]
  let pkg := amlPackage 128
  let (pkg, _) ← q35Slots.foldlM (fun (pkg, name) (slot, letter) => do
    let name ← setByte name 3 letter
    return (← appendQ35PrtEntry pkg slot name, name)) (pkg, name)
  return pkg

end AcpiBuild

/-! ## Entries -/

/-- The package of a slot and a pin, by the bytes of its link. -/
def prtEntry (slot : UInt32) (pin : UInt8) (link : Bytes) : Bytes :=
  frame [packageOp]
    (4 :: (encodeInt ((slot <<< 16) ||| 0xffff).toNat ++ encodeInt pin.toNat ++ link ++ [zeroOp]))

/-- The letters of a group start from here. -/
def groupBase (letter : UInt8) : UInt8 := if letter < 0x45 then 0x41 else 0x45

/-- The letter of a pin: the letter of the slot, moved on within its group. -/
def rotatedLetter (letter : UInt8) (pin : ℕ) : UInt8 :=
  groupBase letter + UInt8.ofNat (((letter - groupBase letter).toNat + pin) % 4)

/-- The packages of a slot, by the first three bytes of the link and its letter. -/
def prtEntries (slot : UInt32) (lead : Bytes) (letter : UInt8) : Bytes :=
  [0, 1, 2, 3].flatMap fun pin =>
    prtEntry slot (UInt8.ofNat pin) (lead ++ [rotatedLetter letter pin])

/-- More bytes for an object. -/
def AmlBuild.Aml.push (ctx : AmlBuild.Aml) (bytes : Bytes) : AmlBuild.Aml :=
  { ctx with buf := ctx.buf ++ bytes }

/-- Bytes are pushed one after the other. -/
theorem AmlBuild.Aml.push_push (ctx : AmlBuild.Aml) (bytes bytes' : Bytes) :
    (ctx.push bytes).push bytes' = ctx.push (bytes ++ bytes') := by
  simp [AmlBuild.Aml.push]

/-! ## What the reference appends -/

/-- The bytes of a name of one segment. -/
def namestring (s : Bytes) : Bytes :=
  let (pre, seg) := AmlBuild.appendRootOrPrefixPath [] s
  pre ++ seg ++ List.replicate (4 - seg.length) 0x5f

/-- The prefix of a name: only roots and parents are taken from its front. -/
theorem appendRootOrPrefixPath_spec (array s : Bytes) :
    ∃ pre, (AmlBuild.appendRootOrPrefixPath array s).1 = array ++ pre ∧
      pre ++ (AmlBuild.appendRootOrPrefixPath array s).2 = s ∧
      (∀ c ∈ pre, c = 0x5c ∨ c = 0x5e) := by
  induction s generalizing array with
  | nil => exact ⟨[], by simp [AmlBuild.appendRootOrPrefixPath]⟩
  | cons c s ih =>
    rw [AmlBuild.appendRootOrPrefixPath]
    split_ifs with h
    · obtain ⟨pre, hfst, hsnd, hall⟩ := ih (array ++ [c])
      refine ⟨c :: pre, ?_, ?_, ?_⟩
      · rw [hfst, List.append_assoc, List.singleton_append]
      · rw [List.cons_append, hsnd]
      · exact List.forall_mem_cons.mpr ⟨h, hall⟩
    · exact ⟨[], by simp⟩

/-- The packages of a slot, with links as the reference writes them. -/
def referenceEntries (slot : UInt32) (lead : Bytes) (letter : UInt8) : Bytes :=
  [0, 1, 2, 3].flatMap fun pin =>
    prtEntry slot (UInt8.ofNat pin) (namestring (lead ++ [rotatedLetter letter pin]))

/-- The parts of a name: its prefix, its segment, and underscores up to four
characters. -/
theorem namestring_eq (s : Bytes) :
    namestring s = (AmlBuild.appendRootOrPrefixPath [] s).1 ++
      (AmlBuild.appendRootOrPrefixPath [] s).2 ++
        List.replicate (4 - (AmlBuild.appendRootOrPrefixPath [] s).2.length) 0x5f :=
  rfl

/-- A name of four characters takes four bytes for its segment and at most four for
its prefix. -/
theorem length_namestring {s : Bytes} (h : s.length = 4) :
    4 ≤ (namestring s).length ∧ (namestring s).length ≤ 8 := by
  obtain ⟨pre, hfst, hsnd, -⟩ := appendRootOrPrefixPath_spec [] s
  have hlen := congrArg List.length hsnd
  rw [namestring_eq, hfst, List.nil_append]
  simp only [List.length_append, List.length_replicate] at hlen ⊢
  omega

/-- A name that starts with a prefix character takes more than its four bytes. -/
theorem length_namestring_of_caret {s : Bytes} (h : s.length = 3) :
    4 < (namestring (0x5e :: s)).length := by
  obtain ⟨pre, hfst, hsnd, -⟩ := appendRootOrPrefixPath_spec [0x5e] s
  have hlen := congrArg List.length hsnd
  rw [namestring_eq, AmlBuild.appendRootOrPrefixPath, if_pos (.inr rfl), List.nil_append, hfst]
  simp only [List.length_append, List.length_replicate, List.length_cons, List.length_nil] at hlen ⊢
  omega

/-- A name without a prefix character is its own four bytes. -/
theorem namestring_of_plain {c : UInt8} {s : Bytes} (hlen : s.length = 3) (hbackslash : c ≠ 0x5c)
    (hcaret : c ≠ 0x5e) : namestring (c :: s) = c :: s := by
  rw [namestring_eq, AmlBuild.appendRootOrPrefixPath, if_neg (not_or.mpr ⟨hbackslash, hcaret⟩)]
  simp [hlen]

/-- A name of one segment that does not end in a prefix character. -/
theorem amlName_eq {s : Bytes} {letter : UInt8} (hlen : s.length = 3)
    (hdot : 0x2e ∉ s ++ [letter]) (hletter : letter ≠ 0x5c ∧ letter ≠ 0x5e) :
    AmlBuild.amlName (s ++ [letter]) =
      .ok { AmlBuild.amlAlloc with buf := namestring (s ++ [letter]) } := by
  have hsplit : AmlBuild.gStrsplit (s ++ [letter]) = [s ++ [letter]] := by
    rw [AmlBuild.gStrsplit, if_neg (by simp), List.splitOn_eq_singleton hdot]
  obtain ⟨pre, hfst, hsnd, hall⟩ := appendRootOrPrefixPath_spec [] (s ++ [letter])
  have hle := congrArg List.length hsnd
  simp only [List.length_append, List.length_cons, List.length_nil] at hle
  have hne : (AmlBuild.appendRootOrPrefixPath [] (s ++ [letter])).2 ≠ [] := by
    intro hnil
    rw [hnil, List.append_nil] at hsnd
    rcases hall letter (by rw [hsnd]; simp) with h | h
    · exact hletter.1 h
    · exact hletter.2 h
  have hseg : AmlBuild.buildAppendNamestringv [] (s ++ [letter]) =
      .ok (namestring (s ++ [letter])) := by
    rw [AmlBuild.buildAppendNamestringv, hsplit]
    dsimp only
    rw [ensure_of (by rw [List.length_singleton]; decide), Checked.ok_bind, if_neg hne,
      AmlBuild.buildAppendNameseg, ensure_of (by rw [AmlBuild.acpiNamesegLen]; omega)]
    rfl
  rw [AmlBuild.amlName]
  change (AmlBuild.buildAppendNamestringv [] (s ++ [letter]) >>= _) = _
  rw [hseg]
  rfl

/-- The package that a round of the loop appends. -/
theorem amlAppend_prtEntry (ctx : AmlBuild.Aml) (nr : UInt32) {i : ℕ} (hi : i < 4) {link : Bytes}
    (hlink : link.length ≤ 8) :
    AmlBuild.amlAppend ctx
      (AmlBuild.amlAppend (AmlBuild.amlAppend (AmlBuild.amlAppend
        (AmlBuild.amlAppend (AmlBuild.amlPackage 4)
          (AmlBuild.amlInt ((nr <<< 16) ||| 0xffff).toUInt64))
        (AmlBuild.amlInt (UInt64.ofNat i)))
        { AmlBuild.amlAlloc with buf := link }) (AmlBuild.amlInt 0)) =
      ctx.push (prtEntry nr (UInt8.ofNat i) link) := by
  have hint : ∀ v : UInt64, (AmlBuild.amlInt v).buf = encodeInt v.toNat := fun v =>
    buildAppendInt_eq [] v
  have hpin : (UInt64.ofNat i).toNat = (UInt8.ofNat i).toNat := by
    rw [UInt64.toNat_ofNat', UInt8.toNat_ofNat']
    omega
  set content : Bytes := 4 :: (encodeInt ((nr <<< 16) ||| 0xffff).toNat ++
    encodeInt (UInt8.ofNat i).toNat ++ link ++ [zeroOp]) with hcontent
  have hlength : content.length < 268435456 := by
    have hadr := length_encodeInt_le ((nr <<< 16) ||| 0xffff).toNat
    have hpinLen := length_encodeInt_le (UInt8.ofNat i).toNat
    simp only [hcontent, List.length_cons, List.length_append, List.length_nil]
    omega
  have hinner : AmlBuild.amlAppend (AmlBuild.amlAppend (AmlBuild.amlAppend
      (AmlBuild.amlAppend (AmlBuild.amlPackage 4)
        (AmlBuild.amlInt ((nr <<< 16) ||| 0xffff).toUInt64))
      (AmlBuild.amlInt (UInt64.ofNat i)))
      { AmlBuild.amlAlloc with buf := link }) (AmlBuild.amlInt 0) = ⟨content, 0x12, .package⟩ := by
    change AmlBuild.Aml.mk
      (([4] : Bytes) ++ (AmlBuild.amlInt ((nr <<< 16) ||| 0xffff).toUInt64).buf ++
      (AmlBuild.amlInt (UInt64.ofNat i)).buf ++ link ++ (AmlBuild.amlInt 0).buf) 0x12 .package = _
    rw [hint, hint, hint, hpin, UInt32.toNat_toUInt64, hcontent]
    simp [encodeInt]
  rw [hinner, prtEntry, ← hcontent, ← buildPackage_eq (by omega)]
  rfl

/-- The letters of the two groups. -/
def groupLetters : List UInt8 := [0x41, 0x42, 0x43, 0x44, 0x45, 0x46, 0x47, 0x48]

/-- `head` in the round of a pin. -/
def headAt (letter : UInt8) (pin : ℕ) : ℤ :=
  let head := (letter - groupBase letter).toNat
  if head + pin ≤ 3 then head else head - 4

/-- The fourth character is replaced. -/
theorem setByte_fourth {lead : Bytes} (hlead : lead.length = 3) (y letter : UInt8) :
    setByte (lead ++ [y]) 3 letter = .ok (lead ++ [letter]) := by
  rw [setByte_of_lt (by simp [hlead]), patch, List.take_append_of_le_length hlead.ge,
    List.take_of_length_le hlead.le, List.drop_eq_nil_of_le (by simp [hlead]), List.append_nil]

/-- One turn of the loop over the pins, with its letter and the head it leaves. -/
theorem appendQ35PrtPin_eq_reference {nr : UInt32} {lead : Bytes} {y base letter : UInt8}
    {prev head : ℤ} {i : ℕ} (hi : i < 4) (hlead : lead.length = 3) (hdot : 0x2e ∉ lead ++ [letter])
    (hplain : letter ≠ 0x5c ∧ letter ≠ 0x5e)
    (hhead : (if prev + i > 3 then (i : ℤ) * -1 else prev) = head)
    (hletter : UInt8.ofInt (base.toNat + head + i) = letter) (ctx : AmlBuild.Aml) :
    AcpiBuild.appendQ35PrtPin (AmlBuild.amlInt ((nr <<< 16) ||| 0xffff).toUInt64) base
        ⟨ctx, lead ++ [y], prev⟩ i =
      .ok ⟨ctx.push (prtEntry nr (UInt8.ofNat i) (namestring (lead ++ [letter]))),
        lead ++ [letter], head⟩ := by
  have hlink := (length_namestring (s := lead ++ [letter]) (by simp [hlead])).2
  rw [AcpiBuild.appendQ35PrtPin]
  dsimp only
  rw [hhead, hletter, setByte_fourth hlead, Checked.ok_bind, amlName_eq hlead hdot hplain,
    Checked.ok_bind, amlAppend_prtEntry ctx nr hi hlink]
  rfl

/-- Four bytes are a C string of four characters if none of them ends it. -/
theorem strlen_eq_four_iff {s : Bytes} (h : s.length = 4) : AcpiBuild.strlen s = 4 ↔ 0 ∉ s := by
  have hall : (∀ b ∈ s, decide (b ≠ 0) = true) ↔ 0 ∉ s := by
    constructor
    · intro hs hmem
      exact of_decide_eq_true (hs 0 hmem) rfl
    · intro hs b hb
      exact decide_eq_true fun h0 => hs (h0 ▸ hb)
  rw [AcpiBuild.strlen, ← hall, ← List.takeWhile_eq_self_iff]
  constructor
  · intro hlen
    exact (List.takeWhile_prefix _).eq_of_length (hlen.trans h.symm)
  · intro heq
    rw [heq, h]

/-- A link that has packages does not end early. -/
theorem zero_notMem_of_appendQ35PrtEntry {name : Bytes} (hname : name.length = 4) {nr : UInt32}
    {ctx ctx' : AmlBuild.Aml} (h : AcpiBuild.appendQ35PrtEntry ctx nr name = .ok ctx') :
    0 ∉ name := by
  rw [AcpiBuild.appendQ35PrtEntry] at h
  obtain ⟨fourth, -, h⟩ := Checked.bind_eq_ok.mp h
  obtain ⟨_, hlen, -⟩ := Checked.bind_eq_ok.mp h
  exact (strlen_eq_four_iff hname).mp (ensure_eq_ok.mp hlen)

/-- **The packages of the reference**, for every letter of a group. -/
theorem appendQ35PrtEntry_eq_reference {lead : Bytes} {letter : UInt8} (hlead : lead.length = 3)
    (hdot : 0x2e ∉ lead) (hnul : 0 ∉ lead) (hletter : letter ∈ groupLetters) (nr : UInt32)
    (ctx : AmlBuild.Aml) :
    AcpiBuild.appendQ35PrtEntry ctx nr (lead ++ [letter]) =
      .ok (ctx.push (referenceEntries nr lead letter)) := by
  have hfourth : AcpiBuild.fourthByte (lead ++ [letter]) = .ok letter := by
    rw [AcpiBuild.fourthByte, List.getElem?_append_right hlead.le, hlead]
    rfl
  have hrounds : ∀ letter ∈ groupLetters,
      ((letter.toNat : ℤ) - (groupBase letter).toNat = headAt letter 0) ∧
      ∀ pin ∈ [0, 1, 2, 3],
        (if headAt letter (pin - 1) + (pin : ℤ) > 3 then (pin : ℤ) * -1
          else headAt letter (pin - 1)) = headAt letter pin ∧
        UInt8.ofInt ((groupBase letter).toNat + headAt letter pin + pin) =
          rotatedLetter letter pin ∧
        rotatedLetter letter pin ≠ 0x2e ∧ rotatedLetter letter pin ≠ 0x5c ∧
        rotatedLetter letter pin ≠ 0x5e ∧ pin < 4 := forall_mem_of_all (by decide)
  obtain ⟨hstart, hround⟩ := hrounds letter hletter
  have hletters : ∀ letter ∈ groupLetters, 0 ≠ letter := forall_mem_of_all (by decide)
  have hstrlen : AcpiBuild.strlen (lead ++ [letter]) = 4 := by
    rw [strlen_eq_four_iff (by simp [hlead]), List.mem_append, List.mem_singleton, not_or]
    exact ⟨hnul, hletters letter hletter⟩
  have hpin : ∀ pin ∈ [0, 1, 2, 3], ∀ y ctx,
      AcpiBuild.appendQ35PrtPin (AmlBuild.amlInt ((nr <<< 16) ||| 0xffff).toUInt64)
        (groupBase letter) ⟨ctx, lead ++ [y], headAt letter (pin - 1)⟩ pin =
      .ok ⟨ctx.push (prtEntry nr (UInt8.ofNat pin)
          (namestring (lead ++ [rotatedLetter letter pin]))),
        lead ++ [rotatedLetter letter pin], headAt letter pin⟩ := by
    intro pin hmem y ctx
    obtain ⟨hhead, hnext, hnodot, hbackslash, hcaret, hlt⟩ := hround pin hmem
    have hdot' : 0x2e ∉ lead ++ [rotatedLetter letter pin] := by
      rw [List.mem_append, List.mem_singleton, not_or]
      exact ⟨hdot, hnodot.symm⟩
    exact appendQ35PrtPin_eq_reference hlt hlead hdot' ⟨hbackslash, hcaret⟩ hhead hnext ctx
  simp only [List.forall_mem_cons, List.not_mem_nil, false_implies, implies_true, and_true,
    Nat.zero_sub, Nat.sub_self, Nat.reduceSub] at hpin
  obtain ⟨hpin0, hpin1, hpin2, hpin3⟩ := hpin
  have hbase : (if letter < 0x45 then (0x41 : UInt8) else 0x45) = groupBase letter := rfl
  rw [AcpiBuild.appendQ35PrtEntry, hfourth, Checked.ok_bind]
  dsimp only
  rw [ensure_of hstrlen, Checked.ok_bind, Checked.ok_bind, hbase, hstart]
  simp only [List.foldlM_cons, hpin0, hpin1, hpin2, hpin3, List.foldlM_nil, Checked.ok_bind,
    Checked.pure_eq]
  simp [referenceEntries, AmlBuild.Aml.push_push]

/-! ## Lengths -/

/-- The length of a package, whose link has at most eight bytes. -/
theorem length_prtEntry {slot : UInt32} {pin : UInt8} {link : Bytes} (h : link.length ≤ 8) :
    (prtEntry slot pin link).length =
      4 + (encodeInt ((slot <<< 16) ||| 0xffff).toNat).length + (encodeInt pin.toNat).length +
        link.length := by
  have hadr := length_encodeInt_le ((slot <<< 16) ||| 0xffff).toNat
  have hpin := length_encodeInt_le pin.toNat
  rw [prtEntry, frame, List.length_append, List.length_append, length_createPkgLength_eq, pkgWidth,
    if_pos]
  all_goals simp only [List.length_cons, List.length_append, List.length_nil]
  all_goals omega

/-- With a prefix character the packages of the reference are longer. -/
theorem length_prtEntries_lt (slot : UInt32) (b c letter : UInt8) :
    (prtEntries slot [0x5e, b, c] letter).length <
      (referenceEntries slot [0x5e, b, c] letter).length := by
  have hlink : ∀ y : UInt8, 4 < (namestring ([0x5e, b, c] ++ [y])).length ∧
      (namestring ([0x5e, b, c] ++ [y])).length ≤ 8 := fun y =>
    ⟨length_namestring_of_caret rfl, (length_namestring rfl).2⟩
  have hshort : ∀ y : UInt8, ([0x5e, b, c] ++ [y] : Bytes).length = 4 := fun y => rfl
  have hstep : ∀ pin : ℕ,
      (prtEntry slot (UInt8.ofNat pin) ([0x5e, b, c] ++ [rotatedLetter letter pin])).length <
      (prtEntry slot (UInt8.ofNat pin)
        (namestring ([0x5e, b, c] ++ [rotatedLetter letter pin]))).length := by
    intro pin
    have hlong := hlink (rotatedLetter letter pin)
    rw [length_prtEntry hlong.2, length_prtEntry (by rw [hshort]; decide), hshort]
    omega
  have h0 := hstep 0
  have h1 := hstep 1
  have h2 := hstep 2
  have h3 := hstep 3
  simp only [prtEntries, referenceEntries, List.flatMap_cons, List.flatMap_nil, List.append_nil,
    List.length_append] at *
  omega

/-- Without a prefix character the packages of the reference are the expected ones. -/
theorem referenceEntries_of_plain {slot : UInt32} {a b c letter : UInt8}
    (ha : a ≠ 0x5c ∧ a ≠ 0x5e) :
    referenceEntries slot [a, b, c] letter = prtEntries slot [a, b, c] letter := by
  have hname : ∀ y, namestring ([a, b, c] ++ [y]) = [a, b, c] ++ [y] := fun y =>
    namestring_of_plain rfl ha.1 ha.2
  simp only [referenceEntries, prtEntries, hname]

/-! ## The table -/

/-- An entry ends where its length says, and holds its link. -/
theorem prtEntry_append_inj {slot : UInt32} {pin : UInt8} {link link' rest rest' : Bytes}
    (hlink : link.length ≤ 8) (hlink' : link'.length ≤ 8)
    (h : prtEntry slot pin link ++ rest = prtEntry slot pin link' ++ rest') :
    link = link' ∧ rest = rest' := by
  obtain ⟨adr, hadr⟩ : ∃ adr,
      adr = encodeInt ((slot <<< 16) ||| 0xffff).toNat ++ encodeInt pin.toNat := ⟨_, rfl⟩
  have hadrLength : adr.length ≤ 18 := by
    have := length_encodeInt_le ((slot <<< 16) ||| 0xffff).toNat
    have := length_encodeInt_le pin.toNat
    rw [hadr, List.length_append]
    omega
  have hentry : ∀ {link : Bytes}, link.length ≤ 8 → prtEntry slot pin link =
      packageOp :: UInt8.ofNat (adr.length + link.length + 3) :: 4 ::
        (adr ++ link ++ [zeroOp]) := by
    intro link hlink
    have hsmall : (4 :: (adr ++ link ++ [zeroOp])).length < 63 := by
      simp only [List.length_cons, List.length_append, List.length_nil]
      omega
    rw [prtEntry, ← hadr, frame, createPkgLength_eq]
    dsimp only
    rw [pkgWidth, if_pos hsmall, if_pos rfl, if_pos rfl]
    simp only [List.length_cons, List.length_append, List.length_nil, List.cons_append,
      List.nil_append, Nat.add_assoc, Nat.zero_add, Nat.reduceAdd]
  rw [hentry hlink, hentry hlink', List.cons_append, List.cons_append, List.cons_append,
    List.cons_append, List.cons_append, List.cons_append] at h
  obtain ⟨hbyte, hcontent⟩ := List.cons.inj (List.cons.inj h).2
  have hlength : link.length = link'.length := by
    have := congrArg UInt8.toNat hbyte
    rw [UInt8.toNat_ofNat', UInt8.toNat_ofNat'] at this
    omega
  have hrest := (List.cons.inj hcontent).2
  rw [List.append_assoc, List.append_assoc, List.append_assoc, List.append_assoc] at hrest
  obtain ⟨hlinks, htail⟩ := List.append_inj (List.append_cancel_left hrest) hlength
  exact ⟨hlinks, List.append_cancel_left htail⟩

/-- A table is built only for the start of a link that does not end early. -/
theorem zero_notMem_of_buildQ35RoutingTable {lead : Bytes} (hlead : lead.length = 3)
    {pkg : AmlBuild.Aml} (h : AcpiBuild.buildQ35RoutingTable lead = .ok pkg) : 0 ∉ lead := by
  have hsplit : AcpiBuild.q35Slots = (0, 0x45) :: AcpiBuild.q35Slots.drop 1 := rfl
  rw [AcpiBuild.buildQ35RoutingTable, hsplit, List.foldlM_cons] at h
  obtain ⟨_, h, -⟩ := Checked.bind_eq_ok.mp h
  obtain ⟨_, h, -⟩ := Checked.bind_eq_ok.mp h
  dsimp only at h
  rw [setByte_fourth hlead, Checked.ok_bind] at h
  obtain ⟨_, hentry, -⟩ := Checked.bind_eq_ok.mp h
  have hname := zero_notMem_of_appendQ35PrtEntry (by simp [hlead]) hentry
  exact fun hmem => hname (List.mem_append_left _ hmem)

/-- The whole table of the reference. -/
theorem referenceTable_eq {lead : Bytes} (hlead : lead.length = 3) (hdot : 0x2e ∉ lead)
    (hnul : 0 ∉ lead) :
    AcpiBuild.buildQ35RoutingTable lead = .ok ((AmlBuild.amlPackage 128).push
      (AcpiBuild.q35Slots.flatMap fun (slot, letter) => referenceEntries slot lead letter)) := by
  have hfold : ∀ (slots : List (UInt32 × UInt8)) (pkg : AmlBuild.Aml) (y : UInt8),
      (∀ x ∈ slots, x.2 ∈ groupLetters) →
      ∃ y', slots.foldlM (fun (pkg, name) (slot, letter) => do
          let name ← setByte name 3 letter
          return (← AcpiBuild.appendQ35PrtEntry pkg slot name, name)) (pkg, lead ++ [y]) =
        (.ok (pkg.push (slots.flatMap fun (slot, letter) => referenceEntries slot lead letter),
          lead ++ [y']) : Checked (AmlBuild.Aml × Bytes)) := by
    intro slots
    induction slots with
    | nil =>
      intro pkg y _
      exact ⟨y, by simp [AmlBuild.Aml.push]⟩
    | cons x slots ih =>
      intro pkg y hslots
      obtain ⟨slot, letter⟩ := x
      obtain ⟨hletter, hslots⟩ := List.forall_mem_cons.mp hslots
      obtain ⟨y', hrest⟩ := ih (pkg.push (referenceEntries slot lead letter)) letter hslots
      refine ⟨y', ?_⟩
      rw [List.foldlM_cons]
      dsimp only
      rw [setByte_fourth hlead, Checked.ok_bind,
        appendQ35PrtEntry_eq_reference hlead hdot hnul hletter, Checked.ok_bind, Checked.pure_eq,
        Checked.ok_bind, hrest, AmlBuild.Aml.push_push, List.flatMap_cons]
  obtain ⟨y', htable⟩ := hfold AcpiBuild.q35Slots (AmlBuild.amlPackage 128) 0x20
    (forall_mem_of_all (by decide))
  rw [AcpiBuild.buildQ35RoutingTable, htable]
  rfl

/-- A frame determines its content. -/
theorem frame_inj {op content content' : Bytes} (h : frame op content = frame op content') :
    content = content' := by
  have hlength := congrArg List.length h
  simp only [frame, List.length_append, length_createPkgLength_eq] at hlength
  have hsame : content.length = content'.length := by
    unfold pkgWidth at hlength
    split_ifs at hlength <;> omega
  rw [frame, frame, hsame] at h
  exact List.append_cancel_left h

/-- Parts of at most `bound` bytes each. -/
theorem length_flatMap_le {α : Type} {l : List α} {f : α → Bytes} {bound : ℕ}
    (h : ∀ x ∈ l, (f x).length ≤ bound) : (l.flatMap f).length ≤ bound * l.length := by
  induction l with
  | nil => simp
  | cons x l ih =>
    obtain ⟨hx, hl⟩ := List.forall_mem_cons.mp h
    have := ih hl
    rw [List.flatMap_cons, List.length_append, List.length_cons, Nat.mul_succ]
    omega

/-- The packages of a slot take at most 120 bytes. -/
theorem length_referenceEntries_le {slot : UInt32} {lead : Bytes} {letter : UInt8}
    (hlead : lead.length = 3) : (referenceEntries slot lead letter).length ≤ 120 := by
  have hentry : ∀ pin ∈ [0, 1, 2, 3], (prtEntry slot (UInt8.ofNat pin)
      (namestring (lead ++ [rotatedLetter letter pin]))).length ≤ 30 := by
    intro pin _
    have hlink := (length_namestring (s := lead ++ [rotatedLetter letter pin]) (by simp [hlead])).2
    have := length_encodeInt_le ((slot <<< 16) ||| 0xffff).toNat
    have := length_encodeInt_le (UInt8.ofNat pin).toNat
    rw [length_prtEntry hlink]
    omega
  exact length_flatMap_le hentry

/-- The reference table starts with the entries of a slot from `E` and of one
from `F`. -/
theorem referenceTable_buf {lead : Bytes} {pkg : AmlBuild.Aml} (hlead : lead.length = 3)
    (hdot : 0x2e ∉ lead) (h : AcpiBuild.buildQ35RoutingTable lead = .ok pkg) :
    (AmlBuild.amlAppend AmlBuild.amlAlloc pkg).buf = frame [packageOp] pkg.buf ∧
    ∃ rest, pkg.buf =
      128 :: (referenceEntries 0 lead 0x45 ++ (referenceEntries 1 lead 0x46 ++ rest)) := by
  have hsplit : AcpiBuild.q35Slots = (0, 0x45) :: (1, 0x46) :: AcpiBuild.q35Slots.drop 2 := rfl
  have hslots : AcpiBuild.q35Slots.length = 32 := by decide
  have hle : (AcpiBuild.q35Slots.flatMap fun (slot, letter) =>
      referenceEntries slot lead letter).length ≤ 120 * 32 := by
    rw [← hslots]
    exact length_flatMap_le fun x _ => length_referenceEntries_le hlead
  rw [referenceTable_eq hlead hdot (zero_notMem_of_buildQ35RoutingTable hlead h)] at h
  obtain rfl := Except.ok.inj h
  constructor
  · rw [← buildPackage_eq]
    · rfl
    · rw [AmlBuild.Aml.push, List.length_append]
      change 1 + _ < _
      omega
  · rw [AmlBuild.Aml.push, hsplit, List.flatMap_cons, List.flatMap_cons]
    exact ⟨_, rfl⟩

end AcpiTables
