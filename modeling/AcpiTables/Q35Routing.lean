import AcpiTables.DsdtTree
import AcpiTables.Q35Reference

/-!
# The interrupt routing and its reference

What of the reference the generator reproduces. The `head` of its loop is an
unsigned byte: it overflows wherever the rotation wraps around, so that only the
first letter of a group is left (`prtEntriesAgree_iff`). Its table starts every
slot from such a letter, and is not the reference's table for any prefix
(`routing_matches_reference_iff`).

In one direction the generator is followed through its loop: if the four rounds
return then the head was zero and the first of them has made a path of the link
(`prtLoop_eq_ok`), so the link is a plain segment. In the other its packages are
those of `Q35Reference` for the same bytes (`appendQ35PrtEntry_eq_entries`). The
tables differ in their second slot, where the reference has gone on to the next
letter (`routingTables_differ`).
-/

namespace AcpiTables

open MachineInt

/-! ## What the generator appends -/

section Generator

variable {a b c x : Char}

/-- The bytes of the first three characters. -/
def leadBytes (a b c : Char) : Bytes :=
  [UInt8.ofNat a.toNat, UInt8.ofNat b.toNat, UInt8.ofNat c.toNat]

/-- The bytes of a link's name: its prefix and its letter. -/
theorem asBytes_link (habc : ∀ y ∈ [a, b, c], y.toNat < 128) (hx : x.toNat < 128) :
    asBytes (String.ofList [a, b, c, x]) = leadBytes a b c ++ [UInt8.ofNat x.toNat] := by
  rw [asBytes_ofList]
  · rfl
  · intro y hy
    rw [show [a, b, c, x] = [a, b, c] ++ [x] from rfl, List.mem_append, List.mem_singleton] at hy
    rcases hy with hy | rfl
    · exact habc y hy
    · exact hx

/-- A prefix and a letter make a name. -/
theorem ofList_append_singleton : String.ofList [a, b, c] ++ String.ofList [x] =
    String.ofList [a, b, c, x] := by
  rw [← String.ofList_append]
  rfl

/-- A path of one segment is the bytes of its name. -/
theorem encode_seg {name : String} (h : (asBytes name).length = 4) :
    (Path.seg name).encode = asBytes name := by
  simp [Path.seg, h, Path.encode, segCountPrefix]

/-- The entry of the generator's tables, in bytes. -/
theorem encode_prtEntryTree (habc : ∀ y ∈ [a, b, c], y.toNat < 128) (hx : x = 'A' ∨ x = 'E')
    (slot : UInt32) {pin : ℕ} (hpin : pin ∈ [0, 1, 2, 3]) :
    (prtEntryTree (String.ofList [a, b, c]) (String.ofList [x]) slot (UInt8.ofNat pin)).encode =
      prtEntry slot (UInt8.ofNat pin)
        (leadBytes a b c ++ [rotatedLetter (UInt8.ofNat x.toNat) pin]) := by
  have hletters : ∀ x ∈ ['A', 'E'], ∀ pin ∈ [0, 1, 2, 3],
      (linkLetter (String.ofList [x]) (UInt8.ofNat pin)).toNat < 128 ∧
      UInt8.ofNat (linkLetter (String.ofList [x]) (UInt8.ofNat pin)).toNat =
        rotatedLetter (UInt8.ofNat x.toNat) pin := forall_mem_of_all (by decide)
  obtain ⟨hascii, hletter⟩ := hletters x (by simpa using hx) pin hpin
  have hlink := asBytes_link habc hascii
  rw [hletter] at hlink
  have hfour : (asBytes (String.ofList
      [a, b, c, linkLetter (String.ofList [x]) (UInt8.ofNat pin)])).length = 4 := by
    rw [hlink]
    rfl
  rw [prtEntryTree, ofList_append_singleton, prtEntry, AmlTree.encode, AmlTree.encodeAll_eq]
  simp only [List.flatMap_cons, List.flatMap_nil, AmlTree.encode, encode_seg hfour, hlink,
    List.append_nil, List.append_assoc, List.length_cons, List.length_nil]
  rfl

/-- The entries of a slot, in bytes. -/
theorem flatMap_prtEntryTree (habc : ∀ y ∈ [a, b, c], y.toNat < 128) (hx : x = 'A' ∨ x = 'E')
    (slot : UInt32) :
    ([0, 1, 2, 3].map (prtEntryTree (String.ofList [a, b, c]) (String.ofList [x]) slot)).flatMap
        AmlTree.encode =
      prtEntries slot (leadBytes a b c) (UInt8.ofNat x.toNat) := by
  have hentry : ∀ pin ∈ [0, 1, 2, 3], _ := fun pin hpin => encode_prtEntryTree habc hx slot hpin
  simp only [List.forall_mem_cons, List.not_mem_nil, false_implies, implies_true, and_true]
    at hentry
  obtain ⟨hentry0, hentry1, hentry2, hentry3⟩ := hentry
  rw [prtEntries]
  simp only [List.map_cons, List.map_nil, List.flatMap_cons, List.flatMap_nil]
  rw [← hentry0, ← hentry1, ← hentry2, ← hentry3]
  rfl

/-- The packages of a slot, from the first letter of a group. -/
theorem appendQ35PrtEntry_eq_entries (habc : ∀ y ∈ [a, b, c], y.toNat < 128 ∧ y ≠ '.')
    (ha : a ≠ '\\') (hx : x = 'A' ∨ x = 'E') (slot : UInt32) (pkg : PackageBuilder) :
    appendQ35PrtEntry pkg slot (String.ofList [a, b, c, x]) =
      .ok ⟨pkg.data ++ prtEntries slot (leadBytes a b c) (UInt8.ofNat x.toNat),
        pkg.elements + 4⟩ := by
  rw [← ofList_append_singleton, appendQ35PrtEntry_eq rfl hx habc ha,
    flatMap_prtEntryTree (fun y hy => (habc y hy).1) hx]

/-- A part of a split list is in the list. -/
theorem sublist_of_mem_splitOn {part text : List Char} (h : part ∈ text.splitOn '.') :
    part.Sublist text := by
  have hjoin : ∀ (parts : List (List Char)) (part : List Char), part ∈ parts →
      part.Sublist (['.'].intercalate parts) := by
    intro parts
    induction parts with
    | nil =>
      intro part h
      cases h
    | cons first parts ih =>
      intro part h
      cases parts with
      | nil =>
        rw [List.mem_singleton.mp h, List.intercalate_singleton]
      | cons second parts =>
        rw [List.intercalate_cons_cons]
        rcases List.mem_cons.mp h with rfl | h
        · rw [List.append_assoc]
          exact List.sublist_append_left ..
        · exact (ih part h).trans (List.sublist_append_right ..)
  have := hjoin _ _ h
  rwa [List.intercalate_splitOn] at this

/-- The segments of a path that is accepted have four bytes each. -/
theorem length_of_mapM_namePart {segs : List (List Char)} {parts : List (Vector UInt8 4)}
    (h : segs.mapM Path.namePart = .ok parts) : ∀ seg ∈ segs, (segBytes seg).length = 4 := by
  induction segs generalizing parts with
  | nil =>
    intro seg hseg
    cases hseg
  | cons first segs ih =>
    rw [List.mapM_cons] at h
    obtain ⟨part, hpart, h⟩ := Checked.bind_eq_ok.mp h
    obtain ⟨parts', hparts, -⟩ := Checked.bind_eq_ok.mp h
    refine List.forall_mem_cons.mpr ⟨?_, ih hparts⟩
    by_contra hne
    have hrefused : Path.namePart first = .error .assertion := dif_neg hne
    rw [hrefused] at hpart
    cases hpart

/-- Only a segment makes a path, of the names of four characters. -/
theorem plain_of_path_new {cs : List Char} {path : Path} (hlen : cs.length = 4)
    (hascii : ∀ y ∈ cs, y.toNat < 128) (h : Path.new (String.ofList cs) = .ok path) :
    '.' ∉ cs ∧ cs.head? ≠ some '\\' := by
  obtain ⟨parts, hparts, -⟩ := Checked.bind_eq_ok.mp h
  rw [String.toList_ofList] at hparts
  set offset := if (cs.head? == some '\\') = true then 1 else 0 with hoffset
  -- every part has four characters
  have hfour : ∀ part ∈ (cs.drop offset).splitOn '.', part.length = 4 := by
    intro part hpart
    have hmem := ((sublist_of_mem_splitOn hpart).trans (List.drop_sublist ..)).subset
    have hbytes := length_of_mapM_namePart hparts part hpart
    rw [segBytes, ← String.toList_ofList (l := part)] at hbytes
    change (asBytes (String.ofList part)).length = 4 at hbytes
    rwa [asBytes_ofList fun y hy => hascii y (hmem hy), List.length_map] at hbytes
  have hpart : ∀ text : List Char, ∃ part, part ∈ text.splitOn '.' := fun text =>
    List.exists_mem_of_ne_nil _ (by simp)
  have hzero : offset = 0 := by
    obtain ⟨part, hmem⟩ := hpart (cs.drop offset)
    have hle := (sublist_of_mem_splitOn hmem).length_le
    rw [hfour part hmem, List.length_drop, hlen] at hle
    omega
  rw [hzero, List.drop_zero] at hfour
  constructor
  · intro hdot
    obtain ⟨front, back, rfl⟩ := List.append_of_mem hdot
    obtain ⟨part, hmem⟩ := hpart front
    have hle := (sublist_of_mem_splitOn hmem).length_le
    rw [List.splitOn_append_cons_self] at hfour
    have := hfour part (List.mem_append_left _ hmem)
    rw [List.length_append, List.length_cons] at hlen
    omega
  · intro hhead
    rw [hoffset, hhead, if_pos (by simp)] at hzero
    cases hzero

/-- What a round of the generator's loop that returns has computed. -/
theorem appendQ35PrtPin_eq_ok {slot : UInt32} {base pin : UInt8} {state state' : PrtState}
    (h : appendQ35PrtPin slot base state pin = .ok state') :
    (3 < state.head.toNat + pin.toNat → state'.head.toNat = (0 - pin).toNat) ∧
    (state.head.toNat + pin.toNat ≤ 3 → state'.head.toNat = state.head.toNat) ∧
    base.toNat + state'.head.toNat + pin.toNat < 256 ∧
    ∃ link, Path.new (String.ofList (state.name.toList.take 3 ++
      Char.ofNat (base.toNat + state'.head.toNat + pin.toNat) :: state.name.toList.drop 4)) =
        .ok link := by
  obtain ⟨sum, hsum, h⟩ := Checked.bind_eq_ok.mp h
  obtain ⟨shifted, hshifted, h⟩ := Checked.bind_eq_ok.mp h
  obtain ⟨letter, hletter, h⟩ := Checked.bind_eq_ok.mp h
  obtain ⟨link, hlink, h⟩ := Checked.bind_eq_ok.mp h
  obtain ⟨pkg, -, h⟩ := Checked.bind_eq_ok.mp h
  have hhead : state'.head = if 3 < sum then 0 - pin else state.head :=
    congrArg PrtState.head (Except.ok.inj h).symm
  have hsumNat : sum.toNat = state.head.toNat + pin.toNat := checkedAdd_eq_ok hsum
  have hshiftedNat : shifted.toNat = base.toNat + state'.head.toNat := by
    rw [hhead]
    exact checkedAdd_eq_ok hshifted
  have hletterNat : letter.toNat = shifted.toNat + pin.toNat := checkedAdd_eq_ok hletter
  have hlt := letter.toNat_lt
  have hround : 3 < sum ↔ 3 < state.head.toNat + pin.toNat := by
    rw [UInt8.lt_iff_toNat_lt, hsumNat]
    rfl
  refine ⟨?_, ?_, by omega, link, ?_⟩
  · intro hlarge
    rw [hhead, if_pos (hround.mpr hlarge)]
  · intro hsmall
    rw [hhead, if_neg fun hlarge => Nat.not_lt.mpr hsmall (hround.mp hlarge)]
  · rw [← hshiftedNat, ← hletterNat]
    exact hlink

/-- The four rounds return only from a head of zero, and the first of them makes
a path. -/
theorem prtLoop_eq_ok {slot : UInt32} {base head : UInt8} {pkg : PackageBuilder} {name : String}
    {state : PrtState} (hbase : 65 ≤ base.toNat) (hhead : head.toNat ≤ 3)
    (h : List.foldlM (appendQ35PrtPin slot base) ⟨pkg, name, head⟩ [0, 1, 2, 3] = .ok state) :
    head.toNat = 0 ∧ ∃ link, Path.new (String.ofList (name.toList.take 3 ++
      Char.ofNat base.toNat :: name.toList.drop 4)) = .ok link := by
  simp only [List.foldlM_cons] at h
  obtain ⟨state0, h0, h⟩ := Checked.bind_eq_ok.mp h
  obtain ⟨state1, h1, h⟩ := Checked.bind_eq_ok.mp h
  obtain ⟨state2, h2, h⟩ := Checked.bind_eq_ok.mp h
  obtain ⟨state3, h3, -⟩ := Checked.bind_eq_ok.mp h
  obtain ⟨large0, small0, fits0, link, hlink⟩ := appendQ35PrtPin_eq_ok h0
  obtain ⟨large1, small1, fits1, -⟩ := appendQ35PrtPin_eq_ok h1
  obtain ⟨large2, small2, fits2, -⟩ := appendQ35PrtPin_eq_ok h2
  obtain ⟨large3, small3, fits3, -⟩ := appendQ35PrtPin_eq_ok h3
  have hpins : (0 : UInt8).toNat = 0 ∧ (1 : UInt8).toNat = 1 ∧ (2 : UInt8).toNat = 2 ∧
      (3 : UInt8).toNat = 3 := by decide
  have hneg : ((0 : UInt8) - 1).toNat = 255 ∧ ((0 : UInt8) - 2).toNat = 254 ∧
      ((0 : UInt8) - 3).toNat = 253 := by decide
  rw [hpins.1] at large0 small0 fits0 hlink
  rw [hpins.2.1, hneg.1] at large1
  rw [hpins.2.1] at small1 fits1
  rw [hpins.2.2.1, hneg.2.1] at large2
  rw [hpins.2.2.1] at small2 fits2
  rw [hpins.2.2.2, hneg.2.2] at large3
  rw [hpins.2.2.2] at small3 fits3
  dsimp only at large0 small0 hlink
  -- a head above zero wraps around in some round, and then the letter does not fit
  have hzero : head.toNat = 0 := by omega
  have hzero0 : state0.head.toNat = 0 := by omega
  rw [hzero0] at hlink
  exact ⟨hzero, link, hlink⟩

/-- A letter of a group, its base and its head. -/
theorem groupBase_letter : ∀ letter ∈ groupLetters, 65 ≤ (groupBase letter).toNat ∧
    (letter - groupBase letter).toNat ≤ 3 ∧
    checkedSub letter (groupBase letter) = .ok (letter - groupBase letter) ∧
    (letter - groupBase letter = 0 → letter = 0x41 ∨ letter = 0x45) :=
  forall_mem_of_all (by decide)

/-- **The generator appends packages only for the first letter of a group**, and
only where the link is one segment. -/
theorem appendQ35PrtEntry_eq_ok {slot : UInt32} {pkg pkg' : PackageBuilder}
    (habc : ∀ y ∈ [a, b, c], y.toNat < 128) (hx : UInt8.ofNat x.toNat ∈ groupLetters)
    (hx' : x.toNat < 128) (h : appendQ35PrtEntry pkg slot (String.ofList [a, b, c, x]) = .ok pkg') :
    (x = 'A' ∨ x = 'E') ∧ '.' ∉ [a, b, c] ∧ a ≠ '\\' := by
  set letter := UInt8.ofNat x.toNat with hletter
  have hlast : lastByte (String.ofList [a, b, c, x]) = .ok letter := by
    rw [lastByte, asBytes_link habc hx']
    rfl
  rw [appendQ35PrtEntry, hlast, Checked.ok_bind] at h
  dsimp only at h
  rw [Checked.ok_bind] at h
  change (checkedSub letter (groupBase letter) >>= fun head =>
    List.foldlM (appendQ35PrtPin slot (groupBase letter))
      ⟨pkg, String.ofList [a, b, c, x], head⟩ [0, 1, 2, 3] >>= fun state => pure state.pkg) = _ at h
  obtain ⟨head, hhead, h⟩ := Checked.bind_eq_ok.mp h
  obtain ⟨state, hloop, -⟩ := Checked.bind_eq_ok.mp h
  obtain ⟨hbase, hstart, hsub, hfirst⟩ := groupBase_letter letter hx
  obtain rfl : letter - groupBase letter = head := Except.ok.inj (hsub.symm.trans hhead)
  -- the head starts at the letter less the first of its group
  obtain ⟨hzero, link, hlink⟩ := prtLoop_eq_ok hbase hstart hloop
  constructor
  · have hxNat : letter.toNat = x.toNat := by
      rw [hletter, UInt8.toNat_ofNat']
      omega
    have hchar : ∀ y : Char, x.toNat = y.toNat → x = y := fun y hy =>
      Char.ext (UInt32.toNat_inj.mp hy)
    rcases hfirst (UInt8.toNat_inj.mp hzero) with hA | hE
    · rw [hA] at hxNat
      exact .inl (hchar 'A' hxNat.symm)
    · rw [hE] at hxNat
      exact .inr (hchar 'E' hxNat.symm)
  · rw [String.toList_ofList] at hlink
    have hascii : ∀ base ∈ [(0x41 : UInt8), 0x45], (Char.ofNat base.toNat).toNat < 128 :=
      forall_mem_of_all (by decide)
    have hbase' : groupBase letter ∈ [(0x41 : UInt8), 0x45] := by
      rw [groupBase]
      split_ifs <;> decide
    obtain ⟨hdot, hroot⟩ := plain_of_path_new rfl (List.forall_mem_append.mpr
      ⟨habc, List.forall_mem_singleton.mpr (hascii _ hbase')⟩) hlink
    constructor
    · exact fun hmem => hdot (List.mem_append_left _ hmem)
    · rintro rfl
      exact hroot rfl

end Generator

/-! ## Agreement -/

/-- Both append the same packages for a slot, the name rotated within its
group. -/
def PrtEntriesAgree (slot : UInt32) (name : String) (letter : UInt8) : Prop :=
  ∀ (pkg : PackageBuilder) (ctx : AmlBuild.Aml),
    appendQ35PrtEntry pkg slot name =
      .ok ⟨pkg.data ++ prtEntries slot ((asBytes name).take 3) letter, pkg.elements + 4⟩ ∧
    AcpiBuild.appendQ35PrtEntry ctx slot (asBytes name) =
      .ok (ctx.push (prtEntries slot ((asBytes name).take 3) letter))

/-- The reference table is what the generator builds. -/
def RoutingTablesAgree (linkPrefix : String) : Prop :=
  ∃ builder pkg word, buildQ35RoutingTable linkPrefix = .ok builder ∧
    AcpiBuild.buildQ35RoutingTable (asBytes linkPrefix) = .ok pkg ∧
    toAmlBytes builder ([] : Bytes) = .ok word ∧
    (AmlBuild.amlAppend AmlBuild.amlAlloc pkg).buf = word

section Names

variable {a b c x : Char}

/-- An ASCII character is the one of its byte. -/
theorem ofNat_toNat_inj {y : Char} {byte : UInt8} (hy : y.toNat < 128)
    (h : UInt8.ofNat y.toNat = byte) : y.toNat = byte.toNat := by
  rw [← h, UInt8.toNat_ofNat']
  omega

/-- What holds of the characters holds of the bytes. -/
theorem leadBytes_plain (habc : ∀ y ∈ [a, b, c], y.toNat < 128) :
    ('.' ∉ [a, b, c] → 0x2e ∉ leadBytes a b c) ∧ (a ≠ '\\' → UInt8.ofNat a.toNat ≠ 0x5c) ∧
      (a ≠ '^' → UInt8.ofNat a.toNat ≠ 0x5e) ∧ ('\x00' ∉ [a, b, c] ↔ 0 ∉ leadBytes a b c) := by
  have hchar : ∀ y ∈ [a, b, c], ∀ (z : Char) (byte : UInt8), z.toNat = byte.toNat → y ≠ z →
      UInt8.ofNat y.toNat ≠ byte := by
    intro y hy z byte hz hne heq
    exact hne (Char.ext (UInt32.toNat_inj.mp ((ofNat_toNat_inj (habc y hy) heq).trans hz.symm)))
  have hnotMem : ∀ (z : Char) (byte : UInt8), z.toNat = byte.toNat → z ∉ [a, b, c] →
      byte ∉ leadBytes a b c := by
    intro z byte hz hnot hmem
    obtain ⟨y, hy, heq⟩ := List.mem_map.mp
      (show byte ∈ [a, b, c].map fun y => UInt8.ofNat y.toNat from hmem)
    exact hchar y hy z byte hz (fun h => hnot (h ▸ hy)) heq
  refine ⟨hnotMem '.' 0x2e rfl, ?_, ?_, hnotMem '\x00' 0 rfl, fun hnot hmem => hnot ?_⟩
  · exact hchar a (List.mem_cons_self ..) '\\' 0x5c rfl
  · exact hchar a (List.mem_cons_self ..) '^' 0x5e rfl
  · change 0 ∈ [a, b, c].map fun y => UInt8.ofNat y.toNat
    exact List.mem_map.mpr ⟨'\x00', hmem, rfl⟩

/-- The letters of the groups, as characters. -/
theorem mem_groupLetters (hx : x ∈ ['A', 'B', 'C', 'D', 'E', 'F', 'G', 'H']) :
    UInt8.ofNat x.toNat ∈ groupLetters ∧ x.toNat < 128 :=
  forall_mem_of_all (p := fun x : Char => UInt8.ofNat x.toNat ∈ groupLetters ∧ x.toNat < 128)
    (by decide) x hx

/-- **A slot agrees** only from the first letter of a group, and where the link
is a C string and one segment. -/
theorem prtEntriesAgree_iff (habc : ∀ y ∈ [a, b, c], y.toNat < 128)
    (hx : x ∈ ['A', 'B', 'C', 'D', 'E', 'F', 'G', 'H']) (slot : UInt32) :
    PrtEntriesAgree slot (String.ofList [a, b, c, x]) (UInt8.ofNat x.toNat) ↔
      (x = 'A' ∨ x = 'E') ∧ '.' ∉ [a, b, c] ∧ a ≠ '\\' ∧ a ≠ '^' ∧ '\x00' ∉ [a, b, c] := by
  obtain ⟨hletter, hascii⟩ := mem_groupLetters hx
  obtain ⟨hdotBytes, hbackslashBytes, hcaretBytes, hnulBytes⟩ := leadBytes_plain habc
  have hbytes := asBytes_link habc hascii
  have hlead : (asBytes (String.ofList [a, b, c, x])).take 3 = leadBytes a b c := by
    rw [hbytes]
    rfl
  rw [PrtEntriesAgree, hlead, hbytes]
  constructor
  · intro h
    obtain ⟨hpkg, hctx⟩ := h PackageBuilder.new AmlBuild.amlAlloc
    obtain ⟨hfirst, hdot, hbackslash⟩ := appendQ35PrtEntry_eq_ok habc hletter hascii hpkg
    have hnul : 0 ∉ leadBytes a b c := fun hmem =>
      zero_notMem_of_appendQ35PrtEntry (by rfl) hctx (List.mem_append_left _ hmem)
    refine ⟨hfirst, hdot, hbackslash, ?_, hnulBytes.mpr hnul⟩
    rintro rfl
    rw [appendQ35PrtEntry_eq_reference rfl (hdotBytes hdot) hnul hletter] at hctx
    have hlength := congrArg List.length (congrArg AmlBuild.Aml.buf (Except.ok.inj hctx))
    have hlt := length_prtEntries_lt slot (UInt8.ofNat b.toNat) (UInt8.ofNat c.toNat)
      (UInt8.ofNat x.toNat)
    change ([] ++ referenceEntries slot (leadBytes '^' b c) (UInt8.ofNat x.toNat)).length =
      ([] ++ prtEntries slot (leadBytes '^' b c) (UInt8.ofNat x.toNat)).length at hlength
    rw [List.nil_append, List.nil_append] at hlength
    exact absurd hlength.symm hlt.ne
  · rintro ⟨hfirst, hdot, hbackslash, hcaret, hnul⟩ pkg ctx
    have habc' : ∀ y ∈ [a, b, c], y.toNat < 128 ∧ y ≠ '.' := fun y hy =>
      ⟨habc y hy, fun h => hdot (h ▸ hy)⟩
    refine ⟨appendQ35PrtEntry_eq_entries habc' hbackslash hfirst slot pkg, ?_⟩
    rw [appendQ35PrtEntry_eq_reference rfl (hdotBytes hdot) (hnulBytes.mp hnul) hletter]
    exact congrArg (fun w => Except.ok (ctx.push w))
      (referenceEntries_of_plain ⟨hbackslashBytes hbackslash, hcaretBytes hcaret⟩)

/-! ## The tables -/

/-- The generator's table starts with the entries of two slots from `E`. -/
theorem buildQ35RoutingTable_data {builder : PackageBuilder}
    (habc : ∀ y ∈ [a, b, c], y.toNat < 128 ∧ y ≠ '.') (ha : a ≠ '\\')
    (h : buildQ35RoutingTable (String.ofList [a, b, c]) = .ok builder) :
    ∃ rest, builder.data =
      prtEntries 0 (leadBytes a b c) 0x45 ++ (prtEntries 1 (leadBytes a b c) 0x45 ++ rest) := by
  have hsplit : q35Slots = (0, "E") :: (1, "E") :: q35Slots.drop 2 := rfl
  rw [buildQ35RoutingTable, foldlM_q35Slots habc ha (by decide)] at h
  have hdata := congrArg PackageBuilder.data (Except.ok.inj h)
  dsimp only at hdata
  have hentries : ∀ slot, ([0, 1, 2, 3].map
      (prtEntryTree (String.ofList [a, b, c]) "E" slot)).flatMap AmlTree.encode =
        prtEntries slot (leadBytes a b c) 0x45 := fun slot =>
    flatMap_prtEntryTree (fun y hy => (habc y hy).1) (.inr (rfl : 'E' = 'E')) slot
  rw [hsplit, List.flatMap_cons, List.flatMap_cons, List.flatMap_append, List.flatMap_append,
    PackageBuilder.new, List.nil_append, hentries, hentries] at hdata
  exact ⟨_, hdata.symm⟩

/-- The prefix of a table that is built is the start of a segment. -/
theorem plain_of_buildQ35RoutingTable {builder : PackageBuilder}
    (habc : ∀ y ∈ [a, b, c], y.toNat < 128)
    (h : buildQ35RoutingTable (String.ofList [a, b, c]) = .ok builder) :
    '.' ∉ [a, b, c] ∧ a ≠ '\\' := by
  have hsplit : q35Slots = (0, "E") :: q35Slots.drop 1 := rfl
  rw [buildQ35RoutingTable, hsplit, List.foldlM_cons] at h
  obtain ⟨first, hfirst, -⟩ := Checked.bind_eq_ok.mp h
  dsimp only at hfirst
  rw [show "E" = String.ofList ['E'] from rfl, ofList_append_singleton] at hfirst
  exact (appendQ35PrtEntry_eq_ok habc (by decide) (by decide) hfirst).2

/-- **No table agrees**: the reference starts the second slot from another
letter. -/
theorem routingTables_differ (habc : ∀ y ∈ [a, b, c], y.toNat < 128) :
    ¬ RoutingTablesAgree (String.ofList [a, b, c]) := by
  rintro ⟨builder, pkg, word, hbuild, hreference, hword, hpkg⟩
  obtain ⟨hdot, hbackslash⟩ := plain_of_buildQ35RoutingTable habc hbuild
  obtain ⟨rest, hdata⟩ := buildQ35RoutingTable_data
    (fun y hy => ⟨habc y hy, fun h => hdot (h ▸ hy)⟩) hbackslash hbuild
  rw [asBytes_ofList habc] at hreference
  obtain ⟨hframe, rest', hbuf⟩ :=
    referenceTable_buf rfl ((leadBytes_plain habc).1 hdot) hreference
  have hcontent : pkg.buf = UInt8.ofNat builder.elements :: builder.data := by
    have hword' : toAmlBytes builder ([] : Bytes) =
        .ok (frame [packageOp] (UInt8.ofNat builder.elements :: builder.data)) :=
      (writes_packageBuilder builder).run []
    have hsame := Except.ok.inj (hword.symm.trans hword')
    exact frame_inj (hframe.symm.trans (hpkg.trans hsame))
  rw [hbuf, hdata] at hcontent
  have hentries := (List.cons.inj hcontent).2
  have hfour : ∀ y, (leadBytes a b c ++ [y]).length = 4 := fun y => rfl
  have hshort : ∀ y, (leadBytes a b c ++ [y]).length ≤ 8 := fun y => by rw [hfour]; decide
  have hlong : ∀ y, (namestring (leadBytes a b c ++ [y])).length ≤ 8 := fun y =>
    (length_namestring rfl).2
  simp only [referenceEntries, prtEntries, List.flatMap_cons, List.flatMap_nil, List.append_nil,
    List.append_assoc] at hentries
  -- the four entries of the first slot, and the first of the second
  obtain ⟨hlink, hentries⟩ := prtEntry_append_inj (hlong _) (hshort _) hentries
  obtain ⟨-, hentries⟩ := prtEntry_append_inj (hlong _) (hshort _) hentries
  obtain ⟨-, hentries⟩ := prtEntry_append_inj (hlong _) (hshort _) hentries
  obtain ⟨-, hentries⟩ := prtEntry_append_inj (hlong _) (hshort _) hentries
  obtain ⟨hother, -⟩ := prtEntry_append_inj (hlong _) (hshort _) hentries
  have hcaret : UInt8.ofNat a.toNat ≠ 0x5e := by
    intro ha
    have hlt := length_namestring_of_caret (s := [UInt8.ofNat b.toNat, UInt8.ofNat c.toNat,
      rotatedLetter 0x45 0]) rfl
    rw [← ha] at hlt
    exact absurd ((congrArg List.length hlink).trans (hfour _)) hlt.ne'
  have hplain : namestring (leadBytes a b c ++ [rotatedLetter 0x46 0]) =
      leadBytes a b c ++ [rotatedLetter 0x46 0] :=
    namestring_of_plain rfl ((leadBytes_plain habc).2.1 hbackslash) hcaret
  have hletters := List.append_cancel_left (hplain.symm.trans hother)
  revert hletters
  decide

/-- **The routing of the reference**: a slot agrees from the first letter of a
group and for a link that is a C string of one segment, the whole table for no
prefix. -/
theorem routing_matches_reference_iff (habc : ∀ y ∈ [a, b, c], y.toNat < 128) :
    (∀ x ∈ ['A', 'B', 'C', 'D', 'E', 'F', 'G', 'H'], ∀ slot : UInt32,
      PrtEntriesAgree slot (String.ofList [a, b, c, x]) (UInt8.ofNat x.toNat) ↔
        (x = 'A' ∨ x = 'E') ∧ '.' ∉ [a, b, c] ∧ a ≠ '\\' ∧ a ≠ '^' ∧ '\x00' ∉ [a, b, c]) ∧
      ¬ RoutingTablesAgree (String.ofList [a, b, c]) :=
  ⟨fun _ hx slot => prtEntriesAgree_iff habc hx slot, routingTables_differ habc⟩

end Names

theorem routing_matches_reference_lnk :
    (∀ x ∈ ['A', 'B', 'C', 'D', 'E', 'F', 'G', 'H'], ∀ slot : UInt32,
      PrtEntriesAgree slot (String.ofList ['L', 'N', 'K', x]) (UInt8.ofNat x.toNat) ↔
        (x = 'A' ∨ x = 'E') ∧ '.' ∉ ['L', 'N', 'K'] ∧ 'L' ≠ '\\' ∧ 'L' ≠ '^' ∧
          '\x00' ∉ ['L', 'N', 'K']) ∧
      ¬ RoutingTablesAgree (String.ofList ['L', 'N', 'K']) :=
  routing_matches_reference_iff (forall_mem_of_all (by decide))

/-- The second slot of the reference table overflows in the generator. -/
theorem lnkf_overflows :
    appendQ35PrtEntry PackageBuilder.new 1 "LNKF" = .error .overflow ∧
      (∃ ctx, AcpiBuild.appendQ35PrtEntry AmlBuild.amlAlloc 1 (asBytes "LNKF") = .ok ctx) ∧
      ¬ RoutingTablesAgree "LNK" := by
  have hlead : ([0x4c, 0x4e, 0x4b] : Bytes).length = 3 := rfl
  have hreference := appendQ35PrtEntry_eq_reference hlead (by decide) (by decide)
    (show 0x46 ∈ groupLetters by decide) 1 AmlBuild.amlAlloc
  exact ⟨rfl, ⟨_, hreference⟩, routingTables_differ (forall_mem_of_all (by decide))⟩

end AcpiTables
