import AcpiTables.AmlBuild
import AcpiTables.Lexical

/-!
# The encoder and its reference

The bytes of the generator are those of `AmlBuild`: integers, package lengths,
names, and the frames of buffers, templates, scopes and devices
(`encoder_matches_reference`). A name is refused by one exactly when it is by
the other.

The two go different ways. The generator knows the length of a content before it
writes it; the reference writes the content first and puts the length in front of
it. The generator splits a name into segments and counts these; the reference
looks for dots in the bytes of a C string. So numbers and names are compared with
what both of them mean (`createPkgLength_eq_reference`,
`toAmlBytes_u64_eq_reference`, `path_eq_reference`), and a frame on either side is
an operator, a length and any content.
-/

namespace AcpiTables

open MachineInt

/-! ## Package lengths -/

section PackageLength

open AmlBuild

variable {m k : ℕ}

/-- The byte from bit `k` on, and what is left below it. -/
theorem prependLengthByte_eq (package : Bytes) (hm : m < 4294967296) (hk : k ∈ [4, 12, 20]) :
    prependLengthByte (UInt32.ofNat k) (package, UInt32.ofNat m) =
      (UInt8.ofNat (m / 2 ^ k) :: package, UInt32.ofNat (m % 2 ^ k)) := by
  have hk32 : k < 32 := by
    revert k
    decide
  have hmask : ((1 : UInt32) <<< UInt32.ofNat k - 1).toNat = 2 ^ k - 1 := by
    revert k
    decide
  have hmNat : (UInt32.ofNat m).toNat = m := by
    rw [UInt32.toNat_ofNat', Nat.mod_eq_of_lt hm]
  have hkNat : (UInt32.ofNat k).toNat % 32 = k := by
    rw [UInt32.toNat_ofNat', Nat.mod_eq_of_lt (show k < 2 ^ 32 by omega), Nat.mod_eq_of_lt hk32]
  have hbyte : (UInt32.ofNat m >>> UInt32.ofNat k).toUInt8 = UInt8.ofNat (m / 2 ^ k) := by
    apply UInt8.toNat_inj.mp
    rw [UInt32.toNat_toUInt8, UInt32.toNat_shiftRight, hmNat, hkNat, UInt8.toNat_ofNat',
      Nat.shiftRight_eq_div_pow]
  have hrest : UInt32.ofNat m &&& ((1 : UInt32) <<< UInt32.ofNat k - 1) =
      UInt32.ofNat (m % 2 ^ k) := by
    apply UInt32.toNat_inj.mp
    have hlt : m % 2 ^ k < 4294967296 := (Nat.mod_le _ _).trans_lt hm
    rw [UInt32.toNat_and, hmNat, hmask, Nat.and_two_pow_sub_one_eq_mod, UInt32.toNat_ofNat',
      Nat.mod_eq_of_lt hlt]
  rw [prependLengthByte, hbyte, hrest]

/-- The lead byte, by the number of bytes. -/
theorem leadByte_eq (hk : k ∈ [2, 3, 4]) (hm : m < 16) :
    (((UInt32.ofNat k - 1) <<< packageLength1byteShift) ||| UInt32.ofNat m).toUInt8 =
      UInt8.ofNat (64 * (k - 1) + m) := by
  have hall : ∀ k ∈ [2, 3, 4], ∀ m : Fin 16,
      (((UInt32.ofNat k - 1) <<< packageLength1byteShift) ||| UInt32.ofNat m).toUInt8 =
        UInt8.ofNat (64 * (k - 1) + m) := by decide
  exact hall k hk ⟨m, hm⟩

/-- The reference spends as many bytes. -/
theorem lengthBytes_eq {n : ℕ} (hn : n < 4294967292) :
    (if UInt32.ofNat n + 1 < (1 : UInt32) <<< packageLength1byteShift then (1 : UInt32)
      else if UInt32.ofNat n + 2 < (1 : UInt32) <<< packageLength3byteShift then 2
      else if UInt32.ofNat n + 3 < (1 : UInt32) <<< packageLength4byteShift then 3
      else 4) = UInt32.ofNat (pkgWidth n) := by
  have hadd : ∀ i : UInt32, i.toNat < 4 → (UInt32.ofNat n + i).toNat = n + i.toNat := by
    intro i hi
    rw [UInt32.toNat_add, UInt32.toNat_ofNat']
    omega
  have h₁ : UInt32.ofNat n + 1 < (1 : UInt32) <<< packageLength1byteShift ↔ n < 63 := by
    rw [UInt32.lt_iff_toNat_lt, hadd 1 (by decide)]
    change n + 1 < 64 ↔ _
    omega
  have h₂ : UInt32.ofNat n + 2 < (1 : UInt32) <<< packageLength3byteShift ↔ n < 4094 := by
    rw [UInt32.lt_iff_toNat_lt, hadd 2 (by decide)]
    change n + 2 < 4096 ↔ _
    omega
  have h₃ : UInt32.ofNat n + 3 < (1 : UInt32) <<< packageLength4byteShift ↔ n < 1048573 := by
    rw [UInt32.lt_iff_toNat_lt, hadd 3 (by decide)]
    change n + 3 < 1048576 ↔ _
    omega
  unfold pkgWidth
  simp only [h₁, h₂, h₃]
  split_ifs <;> rfl

/-- **Package lengths agree.** -/
theorem createPkgLength_eq_reference {n : ℕ} (hn : n < 4294967288) (includeSelf : Bool)
    (package : Bytes) :
    createPkgLength n includeSelf ++ package =
      buildPrependPackageLength package (UInt32.ofNat n) includeSelf := by
  have hwidth := pkgWidth_le n
  have hlength : (if includeSelf then UInt32.ofNat n + UInt32.ofNat (pkgWidth n)
      else UInt32.ofNat n) = UInt32.ofNat (n + if includeSelf then pkgWidth n else 0) := by
    cases includeSelf
    · rfl
    · exact (UInt32.ofNat_add n (pkgWidth n)).symm
  unfold buildPrependPackageLength
  rw [lengthBytes_eq (by omega)]
  dsimp only
  rw [hlength, createPkgLength_eq]
  dsimp only
  set m := n + (if includeSelf then pkgWidth n else 0) with hm
  have hmlt : m < 4294967296 := by
    rw [hm]
    split_ifs <;> omega
  have hwidth' : pkgWidth n = 1 ∨ pkgWidth n = 2 ∨ pkgWidth n = 3 ∨ pkgWidth n = 4 := by
    have := pkgWidth_pos n
    omega
  have h4 : ∀ {package j}, j < 4294967296 → prependLengthByte packageLength2byteShift
      (package, UInt32.ofNat j) = (UInt8.ofNat (j / 2 ^ 4) :: package, UInt32.ofNat (j % 2 ^ 4)) :=
    fun hj => prependLengthByte_eq _ hj (by decide)
  have h12 : ∀ {package j}, j < 4294967296 → prependLengthByte packageLength3byteShift
      (package, UInt32.ofNat j) =
        (UInt8.ofNat (j / 2 ^ 12) :: package, UInt32.ofNat (j % 2 ^ 12)) :=
    fun hj => prependLengthByte_eq _ hj (by decide)
  have h20 : ∀ {package j}, j < 4294967296 → prependLengthByte packageLength4byteShift
      (package, UInt32.ofNat j) =
        (UInt8.ofNat (j / 2 ^ 20) :: package, UInt32.ofNat (j % 2 ^ 20)) :=
    fun hj => prependLengthByte_eq _ hj (by decide)
  -- a byte is the same whether or not the bits above it were masked off
  have hbyte : ∀ j : ℕ, UInt8.ofNat (j % 2 ^ 12 / 2 ^ 4) = UInt8.ofNat (j / 16) ∧
      UInt8.ofNat (j % 2 ^ 20 / 2 ^ 12) = UInt8.ofNat (j / 16 / 256) := by
    intro j
    constructor <;> apply UInt8.toNat_inj.mp <;> rw [UInt8.toNat_ofNat', UInt8.toNat_ofNat'] <;>
      omega
  have hmod : m % 2 ^ 20 % 2 ^ 12 = m % 2 ^ 12 := by omega
  have hlow : m % 2 ^ 12 % 2 ^ 4 = m % 16 := by omega
  have hdiv : m / 16 / 256 = m / 2 ^ 12 ∧ m / 16 / 256 / 256 = m / 2 ^ 20 := by omega
  have hlow16 : m % 16 < 16 := Nat.mod_lt _ (by decide)
  have hm20 : m % 2 ^ 20 < 4294967296 := by omega
  have hm12 : m % 2 ^ 12 < 4294967296 := by omega
  rcases hwidth' with h | h | h | h
  · rw [h, if_pos rfl, if_pos (show UInt32.ofNat 1 = 1 from rfl), UInt32.toUInt8_ofNat']
    rfl
  · rw [h, if_neg (by decide), if_neg (by decide), if_neg (by decide), if_neg (by decide), h4 hmlt]
    dsimp only
    rw [show m % 2 ^ 4 = m % 16 from rfl, leadByte_eq (by decide) hlow16]
    rfl
  · rw [h, if_neg (by decide), if_neg (by decide), if_pos (by decide), if_neg (by decide),
      h12 hmlt, h4 hm12]
    dsimp only
    rw [hlow, leadByte_eq (by decide) hlow16, (hbyte m).1, ← hdiv.1]
    rfl
  · rw [h, if_neg (by decide), if_neg (by decide), if_pos (by decide), if_pos (by decide),
      h20 hmlt, h12 hm20, hmod, h4 hm12]
    dsimp only
    rw [hlow, leadByte_eq (by decide) hlow16, (hbyte m).1, (hbyte m).2, ← hdiv.2]
    rfl

end PackageLength

/-! ## Integers -/

/-- The reference appends a value of a given size in little-endian order. -/
theorem buildAppendIntNoprefix_eq (table : Bytes) (value : UInt64) (size : ℕ) :
    AmlBuild.buildAppendIntNoprefix table value size = table ++ leBytes size value.toNat := by
  induction size generalizing table value with
  | zero => exact (List.append_nil table).symm
  | succ size ih =>
    have hbyte : (value &&& 0xff).toUInt8 = UInt8.ofNat value.toNat := by
      apply UInt8.toNat_inj.mp
      rw [UInt64.toNat_toUInt8, UInt64.toNat_and, UInt8.toNat_ofNat']
      change (value.toNat &&& 2 ^ 8 - 1) % 2 ^ 8 = _
      rw [Nat.and_two_pow_sub_one_eq_mod, Nat.mod_mod]
    have hrest : (value >>> 8).toNat = value.toNat / 256 := by
      rw [UInt64.toNat_shiftRight]
      exact Nat.shiftRight_eq_div_pow _ _
    rw [AmlBuild.buildAppendIntNoprefix, ih, hbyte, hrest, leBytes, List.append_assoc,
      List.singleton_append]

/-- The reference appends an integer in its shortest encoding. -/
theorem buildAppendInt_eq (table : Bytes) (value : UInt64) :
    AmlBuild.buildAppendInt table value = table ++ encodeInt value.toNat := by
  have h0 : value = 0x00 ↔ value.toNat = 0 := UInt64.toNat_inj.symm
  have h1 : value = 0x01 ↔ value.toNat = 1 := UInt64.toNat_inj.symm
  have h8 : value ≤ 0xff ↔ value.toNat < 256 := UInt64.le_iff_toNat_le.trans Nat.lt_succ_iff.symm
  have h16 : value ≤ 0xffff ↔ value.toNat < 65536 :=
    UInt64.le_iff_toNat_le.trans Nat.lt_succ_iff.symm
  have h32 : value ≤ 0xffffffff ↔ value.toNat < 4294967296 :=
    UInt64.le_iff_toNat_le.trans Nat.lt_succ_iff.symm
  unfold AmlBuild.buildAppendInt encodeInt
  simp only [h0, h1, h8, h16, h32, buildAppendIntNoprefix_eq, List.append_assoc,
    List.singleton_append]
  split_ifs <;> rfl

/-- **Integers agree.** -/
theorem toAmlBytes_u64_eq_reference (value : UInt64) (out : Bytes) :
    toAmlBytes value out = .ok (AmlBuild.buildAppendInt out value) := by
  rw [buildAppendInt_eq]
  exact (writes_u64 value).run out

/-! ## Names -/

/-- The bytes of a segment. -/
def segBytes (seg : List Char) : Bytes := seg.flatMap String.utf8EncodeChar

/-- A byte of the ASCII range stands for its own character only. -/
theorem toNat_of_mem_utf8EncodeChar {c : Char} {b : UInt8} (hb : b.toNat < 128)
    (h : b ∈ String.utf8EncodeChar c) : c.toNat = b.toNat := by
  have hbyte : ∀ n : ℕ, b = UInt8.ofNat n → n % 256 = b.toNat := by
    intro n hn
    simpa using (congrArg UInt8.toNat hn).symm
  unfold String.utf8EncodeChar at h
  dsimp only at h
  change c.val.toNat = b.toNat
  split_ifs at h <;> simp only [List.mem_cons, List.not_mem_nil, or_false] at h
  · have := hbyte _ h
    omega
  · rcases h with h | h <;> · have := hbyte _ h; omega
  · rcases h with h | h | h <;> · have := hbyte _ h; omega
  · rcases h with h | h | h | h <;> · have := hbyte _ h; omega

/-- An ASCII byte in the text of a segment is one of its characters. -/
theorem mem_of_mem_segBytes {seg : List Char} {c : Char} {b : UInt8} (hb : b.toNat < 128)
    (hc : c.toNat = b.toNat) (h : b ∈ segBytes seg) : c ∈ seg := by
  obtain ⟨d, hd, hbyte⟩ := List.mem_flatMap.mp h
  have hval := toNat_of_mem_utf8EncodeChar hb hbyte
  have hcd : c = d := Char.ext (UInt32.toNat_inj.mp (hc.trans hval.symm))
  rwa [hcd]

/-- A segment has at least as many bytes as characters. -/
theorem length_le_segBytes (seg : List Char) : seg.length ≤ (segBytes seg).length := by
  induction seg with
  | nil => exact le_rfl
  | cons c seg ih =>
    have hpos : 0 < (String.utf8EncodeChar c).length :=
      List.length_pos_iff.mpr String.utf8EncodeChar_ne_nil
    rw [segBytes, List.flatMap_cons, List.length_append, List.length_cons]
    rw [segBytes] at ih
    omega

/-- A segment of four plain characters of a C string. -/
structure IsNameSegment (seg : List Char) : Prop where
  length_eq : seg.length = 4
  plain : ∀ c ∈ seg, c ≠ '.' ∧ c ≠ '^' ∧ c ≠ '\\'
  /-- the string does not end in the segment -/
  nul : '\x00' ∉ seg

/-- Segments between dots, after a backslash or not. -/
def dottedName (root : Bool) (segs : List (List Char)) : String :=
  String.ofList ((if root then ['\\'] else []) ++ ['.'].intercalate segs)

/-- The bytes of a dotted name are those of its segments with dots between them. -/
theorem flatMap_intercalate (segs : List (List Char)) :
    (['.'].intercalate segs).flatMap String.utf8EncodeChar =
      [0x2e].intercalate (segs.map segBytes) := by
  induction segs with
  | nil => rfl
  | cons seg segs ih =>
    cases segs with
    | nil =>
      rw [List.intercalate_singleton, List.map_singleton, List.intercalate_singleton, segBytes]
    | cons seg' segs =>
      have hdot : String.utf8EncodeChar '.' = [0x2e] := by decide
      rw [List.map_cons, List.map_cons, List.intercalate_cons_cons, List.intercalate_cons_cons,
        ← List.map_cons, ← ih, List.flatMap_append, List.flatMap_append, List.flatMap_singleton,
        hdot, segBytes]

/-- Each refuses a segment that the other refuses. -/
theorem mapM_namePart_eq (array : Bytes) (segs : List (List Char))
    (h : ∀ seg ∈ segs, seg.length = 4) :
    (do let parts ← segs.mapM Path.namePart
        return array ++ parts.flatMap Vector.toList) =
      (segs.map segBytes).foldlM AmlBuild.buildAppendNameseg array := by
  induction segs generalizing array with
  | nil => exact congrArg Except.ok (List.append_nil array)
  | cons seg segs ih =>
    obtain ⟨hseg, hsegs⟩ := List.forall_mem_cons.mp h
    have hle := length_le_segBytes seg
    rw [List.map_cons, List.foldlM_cons, List.mapM_cons]
    by_cases hfour : (segBytes seg).length = 4
    · have hpart : Path.namePart seg = .ok ⟨(segBytes seg).toArray, by simpa using hfour⟩ :=
        dif_pos hfour
      have hnameseg : AmlBuild.buildAppendNameseg array (segBytes seg) =
          .ok (array ++ segBytes seg) := by
        rw [AmlBuild.buildAppendNameseg, hfour, ensure_of (by decide)]
        exact congrArg Except.ok (List.append_nil _)
      rw [hpart, hnameseg, Checked.ok_bind, Checked.ok_bind, ← ih (array ++ segBytes seg) hsegs]
      cases segs.mapM Path.namePart with
      | error e => rfl
      | ok parts => exact congrArg Except.ok (List.append_assoc ..).symm
    · have hpart : Path.namePart seg = .error .assertion := dif_neg hfour
      have hnameseg : AmlBuild.buildAppendNameseg array (segBytes seg) = .error .assertion := by
        rw [AmlBuild.buildAppendNameseg, ensure_of_not]
        · rfl
        · rw [AmlBuild.acpiNamesegLen]
          omega
      rw [hpart, hnameseg]
      rfl

/-- The reference splits a name at its dots. The root stays with the first
segment. -/
theorem gStrsplit_name (root : Bool) {first : Bytes} {rest : List Bytes} (hne : first ≠ [])
    (hdot : ∀ seg ∈ first :: rest, 0x2e ∉ seg) :
    AmlBuild.gStrsplit ((if root then [0x5c] else []) ++ [0x2e].intercalate (first :: rest)) =
      ((if root then [0x5c] else []) ++ first) :: rest := by
  set prefixBytes : Bytes := if root then [0x5c] else [] with hstart
  obtain ⟨c, s, rfl⟩ := List.exists_cons_of_ne_nil hne
  have hname : prefixBytes ++ [0x2e].intercalate ((c :: s) :: rest) =
      [0x2e].intercalate ((prefixBytes ++ c :: s) :: rest) := by
    cases rest with
    | nil => rw [List.intercalate_singleton, List.intercalate_singleton]
    | cons seg rest =>
      rw [List.intercalate_cons_cons, List.intercalate_cons_cons, List.append_assoc,
        List.append_assoc, List.append_assoc]
  have hdot' : ∀ seg ∈ (prefixBytes ++ c :: s) :: rest, 0x2e ∉ seg := by
    obtain ⟨hfirst, hrest⟩ := List.forall_mem_cons.mp hdot
    refine List.forall_mem_cons.mpr ⟨?_, hrest⟩
    rw [List.mem_append, not_or]
    refine ⟨?_, hfirst⟩
    rw [hstart]
    cases root <;> decide
  rw [AmlBuild.gStrsplit, hname, if_neg, List.splitOn_intercalate _ hdot' (List.cons_ne_nil _ _)]
  cases rest <;> simp

/-- The reference writes the root, the count and the segments, one after the
other. -/
theorem buildAppendNamestringv_eq (root : Bool) {first : Bytes} {rest : List Bytes}
    (hplain : ∃ c s, first = c :: s ∧ c ≠ 0x5c ∧ c ≠ 0x5e)
    (hdot : ∀ seg ∈ first :: rest, 0x2e ∉ seg) (hcount : rest.length + 1 ≤ 255) (out : Bytes) :
    AmlBuild.buildAppendNamestringv out
        ((if root then [0x5c] else []) ++ [0x2e].intercalate (first :: rest)) =
      (first :: rest).foldlM AmlBuild.buildAppendNameseg
        (out ++ (if root then [0x5c] else []) ++ segCountPrefix (rest.length + 1)) := by
  obtain ⟨c, s, rfl, hbackslash, hcaret⟩ := hplain
  have hsplit := gStrsplit_name root (List.cons_ne_nil c s) hdot
  set prefixBytes : Bytes := if root then [0x5c] else [] with hstart
  have hroot : AmlBuild.appendRootOrPrefixPath out (prefixBytes ++ c :: s) =
      (out ++ prefixBytes, c :: s) := by
    rw [hstart]
    cases root <;> simp [AmlBuild.appendRootOrPrefixPath, hbackslash, hcaret]
  rw [AmlBuild.buildAppendNamestringv, hsplit]
  dsimp only
  rw [ensure_of ⟨by simp, by simpa using hcount⟩, Checked.ok_bind, hroot]
  dsimp only
  -- one segment, two segments, more
  rcases rest with _ | ⟨second, _ | ⟨third, rest⟩⟩
  · simp only [List.foldlM_cons, List.foldlM_nil, Checked.pure_eq, Checked.bind_ok]
    simp [segCountPrefix]
  · simp only [List.foldlM_cons, List.foldlM_nil, Checked.pure_eq, Checked.bind_ok]
    simp [segCountPrefix]
  · simp [segCountPrefix]

/-- The generator splits the name into its segments. -/
theorem Path.new_of_head (root : Bool) {text : List Char} {c : Char} (hhead : text.head? = some c)
    (hc : c ≠ '\\') :
    Path.new (String.ofList ((if root then ['\\'] else []) ++ text)) = (do
      let nameParts ← (text.splitOn '.').mapM Path.namePart
      return { root, nameParts }) := by
  rw [Path.new, String.toList_ofList]
  have hc' : (c == '\\') = false := by simpa using hc
  cases root <;> simp [hhead, hc']

/-- The bytes of a dotted name. -/
theorem asBytes_dottedName (root : Bool) (segs : List (List Char)) :
    asBytes (dottedName root segs) =
      (if root then [0x5c] else []) ++ [0x2e].intercalate (segs.map segBytes) := by
  have hroot : (if root then ['\\'] else []).flatMap String.utf8EncodeChar =
      if root then [0x5c] else [] := by
    cases root <;> decide
  rw [asBytes, dottedName, String.toList_ofList, List.flatMap_append, flatMap_intercalate, hroot]

/-- A segment that starts with no prefix has bytes that start with none. -/
theorem exists_head_segBytes {c : Char} (chars : List Char) (hbackslash : c ≠ '\\')
    (hcaret : c ≠ '^') : ∃ b s, segBytes (c :: chars) = b :: s ∧ b ≠ 0x5c ∧ b ≠ 0x5e := by
  obtain ⟨b, s, hfirst⟩ : ∃ b s, String.utf8EncodeChar c = b :: s :=
    List.exists_cons_of_ne_nil String.utf8EncodeChar_ne_nil
  have hb : b ∈ String.utf8EncodeChar c := by
    rw [hfirst]
    exact List.mem_cons_self ..
  refine ⟨b, s ++ segBytes chars, ?_, ?_, ?_⟩
  · rw [segBytes, List.flatMap_cons, hfirst]
    rfl
  · rintro rfl
    exact hbackslash (Char.ext (UInt32.toNat_inj.mp (toNat_of_mem_utf8EncodeChar (by decide) hb)))
  · rintro rfl
    exact hcaret (Char.ext (UInt32.toNat_inj.mp (toNat_of_mem_utf8EncodeChar (by decide) hb)))

/-- **Names agree**, and are refused together. -/
theorem path_eq_reference (root : Bool) {segs : List (List Char)}
    (hsegs : ∀ seg ∈ segs, IsNameSegment seg) (hpos : 1 ≤ segs.length) (hcount : segs.length ≤ 255)
    (out : Bytes) :
    (do let path ← Path.new (dottedName root segs)
        toAmlBytes path out) =
      AmlBuild.buildAppendNamestringv out (asBytes (dottedName root segs)) := by
  obtain ⟨first, rest, rfl⟩ := List.exists_cons_of_length_pos hpos
  obtain ⟨c, chars, rfl⟩ : ∃ c chars, first = c :: chars :=
    List.exists_cons_of_length_pos (by
      rw [(hsegs first (List.mem_cons_self ..)).length_eq]
      decide)
  obtain ⟨-, hcaret, hbackslash⟩ :=
    (hsegs _ (List.mem_cons_self ..)).plain c (List.mem_cons_self ..)
  have hdot : ∀ seg ∈ (c :: chars) :: rest, '.' ∉ seg :=
    fun seg h hdot => ((hsegs seg h).plain _ hdot).1 rfl
  -- the reference
  have hdotBytes : ∀ seg ∈ ((c :: chars) :: rest).map segBytes, 0x2e ∉ seg := by
    intro seg hseg hbyte
    obtain ⟨seg', hseg', rfl⟩ := List.mem_map.mp hseg
    exact hdot seg' hseg' (mem_of_mem_segBytes (c := '.') (by decide) rfl hbyte)
  rw [asBytes_dottedName, List.map_cons,
    buildAppendNamestringv_eq root (exists_head_segBytes chars hbackslash hcaret) hdotBytes
      (by simpa using hcount), List.length_map, ← List.map_cons,
    ← mapM_namePart_eq _ _ fun seg h => (hsegs seg h).length_eq]
  -- the generator
  have hhead : (['.'].intercalate ((c :: chars) :: rest)).head? = some c := by
    cases rest <;> simp
  rw [dottedName, Path.new_of_head root hhead hbackslash,
    List.splitOn_intercalate '.' hdot (List.cons_ne_nil _ _)]
  cases hparts : ((c :: chars) :: rest).mapM Path.namePart with
  | error e => rfl
  | ok parts =>
    have hlen : parts.length = rest.length + 1 := (mapM_eq_ok hparts).length_eq.symm
    have hne : parts ≠ [] := by
      rintro rfl
      exact absurd hlen (by simp)
    refine ((Path.mk root parts).toAmlBytes_eq hne out).trans (congrArg Except.ok ?_)
    rw [vec_bytes, Path.encode, hlen, List.append_assoc, List.append_assoc, List.append_assoc]

/-! ## Frames -/

/-- A short package of the reference is a frame. -/
theorem buildPackage_eq {content : Bytes} (h : content.length < 4294967288) (op : UInt8) :
    AmlBuild.buildPackage content op = frame [op] content := by
  rw [AmlBuild.buildPackage, ← createPkgLength_eq_reference h]
  rfl

/-- A short package of an extended opcode of the reference is a frame. -/
theorem buildExtopPackage_eq {content : Bytes} (h : content.length < 4294967288) (op : UInt8) :
    AmlBuild.buildExtopPackage content op = frame [extOpPrefix, op] content := by
  rw [AmlBuild.buildExtopPackage, buildPackage_eq h]
  rfl

/-- A short buffer of the reference is a frame around its size and its bytes. -/
theorem buildBuffer_eq {data : Bytes} (h : data.length < 4294967272) (op : UInt8) :
    AmlBuild.buildBuffer data op = frame [op] (sizedContent data) := by
  have hvalue : (UInt32.ofNat data.length).toUInt64.toNat = data.length := by
    rw [UInt32.toNat_toUInt64, UInt32.toNat_ofNat', Nat.mod_eq_of_lt (by omega)]
  have hsized : AmlBuild.buildAppendInt [] (UInt32.ofNat data.length).toUInt64 ++ data =
      sizedContent data := by
    rw [buildAppendInt_eq, hvalue, sizedContent, Nat.mod_eq_of_lt (by omega)]
    rfl
  have hlength : (sizedContent data).length < 4294967288 := by
    have hint := length_encodeInt_le (data.length % 18446744073709551616)
    rw [sizedContent, List.length_append]
    omega
  rw [AmlBuild.buildBuffer, hsized, buildPackage_eq hlength]

section Frames

variable {content : Bytes} (parent : AmlBuild.Aml)

/-- Buffers agree. -/
theorem bufferData_eq_reference {data : Bytes} (h : data.length < 268435456) :
    toAmlBytes (BufferData.mk data) parent.buf =
      .ok (AmlBuild.amlAppend parent (AmlBuild.amlBuffer data)).buf := by
  refine ((writes_bufferData data).run parent.buf).trans ?_
  rw [vec_bytes, ← buildBuffer_eq (by omega)]
  rfl

/-- Resource templates agree, on the same descriptors. -/
theorem resourceTemplate_eq_reference {children : List DynAml}
    (hchildren : emitAll children ([] : Bytes) = .ok content) (h : content.length < 268435456) :
    toAmlBytes (ResourceTemplate.mk children) parent.buf =
      .ok (AmlBuild.amlAppend parent { AmlBuild.amlResourceTemplate with buf := content }).buf := by
  have hlength : (content ++ [0x79] ++ [0]).length < 4294967272 := by
    simp only [List.length_append, List.length_cons, List.length_nil]
    omega
  have happend : (AmlBuild.amlAppend parent
      { AmlBuild.amlResourceTemplate with buf := content }).buf =
        parent.buf ++ frame [bufferOp] (sizedContent (content ++ [endTag] ++ [0])) :=
    congrArg (parent.buf ++ ·) (buildBuffer_eq hlength bufferOp)
  rw [happend]
  change (do
    let bytes ← emitAll children ([] : Bytes)
    let bytes := bytes ++ [endTag]
    let bytes := bytes ++ [0]
    let bufferLength ← usizeToAmlBytes bytes.length ([] : Bytes)
    let pkgLength := createPkgLength (bytes.length + bufferLength.length) true
    let sink := AmlSink.byte parent.buf bufferOp
    let sink := AmlSink.vec sink pkgLength
    let sink := AmlSink.vec sink bufferLength
    return AmlSink.vec sink bytes) = _
  rw [hchildren, Checked.ok_bind]
  dsimp only
  rw [usizeToAmlBytes_eq, Checked.ok_bind]
  simp [frame, sizedContent, Nat.add_comm]

/-- A package that is appended adds its frame. -/
theorem amlAppend_package (h : content.length < 268435456) (op : UInt8) :
    (AmlBuild.amlAppend parent ⟨content, op, .package⟩).buf = parent.buf ++ frame [op] content := by
  rw [← buildPackage_eq (by omega)]
  rfl

/-- A package of an extended opcode that is appended adds its frame. -/
theorem amlAppend_extPackage (h : content.length < 268435456) (op : UInt8) :
    (AmlBuild.amlAppend parent ⟨content, op, .extPackage⟩).buf =
      parent.buf ++ frame [extOpPrefix, op] content := by
  rw [← buildExtopPackage_eq (by omega)]
  rfl

/-- Scopes agree, on the same content. -/
theorem scope_eq_reference {path : Path} {children : List DynAml}
    (hcontent : (toAmlBytes path ([] : Bytes) >>= emitAll children) = .ok content)
    (h : content.length < 268435456) :
    toAmlBytes (Scope.mk path children) parent.buf =
      .ok (AmlBuild.amlAppend parent ⟨content, 0x10, .package⟩).buf := by
  obtain ⟨name, hname, hchildren⟩ := Checked.bind_eq_ok.mp hcontent
  rw [amlAppend_package parent h]
  change (toAmlBytes path ([] : Bytes) >>= fun bytes => emitAll children bytes >>= fun bytes =>
    pure (emitFramed [scopeOp] bytes parent.buf)) = _
  rw [hname, Checked.ok_bind, hchildren, Checked.ok_bind, emitFramed_eq]
  rfl

/-- Devices agree, on the same content. -/
theorem device_eq_reference {path : Path} {children : List DynAml}
    (hcontent : (toAmlBytes path ([] : Bytes) >>= emitAll children) = .ok content)
    (h : content.length < 268435456) :
    toAmlBytes (Device.mk path children) parent.buf =
      .ok (AmlBuild.amlAppend parent ⟨content, 0x82, .extPackage⟩).buf := by
  obtain ⟨name, hname, hchildren⟩ := Checked.bind_eq_ok.mp hcontent
  rw [amlAppend_extPackage parent h]
  change (toAmlBytes path ([] : Bytes) >>= fun bytes => emitAll children bytes >>= fun bytes =>
    pure (emitFramed [extOpPrefix, deviceOp] bytes parent.buf)) = _
  rw [hname, Checked.ok_bind, hchildren, Checked.ok_bind, emitFramed_eq]
  rfl

/-- A path that can be written has a segment. -/
theorem Path.encode_of_toAmlBytes {path : Path} {name : Bytes}
    (h : toAmlBytes path ([] : Bytes) = .ok name) : path.nameParts ≠ [] ∧ name = path.encode := by
  have hne : path.nameParts ≠ [] := by
    intro hnil
    change path.toAmlBytes ([] : Bytes) = .ok name at h
    rw [Path.toAmlBytes, hnil] at h
    cases h
  refine ⟨hne, ?_⟩
  have hencode : toAmlBytes path ([] : Bytes) = .ok path.encode := path.toAmlBytes_eq hne []
  exact Except.ok.inj (h.symm.trans hencode)

/-- Scopes of raw bytes agree. -/
theorem scopeRaw_eq_reference {path : Path} {name children : Bytes}
    (hname : toAmlBytes path ([] : Bytes) = .ok name) (h : (name ++ children).length < 268435456) :
    (parent.buf ++ ·) <$> Scope.raw path children =
      .ok (AmlBuild.amlAppend parent ⟨name ++ children, 0x10, .package⟩).buf := by
  obtain ⟨hne, rfl⟩ := Path.encode_of_toAmlBytes hname
  rw [amlAppend_package parent h, Scope.raw_eq hne]
  rfl

/-- Devices of raw bytes agree. -/
theorem deviceRaw_eq_reference {path : Path} {name children : Bytes}
    (hname : toAmlBytes path ([] : Bytes) = .ok name) (h : (name ++ children).length < 268435456) :
    (parent.buf ++ ·) <$> Device.raw path children =
      .ok (AmlBuild.amlAppend parent ⟨name ++ children, 0x82, .extPackage⟩).buf := by
  obtain ⟨hne, rfl⟩ := Path.encode_of_toAmlBytes hname
  rw [amlAppend_extPackage parent h, Device.raw_eq hne]
  rfl

end Frames

/-- **The generator writes what the reference writes**: all integers of 64 bits,
all package lengths below 2^28, all names of up to 255 segments that both take, and
the frames of buffers, templates, scopes and devices around any content below 2^28.
The reference writes the content first and puts the length in front of it. -/
theorem encoder_matches_reference :
    (∀ (value : UInt64) (out : Bytes),
      toAmlBytes value out = .ok (AmlBuild.buildAppendInt out value)) ∧
    (∀ n, n < 268435456 → ∀ (includeSelf : Bool) (package : Bytes),
      createPkgLength n includeSelf ++ package =
        AmlBuild.buildPrependPackageLength package (UInt32.ofNat n) includeSelf) ∧
    (∀ (root : Bool) (segs : List (List Char)), (∀ seg ∈ segs, IsNameSegment seg) →
      1 ≤ segs.length → segs.length ≤ 255 → ∀ out : Bytes,
        (do let path ← Path.new (dottedName root segs)
            toAmlBytes path out) =
          AmlBuild.buildAppendNamestringv out (asBytes (dottedName root segs))) ∧
    (∀ (parent : AmlBuild.Aml) (data : Bytes), data.length < 268435456 →
      toAmlBytes (BufferData.mk data) parent.buf =
        .ok (AmlBuild.amlAppend parent (AmlBuild.amlBuffer data)).buf) ∧
    (∀ (parent : AmlBuild.Aml) (children : List DynAml) (content : Bytes),
      emitAll children ([] : Bytes) = .ok content → content.length < 268435456 →
        toAmlBytes (ResourceTemplate.mk children) parent.buf =
          .ok (AmlBuild.amlAppend parent
            { AmlBuild.amlResourceTemplate with buf := content }).buf) ∧
    (∀ (parent : AmlBuild.Aml) (path : Path) (children : List DynAml) (content : Bytes),
      (toAmlBytes path ([] : Bytes) >>= emitAll children) = .ok content →
        content.length < 268435456 →
          toAmlBytes (Scope.mk path children) parent.buf =
              .ok (AmlBuild.amlAppend parent ⟨content, 0x10, .package⟩).buf ∧
            toAmlBytes (Device.mk path children) parent.buf =
              .ok (AmlBuild.amlAppend parent ⟨content, 0x82, .extPackage⟩).buf) ∧
    (∀ (parent : AmlBuild.Aml) (path : Path) (name children : Bytes),
      toAmlBytes path ([] : Bytes) = .ok name → (name ++ children).length < 268435456 →
        (parent.buf ++ ·) <$> Scope.raw path children =
            .ok (AmlBuild.amlAppend parent ⟨name ++ children, 0x10, .package⟩).buf ∧
          (parent.buf ++ ·) <$> Device.raw path children =
            .ok (AmlBuild.amlAppend parent ⟨name ++ children, 0x82, .extPackage⟩).buf) := by
  refine ⟨toAmlBytes_u64_eq_reference, ?_, ?_, ?_, ?_, ?_, ?_⟩
  · intro n hn
    exact createPkgLength_eq_reference (by omega)
  · intro root segs hsegs hpos hcount
    exact path_eq_reference root hsegs hpos hcount
  · intro parent data h
    exact bufferData_eq_reference parent h
  · intro parent children content hchildren h
    exact resourceTemplate_eq_reference parent hchildren h
  · intro parent path children content hcontent h
    exact ⟨scope_eq_reference parent hcontent h, device_eq_reference parent hcontent h⟩
  · intro parent path name children hname h
    exact ⟨scopeRaw_eq_reference parent hname h, deviceRaw_eq_reference parent hname h⟩

theorem encoder_matches_reference_pci0 :
    createPkgLength 4094 true ++ [] = AmlBuild.buildPrependPackageLength [] 4094 true ∧
    (do let path ← Path.new (dottedName true ["_SB_".toList, "PCI0".toList])
        toAmlBytes path ([] : Bytes)) =
      AmlBuild.buildAppendNamestringv []
        (asBytes (dottedName true ["_SB_".toList, "PCI0".toList])) :=
  have hsegs : ∀ seg ∈ ["_SB_".toList, "PCI0".toList], IsNameSegment seg := by
    intro seg hseg
    rcases List.mem_cons.mp hseg with rfl | hseg
    · exact ⟨by decide, forall_mem_of_all (by decide), by decide⟩
    · obtain rfl := List.mem_singleton.mp hseg
      exact ⟨by decide, forall_mem_of_all (by decide), by decide⟩
  ⟨encoder_matches_reference.2.1 4094 (by decide) true [],
    encoder_matches_reference.2.2.1 true _ hsegs (by decide) (by decide) []⟩

end AcpiTables
