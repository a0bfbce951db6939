import AcpiTables.Encoding
import AcpiTables.Grammar

/-!
# The lexical items, written and read

What the emission writes for a package length, a namestring, an integer and a
string is what the grammar reads. The package length is the one item whose
agreement is conditional: it holds 28 bits, and a larger value is written
reduced modulo `2 ^ 28`. Below that it is exact, and as short as it can be when
it counts itself (`createPkgLength_readsBack`).

The lemmas that the trees are read with say that an item settles: with any bytes
behind it the reader returns its value and stops right behind it
(`settles_pkgContent`, `settles_nameString`, `settles_int`, `settles_string`).
-/

namespace AcpiTables

open Reader

/-! ## Package lengths -/

/-- The number of bytes `createPkgLength` spends on a length. -/
def pkgWidth (len : ℕ) : ℕ :=
  if len < 63 then 1 else if len < 4094 then 2 else if len < 1048573 then 3 else 4

/-- A package length takes at least one byte. -/
theorem pkgWidth_pos (len : ℕ) : 1 ≤ pkgWidth len := by
  unfold pkgWidth
  split_ifs <;> omega

/-- A package length takes at most four bytes. -/
theorem pkgWidth_le (len : ℕ) : pkgWidth len ≤ 4 := by
  unfold pkgWidth
  split_ifs <;> omega

/-- Longer contents have package lengths that are not shorter. -/
theorem pkgWidth_mono : Monotone pkgWidth := by
  intro m n h
  unfold pkgWidth
  split_ifs <;> omega

/-- More content takes more bytes, those of its length included. -/
theorem add_pkgWidth_lt {m n : ℕ} (h : m < n) : m + pkgWidth m < n + pkgWidth n :=
  Nat.add_lt_add_of_lt_of_le h (pkgWidth_mono h.le)

/-- The largest content that a package length can hold. -/
theorem add_pkgWidth_lt_iff {len : ℕ} : len + pkgWidth len < 268435456 ↔ len < 268435452 := by
  unfold pkgWidth
  split_ifs <;> omega

/-- The lead byte of a length of more than one byte. -/
theorem pkgLead_eq (n : ℕ) :
    (((1 : UInt8) <<< 6) ||| UInt8.ofNat (n &&& 0xf) = UInt8.ofNat (64 * 1 + n % 16)) ∧
    (((2 : UInt8) <<< 6) ||| UInt8.ofNat (n &&& 0xf) = UInt8.ofNat (64 * 2 + n % 16)) ∧
    (((3 : UInt8) <<< 6) ||| UInt8.ofNat (n &&& 0xf) = UInt8.ofNat (64 * 3 + n % 16)) := by
  have hand : n &&& 0xf = n % 16 := Nat.and_two_pow_sub_one_eq_mod n 4
  have hall : ∀ m : Fin 16,
      (((1 : UInt8) <<< 6) ||| UInt8.ofNat m = UInt8.ofNat (64 * 1 + m)) ∧
      (((2 : UInt8) <<< 6) ||| UInt8.ofNat m = UInt8.ofNat (64 * 2 + m)) ∧
      (((3 : UInt8) <<< 6) ||| UInt8.ofNat m = UInt8.ofNat (64 * 3 + m)) := by decide
  rw [hand]
  exact hall ⟨n % 16, Nat.mod_lt n (by decide)⟩

/-- The bytes of a package length: one byte for the smallest, otherwise a lead
byte with the low four bits and the rest in little-endian order. -/
theorem createPkgLength_eq (len : ℕ) (includeSelf : Bool) :
    createPkgLength len includeSelf =
      let n := len + if includeSelf then pkgWidth len else 0
      if pkgWidth len = 1 then [UInt8.ofNat n]
      else
        UInt8.ofNat (64 * (pkgWidth len - 1) + n % 16) :: leBytes (pkgWidth len - 1) (n / 16) := by
  have hshift : ∀ n : ℕ, n >>> 4 = n / 16 ∧ n >>> 12 = n / 16 / 256 ∧
      n >>> 20 = n / 16 / 256 / 256 := by
    intro n
    simp [Nat.shiftRight_eq_div_pow, Nat.div_div_eq_div_mul]
  unfold createPkgLength pkgWidth
  by_cases h₁ : len < 63
  · simp only [Nat.reducePow, Nat.reduceSub, h₁, if_true]
  by_cases h₂ : len < 4094
  · simp only [Nat.reducePow, Nat.reduceSub, h₁, h₂, if_true, if_false, OfNat.ofNat_ne_one]
    generalize (len + if includeSelf then 2 else 0) = n
    simp only [leBytes, (pkgLead_eq n).1, (hshift n).1]
  by_cases h₃ : len < 1048573
  · simp only [Nat.reducePow, Nat.reduceSub, h₁, h₂, h₃, if_true, if_false, OfNat.ofNat_ne_one]
    generalize (len + if includeSelf then 3 else 0) = n
    simp only [leBytes, (pkgLead_eq n).2.1, (hshift n).1, (hshift n).2.1]
  · simp only [Nat.reducePow, Nat.reduceSub, h₁, h₂, h₃, if_false, OfNat.ofNat_ne_one]
    generalize (len + if includeSelf then 4 else 0) = n
    simp only [leBytes, (pkgLead_eq n).2.2, (hshift n).1, (hshift n).2.1, (hshift n).2.2]

/-- A package length is as long as `pkgWidth` says. -/
@[simp] theorem length_createPkgLength_eq (len : ℕ) (includeSelf : Bool) :
    (createPkgLength len includeSelf).length = pkgWidth len := by
  have := pkgWidth_pos len
  rw [createPkgLength_eq]
  generalize (len + if includeSelf then pkgWidth len else 0) = n
  by_cases h : pkgWidth len = 1
  · simp [h]
  · simp only [h, if_false, List.length_cons, length_leBytes]
    omega

/-- **Package lengths hold 28 bits**: what is read back is the length written,
modulo `2 ^ 28`. -/
theorem pkgLength_createPkgLength (len : ℕ) (includeSelf : Bool) (s : Bytes) :
    pkgLength (createPkgLength len includeSelf ++ s) =
      some (((len + if includeSelf then pkgWidth len else 0) % 268435456, pkgWidth len), s) := by
  set n := len + if includeSelf then pkgWidth len else 0 with hn
  have hself : n ≤ len + pkgWidth len := by
    rw [hn]
    split_ifs <;> omega
  clear_value n
  rw [createPkgLength_eq]
  dsimp only
  rw [← hn]
  split_ifs with h₁
  · -- one byte, below 64
    have hlt : n < 64 := by
      unfold pkgWidth at h₁ hself
      split_ifs at h₁ hself <;> omega
    have hb : (UInt8.ofNat n).toNat = n := by
      rw [UInt8.toNat_ofNat']
      omega
    have hdiv : n / 64 = 0 := by omega
    have hmod : n % 268435456 = n := by omega
    simp [pkgLength, hb, hdiv, hmod, h₁]
  · obtain ⟨k, hk, hk1, hk3⟩ : ∃ k, pkgWidth len = k + 1 ∧ 1 ≤ k ∧ k ≤ 3 :=
      ⟨pkgWidth len - 1, by have := pkgWidth_pos len; have := pkgWidth_le len; omega⟩
    have hbound : n < 16 * 256 ^ k ∨ k = 3 := by
      unfold pkgWidth at hk hself
      split_ifs at hk hself
      · omega
      · obtain rfl : k = 1 := by omega
        omega
      · obtain rfl : k = 2 := by omega
        omega
      · omega
    have hb : (UInt8.ofNat (64 * k + n % 16)).toNat = 64 * k + n % 16 := by
      rw [UInt8.toNat_ofNat']
      omega
    have hfollow : (64 * k + n % 16) / 64 = k := by omega
    have hreserved : (64 * k + n % 16) / 16 % 4 = 0 := by omega
    have hlow : (64 * k + n % 16) % 16 = n % 16 := by omega
    have hvalue : n % 16 + 16 * (n / 16 % 256 ^ k) = n % 268435456 := by
      rcases hbound with hlt | rfl
      · have hdiv : n / 16 < 256 ^ k := Nat.div_lt_of_lt_mul hlt
        have hpow : 256 ^ k ≤ 256 ^ 3 := Nat.pow_le_pow_right (by decide) hk3
        have hn28 : n < 268435456 := by omega
        rw [Nat.mod_eq_of_lt hdiv, Nat.mod_eq_of_lt hn28]
        omega
      · omega
    have htake := (settles_take (σ := UInt8) (length_leBytes k (n / 16))).reads trivial s
    have hk0 : k ≠ 0 := by omega
    simp only [hk, Nat.add_sub_cancel, List.cons_append, pkgLength, hb, hfollow, hk0, if_false,
      hreserved, if_true, Reader.map, htake, hlow, leValue_leBytes, hvalue, Option.map_some]

/-- A package length below the limit is read back as the length of the content. -/
theorem settles_pkgContent {len : ℕ} (h : len + pkgWidth len < 268435456) :
    Settles pkgContent (createPkgLength len true) len True := by
  refine .of_reads fun s => ?_
  have hle : pkgWidth len ≤ len + pkgWidth len := Nat.le_add_left ..
  simp [pkgContent, Reader.map, Reader.filter, pkgLength_createPkgLength, Option.filter,
    Nat.mod_eq_of_lt h, hle]

/-- A frame of which exactly its own content is read is short of `2 ^ 28` bytes. -/
theorem read_of_framed_pkgContent {α : Type} {p : Reader UInt8 α} {content s : Bytes} {a : α}
    (h : framed pkgContent p (createPkgLength content.length true ++ (content ++ s)) =
      some (a, s)) :
    content.length + pkgWidth content.length < 268435456 ∧ p content = some (a, []) := by
  obtain ⟨n, s', hlen, hle, hread, hrest⟩ := framed_eq_some.mp h
  obtain ⟨⟨total, width⟩, hpkg, hn⟩ := map_eq_some.mp hlen
  obtain ⟨hpkg, hwidth⟩ := Option.filter_eq_some_iff.mp hpkg
  rw [pkgLength_createPkgLength, if_pos rfl] at hpkg
  obtain ⟨hcount, rfl⟩ := Prod.mk.inj (Option.some.inj hpkg)
  obtain ⟨rfl, rfl⟩ := Prod.mk.inj hcount
  -- what is not in the frame is all of the continuation
  have hdrop := congrArg List.length hrest
  rw [List.length_drop, List.length_append] at hdrop
  rw [List.length_append] at hle
  have hwidth := of_decide_eq_true hwidth
  have hcontent : n = content.length := by omega
  rw [hcontent, List.take_left] at hread
  dsimp only at hn hwidth
  exact ⟨by omega, hread⟩

/-- A length that counts nothing but the bits it is about is read back exactly
when it is below `2 ^ 28`. -/
theorem settles_pkgValue (bits : ℕ) :
    Settles pkgValue (createPkgLength bits false) bits (bits < 268435456) := by
  have hread : ∀ s, pkgValue (createPkgLength bits false ++ s) = some (bits % 268435456, s) := by
    intro s
    simp [pkgValue, Reader.map, pkgLength_createPkgLength]
  refine ⟨fun hc s => ?_, fun hc s r he => ?_⟩
  · rw [hread, Nat.mod_eq_of_lt hc]
  · rw [hread] at he
    have hmod : bits % 268435456 = bits := (Prod.mk.inj (Option.some.inj he)).1
    omega

/-! ### Widths -/

/-- What a package length of a width is below: six bits in one byte, otherwise
four bits and eight for each byte behind the first. -/
def pkgLimit (width : ℕ) : ℕ := if width = 1 then 2 ^ 6 else 2 ^ (4 + 8 * (width - 1))

/-- A length that counts its own bytes fits a width. -/
structure FitsWidth (len width : ℕ) : Prop where
  width_pos : 1 ≤ width
  width_le : width ≤ 4
  lt_limit : len + width < pkgLimit width

/-- The thresholds are where one byte more is needed for the byte itself. -/
theorem pkgWidth_le_iff {len width : ℕ} (hpos : 1 ≤ width) (hle : width ≤ 4)
    (h : len + 4 < 268435456) : pkgWidth len ≤ width ↔ len + width < pkgLimit width := by
  have hlimits : pkgLimit 1 = 64 ∧ pkgLimit 2 = 4096 ∧ pkgLimit 3 = 1048576 ∧
      pkgLimit 4 = 268435456 := by decide
  obtain ⟨hone, htwo, hthree, hfour⟩ := hlimits
  obtain rfl | rfl | rfl | rfl : width = 1 ∨ width = 2 ∨ width = 3 ∨ width = 4 := by omega
  · rw [hone, pkgWidth]
    split_ifs <;> omega
  · rw [htwo, pkgWidth]
    split_ifs <;> omega
  · rw [hthree, pkgWidth]
    split_ifs <;> omega
  · rw [hfour, pkgWidth]
    split_ifs <;> omega

/-- The width is the least one in which the length fits together with its own
bytes. -/
theorem isLeast_pkgWidth {len : ℕ} (h : len + 4 < 268435456) :
    IsLeast {width | FitsWidth len width} (pkgWidth len) := by
  constructor
  · exact ⟨pkgWidth_pos len, pkgWidth_le len,
      (pkgWidth_le_iff (pkgWidth_pos len) (pkgWidth_le len) h).mp le_rfl⟩
  · rintro width ⟨hpos, hle, hlimit⟩
    exact (pkgWidth_le_iff hpos hle h).mpr hlimit

/-! ### Lead bytes -/

/-- What is read as a package length starts with a lead byte that counts the bytes
behind it, and has no reserved bit set if there are any. -/
theorem lead_of_pkgLength {lead : UInt8} {s r : Bytes} {value width : ℕ}
    (h : pkgLength (lead :: s) = some ((value, width), r)) :
    lead.toNat / 64 + 1 = width ∧ (1 < width → lead.toNat / 16 % 4 = 0) := by
  rw [pkgLength] at h
  split_ifs at h with hfollow hreserved
  · obtain ⟨-, rfl⟩ := Prod.mk.inj (Prod.mk.inj (Option.some.inj h)).1
    rw [hfollow]
    exact ⟨rfl, fun hwidth => absurd hwidth (lt_irrefl 1)⟩
  · obtain ⟨follow, -, hvalue⟩ := map_eq_some.mp h
    exact ⟨(Prod.mk.inj hvalue).2, fun _ => hreserved⟩

/-- The upper two bits of the first byte count the bytes that follow. -/
theorem toNat_shiftRight_six (lead : UInt8) : (lead >>> 6).toNat = lead.toNat / 64 := by
  rw [UInt8.toNat_shiftRight, Nat.shiftRight_eq_div_pow]
  rfl

/-- The reserved bits of the first byte are clear. -/
theorem reserved_eq_zero_iff (lead : UInt8) : lead &&& 0x30 = 0 ↔ lead.toNat / 16 % 4 = 0 := by
  have hall : ∀ n : Fin 256, UInt8.ofNat n &&& 0x30 = 0 ↔ n.val / 16 % 4 = 0 := by decide +kernel
  have hlead := hall ⟨lead.toNat, lead.toNat_lt⟩
  rwa [UInt8.ofNat_toNat] at hlead

/-- A package length that says a value, as the format has it. -/
structure SaysLength (w : Bytes) (value : ℕ) : Prop where
  width_pos : 1 ≤ w.length
  width_le : w.length ≤ 4
  /-- the top two bits of the first byte are the number of bytes behind it -/
  follow_eq : w.head?.map (fun lead : UInt8 => (lead >>> 6).toNat) = some (w.length - 1)
  /-- bits 4 and 5 of the first byte are reserved if there are more -/
  reserved_eq : 1 < w.length → w.head?.map (fun lead : UInt8 => lead &&& 0x30) = some 0
  /-- the value is read back, whatever is behind it -/
  value_eq : ∀ s, pkgLength (w ++ s) = some ((value, w.length), s)

/-- What is read back has the form. -/
theorem saysLength_of_reads {w : Bytes} {value : ℕ} (hle : w.length ≤ 4)
    (h : ∀ s, pkgLength (w ++ s) = some ((value, w.length), s)) : SaysLength w value := by
  cases w with
  | nil => exact absurd (h []) (Option.some_ne_none _ ∘ Eq.symm)
  | cons lead follow =>
    obtain ⟨hfollow, hreserved⟩ := lead_of_pkgLength (h [])
    refine ⟨Nat.succ_pos _, hle, ?_, fun hmany => ?_, h⟩
    · rw [List.head?_cons, Option.map_some, toNat_shiftRight_six, ← hfollow, Nat.add_sub_cancel]
    · rw [List.head?_cons, Option.map_some, (reserved_eq_zero_iff lead).mpr (hreserved hmany)]

/-- **Package lengths are exact.** Below `2 ^ 28` with four bytes for itself, a
length is said in at most four bytes, and in no more than it takes when it counts
them; and more content always takes more bytes. -/
theorem createPkgLength_readsBack (includeSelf : Bool) :
    (∀ len, len + 4 < 268435456 →
      SaysLength (createPkgLength len includeSelf)
          (len + if includeSelf then (createPkgLength len includeSelf).length else 0) ∧
        IsLeast {width | FitsWidth len width} (createPkgLength len includeSelf).length) ∧
    StrictMono fun len => len + (createPkgLength len includeSelf).length := by
  constructor
  · intro len h
    have hvalue : (len + if includeSelf then pkgWidth len else 0) < 268435456 := by
      have := pkgWidth_le len
      split_ifs <;> omega
    rw [length_createPkgLength_eq]
    refine ⟨saysLength_of_reads ?_ fun s => ?_, isLeast_pkgWidth h⟩
    · rw [length_createPkgLength_eq]
      exact pkgWidth_le len
    · rw [pkgLength_createPkgLength, length_createPkgLength_eq, Nat.mod_eq_of_lt hvalue]
  · intro m n h
    dsimp only
    rw [length_createPkgLength_eq, length_createPkgLength_eq]
    exact add_pkgWidth_lt h

/-- The first length that takes three bytes. -/
theorem createPkgLength_readsBack_threeBytes :
    SaysLength [0x81, 0x00, 0x01] 4097 ∧ IsLeast {width | FitsWidth 4094 width} 3 :=
  (createPkgLength_readsBack true).1 4094 (by decide)

/-! ## Namestrings -/

namespace Path

/-- The namestring of a path: no parent prefixes, its segments. -/
def nameString (path : Path) : NameString := ⟨path.root, 0, path.nameParts.map Vector.toList⟩

/-- At least one segment and at most as many as can be counted, all of them
name segments. -/
structure Valid (path : Path) : Prop where
  ne_nil : path.nameParts ≠ []
  length_le : path.nameParts.length ≤ 255
  segs : ∀ part ∈ path.nameParts, isNameSeg part.toList = true

/-- Validity, with one test for all segments. -/
theorem valid_iff (path : Path) : path.Valid ↔ path.nameParts ≠ [] ∧
    path.nameParts.length ≤ 255 ∧
      path.nameParts.all (fun part => isNameSeg part.toList) = true := by
  rw [List.all_eq_true]
  exact ⟨fun h => ⟨h.ne_nil, h.length_le, h.segs⟩, fun h => ⟨h.1, h.2.1, h.2.2⟩⟩

instance : DecidablePred Valid := fun path => decidable_of_iff _ path.valid_iff.symm

end Path

/-- A name segment has four bytes. -/
theorem length_of_isNameSeg {seg : Bytes} (h : isNameSeg seg = true) : seg.length = 4 := by
  unfold isNameSeg at h
  split at h
  · rfl
  · cases h

/-- A name segment starts with a lead name character, which announces a name
and is none of the prefixes. -/
theorem lead_of_isNameSeg {seg : Bytes} (h : isNameSeg seg = true) :
    ∃ b s, seg = b :: s ∧ isLeadNameChar b = true := by
  unfold isNameSeg at h
  split at h
  · next a b c d =>
    simp only [Bool.and_eq_true] at h
    exact ⟨a, _, rfl, h.1.1.1⟩
  · cases h

/-- A name segment is read back. -/
theorem settles_nameSeg {seg : Bytes} (h : isNameSeg seg = true) :
    Settles nameSeg seg seg True :=
  (settles_take (length_of_isNameSeg h)).filter h

/-- Segments are read back, one after the other. -/
theorem settles_segs {l : List (Vector UInt8 4)} (h : ∀ part ∈ l, isNameSeg part.toList = true) :
    Settles (count nameSeg l.length) (l.flatMap Vector.toList) (l.map Vector.toList) True :=
  (settles_count l fun part hpart => settles_nameSeg (h part hpart)).congr (by simp)

/-- The first character of a segment is none of the bytes that a name path begins
with. -/
theorem not_prefix_of_isLeadNameChar {b : UInt8} (h : isLeadNameChar b = true) :
    b ≠ 0x00 ∧ b ≠ 0x2e ∧ b ≠ 0x2f ∧ b ≠ 0x5c ∧ b ≠ 0x5e := by
  refine ⟨?_, ?_, ?_, ?_, ?_⟩ <;> rintro rfl <;> revert h <;> decide

/-- Without a prefix a name path is one segment. -/
theorem namePath_of_lead {b : UInt8} (h : isLeadNameChar b = true) (s : Bytes) :
    namePath (b :: s) = count nameSeg 1 (b :: s) := by
  obtain ⟨h0, h2, h3, -, -⟩ := not_prefix_of_isLeadNameChar h
  unfold namePath
  split
  · next heq => exact absurd (List.cons.inj heq).1 h0
  · next heq => exact absurd (List.cons.inj heq).1 h2
  · next heq => exact absurd (List.cons.inj heq).1 h3
  · rfl

/-- The segments of a path, with the prefix that counts them. They start with a
byte that can only start a name. -/
theorem settles_namePath {l : List (Vector UInt8 4)} (hne : l ≠ []) (hlen : l.length ≤ 255)
    (h : ∀ part ∈ l, isNameSeg part.toList = true) :
    Settles namePath (segCountPrefix l.length ++ l.flatMap Vector.toList) (l.map Vector.toList)
      True ∧
    ∃ b s, segCountPrefix l.length ++ l.flatMap Vector.toList = b :: s ∧ startsName b = true ∧
      b ≠ 0x5c ∧ b ≠ 0x5e := by
  have hsegs := settles_segs h
  match l, hne with
  | [x], _ =>
    obtain ⟨b, s, hx, hb⟩ := lead_of_isNameSeg (h x (by simp))
    obtain ⟨-, -, -, h5, h6⟩ := not_prefix_of_isLeadNameChar hb
    have hword : segCountPrefix [x].length ++ [x].flatMap Vector.toList = b :: s := by
      simp [segCountPrefix, hx]
    refine ⟨.of_reads fun r => ?_, b, s, hword, by simp [startsName, hb], h5, h6⟩
    rw [hword, List.cons_append, namePath_of_lead hb]
    have := hsegs.reads trivial r
    rwa [show [x].flatMap Vector.toList = b :: s by simpa using hx, List.cons_append] at this
  | [x, y], _ =>
    refine ⟨.of_reads fun r => ?_, 0x2e, _, rfl, by decide, by decide, by decide⟩
    exact hsegs.reads trivial r
  | x :: y :: z :: l, _ =>
    refine ⟨.of_reads fun r => ?_, 0x2f, _, rfl, by decide, by decide, by decide⟩
    have hn : (UInt8.ofNat (x :: y :: z :: l).length).toNat = (x :: y :: z :: l).length := by
      rw [UInt8.toNat_ofNat']
      omega
    have := hsegs.reads trivial r
    rw [← hn] at this
    exact this

/-- A valid path is read back. -/
theorem settles_nameString {path : Path} (h : path.Valid) :
    Settles nameString path.encode path.nameString True := by
  obtain ⟨hread, b, s, hword, -, h5c, h5e⟩ := settles_namePath h.ne_nil h.length_le h.segs
  refine .of_reads fun r => ?_
  have := hread.reads trivial r
  rw [hword, List.cons_append] at this
  rw [Path.encode, List.append_assoc (if path.root then _ else _), hword, Path.nameString]
  cases path.root with
  | true => simp [nameString, Reader.map, this]
  | false =>
    have hcaret : (b == 0x5e) = false := by simpa using h5e
    unfold nameString
    split
    · next heq => exact absurd (List.cons.inj heq).1 h5c
    · simp [Reader.map, this, hcaret]

/-- A namestring in the place of a term is a reference. -/
theorem settles_ref {p : Reader UInt8 Term} {path : Path} (h : path.Valid) :
    Settles (termStep p) path.encode (.ref path.nameString) True := by
  obtain ⟨-, b, s, hword, hb, -, -⟩ := settles_namePath h.ne_nil h.length_le h.segs
  have hlead : ∃ b s, path.encode = b :: s ∧ startsName b = true := by
    rw [Path.encode, List.append_assoc, hword]
    cases path.root with
    | true => exact ⟨0x5c, b :: s, rfl, by decide⟩
    | false => exact ⟨b, s, rfl, hb⟩
  obtain ⟨b', s', hencode, hb'⟩ := hlead
  refine .of_reads fun r => ?_
  have := (settles_nameString h).reads trivial r
  rw [hencode, List.cons_append] at this ⊢
  simp only [termStep, lookup_name hb']
  exact map_eq_some.mpr ⟨_, this, rfl⟩

/-! ## Integers and strings -/

/-- A number is read back from its bytes. -/
theorem settles_number {width n : ℕ} (h : n < 256 ^ width) :
    Settles (number width) (leBytes width n) n True := by
  refine .of_reads fun s => map_eq_some.mpr ⟨_, ?_, leValue_leBytes_of_lt h⟩
  exact (settles_take (length_leBytes width n)).reads trivial s

/-- Integers are read back by value, whichever width they were written with. -/
theorem settles_int {p : Reader UInt8 Term} {n : ℕ} (h : n < 18446744073709551616) :
    Settles (termStep p) (encodeInt n) (.int n) True := by
  have hconst : ∀ value code, (code, Head.constant value) ∈ rows →
      Settles (termStep p) (code ++ []) (.int value) True :=
    fun value code hrow => settles_row hrow (.of_reads fun _ => rfl)
  have hnumber : ∀ width code, (code, Head.number width) ∈ rows → n < 256 ^ width →
      Settles (termStep p) (code ++ leBytes width n) (.int n) True :=
    fun width code hrow hn =>
      settles_row hrow ((settles_number hn).map fun _ _ heq => Term.int.inj heq)
  unfold encodeInt
  split_ifs with h0 h1 h2 h3 h4
  · rw [h0]
    exact hconst 0 [0x00] (by decide)
  · rw [h1]
    exact hconst 1 [0x01] (by decide)
  · exact hnumber 1 [0x0a] (by decide) h2
  · exact hnumber 2 [0x0b] (by decide) h3
  · exact hnumber 4 [0x0c] (by decide) h4
  · exact hnumber 8 [0x0e] (by decide) h

/-- Only the null character has a zero byte in its encoding. -/
theorem zero_notMem_utf8EncodeChar {c : Char} (h : c ≠ '\x00') :
    0 ∉ String.utf8EncodeChar c := by
  have hc : c.val.toNat ≠ 0 := fun h0 => h (Char.ext (UInt32.toNat_inj.mp h0))
  intro hmem
  have hbyte : ∀ n : ℕ, (0 : UInt8) = UInt8.ofNat n → n % 256 = 0 := by
    intro n hn
    simpa using (congrArg UInt8.toNat hn).symm
  unfold String.utf8EncodeChar at hmem
  dsimp only at hmem
  split_ifs at hmem <;> simp only [List.mem_cons, List.not_mem_nil, or_false] at hmem
  · have := hbyte _ hmem
    omega
  · rcases hmem with hmem | hmem <;> · have := hbyte _ hmem; omega
  · rcases hmem with hmem | hmem | hmem <;> · have := hbyte _ hmem; omega
  · rcases hmem with hmem | hmem | hmem | hmem <;> · have := hbyte _ hmem; omega

/-- A string without a null character has no zero byte. -/
theorem zero_notMem_asBytes {v : String} (h : '\x00' ∉ v.toList) : 0 ∉ asBytes v := by
  intro hmem
  obtain ⟨c, hc, h0⟩ := List.mem_flatMap.mp hmem
  exact zero_notMem_utf8EncodeChar (fun heq => h (heq ▸ hc)) h0

/-- Characters are read back up to the zero byte. -/
theorem settles_charList {cs : Bytes} (h : 0 ∉ cs) : Settles charList (cs ++ [0]) cs True := by
  have hall : ∀ b ∈ cs, (b != 0) = true := by
    intro b hb
    have hne : b ≠ 0 := by
      rintro rfl
      exact h hb
    simpa using hne
  refine .of_reads fun s => ?_
  simp only [charList, List.append_assoc, List.dropWhile_append_of_pos hall,
    List.takeWhile_append_of_pos hall]
  simp

/-- A string without a null character is read back. -/
theorem settles_string {p : Reader UInt8 Term} {v : String} (h : '\x00' ∉ v.toList) :
    Settles (termStep p) (encodeString v) (.str (asBytes v)) True :=
  settles_row (e := [0x0d]) (show ([0x0d], Head.string) ∈ rows by decide)
    ((settles_charList (zero_notMem_asBytes h)).map fun _ _ heq => Term.str.inj heq)

end AcpiTables
