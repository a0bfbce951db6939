import AcpiTables.AmlReference
import AcpiTables.DsdtTree

/-!
# EISA identifiers

Seven characters are packed into a word: three letters of five bits each and four
hexadecimal digits. `asDocumented_iff` says for which strings this is as
documented: the string is accepted if it is an identifier, it can be unpacked, and
what is written for it is what the reference encoder writes.

Two kinds of strings are left out. The letters are only checked from below, so
other characters behind them pass as well; and the word of an identifier whose
number is zero is short enough for a shorter integer than the reference's.
-/

namespace AcpiTables

open MachineInt

/-! ## Identifiers -/

/-- Three characters of a kind, then four hexadecimal digits. -/
def hasEisaShape (letter : Char → Bool) (name : String) : Bool :=
  match name.toList with
  | [a, b, c, d, e, f, g] =>
    [a, b, c].all letter && [d, e, f, g].all fun digit => (toDigit16 digit).isSome
  | _ => false

/-- Three uppercase letters, then four hexadecimal digits. -/
def IsEisaId (name : String) : Prop :=
  hasEisaShape (fun c => 'A' ≤ c && c ≤ 'Z') name = true

instance : DecidablePred IsEisaId := fun _ => inferInstanceAs (Decidable (_ = true))

/-- The characters that the subtraction in front of the packing lets pass. -/
def IsLetterAlias (c : Char) : Bool := '@' ≤ c && c.toNat < 128

/-- The letters and digits that a word holds. -/
def unpackEisaId (value : UInt32) : List Char :=
  let id := (swapBytes value).toNat
  [id / 2 ^ 26 % 32, id / 2 ^ 21 % 32, id / 2 ^ 16 % 32].map
    (fun letter => Char.ofNat (64 + letter))
    ++ [id / 2 ^ 12 % 16, id / 2 ^ 8 % 16, id / 2 ^ 4 % 16, id % 16].map hexDigit

/-- What is documented of a string. -/
structure AsDocumented (name : String) : Prop where
  accepts : (∃ id, EISAName.new name = .ok id) ↔ IsEisaId name
  unpacks : ∀ id, IsEisaId name → EISAName.new name = .ok id →
    unpackEisaId id.value = name.toList.map Char.toUpper
  /-- digits in uppercase: the bytes of the reference -/
  reference : ∀ id, IsEisaId name → name.toList.map Char.toUpper = name.toList →
    EISAName.new name = .ok id →
      ∃ aml, AmlBuild.amlEisaid (asBytes name) = .ok aml ∧
        toAmlBytes id ([] : Bytes) = .ok aml.buf

/-! ## Characters -/

/-- A hexadecimal digit is an ASCII character. -/
theorem lt_of_toDigit16 {c : Char} {v : ℕ} (h : toDigit16 c = some v) : c.toNat < 128 := by
  have hle : ∀ {x y : Char}, x ≤ y → x.toNat ≤ y.toNat := fun h => UInt32.le_iff_toNat_le.mp h
  unfold toDigit16 at h
  split_ifs at h with h₁ h₂ h₃
  · exact Nat.lt_of_le_of_lt (hle h₁.2) (by decide)
  · exact Nat.lt_of_le_of_lt (hle h₂.2) (by decide)
  · exact Nat.lt_of_le_of_lt (hle h₃.2) (by decide)

/-- A hexadecimal digit, in each reading of it. -/
structure DigitOf (c : Char) (v : ℕ) : Prop where
  lt : v < 16
  upper : hexDigit v = c.toUpper
  reference : c.toUpper = c → (AmlBuild.hex2Digit (UInt8.ofNat c.toNat)).toUInt32.toNat = v
  zero : v = 0 ↔ c = '0'

/-- A hexadecimal digit has its value in each reading of it. -/
theorem digitOf {c : Char} {v : ℕ} (h : toDigit16 c = some v) : DigitOf c v := by
  have hall : ∀ n < 128, (toDigit16 (Char.ofNat n)).all fun v =>
      decide (v < 16 ∧ hexDigit v = (Char.ofNat n).toUpper ∧
        ((Char.ofNat n).toUpper = Char.ofNat n →
          (AmlBuild.hex2Digit (UInt8.ofNat (Char.ofNat n).toNat)).toUInt32.toNat = v) ∧
        (v = 0 ↔ Char.ofNat n = '0')) := by decide
  have hc := hall c.toNat (lt_of_toDigit16 h)
  rw [Char.ofNat_toNat, h] at hc
  obtain ⟨hlt, hupper, hreference, hzero⟩ := of_decide_eq_true hc
  exact ⟨hlt, hupper, hreference, hzero⟩

/-- As many bytes as characters: all of them are ASCII. -/
theorem ascii_of_length_segBytes {cs : List Char} (h : (segBytes cs).length ≤ cs.length) :
    ∀ c ∈ cs, c.toNat < 128 := by
  induction cs with
  | nil => simp
  | cons c cs ih =>
    have hrest := length_le_segBytes cs
    have hpos : 0 < (String.utf8EncodeChar c).length :=
      List.length_pos_iff.mpr String.utf8EncodeChar_ne_nil
    rw [segBytes, List.flatMap_cons, List.length_append, List.length_cons] at h
    rw [segBytes] at hrest ih
    refine List.forall_mem_cons.mpr ⟨?_, ih (by omega)⟩
    have hone : c.utf8Size = 1 := by
      rw [← String.length_utf8EncodeChar]
      omega
    exact Nat.lt_succ_of_le (Char.utf8Size_eq_one_iff.mp hone)

/-! ## Packing -/

/-- A field put below the ones that are there: the bits add up. -/
theorem toNat_or_shiftLeft (word x shift : UInt32) (k j : ℕ) (hshift : shift.toNat = k)
    (hj : k < j ∧ j ≤ 32) (hx : x.toNat * 2 ^ k < 2 ^ j) (hword : 2 ^ j ∣ word.toNat) :
    (word ||| (x <<< shift)).toNat = word.toNat + x.toNat * 2 ^ k := by
  have hpow : 2 ^ j ≤ 2 ^ 32 := Nat.pow_le_pow_right (by decide) hj.2
  have hfield : (x <<< shift).toNat = x.toNat * 2 ^ k := by
    have hk : k % 32 = k := Nat.mod_eq_of_lt (by omega)
    rw [UInt32.toNat_shiftLeft, hshift, hk, Nat.shiftLeft_eq]
    exact Nat.mod_eq_of_lt (Nat.lt_of_lt_of_le hx hpow)
  obtain ⟨q, hq⟩ := hword
  rw [UInt32.toNat_or, hfield, hq, Nat.two_pow_add_eq_or_of_lt hx]

/-- The word that seven fields are packed into. -/
def packEisaId (a b c d e f g : UInt32) : UInt32 :=
  (a <<< 26) ||| (b <<< 21) ||| (c <<< 16) ||| (d <<< 12) ||| (e <<< 8) ||| (f <<< 4) ||| g

/-- Fields in their ranges do not overlap in the word. -/
theorem toNat_packEisaId {a b c d e f g : UInt32} (ha : a.toNat < 32) (hb : b.toNat < 32)
    (hc : c.toNat < 32) (hd : d.toNat < 16) (he : e.toNat < 16) (hf : f.toNat < 16)
    (hg : g.toNat < 16) :
    (packEisaId a b c d e f g).toNat = a.toNat * 2 ^ 26 + b.toNat * 2 ^ 21 + c.toNat * 2 ^ 16 +
      d.toNat * 2 ^ 12 + e.toNat * 2 ^ 8 + f.toNat * 2 ^ 4 + g.toNat := by
  have h₁ := toNat_or_shiftLeft 0 a 26 26 31 rfl (by decide)
    (by omega) (Nat.dvd_zero _)
  rw [UInt32.zero_or, UInt32.toNat_zero, Nat.zero_add] at h₁
  have h₂ := toNat_or_shiftLeft (a <<< 26) b 21 21 26 rfl (by decide)
    (by omega) (by omega)
  have h₃ := toNat_or_shiftLeft (a <<< 26 ||| b <<< 21) c 16 16 21 rfl (by decide) (by omega)
    (by omega)
  have h₄ := toNat_or_shiftLeft (a <<< 26 ||| b <<< 21 ||| c <<< 16) d 12 12 16 rfl (by decide)
    (by omega) (by omega)
  have h₅ := toNat_or_shiftLeft (a <<< 26 ||| b <<< 21 ||| c <<< 16 ||| d <<< 12) e 8 8 12 rfl
    (by decide) (by omega) (by omega)
  have h₆ := toNat_or_shiftLeft
    (a <<< 26 ||| b <<< 21 ||| c <<< 16 ||| d <<< 12 ||| e <<< 8) f 4 4 8 rfl (by decide)
    (by omega) (by omega)
  have h₇ := toNat_or_shiftLeft
    (a <<< 26 ||| b <<< 21 ||| c <<< 16 ||| d <<< 12 ||| e <<< 8 ||| f <<< 4) g 0 0 4 rfl
    (by decide) (by omega) (by omega)
  rw [UInt32.shiftLeft_zero] at h₇
  rw [packEisaId, h₇]
  omega

/-! ## The characters of a string of the shape -/

/-- Seven characters, the last four with the values of their digits. -/
structure EisaParts (name : String) where
  (a b c d e f g : Char)
  (vd ve vf vg : ℕ)
  toList_eq : name.toList = [a, b, c, d, e, f, g]
  digit_d : toDigit16 d = some vd
  digit_e : toDigit16 e = some ve
  digit_f : toDigit16 f = some vf
  digit_g : toDigit16 g = some vg

/-- A string of the shape has its seven characters. -/
theorem exists_parts {letter : Char → Bool} {name : String}
    (h : hasEisaShape letter name = true) :
    ∃ p : EisaParts name, ∀ x ∈ [p.a, p.b, p.c], letter x = true := by
  unfold hasEisaShape at h
  split at h
  · next a b c d e f g hname =>
    rw [Bool.and_eq_true, List.all_eq_true, List.all_eq_true] at h
    obtain ⟨hletters, hdigits⟩ := h
    obtain ⟨vd, hd⟩ := Option.isSome_iff_exists.mp (hdigits d (by simp))
    obtain ⟨ve, he⟩ := Option.isSome_iff_exists.mp (hdigits e (by simp))
    obtain ⟨vf, hf⟩ := Option.isSome_iff_exists.mp (hdigits f (by simp))
    obtain ⟨vg, hg⟩ := Option.isSome_iff_exists.mp (hdigits g (by simp))
    exact ⟨⟨a, b, c, d, e, f, g, vd, ve, vf, vg, hname, hd, he, hf, hg⟩, hletters⟩
  · cases h

/-- The field of a letter. -/
def eisaLetter (c : Char) : UInt32 := (UInt8.ofNat c.toNat - nameCharBase).toUInt32

/-- The field of a character from the at sign on. -/
theorem toNat_eisaLetter {c : Char} (h : 64 ≤ c.toNat ∧ c.toNat < 128) :
    (eisaLetter c).toNat = c.toNat - 64 := by
  have hc : (UInt8.ofNat c.toNat).toNat = c.toNat := by
    rw [UInt8.toNat_ofNat']
    omega
  have hbase : nameCharBase.toNat = 64 := rfl
  have hle : nameCharBase ≤ UInt8.ofNat c.toNat := by
    rw [UInt8.le_iff_toNat_le, hc]
    exact h.1
  rw [eisaLetter, UInt8.toNat_toUInt32, UInt8.toNat_sub_of_le _ _ hle, hc, hbase]

/-- The characters that pass, by their numbers. -/
theorem isLetterAlias_iff {c : Char} :
    IsLetterAlias c = true ↔ 64 ≤ c.toNat ∧ c.toNat < 128 := by
  rw [IsLetterAlias, Bool.and_eq_true, decide_eq_true_iff, decide_eq_true_iff]
  exact and_congr_left' UInt32.le_iff_toNat_le

namespace EisaParts

variable {name : String} (p : EisaParts name)

/-- The word of the seven characters. -/
def word : UInt32 :=
  packEisaId (eisaLetter p.a) (eisaLetter p.b) (eisaLetter p.c) (UInt32.ofNat p.vd)
    (UInt32.ofNat p.ve) (UInt32.ofNat p.vf) (UInt32.ofNat p.vg)

/-- The bytes of a string whose letters pass. -/
theorem asBytes_eq (hletters : ∀ x ∈ [p.a, p.b, p.c], IsLetterAlias x = true) :
    asBytes name = [p.a, p.b, p.c, p.d, p.e, p.f, p.g].map fun c => UInt8.ofNat c.toNat := by
  have hname : name = String.ofList [p.a, p.b, p.c, p.d, p.e, p.f, p.g] := by
    rw [← p.toList_eq, String.ofList_toList]
  have hletter : ∀ x ∈ [p.a, p.b, p.c], x.toNat < 128 := fun x hx =>
    (isLetterAlias_iff.mp (hletters x hx)).2
  refine (congrArg asBytes hname).trans (asBytes_ofList ?_)
  simp only [List.forall_mem_cons] at hletter ⊢
  exact ⟨hletter.1, hletter.2.1, hletter.2.2.1, lt_of_toDigit16 p.digit_d,
    lt_of_toDigit16 p.digit_e, lt_of_toDigit16 p.digit_f, lt_of_toDigit16 p.digit_g, by simp⟩

/-- A string whose letters pass is accepted and packed. -/
theorem new_eq (hletters : ∀ x ∈ [p.a, p.b, p.c], IsLetterAlias x = true) :
    EISAName.new name = .ok ⟨swapBytes p.word⟩ := by
  have hletter : ∀ x ∈ [p.a, p.b, p.c], nameCharBase ≤ UInt8.ofNat x.toNat := by
    intro x hx
    obtain ⟨hlow, hhigh⟩ := isLetterAlias_iff.mp (hletters x hx)
    rw [UInt8.le_iff_toNat_le, UInt8.toNat_ofNat', Nat.mod_eq_of_lt (by omega)]
    exact hlow
  simp only [List.forall_mem_cons] at hletter
  obtain ⟨ha, hb, hc, -⟩ := hletter
  have hdata := p.asBytes_eq hletters
  simp only [EISAName.new, hdata]
  simp [EISAName.letter, EISAName.digit, unwrap, ensure, p.toList_eq, p.digit_d, p.digit_e,
    p.digit_f, p.digit_g, ha, hb, hc, word, packEisaId, eisaLetter]

end EisaParts

/-! ## What is accepted -/

/-- A letter that is accepted is a byte that does not lie below the base. -/
theorem letter_eq_ok {data : Bytes} {i : ℕ} {v : UInt32} (h : EISAName.letter data i = .ok v) :
    ∃ b, data[i]? = some b ∧ nameCharBase ≤ b := by
  unfold EISAName.letter at h
  split at h
  · cases h
  · next b hb =>
    by_cases hle : nameCharBase ≤ b
    · exact ⟨b, hb, hle⟩
    · rw [if_neg hle] at h
      cases h

/-- A digit that is accepted is a hexadecimal one. -/
theorem digit_eq_ok {name : String} {i : ℕ} {v : UInt32} (h : EISAName.digit name i = .ok v) :
    ∃ c, name.toList[i]? = some c ∧ (toDigit16 c).isSome = true := by
  have hunwrap : ∀ {α : Type} {x : Option α} {y : α}, unwrap x = .ok y → x = some y := by
    intro α x y hx
    cases x with
    | none => cases hx
    | some _ => exact congrArg some (Except.ok.inj hx)
  obtain ⟨c, hc, h⟩ := Checked.bind_eq_ok.mp h
  obtain ⟨d, hd, -⟩ := Checked.bind_eq_ok.mp h
  refine ⟨c, hunwrap hc, ?_⟩
  rw [hunwrap hd]
  rfl

/-- Only strings of the shape are accepted. Seven bytes with a character in the
seventh place leave no room for one of more bytes. -/
theorem hasEisaShape_of_new {name : String} {id : EISAName} (h : EISAName.new name = .ok id) :
    hasEisaShape IsLetterAlias name = true := by
  simp only [EISAName.new, Checked.bind_eq_ok, ensure_eq_ok] at h
  obtain ⟨_, hlength, _, ha, _, hb, _, hc, _, hd, _, he, _, hf, _, hg, -⟩ := h
  obtain ⟨byteA, ha, hlowA⟩ := letter_eq_ok ha
  obtain ⟨byteB, hb, hlowB⟩ := letter_eq_ok hb
  obtain ⟨byteC, hc, hlowC⟩ := letter_eq_ok hc
  obtain ⟨d, hd, hdigitD⟩ := digit_eq_ok hd
  obtain ⟨e, he, hdigitE⟩ := digit_eq_ok he
  obtain ⟨f, hf, hdigitF⟩ := digit_eq_ok hf
  obtain ⟨g, hg, hdigitG⟩ := digit_eq_ok hg
  -- seven bytes and a seventh character: every character has one byte
  have hseven : 6 < name.toList.length := (List.getElem?_eq_some_iff.mp hg).1
  have hle := length_le_segBytes name.toList
  have hbytes : (segBytes name.toList).length = 7 := hlength
  have hchars7 : name.toList.length = 7 := by omega
  have hascii : ∀ c ∈ name.toList, c.toNat < 128 := ascii_of_length_segBytes (by omega)
  have hname : asBytes name = name.toList.map fun c => UInt8.ofNat c.toNat := by
    rw [← asBytes_ofList hascii, String.ofList_toList]
  have hletter : ∀ {i : ℕ} {b : UInt8} {c : Char}, (asBytes name)[i]? = some b →
      nameCharBase ≤ b → name.toList[i]? = some c → IsLetterAlias c = true := by
    intro i b c hb hlow hci
    rw [hname, List.getElem?_map, hci] at hb
    obtain rfl := Option.some.inj hb
    have hlt := hascii c (List.mem_of_getElem? hci)
    rw [UInt8.le_iff_toNat_le, UInt8.toNat_ofNat', Nat.mod_eq_of_lt (by omega)] at hlow
    exact isLetterAlias_iff.mpr ⟨hlow, hlt⟩
  match hchars : name.toList with
  | [x₁, x₂, x₃, x₄, x₅, x₆, x₇] =>
    rw [hchars] at hd he hf hg
    obtain rfl := Option.some.inj hd
    obtain rfl := Option.some.inj he
    obtain rfl := Option.some.inj hf
    obtain rfl := Option.some.inj hg
    rw [hchars] at hletter
    simp [hasEisaShape, hchars, hletter ha hlowA rfl, hletter hb hlowB rfl, hletter hc hlowC rfl,
      hdigitD, hdigitE, hdigitF, hdigitG]
  | [] | [_] | [_, _] | [_, _, _] | [_, _, _, _] | [_, _, _, _, _] | [_, _, _, _, _, _]
  | _ :: _ :: _ :: _ :: _ :: _ :: _ :: _ :: _ =>
    rw [hchars] at hchars7
    simp at hchars7

/-! ## What is packed -/

/-- Swapped bytes are read in the other direction. -/
theorem toNat_swapBytes (v : UInt32) : (swapBytes v).toNat = leValue (toLeBytes v).reverse := by
  have hlt := leValue_lt (toLeBytes v).reverse
  rw [List.length_reverse, length_toLeBytes, width_u32] at hlt
  rw [swapBytes, UInt32.toNat_ofNat']
  exact Nat.mod_eq_of_lt hlt

/-- Swapped bytes are written in the other direction. -/
theorem toLeBytes_swapBytes (v : UInt32) : toLeBytes (swapBytes v) = (toLeBytes v).reverse := by
  have hlength : (toLeBytes v).reverse.length = 4 := by
    rw [List.length_reverse, length_toLeBytes, width_u32]
  change leBytes 4 (swapBytes v).toNat = _
  rw [toNat_swapBytes, ← hlength, leBytes_leValue]

/-- Swapping bytes twice changes nothing. -/
theorem swapBytes_swapBytes (v : UInt32) : swapBytes (swapBytes v) = v := by
  apply UInt32.toNat_inj.mp
  rw [toNat_swapBytes, toLeBytes_swapBytes, List.reverse_reverse, leValue_toLeBytes]
  rfl

/-- Two zero bytes at the bottom become two at the top. -/
theorem swapBytes_lt_iff (v : UInt32) : (swapBytes v).toNat < 65536 ↔ v.toNat % 65536 = 0 := by
  have hbytes : toLeBytes v = leBytes 4 v.toNat := rfl
  rw [toNat_swapBytes, hbytes]
  simp only [leBytes, List.reverse_cons, List.reverse_nil, List.nil_append, List.cons_append,
    leValue_cons, leValue_nil, UInt8.toNat_ofNat', Nat.reducePow]
  have hlow : v.toNat % 65536 = v.toNat % 256 + 256 * (v.toNat / 256 % 256) := by omega
  have hbyte : ∀ n : ℕ, n % 256 < 256 := fun n => Nat.mod_lt n (by decide)
  have hc := hbyte (v.toNat / 256 / 256)
  have hd := hbyte (v.toNat / 256 / 256 / 256)
  rw [hlow]
  -- what is left is a fact about four digits
  generalize v.toNat % 256 = a
  generalize v.toNat / 256 % 256 = b
  generalize v.toNat / 256 / 256 % 256 = c at hc ⊢
  generalize v.toNat / 256 / 256 / 256 % 256 = d at hd ⊢
  omega

/-- An uppercase letter has a field of its own and is its own uppercase. -/
theorem upper_of_letter {c : Char} (h : ('A' ≤ c && c ≤ 'Z') = true) :
    (65 ≤ c.toNat ∧ c.toNat ≤ 90) ∧ c.toUpper = c := by
  rw [Bool.and_eq_true, decide_eq_true_iff, decide_eq_true_iff] at h
  have hlow : 65 ≤ c.toNat := UInt32.le_iff_toNat_le.mp h.1
  have hhigh : c.toNat ≤ 90 := UInt32.le_iff_toNat_le.mp h.2
  have hall : ∀ n < 91, 65 ≤ n → (Char.ofNat n).toUpper = Char.ofNat n := by decide
  have hupper := hall c.toNat (by omega) hlow
  rw [Char.ofNat_toNat] at hupper
  exact ⟨⟨hlow, hhigh⟩, hupper⟩

namespace EisaParts

variable {name : String} (p : EisaParts name)

/-- The letters are uppercase. -/
def Upper : Prop := ∀ x ∈ [p.a, p.b, p.c], ('A' ≤ x && x ≤ 'Z') = true

variable {p}

/-- Uppercase letters pass. -/
theorem Upper.alias (h : p.Upper) : ∀ x ∈ [p.a, p.b, p.c], IsLetterAlias x = true := by
  intro x hx
  obtain ⟨⟨hlow, hhigh⟩, -⟩ := upper_of_letter (h x hx)
  exact isLetterAlias_iff.mpr ⟨by omega, by omega⟩

/-- The values of the digits take four bits. -/
theorem digits_lt (p : EisaParts name) : p.vd < 16 ∧ p.ve < 16 ∧ p.vf < 16 ∧ p.vg < 16 :=
  ⟨(digitOf p.digit_d).lt, (digitOf p.digit_e).lt, (digitOf p.digit_f).lt, (digitOf p.digit_g).lt⟩

/-- The word of an identifier, field by field. -/
theorem toNat_word (h : p.Upper) :
    p.word.toNat = (p.a.toNat - 64) * 2 ^ 26 + (p.b.toNat - 64) * 2 ^ 21 +
      (p.c.toNat - 64) * 2 ^ 16 + p.vd * 2 ^ 12 + p.ve * 2 ^ 8 + p.vf * 2 ^ 4 + p.vg := by
  have hletter : ∀ x ∈ [p.a, p.b, p.c], (eisaLetter x).toNat = x.toNat - 64 ∧
      x.toNat - 64 < 32 := by
    intro x hx
    obtain ⟨⟨hlow, hhigh⟩, -⟩ := upper_of_letter (h x hx)
    exact ⟨toNat_eisaLetter ⟨by omega, by omega⟩, by omega⟩
  have hdigit : ∀ {v : ℕ}, v < 16 → (UInt32.ofNat v).toNat = v :=
    fun hv => toNat_ofNat_u32 (by omega)
  simp only [List.forall_mem_cons] at hletter
  obtain ⟨⟨ha, ha32⟩, ⟨hb, hb32⟩, ⟨hc, hc32⟩, -⟩ := hletter
  obtain ⟨hd, he, hf, hg⟩ := p.digits_lt
  rw [word, toNat_packEisaId (by omega) (by omega) (by omega) (by rw [hdigit hd]; omega)
    (by rw [hdigit he]; omega) (by rw [hdigit hf]; omega) (by rw [hdigit hg]; omega), ha, hb, hc,
    hdigit hd, hdigit he, hdigit hf, hdigit hg]

/-- An identifier is unpacked as its own text, with digits in uppercase. -/
theorem unpack_word (h : p.Upper) :
    unpackEisaId (swapBytes p.word) = name.toList.map Char.toUpper := by
  have hword := toNat_word h
  have hupper : ∀ x ∈ [p.a, p.b, p.c],
      (65 ≤ x.toNat ∧ x.toNat ≤ 90) ∧ Char.ofNat (64 + (x.toNat - 64)) = x.toUpper := by
    intro x hx
    obtain ⟨⟨hlow, hhigh⟩, hupper⟩ := upper_of_letter (h x hx)
    rw [hupper, Nat.add_sub_cancel' (by omega), Char.ofNat_toNat]
    exact ⟨⟨hlow, hhigh⟩, rfl⟩
  simp only [List.forall_mem_cons] at hupper
  obtain ⟨⟨hba, ha⟩, ⟨hbb, hb⟩, ⟨hbc, hc⟩, -⟩ := hupper
  have hd := digitOf p.digit_d
  have he := digitOf p.digit_e
  have hf := digitOf p.digit_f
  have hg := digitOf p.digit_g
  obtain ⟨hdlt, helt, hflt, hglt⟩ := p.digits_lt
  -- each field is read from its own bits
  have ha' : p.word.toNat / 2 ^ 26 % 32 = p.a.toNat - 64 := by omega
  have hb' : p.word.toNat / 2 ^ 21 % 32 = p.b.toNat - 64 := by omega
  have hc' : p.word.toNat / 2 ^ 16 % 32 = p.c.toNat - 64 := by omega
  have hd' : p.word.toNat / 2 ^ 12 % 16 = p.vd := by omega
  have he' : p.word.toNat / 2 ^ 8 % 16 = p.ve := by omega
  have hf' : p.word.toNat / 2 ^ 4 % 16 = p.vf := by omega
  have hg' : p.word.toNat % 16 = p.vg := by omega
  rw [unpackEisaId, swapBytes_swapBytes]
  simp only [ha', hb', hc', hd', he', hf', hg', p.toList_eq, List.map_cons, List.map_nil, ha, hb,
    hc, hd.upper, he.upper, hf.upper, hg.upper, List.cons_append, List.nil_append]

/-- The number that the digits make is zero when they all are. -/
theorem word_mod_iff (h : p.Upper) :
    p.word.toNat % 65536 = 0 ↔ name.toList.drop 3 = ['0', '0', '0', '0'] := by
  have hword := toNat_word h
  obtain ⟨hdlt, helt, hflt, hglt⟩ := p.digits_lt
  have hzero : p.word.toNat % 65536 = 0 ↔ p.vd = 0 ∧ p.ve = 0 ∧ p.vf = 0 ∧ p.vg = 0 := by
    omega
  rw [hzero, (digitOf p.digit_d).zero, (digitOf p.digit_e).zero, (digitOf p.digit_f).zero,
    (digitOf p.digit_g).zero, p.toList_eq]
  simp

/-- Zeros have no case, and the letters are uppercase. -/
theorem map_toUpper_of_zeros (h : p.Upper) (hzeros : name.toList.drop 3 = ['0', '0', '0', '0']) :
    name.toList.map Char.toUpper = name.toList := by
  have hletter := fun x hx => (upper_of_letter (h x hx)).2
  simp only [List.forall_mem_cons] at hletter
  obtain ⟨ha, hb, hc, -⟩ := hletter
  rw [p.toList_eq] at hzeros ⊢
  simp only [List.drop_succ_cons, List.drop_zero] at hzeros
  rw [hzeros, List.map_cons, List.map_cons, List.map_cons, ha, hb, hc]
  rfl

end EisaParts

/-- The reference subtracts from a signed character. -/
theorem charToInt_sub {c : Char} (h : ('A' ≤ c && c ≤ 'Z') = true) :
    AmlBuild.charToInt (UInt8.ofNat c.toNat) - 0x40 = eisaLetter c := by
  obtain ⟨⟨hlow, hhigh⟩, -⟩ := upper_of_letter h
  have hc : (UInt8.ofNat c.toNat).toNat = c.toNat := by
    rw [UInt8.toNat_ofNat']
    omega
  have hsigned : UInt8.ofNat c.toNat < 0x80 := by
    rw [UInt8.lt_iff_toNat_lt, hc]
    exact Nat.lt_of_le_of_lt hhigh (by decide)
  have hle : (0x40 : UInt32) ≤ (UInt8.ofNat c.toNat).toUInt32 := by
    rw [UInt32.le_iff_toNat_le, UInt8.toNat_toUInt32, hc]
    exact Nat.le_trans (by decide) hlow
  apply UInt32.toNat_inj.mp
  rw [AmlBuild.charToInt, if_pos hsigned, UInt32.toNat_sub_of_le _ _ hle, UInt8.toNat_toUInt32,
    hc, toNat_eisaLetter ⟨by omega, by omega⟩]
  rfl

/-- The reference's digits, of characters without lowercase letters. -/
theorem hex2Digit_eq {c : Char} {v : ℕ} (h : DigitOf c v) (hupper : c.toUpper = c) :
    (AmlBuild.hex2Digit (UInt8.ofNat c.toNat)).toUInt32 = UInt32.ofNat v := by
  have hlt := h.lt
  apply UInt32.toNat_inj.mp
  rw [h.reference hupper]
  exact (toNat_ofNat_u32 (by omega)).symm

namespace EisaParts

variable {name : String} {p : EisaParts name}

/-- The reference writes the same word, always with four bytes. -/
theorem amlEisaid_eq (h : p.Upper) (hdigits : name.toList.map Char.toUpper = name.toList) :
    AmlBuild.amlEisaid (asBytes name) =
      .ok { AmlBuild.amlAlloc with
        buf := dwordPrefix :: leBytes 4 (swapBytes p.word).toNat } := by
  have hletter := fun x hx => charToInt_sub (h x hx)
  simp only [List.forall_mem_cons] at hletter
  obtain ⟨ha, hb, hc, -⟩ := hletter
  rw [p.toList_eq] at hdigits
  simp only [List.map_cons, List.map_nil, List.cons.injEq, and_true] at hdigits
  obtain ⟨-, -, -, hd, he, hf, hg⟩ := hdigits
  have hswap : AmlBuild.bswap32 p.word = swapBytes p.word := rfl
  rw [asBytes_eq p h.alias]
  simp only [List.map_cons, List.map_nil, AmlBuild.amlEisaid, ha, hb, hc,
    hex2Digit_eq (digitOf p.digit_d) hd, hex2Digit_eq (digitOf p.digit_e) he,
    hex2Digit_eq (digitOf p.digit_f) hf, hex2Digit_eq (digitOf p.digit_g) hg]
  change Except.ok { AmlBuild.amlAlloc with
    buf := AmlBuild.buildAppendIntNoprefix (AmlBuild.amlAlloc.buf ++ [0x0c])
      (AmlBuild.bswap32 p.word).toUInt64 4 } = _
  rw [hswap, buildAppendIntNoprefix_eq, UInt32.toNat_toUInt64]
  rfl

end EisaParts

/-- An identifier has its seven characters, with uppercase letters. -/
theorem exists_upper {name : String} (h : IsEisaId name) : ∃ p : EisaParts name, p.Upper :=
  exists_parts h

/-- Four bytes are the shortest integer for the larger words only. -/
theorem encodeInt_eq_dword_iff {n : ℕ} (h : n < 4294967296) :
    encodeInt n = dwordPrefix :: leBytes 4 n ↔ ¬ n < 65536 := by
  unfold encodeInt
  constructor
  · intro heq hlt
    split_ifs at heq
    all_goals exact absurd (List.cons.inj heq).1 (by decide)
  · intro hlt
    rw [if_neg (by omega), if_neg (by omega), if_neg (by omega), if_neg hlt, if_pos h]

/-- **Identifiers are as documented**, except for strings that are taken for one and
identifiers of the number zero. The former have `@` or an ASCII character behind
`Z` in place of a letter; the latter are written in a shorter integer than the
reference writes. -/
theorem asDocumented_iff (name : String) :
    AsDocumented name ↔ (hasEisaShape IsLetterAlias name = true → IsEisaId name) ∧
      ¬ (IsEisaId name ∧ name.toList.drop 3 = ['0', '0', '0', '0']) := by
  have hemit : ∀ v : UInt32, toAmlBytes (EISAName.mk v) ([] : Bytes) = .ok (encodeInt v.toNat) :=
    fun v => (writes_eisaName ⟨v⟩).runNil
  constructor
  · intro h
    refine ⟨fun hshape => ?_, ?_⟩
    · obtain ⟨p, hletters⟩ := exists_parts hshape
      exact h.accepts.mp ⟨_, p.new_eq hletters⟩
    · rintro ⟨hid, hzero⟩
      obtain ⟨p, hp⟩ := exists_upper hid
      have hupper := EisaParts.map_toUpper_of_zeros hp hzero
      obtain ⟨aml, haml, hrun⟩ := h.reference _ hid hupper (p.new_eq hp.alias)
      rw [EisaParts.amlEisaid_eq hp hupper] at haml
      obtain rfl := Except.ok.inj haml
      -- the word is below 2 ^ 16 and gets two bytes
      rw [hemit] at hrun
      have heq := (encodeInt_eq_dword_iff (swapBytes p.word).toNat_lt).mp (Except.ok.inj hrun)
      exact heq ((swapBytes_lt_iff _).mpr ((EisaParts.word_mod_iff hp).mpr hzero))
  · rintro ⟨halias, hzero⟩
    refine ⟨⟨?_, ?_⟩, ?_, ?_⟩
    · rintro ⟨id, hnew⟩
      exact halias (hasEisaShape_of_new hnew)
    · intro hid
      obtain ⟨p, hp⟩ := exists_upper hid
      exact ⟨_, p.new_eq hp.alias⟩
    · intro id hid hnew
      obtain ⟨p, hp⟩ := exists_upper hid
      rw [p.new_eq hp.alias] at hnew
      obtain rfl := Except.ok.inj hnew
      exact EisaParts.unpack_word hp
    · intro id hid hupper hnew
      obtain ⟨p, hp⟩ := exists_upper hid
      rw [p.new_eq hp.alias] at hnew
      obtain rfl := Except.ok.inj hnew
      refine ⟨_, EisaParts.amlEisaid_eq hp hupper, (hemit _).trans (congrArg Except.ok ?_)⟩
      rw [encodeInt_eq_dword_iff (swapBytes p.word).toNat_lt, swapBytes_lt_iff,
        EisaParts.word_mod_iff hp]
      exact fun h => hzero ⟨hid, h⟩

/-- Lowercase letters pass, and an identifier with the number zero gets a shorter
integer than the reference's. -/
theorem not_asDocumented :
    ¬ AsDocumented "pnp0A03" ∧ ¬ AsDocumented "PNP0000" := by
  constructor
  · intro h
    have hid := h.accepts.mp ⟨_, (rfl : EISAName.new "pnp0A03" = .ok ⟨0x030af0c5⟩)⟩
    exact absurd hid (by decide)
  · intro h
    have hnew : EISAName.new "PNP0000" = .ok ⟨0x0000d041⟩ := rfl
    obtain ⟨aml, haml, hrun⟩ := h.reference _ (by decide) (by decide) hnew
    have hreference : AmlBuild.amlEisaid (asBytes "PNP0000") =
        .ok { AmlBuild.amlAlloc with buf := [0x0c, 0x41, 0xd0, 0, 0] } := rfl
    have hwritten : toAmlBytes (EISAName.mk 0x0000d041) ([] : Bytes) = .ok [0x0b, 0x41, 0xd0] :=
      rfl
    rw [hreference] at haml
    obtain rfl := Except.ok.inj haml
    exact absurd (hwritten.symm.trans hrun) (by decide)

end AcpiTables
