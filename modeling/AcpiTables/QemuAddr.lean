import AcpiTables.Dsdt
import Mathlib.Data.Nat.Digits.Defs

/-!
# The addresses of devices

`parse_qemu_addr` reads a slot and a function, each in decimal or after `0x` in
hexadecimal, and packs them into a byte. What it accepts and what it returns is
`parseQemuAddr_eq_some_iff`: the slot and the function are 8-bit numbers, and
their high bits are dropped. So it is exact only for the addresses whose slot
and function fit the byte (`parsedExactly_iff`).

What is an address is said without the parser: a text of digits has a value
(`IsDigits`), a number may have a sign in front (`IsNumber`), a field a prefix
(`IsField`), and an address is one field or two with a dot between them
(`IsAddress`). Each function of the parser has one lemma that says of which texts it
returns what, and no text is the address of two places (`IsAddress.unique`).
-/

namespace AcpiTables

/-! ## The parser -/

/-- `to_digit`, for a radix up to 16. -/
def toDigit (radix : ℕ) (c : Char) : Option ℕ := (toDigit16 c).filter (· < radix)

/-- The digits that are left, with the value so far; nothing when it leaves a
byte. -/
def readDigits (radix : ℕ) : ℕ → List Char → Option ℕ
  | value, [] => some value
  | value, c :: cs => do
    let d ← toDigit radix c
    if value * radix + d < 256 then readDigits radix (value * radix + d) cs else none

/-- `u8::from_str_radix`: a sign `+` may stand before the digits. -/
def fromStrRadix (radix : ℕ) (text : List Char) : Option UInt8 :=
  let digits := if text.head? = some '+' then text.tail else text
  if digits = [] then none else (readDigits radix 0 digits).map UInt8.ofNat

/-- A number below 256, in hexadecimal with a prefix or else in decimal. -/
def parseU8AnyRadix (text : List Char) : Option UInt8 :=
  match text with
  | '0' :: 'x' :: hex => fromStrRadix 16 hex
  | text => fromStrRadix 10 text

/-- `split_once`. -/
def splitOnce (separator : Char) : List Char → Option (List Char × List Char)
  | [] => none
  | c :: cs =>
    if c = separator then some ([], cs)
    else (splitOnce separator cs).map fun (front, back) => (c :: front, back)

/-- The devfn of an address: a slot, and a function behind a dot. Neither is
checked against its width. -/
def parseQemuAddr (addr : String) : Option UInt8 := do
  let (slotText, funcText) := (splitOnce '.' addr.toList).getD (addr.toList, ['0'])
  let slot ← parseU8AnyRadix slotText
  let func ← parseU8AnyRadix funcText
  return (slot <<< 3) ||| (func &&& 0x07)

/-! ## Numbers -/

/-- A text of digits, the most significant first, and its value. -/
def IsDigits (radix : ℕ) (text : List Char) (n : ℕ) : Prop :=
  text ≠ [] ∧ ∃ ds : List ℕ, text.map (toDigit radix) = ds.map some ∧
    Nat.ofDigits radix ds.reverse = n

/-- A number of 8 bits, as the radix parser accepts it. -/
def IsNumber (radix : ℕ) (text : List Char) (n : ℕ) : Prop :=
  n < 256 ∧ (IsDigits radix text n ∨ ∃ digits, text = '+' :: digits ∧ IsDigits radix digits n)

/-- A field of an address: in hexadecimal after `0x`, or in decimal. -/
def IsField (text : List Char) (n : ℕ) : Prop :=
  (∃ hex, text = '0' :: 'x' :: hex ∧ IsNumber 16 hex n) ∨ IsNumber 10 text n

/-- A slot, or a slot and a function. -/
def IsAddress (addr : List Char) (slot func : ℕ) : Prop :=
  (IsField addr slot ∧ func = 0) ∨
    ∃ front back, addr = front ++ '.' :: back ∧ IsField front slot ∧ IsField back func

/-- A digit in front of others joins the accumulator. -/
theorem accumulate_cons (radix value d : ℕ) (ds : List ℕ) :
    value * radix ^ (d :: ds).length + Nat.ofDigits radix (d :: ds).reverse =
      (value * radix + d) * radix ^ ds.length + Nat.ofDigits radix ds.reverse := by
  rw [List.length_cons, List.reverse_cons, Nat.ofDigits_append, Nat.ofDigits_singleton,
    List.length_reverse, pow_succ]
  ring

/-- The accumulator is a prefix of the number. -/
theorem readDigits_eq_some_iff {radix : ℕ} (hradix : 0 < radix) {text : List Char} {value n : ℕ}
    (hvalue : value < 256) :
    readDigits radix value text = some n ↔
      n < 256 ∧ ∃ ds : List ℕ, text.map (toDigit radix) = ds.map some ∧
        value * radix ^ ds.length + Nat.ofDigits radix ds.reverse = n := by
  induction text generalizing value with
  | nil =>
    constructor
    · intro h
      obtain rfl := Option.some.inj h
      exact ⟨hvalue, [], rfl, by simp⟩
    · rintro ⟨-, ds, hds, hn⟩
      obtain rfl := List.map_eq_nil_iff.mp hds.symm
      rw [readDigits, ← hn]
      simp
  | cons c cs ih =>
    constructor
    · intro h
      obtain ⟨d, hd, h⟩ := Option.bind_eq_some_iff.mp h
      split_ifs at h with hlt
      obtain ⟨hn, ds, hds, hsum⟩ := (ih hlt).mp h
      refine ⟨hn, d :: ds, ?_, ?_⟩
      · rw [List.map_cons, List.map_cons, hd, hds]
      · rw [accumulate_cons, hsum]
    · rintro ⟨hn, ds, hds, hsum⟩
      cases ds with
      | nil => cases hds
      | cons d ds =>
        obtain ⟨hd, hds⟩ := List.cons.inj hds
        rw [accumulate_cons] at hsum
        -- the accumulator never exceeds the number, so it fits a byte if that does
        have hle : (value * radix + d) * 1 ≤ (value * radix + d) * radix ^ ds.length :=
          Nat.mul_le_mul_left _ (Nat.one_le_pow _ _ hradix)
        have hlt : value * radix + d < 256 := by omega
        rw [readDigits, hd]
        change (if _ then _ else _) = _
        rw [if_pos hlt]
        exact (ih hlt).mpr ⟨hn, ds, hds, hsum⟩

/-- A number below 256 is a byte when the byte has its value. -/
theorem ofNat_eq_iff {n : ℕ} {b : UInt8} (hn : n < 256) : UInt8.ofNat n = b ↔ n = b.toNat := by
  constructor
  · rintro rfl
    rw [UInt8.toNat_ofNat', Nat.mod_eq_of_lt hn]
  · rintro rfl
    exact UInt8.ofNat_toNat

/-- The digits of a number, read from the start. -/
theorem readDigits_zero_iff {radix : ℕ} (hradix : 0 < radix) {digits : List Char} {b : UInt8} :
    (if digits = [] then none else (readDigits radix 0 digits).map UInt8.ofNat) = some b ↔
      b.toNat < 256 ∧ IsDigits radix digits b.toNat := by
  constructor
  · intro h
    split_ifs at h with hnil
    obtain ⟨n, hn, hb⟩ := Option.map_eq_some_iff.mp h
    obtain ⟨hlt, ds, hds, hsum⟩ := (readDigits_eq_some_iff hradix (by decide)).mp hn
    rw [Nat.zero_mul, Nat.zero_add] at hsum
    obtain rfl := (ofNat_eq_iff hlt).mp hb
    exact ⟨hlt, hnil, ds, hds, hsum⟩
  · rintro ⟨hlt, hnil, ds, hds, hsum⟩
    have hread : readDigits radix 0 digits = some b.toNat :=
      (readDigits_eq_some_iff hradix (by decide)).mpr
        ⟨hlt, ds, hds, by rw [Nat.zero_mul, Nat.zero_add, hsum]⟩
    rw [if_neg hnil, hread, Option.map_some, UInt8.ofNat_toNat]

/-- Every character of a text of digits is a digit. -/
theorem IsDigits.exists_digit {radix n : ℕ} {text : List Char} (h : IsDigits radix text n)
    {c : Char} (hc : c ∈ text) : ∃ d, toDigit radix c = some d := by
  obtain ⟨-, ds, hds, -⟩ := h
  have hmem : toDigit radix c ∈ ds.map some := hds ▸ List.mem_map_of_mem hc
  obtain ⟨d, -, hd⟩ := List.mem_map.mp hmem
  exact ⟨d, hd.symm⟩

/-- What is no hexadecimal digit is no digit of a smaller radix. -/
theorem toDigit_eq_none {radix : ℕ} {c : Char} (h : toDigit16 c = none) :
    toDigit radix c = none := by
  rw [toDigit, h]
  rfl

/-- **What the radix parser accepts.** -/
theorem fromStrRadix_eq_some_iff {radix : ℕ} (hradix : 0 < radix) {text : List Char} {b : UInt8} :
    fromStrRadix radix text = some b ↔ IsNumber radix text b.toNat := by
  have hplus : ∀ {n digits}, ¬ IsDigits radix ('+' :: digits) n := by
    intro n digits h
    obtain ⟨d, hd⟩ := h.exists_digit (List.mem_cons_self ..)
    rw [toDigit_eq_none (by decide)] at hd
    cases hd
  rw [fromStrRadix, readDigits_zero_iff hradix, IsNumber]
  refine and_congr_right fun _ => ?_
  by_cases hsign : text.head? = some '+'
  · obtain ⟨digits, rfl⟩ : ∃ digits, text = '+' :: digits := List.head?_eq_some_iff.mp hsign
    rw [if_pos hsign, List.tail_cons]
    constructor
    · exact fun h => .inr ⟨digits, rfl, h⟩
    · rintro (h | ⟨digits', heq, h⟩)
      · exact absurd h hplus
      · exact (List.cons.inj heq).2 ▸ h
  · rw [if_neg hsign]
    constructor
    · exact .inl
    · rintro (h | ⟨digits, rfl, -⟩)
      · exact h
      · exact absurd rfl hsign

/-- **What is accepted as a field.** -/
theorem parseU8AnyRadix_eq_some_iff {text : List Char} {b : UInt8} :
    parseU8AnyRadix text = some b ↔ IsField text b.toNat := by
  have hdecimal : ∀ {hex n}, ¬ IsNumber 10 ('0' :: 'x' :: hex) n := by
    rintro hex n ⟨-, h | ⟨digits, heq, -⟩⟩
    · obtain ⟨d, hd⟩ := h.exists_digit (List.mem_cons_of_mem _ (List.mem_cons_self ..))
      rw [toDigit_eq_none (by decide)] at hd
      cases hd
    · cases heq
  by_cases hstart : ∃ hex, text = '0' :: 'x' :: hex
  · obtain ⟨hex, rfl⟩ := hstart
    rw [parseU8AnyRadix, fromStrRadix_eq_some_iff (by decide), IsField]
    constructor
    · exact fun h => .inl ⟨hex, rfl, h⟩
    · rintro (⟨hex', heq, h⟩ | h)
      · exact (List.cons.inj (List.cons.inj heq).2).2 ▸ h
      · exact absurd h hdecimal
  · have hparse : parseU8AnyRadix text = fromStrRadix 10 text := by
      rw [parseU8AnyRadix]
      exact fun hex h => hstart ⟨hex, h⟩
    rw [hparse, fromStrRadix_eq_some_iff (by decide), IsField]
    constructor
    · exact .inr
    · rintro (⟨hex, rfl, -⟩ | h)
      · exact absurd ⟨hex, rfl⟩ hstart
      · exact h

/-! ## Addresses -/

/-- A text is split at the first separator. -/
theorem splitOnce_eq_some_iff {separator : Char} {text front back : List Char} :
    splitOnce separator text = some (front, back) ↔
      separator ∉ front ∧ text = front ++ separator :: back := by
  induction text generalizing front with
  | nil =>
    rw [splitOnce]
    constructor
    · intro h
      cases h
    · rintro ⟨-, h⟩
      exact absurd h.symm (by simp)
  | cons c cs ih =>
    rw [splitOnce]
    split_ifs with hc
    · subst hc
      constructor
      · intro h
        cases h
        exact ⟨List.not_mem_nil, rfl⟩
      · rintro ⟨hfront, h⟩
        cases front with
        | nil =>
          obtain rfl := (List.cons.inj h).2
          rfl
        | cons x front => exact absurd (List.mem_cons.mpr (.inl (List.cons.inj h).1)) hfront
    · constructor
      · intro h
        obtain ⟨⟨front', back'⟩, hsplit, heq⟩ := Option.map_eq_some_iff.mp h
        cases heq
        obtain ⟨hfront, rfl⟩ := ih.mp hsplit
        refine ⟨?_, rfl⟩
        rintro (_ | ⟨_, hmem⟩)
        · exact hc rfl
        · exact hfront hmem
      · rintro ⟨hfront, h⟩
        cases front with
        | nil => exact absurd (List.cons.inj h).1 hc
        | cons x front =>
          obtain ⟨rfl, htail⟩ := List.cons.inj h
          rw [ih.mpr ⟨fun hmem => hfront (List.mem_cons_of_mem _ hmem), htail⟩]
          rfl

/-- A text without a separator is not split. -/
theorem splitOnce_eq_none {separator : Char} {text : List Char} (h : separator ∉ text) :
    splitOnce separator text = none := by
  cases hsplit : splitOnce separator text with
  | none => rfl
  | some parts =>
    obtain ⟨-, rfl⟩ := splitOnce_eq_some_iff.mp hsplit
    exact absurd (by simp) h

/-- A character that is neither a digit nor the sign is in no number. -/
theorem IsNumber.not_mem {radix n : ℕ} {text : List Char} (h : IsNumber radix text n) {c : Char}
    (hdigit : toDigit16 c = none) (hsign : c ≠ '+') : c ∉ text := by
  have hdigits : ∀ {digits}, IsDigits radix digits n → c ∉ digits := by
    intro digits h hmem
    obtain ⟨d, hd⟩ := h.exists_digit hmem
    rw [toDigit_eq_none hdigit] at hd
    cases hd
  rcases h with ⟨-, h | ⟨digits, rfl, h⟩⟩
  · exact hdigits h
  · rintro (_ | ⟨_, hmem⟩)
    · exact hsign rfl
    · exact hdigits h hmem

/-- Nor is it in a field, unless it is the letter of the radix. -/
theorem IsField.not_mem {n : ℕ} {text : List Char} (h : IsField text n) {c : Char}
    (hdigit : toDigit16 c = none) (hsign : c ≠ '+') (hradix : c ≠ 'x') : c ∉ text := by
  rcases h with ⟨hex, rfl, h⟩ | h
  · rintro (_ | ⟨_, _ | ⟨_, hmem⟩⟩)
    · cases hdigit
    · exact hradix rfl
    · exact h.not_mem hdigit hsign hmem
  · exact h.not_mem hdigit hsign

/-- No field holds the dot between the fields. -/
theorem IsField.not_mem_dot {n : ℕ} {text : List Char} (h : IsField text n) : '.' ∉ text :=
  h.not_mem (by decide) (by decide) (by decide)

/-- No address holds a comma. -/
theorem IsAddress.not_mem_comma {addr : List Char} {slot func : ℕ}
    (h : IsAddress addr slot func) : ',' ∉ addr := by
  rcases h with ⟨h, -⟩ | ⟨front, back, rfl, hfront, hback⟩
  · exact h.not_mem (by decide) (by decide) (by decide)
  · rw [List.mem_append, List.mem_cons, not_or, not_or]
    exact ⟨hfront.not_mem (by decide) (by decide) (by decide), by decide,
      hback.not_mem (by decide) (by decide) (by decide)⟩

/-- The number of a field is below 256. -/
theorem IsField.lt {n : ℕ} {text : List Char} (h : IsField text n) : n < 256 := by
  rcases h with ⟨_, _, h⟩ | h
  · exact h.1
  · exact h.1

/-- The text of a field is parsed as its number. -/
theorem parseU8AnyRadix_of_isField {n : ℕ} {text : List Char} (h : IsField text n) :
    parseU8AnyRadix text = some (UInt8.ofNat n) := by
  rw [parseU8AnyRadix_eq_some_iff, UInt8.toNat_ofNat', Nat.mod_eq_of_lt h.lt]
  exact h

/-- A text is the field of one number. -/
theorem IsField.unique {n n' : ℕ} {text : List Char} (h : IsField text n) (h' : IsField text n') :
    n = n' := by
  have hsame := Option.some.inj
    ((parseU8AnyRadix_of_isField h).symm.trans (parseU8AnyRadix_of_isField h'))
  rw [ofNat_eq_iff h.lt, UInt8.toNat_ofNat', Nat.mod_eq_of_lt h'.lt] at hsame
  exact hsame

/-- The fields that an address is split into. -/
theorem isAddress_iff {addr : List Char} {slot func : ℕ} :
    IsAddress addr slot func ↔
      IsField ((splitOnce '.' addr).getD (addr, ['0'])).1 slot ∧
        IsField ((splitOnce '.' addr).getD (addr, ['0'])).2 func := by
  have hzero : IsField ['0'] 0 := (parseU8AnyRadix_eq_some_iff (b := 0)).mp rfl
  constructor
  · rintro (⟨hslot, rfl⟩ | ⟨front, back, rfl, hslot, hfunc⟩)
    · rw [splitOnce_eq_none hslot.not_mem_dot]
      exact ⟨hslot, hzero⟩
    · rw [splitOnce_eq_some_iff.mpr ⟨hslot.not_mem_dot, rfl⟩]
      exact ⟨hslot, hfunc⟩
  · cases hsplit : splitOnce '.' addr with
    | none => exact fun ⟨hslot, hfunc⟩ => .inl ⟨hslot, hfunc.unique hzero⟩
    | some parts =>
      obtain ⟨front, back⟩ := parts
      obtain ⟨-, rfl⟩ := splitOnce_eq_some_iff.mp hsplit
      exact fun ⟨hslot, hfunc⟩ => .inr ⟨front, back, rfl, hslot, hfunc⟩

/-- A text is the address of one slot and function. -/
theorem IsAddress.unique {addr : List Char} {slot func slot' func' : ℕ}
    (h : IsAddress addr slot func) (h' : IsAddress addr slot' func') :
    slot = slot' ∧ func = func' := by
  rw [isAddress_iff] at h h'
  exact ⟨h.1.unique h'.1, h.2.unique h'.2⟩

/-- The byte of a slot and a function. -/
theorem toNat_pack (slot func : UInt8) :
    ((slot <<< 3) ||| (func &&& 0x07)).toNat = 8 * (slot.toNat % 32) + func.toNat % 8 := by
  have hfunc : (func &&& 0x07).toNat = func.toNat % 8 :=
    Nat.and_two_pow_sub_one_eq_mod func.toNat 3
  have hslot : (slot <<< 3).toNat = 2 ^ 3 * (slot.toNat % 32) := by
    rw [UInt8.toNat_shiftLeft]
    change slot.toNat <<< 3 % 256 = _
    rw [Nat.shiftLeft_eq]
    omega
  rw [UInt8.toNat_or, hslot, hfunc, ← Nat.two_pow_add_eq_or_of_lt (Nat.mod_lt _ (by decide))]

/-- **What the parser accepts, and what it returns.** -/
theorem parseQemuAddr_eq_some_iff {addr : String} {d : UInt8} :
    parseQemuAddr addr = some d ↔
      ∃ slot func, IsAddress addr.toList slot func ∧ d.toNat = 8 * (slot % 32) + func % 8 := by
  constructor
  · intro h
    obtain ⟨slot, hslot, h⟩ := Option.bind_eq_some_iff.mp h
    obtain ⟨func, hfunc, h⟩ := Option.bind_eq_some_iff.mp h
    obtain rfl := Option.some.inj h
    exact ⟨slot.toNat, func.toNat, isAddress_iff.mpr
      ⟨parseU8AnyRadix_eq_some_iff.mp hslot, parseU8AnyRadix_eq_some_iff.mp hfunc⟩, toNat_pack ..⟩
  · rintro ⟨slot, func, haddr, hd⟩
    obtain ⟨hslot, hfunc⟩ := isAddress_iff.mp haddr
    refine Option.bind_eq_some_iff.mpr ⟨_, parseU8AnyRadix_of_isField hslot, ?_⟩
    refine Option.bind_eq_some_iff.mpr ⟨_, parseU8AnyRadix_of_isField hfunc, ?_⟩
    refine congrArg some (UInt8.toNat_inj.mp ?_)
    rw [toNat_pack, hd, UInt8.toNat_ofNat', UInt8.toNat_ofNat', Nat.mod_eq_of_lt hslot.lt,
      Nat.mod_eq_of_lt hfunc.lt]

/-! ## Exactness -/

/-- The text is read as the address it is, or refused. -/
def ParsedExactly (addr : String) : Prop :=
  ∀ d, parseQemuAddr addr = some d ↔
    ∃ slot func, IsAddress addr.toList slot func ∧ slot < 32 ∧ func < 8 ∧
      (d >>> 3).toNat = slot ∧ (d &&& 0x07).toNat = func ∧
      (pciAdr d).toNat = 65536 * slot + func

/-- The fields of a byte. -/
theorem toNat_slot_func (d : UInt8) :
    (d >>> 3).toNat = d.toNat / 8 ∧ (d &&& 0x07).toNat = d.toNat % 8 := by
  constructor
  · rw [UInt8.toNat_shiftRight]
    change d.toNat >>> 3 = _
    rw [Nat.shiftRight_eq_div_pow]
  · exact Nat.and_two_pow_sub_one_eq_mod d.toNat 3

/-- **The parser is exact** for the addresses whose slot and function fit, and for
every text that is no address. A slot from 32 on loses its upper bits in the shift
and a function from 8 on in the mask, and the text is accepted all the same. -/
theorem parsedExactly_iff (addr : String) :
    ParsedExactly addr ↔
      ∀ slot func, IsAddress addr.toList slot func → slot < 32 ∧ func < 8 := by
  constructor
  · intro hexact slot func haddr
    have hlt : 8 * (slot % 32) + func % 8 < 256 := by omega
    have hparse : parseQemuAddr addr = some (UInt8.ofNat (8 * (slot % 32) + func % 8)) :=
      parseQemuAddr_eq_some_iff.mpr
        ⟨slot, func, haddr, by rw [UInt8.toNat_ofNat', Nat.mod_eq_of_lt hlt]⟩
    obtain ⟨slot', func', haddr', hslot, hfunc, -⟩ := (hexact _).mp hparse
    obtain ⟨rfl, rfl⟩ := haddr.unique haddr'
    exact ⟨hslot, hfunc⟩
  · intro hfits d
    rw [parseQemuAddr_eq_some_iff]
    refine exists_congr fun slot => exists_congr fun func => and_congr_right fun haddr => ?_
    obtain ⟨hslot, hfunc⟩ := hfits slot func haddr
    rw [toNat_pciAdr, (toNat_slot_func d).1, (toNat_slot_func d).2]
    omega

/-- Slot 34 is read as slot 2. -/
theorem parseQemuAddr_folds : parseQemuAddr "34" = parseQemuAddr "2" ∧ ¬ ParsedExactly "34" := by
  refine ⟨rfl, fun hexact => ?_⟩
  have hparse : parseQemuAddr "34" = some 0x10 := rfl
  obtain ⟨slot, func, haddr, hslot, -⟩ := (hexact 0x10).mp hparse
  have hfield : IsField ['3', '4'] 34 := (parseU8AnyRadix_eq_some_iff (b := 34)).mp rfl
  obtain ⟨rfl, -⟩ := haddr.unique (.inl ⟨hfield, rfl⟩)
  omega

end AcpiTables
