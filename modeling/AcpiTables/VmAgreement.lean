import AcpiTables.VmDevices

/-!
# The platform and the command line

Both readings of a description take the same values, but not by the same types:
the command line shows texts, numbers and booleans, the platform reads an
address only from a text and a switch only from a boolean, and falls back to a
default for the rest. Commas separate what is shown, and no text is quoted: so a
value is shown up to its first comma, and what comes after a comma anywhere is
shown as a pair of its own (`shows_iff`).

The two readings agree exactly when everything that is shown this way says what
the platform reads (`agrees_iff`). Where no text holds a comma, every address
that is shown has to be a text the parser accepts, or a number that happens to be
the default, and no switch may be a text that says the opposite of its default
(`textsReadable_iff`).
-/

namespace AcpiTables.Vm

open MachineInt

/-! ## Values of a map -/

section Values

variable {values : TomlMap}

/-- A name has one value. -/
theorem TomlMap.get_eq_some_iff {key : String} {value : TomlValue} :
    values.get key = some value ↔ (key, value) ∈ values.entries := by
  rw [TomlMap.get, List.lookup_eq_some_iff]
  constructor
  · rintro ⟨before, after, heq, -⟩
    rw [heq]
    exact List.mem_append_right _ (List.mem_cons_self ..)
  · intro hmem
    obtain ⟨before, after, heq⟩ := List.append_of_mem hmem
    have hincreasing := values.increasing
    rw [heq, List.pairwise_append] at hincreasing
    refine ⟨before, after, heq, fun entry hentry => ?_⟩
    rw [bne_iff_ne]
    rintro rfl
    exact String.lt_irrefl _ (hincreasing.2.2 entry hentry (entry.1, value) (List.mem_cons_self ..))

/-- A pair is rendered when the value of its key has a text. -/
theorem TomlMap.mem_renderedPairs {key text : String} :
    (key, text) ∈ values.renderedPairs ↔
      ∃ value, values.get key = some value ∧ value.rendered = some text := by
  rw [TomlMap.renderedPairs, List.mem_filterMap]
  constructor
  · rintro ⟨⟨key', value⟩, hmem, hpair⟩
    obtain ⟨text', htext, heq⟩ := Option.map_eq_some_iff.mp hpair
    cases heq
    exact ⟨value, TomlMap.get_eq_some_iff.mpr hmem, htext⟩
  · rintro ⟨value, hget, htext⟩
    exact ⟨(key, value), TomlMap.get_eq_some_iff.mp hget, Option.map_eq_some_iff.mpr
      ⟨text, htext, rfl⟩⟩

/-- The text of an integer holds digits and a sign. -/
theorem mem_toString_int {n : ℤ} {c : Char} (h : c ∈ (toString n).toList) :
    c.isDigit ∨ c = '-' := by
  have hdigits : ∀ m : ℕ, ∀ c ∈ (Nat.repr m).toList, c.isDigit := by
    intro m c hc
    rw [Nat.repr, String.toList_ofList] at hc
    exact Nat.isDigit_of_mem_toDigits (by decide) (by decide) hc
  cases n with
  | ofNat m => exact .inl (hdigits m c h)
  | negSucc m =>
    have hrepr : toString (Int.negSucc m) = "-" ++ Nat.repr (m + 1) := rfl
    rw [hrepr, String.toList_append, List.mem_append] at h
    rcases h with h | h
    · exact .inr (List.mem_singleton.mp h)
    · exact .inl (hdigits _ c h)

/-- What is not in a numeral is shown of texts and booleans only. -/
theorem rendered_of_not_numeral {value : TomlValue} {text : String} (h : value.rendered = some text)
    {c : Char} (hc : c ∈ text.toList) (hdigit : ¬ c.isDigit)
    (hnumeral : c ∉ "-.0123456789NaNinf".toList) :
    value = .string text ∨ ∃ state, value = .boolean state := by
  cases value with
  | string text' => exact .inl (congrArg TomlValue.string (Option.some.inj h))
  | integer n =>
    rw [← Option.some.inj h] at hc
    rcases mem_toString_int hc with hc | rfl
    · exact absurd hc hdigit
    · exact absurd (by decide) hnumeral
  | float x =>
    rw [← Option.some.inj h] at hc
    exact absurd (x.numeral c hc) hnumeral
  | boolean state => exact .inr ⟨state, rfl⟩
  | datetime => cases h
  | array => cases h
  | table => cases h

/-- Only booleans and texts say `on` or `off`. -/
theorem rendered_eq_iff {value : TomlValue} {state : Bool} :
    value.rendered = some (if state then "on" else "off") ↔
      value = .boolean state ∨ value = .string (if state then "on" else "off") := by
  have ho : 'o' ∈ (if state then "on" else "off").toList := by cases state <;> decide
  constructor
  · intro h
    rcases rendered_of_not_numeral h ho (by decide) (by decide) with hvalue | ⟨b, rfl⟩
    · exact .inr hvalue
    · left
      have htext := Option.some.inj h
      cases b <;> cases state
      · rfl
      · exact absurd htext (by decide)
      · exact absurd htext (by decide)
      · rfl
  · rintro (rfl | rfl)
    · rfl
    · rfl

end Values

/-! ## Texts -/

/-- The value of an option shows a pair between its commas. -/
def Shows (option key text : String) : Prop :=
  (pairText (key, text)).toList ∈ option.toList.splitOn ','

/-- A text up to its first comma. -/
def firstPart (text : String) : String := String.ofList ((text.toList.splitOn ',').headD [])

/-- What stands after the commas of a text. -/
def laterParts (text : String) : List (List Char) := (text.toList.splitOn ',').tail

/-- A pair is shown, but not as the value of its key: in the word that comes first,
in another pair, or after a comma of the value. -/
def Stray (first : String) (values : TomlMap) (key text : String) : Prop :=
  (pairText (key, text)).toList ∈ first.toList.splitOn ',' ∨
    ∃ pair ∈ values.renderedPairs,
      if pair.1 = key then (pairText (key, text)).toList ∈ laterParts pair.2
      else (pairText (key, text)).toList ∈ (pairText pair).toList.splitOn ','

/-- A text is split at its commas into a first part and the later ones. -/
theorem splitOn_eq_cons (text : String) :
    text.toList.splitOn ',' = (firstPart text).toList :: laterParts text := by
  rw [firstPart, laterParts, String.toList_ofList]
  cases hsplit : text.toList.splitOn ',' with
  | nil => exact absurd hsplit (List.splitOn_ne_nil _ _)
  | cons part parts => rfl

/-- A text without a comma is its first part. -/
theorem splitOn_of_comma_notMem {text : String} (h : ',' ∉ text.toList) :
    firstPart text = text ∧ laterParts text = [] := by
  rw [firstPart, laterParts, List.splitOn_eq_singleton h]
  exact ⟨String.ofList_toList, rfl⟩

/-- The text of a pair is its key and its value, with an equals sign between them. -/
theorem toList_pairText (pair : String × String) :
    (pairText pair).toList = pair.1.toList ++ '=' :: pair.2.toList := by
  rw [pairText, String.toList_append, String.toList_append, List.append_assoc]
  rfl

/-- The parts of texts that are joined are those of each text. -/
theorem splitOn_intercalate_eq {texts : List (List Char)} (h : texts ≠ []) :
    ([','].intercalate texts).splitOn ',' = texts.flatMap fun text => text.splitOn ',' := by
  induction texts with
  | nil => exact absurd rfl h
  | cons text texts ih =>
    cases texts with
    | nil => rw [List.intercalate_singleton, List.flatMap_singleton]
    | cons text' texts =>
      rw [List.intercalate_cons_cons, List.append_assoc, List.singleton_append,
        List.splitOn_append_cons_self, ih (List.cons_ne_nil _ _)]
      rfl

/-- Characters without a comma stay in front of the first part. -/
theorem splitOn_append_of_notMem {front : List Char} (h : ',' ∉ front) (text : String) :
    (front ++ text.toList).splitOn ',' =
      (front ++ (firstPart text).toList) :: laterParts text := by
  induction front with
  | nil => exact splitOn_eq_cons text
  | cons c front ih =>
    obtain ⟨hc, hfront⟩ := not_or.mp (mt List.mem_cons.mpr h)
    have hother : (c == ',') = false := beq_false_of_ne (Ne.symm hc)
    rw [List.cons_append, List.splitOn_cons_eq_if_modifyHead, hother, ih hfront]
    rfl

/-- The parts of a pair whose key is plain. -/
theorem splitOn_pairText {key : String} (h : ',' ∉ key.toList) (text : String) :
    (pairText (key, text)).toList.splitOn ',' =
      (pairText (key, firstPart text)).toList :: laterParts text := by
  have hfront : ',' ∉ key.toList ++ ['='] := by
    rw [List.mem_append, not_or]
    exact ⟨h, by decide⟩
  have hsplit := splitOn_append_of_notMem hfront text
  rw [List.append_assoc, List.append_assoc] at hsplit
  rw [toList_pairText, toList_pairText]
  exact hsplit

/-- Two texts make the same pair only if they are the same. -/
theorem pairText_inj_right {key text text' : String} :
    (pairText (key, text)).toList = (pairText (key, text')).toList ↔ text = text' := by
  rw [toList_pairText, toList_pairText, List.append_cancel_left_eq, List.cons.injEq,
    String.toList_inj]
  exact and_iff_right rfl

/-- **What an option shows** for a key: the rendered value up to its first comma,
and what strays between the commas. -/
theorem shows_iff {first : String} {values : TomlMap} {key text : String}
    (hkey : ',' ∉ key.toList) :
    Shows (",".intercalate (first :: values.renderedPairs.map pairText)) key text ↔
      (∃ value, (key, value) ∈ values.renderedPairs ∧ firstPart value = text) ∨
        Stray first values key text := by
  rw [Shows, String.toList_intercalate, List.map_cons, List.map_map]
  have hjoined := splitOn_intercalate_eq
    (List.cons_ne_nil first.toList (values.renderedPairs.map (String.toList ∘ pairText)))
  have hseparator : ",".toList = [','] := rfl
  rw [hseparator, hjoined, List.flatMap_cons, List.mem_append, List.mem_flatMap, Stray]
  constructor
  · rintro (hfirst | ⟨part, hpart, hmem⟩)
    · exact .inr (.inl hfirst)
    · obtain ⟨pair, hpair, rfl⟩ := List.mem_map.mp hpart
      by_cases hsame : pair.1 = key
      · obtain ⟨_, value⟩ := pair
        obtain rfl := hsame
        rw [Function.comp_apply, splitOn_pairText hkey, List.mem_cons, pairText_inj_right] at hmem
        rcases hmem with hvalue | hlater
        · exact .inl ⟨value, hpair, hvalue.symm⟩
        · exact .inr (.inr ⟨_, hpair, by rwa [if_pos rfl]⟩)
      · exact .inr (.inr ⟨pair, hpair, by rwa [if_neg hsame]⟩)
  · rintro (⟨value, hpair, rfl⟩ | hfirst | ⟨pair, hpair, hmem⟩)
    · refine .inr ⟨_, List.mem_map.mpr ⟨_, hpair, rfl⟩, ?_⟩
      rw [Function.comp_apply, splitOn_pairText hkey]
      exact List.mem_cons_self ..
    · exact .inl hfirst
    · refine .inr ⟨_, List.mem_map.mpr ⟨pair, hpair, rfl⟩, ?_⟩
      split at hmem
      · next hsame =>
        obtain ⟨_, value⟩ := pair
        obtain rfl := hsame
        rw [Function.comp_apply, splitOn_pairText hkey]
        exact List.mem_cons_of_mem _ hmem
      · exact hmem

/-- Nothing that is rendered holds a comma, and no name an equals sign. -/
structure Plain (first : String) (values : TomlMap) : Prop where
  first_plain : ',' ∉ first.toList ∧ '=' ∉ first.toList
  pair_plain : ∀ pair ∈ values.renderedPairs,
    ',' ∉ pair.1.toList ∧ '=' ∉ pair.1.toList ∧ ',' ∉ pair.2.toList

/-- Pairs with plain keys are the same when their texts are. -/
theorem pairText_inj {pair pair' : String × String} (h : '=' ∉ pair.1.toList)
    (h' : '=' ∉ pair'.1.toList) (heq : (pairText pair).toList = (pairText pair').toList) :
    pair = pair' := by
  have hsplit : ∀ pair : String × String, '=' ∉ pair.1.toList →
      splitOnce '=' (pairText pair).toList = some (pair.1.toList, pair.2.toList) :=
    fun pair h => splitOnce_eq_some_iff.mpr ⟨h, toList_pairText pair⟩
  have hparts := hsplit pair h
  rw [heq, hsplit pair' h'] at hparts
  obtain ⟨hkey, htext⟩ := Prod.mk.inj (Option.some.inj hparts)
  exact Prod.ext (String.toList_inj.mp hkey.symm) (String.toList_inj.mp htext.symm)

/-- In plain texts nothing strays. -/
theorem Plain.not_stray {first : String} {values : TomlMap} (h : Plain first values)
    {key text : String} (hkey : '=' ∉ key.toList) : ¬Stray first values key text := by
  rintro (hfirst | ⟨pair, hpair, hmem⟩)
  · rw [List.splitOn_eq_singleton h.first_plain.1, List.mem_singleton, toList_pairText] at hfirst
    refine h.first_plain.2 (hfirst ▸ ?_)
    exact List.mem_append_right _ (List.mem_cons_self ..)
  · obtain ⟨hname, hequals, htext⟩ := h.pair_plain pair hpair
    split at hmem
    · rw [(splitOn_of_comma_notMem htext).2] at hmem
      cases hmem
    · next hother =>
      rw [splitOn_pairText hname, (splitOn_of_comma_notMem htext).1,
        (splitOn_of_comma_notMem htext).2, List.mem_singleton] at hmem
      exact hother (congrArg Prod.fst (pairText_inj hkey hequals hmem)).symm

/-! ## Addresses -/

/-- The addresses that devices are shown with are the ones of the tables. -/
def AddressesAgree (vm : VmConfig) (config : PlatformConfig) (shown : Device → String → Prop) :
    Prop :=
  ∀ entry ∈ vm.pciDevices.zipIdx, ∀ text, shown entry.1 text →
    ∃ record ∈ config.pciDevices, entry.1.pciDeviceConfig entry.2 = .ok record ∧
      parseQemuAddr text = some record.devfn

/-- The text denotes the place that a device at this position has by default. -/
def DenotesDefault (index : ℕ) (text : String) : Prop :=
  ∃ default, defaultDevfn index = .ok default ∧ parseQemuAddr text = some default

/-- The text denotes what the address of the device says, if that is a text that
the parser accepts, and otherwise the default. -/
def Device.Denotes (device : Device) (index : ℕ) (text : String) : Prop :=
  match device.devfn with
  | some devfn => parseQemuAddr text = some devfn
  | none => DenotesDefault index text

/-- The address is a text that the parser accepts, or shows the default. -/
def AddressReadable (device : Device) (index : ℕ) : Prop :=
  match device.props.get "addr" with
  | some (.string addr) => parseQemuAddr addr ≠ none
  | some value => ∀ text ∈ value.rendered, DenotesDefault index text
  | none => True

/-- The same of a text with a comma: no address holds one, so what is in front of
it has to show the default. -/
def AddressShownReadable (device : Device) (index : ℕ) : Prop :=
  match device.props.get "addr" with
  | some (.string addr) =>
    if ',' ∈ addr.toList then DenotesDefault index (firstPart addr) else parseQemuAddr addr ≠ none
  | some value => ∀ text ∈ value.rendered, DenotesDefault index text
  | none => True

/-- The text of an address is the address, up to a comma. -/
theorem parseQemuAddr_of_comma_mem {addr : String} (h : ',' ∈ addr.toList) :
    parseQemuAddr addr = none := by
  cases hparse : parseQemuAddr addr with
  | none => rfl
  | some devfn =>
    obtain ⟨slot, func, haddr, -⟩ := parseQemuAddr_eq_some_iff.mp hparse
    exact absurd h haddr.not_mem_comma

/-- Only texts hold commas, so other values are shown whole. -/
theorem firstPart_of_rendered {value : TomlValue} {text : String}
    (h : value.rendered = some text) (hvalue : ∀ addr, value ≠ .string addr) :
    firstPart text = text := by
  refine (splitOn_of_comma_notMem fun hcomma => ?_).1
  rcases rendered_of_not_numeral h hcomma (by decide) (by decide) with htext | ⟨state, rfl⟩
  · exact hvalue text htext
  · rw [← Option.some.inj h] at hcomma
    cases state <;> exact absurd hcomma (by decide)

section Shown

variable {device : Device} {index : ℕ}

/-- A value that is shown, but not read. -/
theorem shown_iff_of_not_string {value : TomlValue} (hget : device.props.get "addr" = some value)
    (hvalue : ∀ addr, value ≠ .string addr) :
    (∀ text ∈ value.rendered, DenotesDefault index text) ↔
      ∀ text, (∃ shown, ("addr", shown) ∈ device.props.renderedPairs ∧ firstPart shown = text) →
        device.Denotes index text := by
  have hdevfn : device.devfn = none := by
    rw [Device.devfn, hget]
    cases value with
    | string addr => exact absurd rfl (hvalue addr)
    | _ => rfl
  have hdenotes : ∀ text, device.Denotes index text ↔ DenotesDefault index text := fun text => by
    rw [Device.Denotes, hdevfn]
  constructor
  · rintro hshown text ⟨shown, hpair, rfl⟩
    obtain ⟨value', hget', htext⟩ := TomlMap.mem_renderedPairs.mp hpair
    obtain rfl := Option.some.inj (hget.symm.trans hget')
    rw [firstPart_of_rendered htext hvalue]
    exact (hdenotes shown).mpr (hshown shown htext)
  · intro hshown text htext
    refine (hdenotes text).mp (hshown text ⟨text, ?_, firstPart_of_rendered htext hvalue⟩)
    exact TomlMap.mem_renderedPairs.mpr ⟨value, hget, htext⟩

/-- The value of the address is shown as the platform reads it. -/
theorem addressShownReadable_iff :
    AddressShownReadable device index ↔
      ∀ text, (∃ shown, ("addr", shown) ∈ device.props.renderedPairs ∧ firstPart shown = text) →
        device.Denotes index text := by
  rw [AddressShownReadable]
  cases hget : device.props.get "addr" with
  | none =>
    refine ⟨fun _ text hshown => ?_, fun _ => trivial⟩
    obtain ⟨shown, hpair, -⟩ := hshown
    obtain ⟨value, hget', -⟩ := TomlMap.mem_renderedPairs.mp hpair
    rw [hget] at hget'
    cases hget'
  | some value =>
    cases value with
    | string addr =>
      have hdevfn : device.devfn = parseQemuAddr addr := by
        rw [Device.devfn, hget]
        rfl
      have hshown : (∀ text, (∃ shown, ("addr", shown) ∈ device.props.renderedPairs ∧
          firstPart shown = text) → device.Denotes index text) ↔
            device.Denotes index (firstPart addr) := by
        constructor
        · exact fun h => h _ ⟨addr, TomlMap.mem_renderedPairs.mpr ⟨_, hget, rfl⟩, rfl⟩
        · rintro h text ⟨shown, hpair, rfl⟩
          obtain ⟨value, hget', htext⟩ := TomlMap.mem_renderedPairs.mp hpair
          obtain rfl := Option.some.inj (hget.symm.trans hget')
          obtain rfl := Option.some.inj htext
          exact h
      rw [hshown, Device.Denotes, hdevfn]
      dsimp only
      split
      · next hcomma => rw [parseQemuAddr_of_comma_mem hcomma]
      · next hcomma =>
        rw [(splitOn_of_comma_notMem hcomma).1]
        cases hparse : parseQemuAddr addr with
        | some devfn => simp
        | none =>
          refine iff_of_false (fun h => h rfl) ?_
          rintro ⟨default, -, hdefault⟩
          rw [hparse] at hdefault
          cases hdefault
    -- only a string is read as an address
    | integer n => exact shown_iff_of_not_string hget nofun
    | float x => exact shown_iff_of_not_string hget nofun
    | boolean b => exact shown_iff_of_not_string hget nofun
    | datetime => exact shown_iff_of_not_string hget nofun
    | array => exact shown_iff_of_not_string hget nofun
    | table => exact shown_iff_of_not_string hget nofun

/-- Without commas, the text of the address is shown whole. -/
theorem addressShownReadable_of_plain (h : Plain device.driver device.props) :
    AddressShownReadable device index ↔ AddressReadable device index := by
  rw [AddressShownReadable, AddressReadable]
  cases hget : device.props.get "addr" with
  | none => rfl
  | some value =>
    cases value with
    | string addr =>
      have hpair : ("addr", addr) ∈ device.props.renderedPairs :=
        TomlMap.mem_renderedPairs.mpr ⟨_, hget, rfl⟩
      dsimp only
      rw [if_neg (h.pair_plain _ hpair).2.2]
    | _ => rfl

end Shown

/-- What is related to a list has a partner for each member. -/
theorem exists_of_mem_left {α β : Type} {R : α → β → Prop} {xs : List α} {ys : List β}
    (h : List.Forall₂ R xs ys) {x : α} (hx : x ∈ xs) : ∃ y ∈ ys, R x y := by
  induction h with
  | nil => cases hx
  | @cons x' y' xs ys hxy _ ih =>
    rcases List.mem_cons.mp hx with rfl | hx
    · exact ⟨y', List.mem_cons_self .., hxy⟩
    · obtain ⟨y, hy, hR⟩ := ih hx
      exact ⟨y, List.mem_cons_of_mem _ hy, hR⟩

/-- The tables have what the address of a device says, or the default. -/
theorem addressesAgree_iff {vm : VmConfig} {config : PlatformConfig}
    (h : vm.platformConfig = .ok config) (shown : Device → String → Prop) :
    AddressesAgree vm config shown ↔
      ∀ entry ∈ vm.pciDevices.zipIdx, ∀ text, shown entry.1 text →
        entry.1.Denotes entry.2 text := by
  obtain ⟨devices, hrecords, hconfig⟩ := platformConfig_eq (platformConfig_isOk_iff.mp ⟨config, h⟩)
  have hdevices : config.pciDevices = sortByDevfn devices := by
    rw [Except.ok.inj (h.symm.trans hconfig)]
    rfl
  refine forall₂_congr fun entry hentry => forall₂_congr fun text _ => ?_
  obtain ⟨record, hrecord, default, hdefault, rfl⟩ := exists_of_mem_left hrecords hentry
  have hmem : entry.1.record default ∈ config.pciDevices := by
    rw [hdevices]
    exact (sortByDevfn_perm devices).mem_iff.mpr hrecord
  have hdenotes : entry.1.Denotes entry.2 text ↔
      parseQemuAddr text = some (entry.1.devfn.getD default) := by
    rw [Device.Denotes]
    cases entry.1.devfn with
    | some devfn => rfl
    | none =>
      constructor
      · rintro ⟨default', hdefault', hparse⟩
        obtain rfl := Except.ok.inj (hdefault.symm.trans hdefault')
        exact hparse
      · exact fun hparse => ⟨default, hdefault, hparse⟩
  rw [hdenotes]
  constructor
  · rintro ⟨record', -, hrecord', hparse⟩
    obtain ⟨default', hdefault', rfl⟩ := pciDeviceConfig_eq_ok.mp hrecord'
    obtain rfl := Except.ok.inj (hdefault.symm.trans hdefault')
    exact hparse
  · intro hparse
    exact ⟨_, hmem, pciDeviceConfig_eq_ok.mpr ⟨default, hdefault, rfl⟩, hparse⟩

/-! ## Switches -/

/-- The switches that the platform reads from the properties of the machine. -/
inductive SwitchKey where
  | hpet | mcfg | numa | slit | hmat | nvdimm | cxl

namespace SwitchKey

/-- The name of a switch. -/
def key : SwitchKey → String
  | hpet => "hpet"
  | mcfg => "mcfg"
  | numa => "numa"
  | slit => "slit"
  | hmat => "hmat"
  | nvdimm => "nvdimm"
  | cxl => "cxl"

/-- What the tables are built with. -/
def flag (config : PlatformConfig) : SwitchKey → Bool
  | hpet => config.hasHpet
  | mcfg => config.hasMcfg
  | numa => config.hasNuma
  | slit => config.hasSlit
  | hmat => config.hasHmat
  | nvdimm => config.nvdimmEnabled
  | cxl => config.cxlEnabled

/-- What a switch is without a boolean of its name. -/
def default (vm : VmConfig) : SwitchKey → Bool
  | hpet => false
  | mcfg => true
  | numa => false
  | slit => (vm.machine.properties.bool "numa").getD false
  | hmat => false
  | nvdimm => vm.devices.any Device.isNvdimm
  | cxl => vm.devices.any Device.isCxl

end SwitchKey

/-- The switches that are shown are the ones of the tables. -/
def SwitchesAgree (config : PlatformConfig) (shown : String → String → Prop) : Prop :=
  ∀ (sw : SwitchKey) (state : Bool), shown sw.key (if state then "on" else "off") →
    sw.flag config = state

/-- A switch is what the boolean of its name says, or else its default. -/
def VmConfig.switch (vm : VmConfig) (sw : SwitchKey) : Bool :=
  (vm.machine.properties.bool sw.key).getD (sw.default vm)

/-- No text says the opposite of a default. -/
def SwitchesReadable (vm : VmConfig) : Prop :=
  ∀ (sw : SwitchKey) (state : Bool),
    vm.machine.properties.values.get sw.key = some (.string (if state then "on" else "off")) →
      sw.default vm = state

/-- Nor does one up to its first comma. -/
def SwitchesShownReadable (vm : VmConfig) : Prop :=
  ∀ (sw : SwitchKey) (state : Bool) (text : String),
    vm.machine.properties.values.get sw.key = some (.string text) →
      firstPart text = (if state then "on" else "off") → sw.default vm = state

/-- The tables are built with the switches. -/
theorem flag_eq {vm : VmConfig} {config : PlatformConfig} (h : vm.platformConfig = .ok config)
    (sw : SwitchKey) : sw.flag config = vm.switch sw := by
  obtain ⟨devices, -, hconfig⟩ := platformConfig_eq (platformConfig_isOk_iff.mp ⟨config, h⟩)
  rw [Except.ok.inj (h.symm.trans hconfig)]
  cases sw <;> rfl

/-- A text is not read as a switch, which is then its default. -/
theorem switch_of_string {vm : VmConfig} {sw : SwitchKey} {text : String}
    (h : vm.machine.properties.values.get sw.key = some (.string text)) :
    vm.switch sw = sw.default vm := by
  rw [VmConfig.switch, MachineProperties.bool, TomlMap.bool, h]
  rfl

/-- The value of a switch is shown as the platform reads it. -/
theorem switchesShownReadable_iff {vm : VmConfig} :
    SwitchesShownReadable vm ↔ ∀ (sw : SwitchKey) (state : Bool),
      (∃ shown, (sw.key, shown) ∈ vm.machine.properties.values.renderedPairs ∧
        firstPart shown = if state then "on" else "off") → vm.switch sw = state := by
  constructor
  · rintro hreadable sw state ⟨shown, hpair, hshown⟩
    obtain ⟨value, hget, htext⟩ := TomlMap.mem_renderedPairs.mp hpair
    by_cases hstring : ∃ text, value = .string text
    · obtain ⟨text, rfl⟩ := hstring
      obtain rfl := Option.some.inj htext
      rw [switch_of_string hget]
      exact hreadable sw state _ hget hshown
    · rw [firstPart_of_rendered htext fun text h => hstring ⟨text, h⟩] at hshown
      subst hshown
      rcases rendered_eq_iff.mp htext with rfl | rfl
      · rw [VmConfig.switch, MachineProperties.bool, TomlMap.bool, hget]
        rfl
      · exact absurd ⟨_, rfl⟩ hstring
  · intro hagree sw state text hget htext
    rw [← switch_of_string hget]
    exact hagree sw state ⟨text, TomlMap.mem_renderedPairs.mpr ⟨_, hget, rfl⟩, htext⟩

/-- Without commas, the text of a switch is shown whole. -/
theorem switchesShownReadable_of_plain {vm : VmConfig}
    (h : Plain vm.platform.machine vm.machine.properties.values) :
    SwitchesShownReadable vm ↔ SwitchesReadable vm := by
  refine forall₂_congr fun sw state => ?_
  have hwhole : ∀ text, vm.machine.properties.values.get sw.key = some (.string text) →
      firstPart text = text := fun text hget =>
    (splitOn_of_comma_notMem
      (h.pair_plain _ (TomlMap.mem_renderedPairs.mpr ⟨_, hget, rfl⟩)).2.2).1
  constructor
  · exact fun hreadable hget => hreadable _ hget (hwhole _ hget)
  · intro hreadable text hget htext
    rw [hwhole text hget] at htext
    exact hreadable (htext ▸ hget)

/-! ## Both -/

/-- The tables agree with the texts of the command line. -/
def TextsAgree (vm : VmConfig) (config : PlatformConfig) : Prop :=
  (AddressesAgree vm config fun device text => Shows device.toQemuValue "addr" text) ∧
    SwitchesAgree config fun key text => Shows vm.machineArg key text

/-- The values of addresses and switches are of the types that the platform reads,
or say the default. -/
def Readable (vm : VmConfig) : Prop :=
  (∀ entry ∈ vm.pciDevices.zipIdx, AddressReadable entry.1 entry.2) ∧ SwitchesReadable vm

/-- The texts of the machine and of its PCI devices are plain. -/
def PlainTexts (vm : VmConfig) : Prop :=
  (∀ device ∈ vm.pciDevices, Plain device.driver device.props) ∧
    Plain vm.platform.machine vm.machine.properties.values

/-- The values are readable up to their first commas, and what strays between
commas says what the platform reads as well. -/
structure TextsReadable (vm : VmConfig) : Prop where
  /-- the value of an address -/
  addresses : ∀ entry ∈ vm.pciDevices.zipIdx, AddressShownReadable entry.1 entry.2
  /-- another pair that looks like an address -/
  strayAddresses : ∀ entry ∈ vm.pciDevices.zipIdx, ∀ text,
    Stray entry.1.driver entry.1.props "addr" text → entry.1.Denotes entry.2 text
  /-- the value of a switch -/
  switches : SwitchesShownReadable vm
  /-- another pair that looks like a switch -/
  straySwitches : ∀ (sw : SwitchKey) (state : Bool),
    Stray vm.platform.machine vm.machine.properties.values sw.key
      (if state then "on" else "off") → vm.switch sw = state

/-- Where no text holds a comma, nothing strays. -/
theorem textsReadable_iff {vm : VmConfig} (h : PlainTexts vm) :
    TextsReadable vm ↔ Readable vm := by
  have hdevice : ∀ entry ∈ vm.pciDevices.zipIdx, Plain entry.1.driver entry.1.props :=
    fun entry hentry => h.1 _ (List.fst_mem_of_mem_zipIdx hentry)
  have haddresses : (∀ entry ∈ vm.pciDevices.zipIdx, AddressShownReadable entry.1 entry.2) ↔
      ∀ entry ∈ vm.pciDevices.zipIdx, AddressReadable entry.1 entry.2 :=
    forall₂_congr fun entry hentry => addressShownReadable_of_plain (hdevice entry hentry)
  constructor
  · exact fun hreadable => ⟨haddresses.mp hreadable.addresses,
      (switchesShownReadable_of_plain h.2).mp hreadable.switches⟩
  · rintro ⟨haddress, hswitch⟩
    refine ⟨haddresses.mpr haddress, ?_, (switchesShownReadable_of_plain h.2).mpr hswitch, ?_⟩
    · intro entry hentry text hstray
      exact absurd hstray ((hdevice entry hentry).not_stray (by decide))
    · intro sw state hstray
      exact absurd hstray (h.2.not_stray (by cases sw <;> decide))

/-- **The two readings agree** exactly when everything the command line shows for
an address or a switch says what the platform reads; and where no text holds a
comma, exactly when addresses are texts or show the default, and switches are
booleans or say the default. -/
theorem agrees_iff {vm : VmConfig} {config : PlatformConfig} (h : vm.platformConfig = .ok config) :
    (TextsAgree vm config ↔ TextsReadable vm) ∧
      (PlainTexts vm → (TextsAgree vm config ↔ Readable vm)) := by
  have htexts : TextsAgree vm config ↔ TextsReadable vm := by
    rw [TextsAgree, addressesAgree_iff h]
    have haddress : ∀ (device : Device) (text : String), Shows device.toQemuValue "addr" text ↔
        (∃ value, ("addr", value) ∈ device.props.renderedPairs ∧ firstPart value = text) ∨
          Stray device.driver device.props "addr" text := fun _ _ => shows_iff (by decide)
    have hswitch : ∀ (sw : SwitchKey) (state : Bool),
        (Shows vm.machineArg sw.key (if state then "on" else "off") → sw.flag config = state) ↔
          ((∃ value, (sw.key, value) ∈ vm.machine.properties.values.renderedPairs ∧
              firstPart value = if state then "on" else "off") ∨
            Stray vm.platform.machine vm.machine.properties.values sw.key
              (if state then "on" else "off") → vm.switch sw = state) := fun sw state => by
      rw [flag_eq h]
      exact imp_congr (shows_iff (by cases sw <;> decide)) Iff.rfl
    simp only [SwitchesAgree, haddress, hswitch, or_imp, forall_and]
    rw [← switchesShownReadable_iff]
    constructor
    · rintro ⟨⟨haddresses, hstray⟩, hswitches, hstray'⟩
      exact ⟨fun entry hentry => addressShownReadable_iff.mpr (haddresses entry hentry), hstray,
        hswitches, hstray'⟩
    · rintro ⟨haddresses, hstray, hswitches, hstray'⟩
      exact ⟨⟨fun entry hentry => addressShownReadable_iff.mp (haddresses entry hentry), hstray⟩,
        hswitches, hstray'⟩
  exact ⟨htexts, fun hplain => htexts.trans (textsReadable_iff hplain)⟩

theorem agrees_netAndDisk : ∃ config, VmConfig.netAndDisk.platformConfig = .ok config ∧
    (TextsAgree .netAndDisk config ↔ TextsReadable .netAndDisk) ∧
      (TextsAgree .netAndDisk config ↔ Readable .netAndDisk) := by
  obtain ⟨config, hconfig⟩ : ∃ config, VmConfig.netAndDisk.platformConfig = .ok config := ⟨_, rfl⟩
  obtain ⟨htexts, hplain⟩ := agrees_iff hconfig
  refine ⟨config, hconfig, htexts, hplain ⟨?_, ⟨by decide, by decide⟩⟩⟩
  have hdevices : VmConfig.netAndDisk.pciDevices = VmConfig.netAndDisk.devices := rfl
  rw [hdevices, VmConfig.netAndDisk, VmConfig.q35]
  rintro device (_ | ⟨_, _ | ⟨_, hdevice⟩⟩)
  · exact ⟨by decide, by decide⟩
  · exact ⟨by decide, by decide⟩
  · cases hdevice

/-- An address that is a number, and a switch that is a text. -/
def VmConfig.typed : VmConfig :=
  q35 ⟨[("hpet", .string "on")], by decide⟩
    [⟨"virtio-net-pci", ⟨[("addr", .integer 2)], by decide⟩⟩]

/-- The command line says `addr=2` and `hpet=on`, the tables slot 1 and no HPET. -/
theorem typed_disagrees : ∃ config, VmConfig.typed.platformConfig = .ok config ∧
    VmConfig.typed.devices.map Device.toQemuValue = ["virtio-net-pci,addr=2"] ∧
    VmConfig.typed.machineArg = "q35,hpet=on" ∧
    config.pciDevices.map PciDeviceConfig.devfn = [0x08] ∧ parseQemuAddr "2" = some 0x10 ∧
    config.hasHpet = false ∧ ¬ TextsAgree .typed config := by
  refine ⟨_, rfl, by decide, by decide, rfl, rfl, rfl, fun hagree => ?_⟩
  have hshown : Shows VmConfig.typed.machineArg "hpet" "on" := by
    unfold Shows
    decide
  have hflag := hagree.2 .hpet true hshown
  cases hflag

end AcpiTables.Vm
