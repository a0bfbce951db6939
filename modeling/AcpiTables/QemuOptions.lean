import AcpiTables.SeparatedFields
import AcpiTables.VmAgreement

/-!
# Options read back

The value of an option is a word and pairs of keys and texts, separated by
commas. QEMU reads two commas as one comma inside a text, and ends a key at the
first equals sign. Texts are rendered as they are, so what is read back is what
was rendered exactly when no text holds a comma, and no word a comma or an
equals sign (`readsBack_iff`).

The reader is that of `SeparatedFields`, with an equals sign to look for in each of
its fields (`parseOption`). All three options are a word and pairs
(`parseOption_iff`); those of devices and machines come from a map, and of its
values only texts can hold a comma (`string_of_comma_mem`).
-/

namespace AcpiTables.Vm

/-! ## Reading -/

/-- A part of an option. -/
inductive OptionPart where
  | word (text : String)
  | pair (key text : String)
  deriving DecidableEq

/-- A key ends at the first equals sign. -/
def optionPart (field : List Char) : OptionPart :=
  match splitOnce '=' field with
  | some (key, text) => .pair (String.ofList key) (String.ofList text)
  | none => .word (String.ofList field)

/-- An option as QEMU reads it. -/
def parseOption (option : String) : List OptionPart :=
  (splitFields ',' option.toList).map optionPart

example : parseOption "user,id=a,,b=c" = [.word "user", .pair "id" "a,b=c"] := by decide

/-- Neither a comma nor an equals sign. -/
def IsWord (text : String) : Prop := ',' ∉ text.toList ∧ '=' ∉ text.toList

/-- A field without an equals sign is a word. -/
theorem optionPart_eq_word {field : List Char} {text : String} :
    optionPart field = .word text ↔ field = text.toList ∧ '=' ∉ text.toList := by
  rw [optionPart]
  constructor
  · intro h
    cases hsplit : splitOnce '=' field with
    | none =>
      rw [hsplit] at h
      obtain rfl := OptionPart.word.inj h
      rw [String.toList_ofList]
      refine ⟨rfl, fun hmem => ?_⟩
      obtain ⟨key, value, rfl, hkey⟩ := List.eq_append_cons_of_mem hmem
      rw [splitOnce_eq_some_iff.mpr ⟨hkey, rfl⟩] at hsplit
      cases hsplit
    | some parts =>
      rw [hsplit] at h
      cases h
  · rintro ⟨rfl, hequals⟩
    rw [splitOnce_eq_none hequals]
    exact congrArg OptionPart.word String.ofList_toList

/-- A field is split at its first equals sign, so a key has none. -/
theorem optionPart_eq_pair {field : List Char} {pair : String × String} :
    optionPart field = .pair pair.1 pair.2 ↔
      field = (pairText pair).toList ∧ '=' ∉ pair.1.toList := by
  rw [optionPart, toList_pairText]
  constructor
  · intro h
    cases hsplit : splitOnce '=' field with
    | none =>
      rw [hsplit] at h
      cases h
    | some parts =>
      rw [hsplit] at h
      obtain ⟨hkey, htext⟩ := OptionPart.pair.inj h
      obtain ⟨hequals, rfl⟩ := splitOnce_eq_some_iff.mp hsplit
      rw [← hkey, ← htext, String.toList_ofList, String.toList_ofList]
      exact ⟨rfl, hequals⟩
  · rintro ⟨rfl, hequals⟩
    rw [splitOnce_eq_some_iff.mpr ⟨hequals, rfl⟩]
    exact congrArg₂ OptionPart.pair String.ofList_toList String.ofList_toList

/-! ## Options of a word and pairs -/

/-- A word and pairs, between commas. -/
def optionText (word : String) (pairs : List (String × String)) : String :=
  ",".intercalate (word :: pairs.map pairText)

/-- The word and the pairs, in their order. -/
def optionParts (word : String) (pairs : List (String × String)) : List OptionPart :=
  .word word :: pairs.map fun pair => .pair pair.1 pair.2

section Options

variable {word : String} {pairs : List (String × String)}

/-- An option is its word and its pairs, with commas between them. -/
theorem toList_optionText : (optionText word pairs).toList =
    [','].intercalate (word.toList :: pairs.map fun pair => (pairText pair).toList) := by
  rw [optionText, String.toList_intercalate, List.map_cons, List.map_map]
  rfl

/-- The parts are those of the word and of the texts of the pairs. -/
theorem map_optionPart_iff {texts : List (List Char)}
    (hkeys : ∀ pair ∈ pairs, '=' ∉ pair.1.toList) :
    texts.map optionPart = optionParts word pairs ↔
      texts = word.toList :: (pairs.map fun pair => (pairText pair).toList) ∧
        '=' ∉ word.toList := by
  -- a key has no equals sign, so its pair is read from no other text
  have hpairs : ∀ texts : List (List Char),
      texts.map optionPart = (pairs.map fun pair => .pair pair.1 pair.2) ↔
        texts = pairs.map fun pair => (pairText pair).toList := by
    induction pairs with
    | nil => exact fun texts => List.map_eq_nil_iff
    | cons pair pairs ih =>
      obtain ⟨hkey, hkeys⟩ := List.forall_mem_cons.mp hkeys
      intro texts
      cases texts with
      | nil => exact iff_of_false (List.cons_ne_nil _ _ ∘ Eq.symm) (List.cons_ne_nil _ _ ∘ Eq.symm)
      | cons text texts =>
        rw [List.map_cons, List.map_cons, List.map_cons, List.cons.injEq, List.cons.injEq,
          ih hkeys, optionPart_eq_pair, and_iff_left hkey]
  rw [optionParts]
  cases texts with
  | nil => simp
  | cons text texts =>
    rw [List.map_cons, List.cons.injEq, List.cons.injEq, hpairs, optionPart_eq_word, and_assoc,
      and_assoc, and_comm (a := '=' ∉ word.toList)]

/-- **An option is read back** exactly when there is no comma in its word and
its texts, and no equals sign in its word. -/
theorem parseOption_iff (hkeys : ∀ pair ∈ pairs, IsWord pair.1) :
    parseOption (optionText word pairs) = optionParts word pairs ↔
      IsWord word ∧ ∀ pair ∈ pairs, ',' ∉ pair.2.toList := by
  have hempty : ∀ text ∈ pairs.map fun pair => (pairText pair).toList, text ≠ [] := by
    intro text htext
    obtain ⟨pair, -, rfl⟩ := List.mem_map.mp htext
    rw [toList_pairText]
    exact List.append_ne_nil_of_right_ne_nil _ (List.cons_ne_nil _ _)
  have hcommas : (∀ text ∈ pairs.map fun pair => (pairText pair).toList, ',' ∉ text) ↔
      ∀ pair ∈ pairs, ',' ∉ pair.2.toList := by
    rw [List.forall_mem_map]
    refine forall₂_congr fun pair hpair => ?_
    rw [toList_pairText, List.mem_append, List.mem_cons, not_or, not_or]
    exact ⟨fun h => h.2.2, fun h => ⟨(hkeys pair hpair).1, by decide, h⟩⟩
  rw [parseOption, map_optionPart_iff fun pair hpair => (hkeys pair hpair).2, toList_optionText,
    splitFields_intercalate_iff hempty, List.forall_mem_cons, hcommas, IsWord, and_right_comm]

end Options

/-! ## The command line -/

namespace TomlMap

variable (values : TomlMap)

/-- No key holds a comma or an equals sign. -/
def PlainKeys : Prop := ∀ entry ∈ values.entries, IsWord entry.1

/-- No text holds a comma. -/
def CommaFree : Prop := ∀ key text, values.get key = some (.string text) → ',' ∉ text.toList

variable {values}

/-- Of the values that are rendered, only texts hold commas. -/
theorem string_of_comma_mem {value : TomlValue} {text : String} (h : value.rendered = some text)
    (hcomma : ',' ∈ text.toList) : value = .string text := by
  rcases rendered_of_not_numeral h hcomma (by decide) (by decide) with hvalue | ⟨state, rfl⟩
  · exact hvalue
  · rw [← Option.some.inj h] at hcomma
    cases state <;> exact absurd hcomma (by decide)

/-- No text of a value has a comma. -/
theorem commaFree_iff :
    values.CommaFree ↔ ∀ pair ∈ values.renderedPairs, ',' ∉ pair.2.toList := by
  constructor
  · intro h pair hpair hcomma
    obtain ⟨value, hget, htext⟩ := mem_renderedPairs.mp hpair
    obtain rfl := string_of_comma_mem htext hcomma
    exact h _ _ hget hcomma
  · exact fun h key text hget => h (key, text) (mem_renderedPairs.mpr ⟨_, hget, rfl⟩)

/-- Plain keys are words. -/
theorem PlainKeys.isWord (h : values.PlainKeys) : ∀ pair ∈ values.renderedPairs, IsWord pair.1 := by
  intro pair hpair
  obtain ⟨value, hget, -⟩ := mem_renderedPairs.mp hpair
  exact h _ (get_eq_some_iff.mp hget)

/-- An option of a word and the values of a map. -/
theorem parseOption_renderedPairs_iff (h : values.PlainKeys) {word : String} :
    parseOption (optionText word values.renderedPairs) = optionParts word values.renderedPairs ↔
      IsWord word ∧ values.CommaFree := by
  rw [parseOption_iff h.isWord, commaFree_iff]

end TomlMap

/-- The value of `-device` is the driver and the properties that are rendered. -/
def Device.ReadsBack (device : Device) : Prop :=
  parseOption device.toQemuValue = optionParts device.driver device.props.renderedPairs

/-- The value of `-machine` is the machine and its properties. -/
def VmConfig.MachineReadsBack (vm : VmConfig) : Prop :=
  parseOption vm.machineArg =
    optionParts vm.platform.machine vm.machine.properties.values.renderedPairs

/-- The value of `-netdev` is the type and the id. -/
def Netdev.ReadsBack (netdev : Netdev) : Prop :=
  parseOption netdev.toQemuValue = optionParts netdev.kind [("id", netdev.id)]

/-- The option of a network backend is its kind and its id. -/
theorem Netdev.toQemuValue_eq (netdev : Netdev) :
    netdev.toQemuValue = optionText netdev.kind [("id", netdev.id)] := by
  -- one format string in the source, the same characters
  rw [← String.toList_inj, toList_optionText, Netdev.toQemuValue]
  simp only [String.toList_append, List.map_cons, List.map_nil, toList_pairText,
    List.intercalate_cons_cons, List.intercalate_singleton, List.append_assoc]
  rfl

/-- **Options are read back** exactly when no text that is put on the command
line holds a comma, and no driver, machine or type an equals sign. -/
theorem readsBack_iff {device : Device} {vm : VmConfig} {netdev : Netdev}
    (hdevice : device.props.PlainKeys) (hmachine : vm.machine.properties.values.PlainKeys) :
    (device.ReadsBack ↔ IsWord device.driver ∧ device.props.CommaFree) ∧
      (vm.MachineReadsBack ↔
        IsWord vm.platform.machine ∧ vm.machine.properties.values.CommaFree) ∧
      (netdev.ReadsBack ↔ IsWord netdev.kind ∧ ',' ∉ netdev.id.toList) := by
  refine ⟨TomlMap.parseOption_renderedPairs_iff hdevice,
    TomlMap.parseOption_renderedPairs_iff hmachine, ?_⟩
  have hword : IsWord "id" := ⟨by decide, by decide⟩
  have hid : ∀ pair ∈ [("id", netdev.id)], IsWord pair.1 := List.forall_mem_singleton.mpr hword
  rw [Netdev.ReadsBack, Netdev.toQemuValue_eq, parseOption_iff hid, List.forall_mem_singleton]

/-- A disk whose serial number goes on after a comma. -/
def commaDisk : Device := ⟨"virtio-blk-pci", ⟨[("serial", .string "a,readonly=on")], by decide⟩⟩

theorem readsBack_iff_netAndDisk :
    (commaDisk.ReadsBack ↔ IsWord commaDisk.driver ∧ commaDisk.props.CommaFree) ∧
      (VmConfig.netAndDisk.MachineReadsBack ↔ IsWord VmConfig.netAndDisk.platform.machine ∧
        VmConfig.netAndDisk.machine.properties.values.CommaFree) ∧
      ((Netdev.mk "net0" "user").ReadsBack ↔ IsWord "user" ∧ ',' ∉ "net0".toList) := by
  have hserial : IsWord "serial" := ⟨by decide, by decide⟩
  have hhpet : IsWord "hpet" := ⟨by decide, by decide⟩
  have hsmm : IsWord "smm" := ⟨by decide, by decide⟩
  exact readsBack_iff (List.forall_mem_singleton.mpr hserial)
    (List.forall_mem_cons.mpr ⟨hhpet, List.forall_mem_singleton.mpr hsmm⟩)

/-- The comma starts another property. -/
theorem commaDisk_not_readsBack : commaDisk.props.PlainKeys ∧
    commaDisk.toQemuValue = "virtio-blk-pci,serial=a,readonly=on" ∧
    parseOption commaDisk.toQemuValue =
      [.word "virtio-blk-pci", .pair "serial" "a", .pair "readonly" "on"] ∧
    ¬ commaDisk.ReadsBack := by
  have hkey : IsWord "serial" := ⟨by decide, by decide⟩
  refine ⟨List.forall_mem_singleton.mpr hkey, by decide, by decide, ?_⟩
  unfold Device.ReadsBack
  decide

end AcpiTables.Vm
