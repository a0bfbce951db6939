import Mathlib.Algebra.GroupWithZero.Nat
import Mathlib.Data.List.Basic
import Mathlib.Algebra.BigOperators.Group.List.Lemmas

/-!
# Separated fields

A text of fields between separators, in which two separators in a row stand for
one inside a field. Every text is the joined form of its own fields, with the
separators in the fields doubled (`joined_splitFields`). So fields that are joined
without doubling are read back only if they hold no separator
(`splitFields_intercalate_iff`).

The symbols are of any type. `splitFields` goes through the text once, and its
lemmas say what one more symbol in front does to the fields. That a separator is
lost shows in the length alone: doubling makes a text longer by the separators that
it holds (`length_doubled`).
-/

namespace AcpiTables

section Fields

variable {α : Type} {sep : α}

/-! ## Texts between separators -/

/-- What is put before the first field is put before the text. -/
theorem intercalate_modifyHead (front : List α) {texts : List (List α)} (h : texts ≠ []) :
    [sep].intercalate (texts.modifyHead (front ++ ·)) = front ++ [sep].intercalate texts := by
  cases texts with
  | nil => exact absurd rfl h
  | cons text texts =>
    rw [List.modifyHead_cons]
    cases texts with
    | nil => rw [List.intercalate_singleton, List.intercalate_singleton]
    | cons text' texts =>
      rw [List.intercalate_cons_cons, List.intercalate_cons_cons]
      simp only [List.append_assoc]

/-- The length of texts with separators between them. -/
theorem length_intercalate (texts : List (List α)) :
    ([sep].intercalate texts).length = (texts.map List.length).sum + (texts.length - 1) := by
  induction texts with
  | nil => rfl
  | cons text texts ih =>
    cases texts with
    | nil => simp
    | cons text' texts =>
      rw [List.intercalate_cons_cons, List.length_append, List.length_append, ih]
      simp only [List.map_cons, List.sum_cons, List.length_cons, List.length_nil]
      omega

/-! ## Fields -/

variable [DecidableEq α] (sep)

/-- The fields of a text. -/
def splitFields : List α → List (List α)
  | [] => [[]]
  | [c] => if c = sep then [[], []] else [[c]]
  | c :: c' :: cs =>
    if c = sep then
      if c' = sep then (splitFields cs).modifyHead (sep :: ·) else [] :: splitFields (c' :: cs)
    else (splitFields (c' :: cs)).modifyHead (c :: ·)

/-- A field with its separators doubled. -/
def doubled (field : List α) : List α :=
  field.flatMap fun c => if c = sep then [sep, sep] else [c]

variable {sep}

/-! ## Reading -/

/-- A text has at least one field. -/
theorem splitFields_ne_nil (text : List α) : splitFields sep text ≠ [] := by
  induction text using splitFields.induct sep with
  | case1 => exact List.cons_ne_nil _ _
  | case2 => simp [splitFields]
  | case3 c hc => simp [splitFields, hc]
  | case4 cs ih => simpa [splitFields] using ih
  | case5 c cs hc ih => simp [splitFields, hc]
  | case6 c c' cs hc ih => simpa [splitFields, hc] using ih

/-- A symbol that is no separator belongs to the first field. -/
theorem splitFields_cons {c : α} (h : c ≠ sep) (text : List α) :
    splitFields sep (c :: text) = (splitFields sep text).modifyHead (c :: ·) := by
  cases text with
  | nil => exact if_neg h
  | cons c' cs => rw [splitFields, if_neg h]

/-- A single separator ends a field. -/
theorem splitFields_separator {c : α} (h : c ≠ sep) (text : List α) :
    splitFields sep (sep :: c :: text) = [] :: splitFields sep (c :: text) := by
  rw [splitFields, if_pos rfl, if_neg h]

/-- What stands before the first separator opens the first field. -/
theorem splitFields_append {front : List α} (h : sep ∉ front) (text : List α) :
    splitFields sep (front ++ text) = (splitFields sep text).modifyHead (front ++ ·) := by
  induction front with
  | nil => exact (congrFun List.modifyHead_id _).symm
  | cons c cs ih =>
    obtain ⟨hc, hcs⟩ := not_or.mp (mt List.mem_cons.mpr h)
    rw [List.cons_append, splitFields_cons (Ne.symm hc), ih hcs, List.modifyHead_modifyHead]
    rfl

/-! ## Joining -/

/-- Doubling goes symbol by symbol. -/
theorem doubled_cons (c : α) (field : List α) :
    doubled sep (c :: field) = (if c = sep then [sep, sep] else [c]) ++ doubled sep field :=
  List.flatMap_cons

/-- Each separator of a field is one symbol more. -/
theorem length_doubled (field : List α) :
    (doubled sep field).length = field.length + field.count sep := by
  induction field with
  | nil => rfl
  | cons c cs ih =>
    rw [doubled_cons, List.length_append, ih, List.length_cons, List.count_cons]
    by_cases hc : c = sep
    · simp only [hc, if_pos, beq_self_eq_true, List.length_cons, List.length_nil]
      omega
    · simp only [hc, if_neg, beq_iff_eq, not_false_eq_true, List.length_cons, List.length_nil]
      omega

/-- A character before a text is doubled in its first field. -/
theorem joined_modifyHead (c : α) {texts : List (List α)} (h : texts ≠ []) :
    [sep].intercalate ((texts.modifyHead (c :: ·)).map (doubled sep)) =
      (if c = sep then [sep, sep] else [c]) ++ [sep].intercalate (texts.map (doubled sep)) := by
  rw [← intercalate_modifyHead _ (mt List.map_eq_nil_iff.mp h)]
  cases texts with
  | nil => exact absurd rfl h
  | cons text texts =>
    rw [List.modifyHead_cons, List.map_cons, List.map_cons, List.modifyHead_cons, doubled_cons]

/-- **A text is made of its fields**, with the separators in them doubled. -/
theorem joined_splitFields (text : List α) :
    [sep].intercalate ((splitFields sep text).map (doubled sep)) = text := by
  induction text using splitFields.induct sep with
  | case1 => rfl
  | case2 =>
    rw [splitFields, if_pos rfl]
    rfl
  | case3 c hc =>
    rw [splitFields, if_neg hc, List.map_singleton, List.intercalate_singleton, doubled_cons,
      if_neg hc]
    rfl
  | case4 cs ih =>
    rw [splitFields, if_pos rfl, if_pos rfl, joined_modifyHead _ (splitFields_ne_nil cs), ih,
      if_pos rfl]
    rfl
  | case5 c cs hc ih =>
    rw [splitFields_separator hc, List.map_cons, List.intercalate_cons_of_ne_nil
      (mt List.map_eq_nil_iff.mp (splitFields_ne_nil _)), ih]
    rfl
  | case6 c c' cs hc ih =>
    rw [splitFields_cons hc, joined_modifyHead _ (splitFields_ne_nil _), ih, if_neg hc]
    rfl

/-- Doubling shows in the length, unless there is nothing to double. -/
theorem separator_notMem_of_joined {texts : List (List α)}
    (h : [sep].intercalate (texts.map (doubled sep)) = [sep].intercalate texts) :
    ∀ text ∈ texts, sep ∉ text := by
  -- the separators between the texts are the same on both sides
  have hlengths : (texts.map List.length).sum + (texts.map (List.count sep)).sum =
      (texts.map List.length).sum := by
    have hlength := congrArg List.length h
    rw [length_intercalate, length_intercalate, List.length_map, List.map_map] at hlength
    rw [← List.sum_map_add]
    simp only [Function.comp_def, length_doubled] at hlength
    omega
  have hcounts : (texts.map (List.count sep)).sum = 0 := by omega
  intro text htext
  exact List.count_eq_zero.mp
    (List.sum_eq_zero_iff_forall_eq_nat.mp hcounts _ (List.mem_map_of_mem htext))

/-- Fields without separators are read back, if none but the first is empty. -/
theorem splitFields_intercalate {text : List α} {texts : List (List α)}
    (hempty : ∀ text ∈ texts, text ≠ []) (h : ∀ text' ∈ text :: texts, sep ∉ text') :
    splitFields sep ([sep].intercalate (text :: texts)) = text :: texts := by
  induction texts generalizing text with
  | nil =>
    have hfront := splitFields_append (h text (List.mem_cons_self ..)) []
    rw [List.append_nil] at hfront
    rw [List.intercalate_singleton, hfront, splitFields, List.modifyHead_cons, List.append_nil]
  | cons text' texts ih =>
    obtain ⟨hnonempty, hempty⟩ := List.forall_mem_cons.mp hempty
    obtain ⟨htext, h⟩ := List.forall_mem_cons.mp h
    have hrest := ih hempty h
    obtain ⟨c, cs, rfl⟩ := List.exists_cons_of_ne_nil hnonempty
    have hc : c ≠ sep := fun hc => h _ (List.mem_cons_self ..) (hc ▸ List.mem_cons_self ..)
    -- the separator is not doubled, as the text behind it starts with a character
    have hopen : [sep].intercalate ((c :: cs) :: texts) =
        c :: [sep].intercalate (cs :: texts) := by
      cases texts <;> rfl
    rw [hopen] at hrest
    rw [List.intercalate_cons_cons, hopen, List.append_assoc, splitFields_append htext,
      List.singleton_append, splitFields_separator hc, hrest, List.modifyHead_cons, List.append_nil]

/-- **Fields are read back from between the separators** exactly when none of
them holds a separator. -/
theorem splitFields_intercalate_iff {text : List α} {texts : List (List α)}
    (hempty : ∀ text ∈ texts, text ≠ []) :
    splitFields sep ([sep].intercalate (text :: texts)) = text :: texts ↔
      ∀ text' ∈ text :: texts, sep ∉ text' := by
  constructor
  · intro hfields
    apply separator_notMem_of_joined
    rw [← joined_splitFields ([sep].intercalate (text :: texts)), hfields]
  · exact splitFields_intercalate hempty

end Fields

end AcpiTables
