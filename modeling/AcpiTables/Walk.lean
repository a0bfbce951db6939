import AcpiTables.ByteSeq

/-!
# Walking records

Records lie one after the other; how long the first one is can be read from its
own bytes. `walk` cuts a sequence into its records, with as many steps as it is
given, and `walk_flatten` is its meaning on a sequence that was made of records.

The length is a parameter: it may be a byte of the record, or follow from its
first byte. `IsRecord` asks for no more than that it is read from the record
itself, whatever stands behind it.
-/

namespace AcpiTables

universe u

variable {α : Type u}

/-- Cut off the first record, then the others. A record without bytes, or one
that goes past the end, is no record. -/
def walk (size : List α → Option ℕ) : ℕ → List α → Option (List (List α))
  | _, [] => some []
  | 0, _ :: _ => none
  | fuel + 1, a :: as =>
    match size (a :: as) with
    | none => none
    | some n =>
      if n = 0 ∨ (a :: as).length < n then none
      else (((a :: as).take n) :: ·) <$> walk size fuel ((a :: as).drop n)

/-- The length of a record is read from it, whatever follows. -/
structure IsRecord (size : List α → Option ℕ) (r : List α) : Prop where
  ne_nil : r ≠ []
  size_eq : ∀ rest, size (r ++ rest) = some r.length

variable {size : List α → Option ℕ}

theorem walk_cons {r : List α} (h : IsRecord size r) (rest : List α) (fuel : ℕ) :
    walk size (fuel + 1) (r ++ rest) = (r :: ·) <$> walk size fuel rest := by
  obtain ⟨a, as, rfl⟩ := List.exists_cons_of_ne_nil h.ne_nil
  have hsize := h.size_eq rest
  rw [List.cons_append] at hsize ⊢
  have hfits : ¬((a :: as).length = 0 ∨ (a :: (as ++ rest)).length < (a :: as).length) := by
    simp
  rw [walk, hsize]
  dsimp only
  rw [if_neg hfits, ← List.cons_append, List.take_left, List.drop_left]

/-- **Walking finds the records.** -/
theorem walk_flatten {rs : List (List α)} (h : ∀ r ∈ rs, IsRecord size r) {fuel : ℕ}
    (hfuel : rs.length ≤ fuel) : walk size fuel rs.flatten = some rs := by
  induction rs generalizing fuel with
  | nil =>
    cases fuel <;> rfl
  | cons r rs ih =>
    obtain ⟨hr, hrs⟩ := List.forall_mem_cons.mp h
    cases fuel with
    | zero => exact absurd hfuel (Nat.not_succ_le_zero _)
    | succ fuel =>
      rw [List.flatten_cons, walk_cons hr, ih hrs (Nat.le_of_succ_le_succ hfuel)]
      rfl

/-- Every record that was cut off has the length that was read from it. -/
theorem size_of_mem_walk {fuel : ℕ} {as : List α} {rs : List (List α)}
    (h : walk size fuel as = some rs) : ∀ r ∈ rs, ∃ rest, size (r ++ rest) = some r.length := by
  induction fuel generalizing as rs with
  | zero =>
    cases as with
    | nil =>
      obtain rfl := Option.some.inj h
      simp
    | cons a as => cases h
  | succ fuel ih =>
    cases as with
    | nil =>
      obtain rfl := Option.some.inj h
      simp
    | cons a as =>
      rw [walk] at h
      split at h
      · cases h
      next n hn =>
      split at h
      · cases h
      next hfits =>
      obtain ⟨rs, hrs, rfl⟩ := Option.map_eq_some_iff.mp h
      refine List.forall_mem_cons.mpr ⟨⟨(a :: as).drop n, ?_⟩, ih hrs⟩
      rw [List.take_append_drop, hn, List.length_take_of_le (by omega)]

/-- There are no more records than elements. -/
theorem length_le_length_flatten {rs : List (List α)} (h : ∀ r ∈ rs, IsRecord size r) :
    rs.length ≤ rs.flatten.length := by
  induction rs with
  | nil => exact Nat.le_refl 0
  | cons r rs ih =>
    obtain ⟨hr, hrs⟩ := List.forall_mem_cons.mp h
    have hpos := List.length_pos_of_ne_nil hr.ne_nil
    have := ih hrs
    rw [List.flatten_cons, List.length_append, List.length_cons]
    omega

end AcpiTables
