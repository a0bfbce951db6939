import Mathlib.Data.List.Basic
import Mathlib.Data.Set.Basic
import Mathlib.Order.SuccPred.Basic

/-!
# Lists of closed ranges

A range of a linear order is the pair of its first and its last point. Two
operations on a list of ranges in order, each told by the points it covers:

* `merge` — joins neighbours. Of disjoint ranges it makes the one list with a
  gap between any two that covers the same points (`eq_of_cover_eq`).
* `gapsBelow`, `gapsWithin` — the ranges between the ranges, and between two
  bounds. What they cover is what the list leaves out.
-/

namespace AcpiTables

namespace ClosedRanges

universe u

variable {α : Type u} [LinearOrder α]

/-! ## Points -/

/-- The points of a list of ranges. -/
def cover (l : List (α × α)) : Set α := {x | ∃ r ∈ l, r.1 ≤ x ∧ x ≤ r.2}

/-- No range is empty. -/
def Proper (l : List (α × α)) : Prop := ∀ r ∈ l, r.1 ≤ r.2

/-- Each range ends before the next ones begin. -/
def InOrder (l : List (α × α)) : Prop := l.Pairwise fun r s => r.2 < s.1

variable {l l' : List (α × α)} {r s : α × α} {x lo hi : α}

/-- An element is covered when it lies between the ends of some range. -/
@[simp] theorem mem_cover : x ∈ cover l ↔ ∃ r ∈ l, r.1 ≤ x ∧ x ≤ r.2 := Iff.rfl

/-- What the first range and the others cover. -/
theorem mem_cover_cons : x ∈ cover (r :: l) ↔ r.1 ≤ x ∧ x ≤ r.2 ∨ x ∈ cover l := by simp

/-- Two lists together cover what each of them covers. -/
theorem mem_cover_append : x ∈ cover (l ++ l') ↔ x ∈ cover l ∨ x ∈ cover l' := by
  simp only [mem_cover, List.mem_append, or_and_right, exists_or]

/-- The order of the ranges does not matter. -/
theorem cover_perm (h : l.Perm l') : cover l = cover l' := by
  ext x
  simp only [mem_cover, h.mem_iff]

/-- A list is proper when its first range and the others are. -/
theorem proper_cons : Proper (r :: l) ↔ r.1 ≤ r.2 ∧ Proper l := List.forall_mem_cons

/-- Two proper lists make a proper one. -/
theorem Proper.append (h : Proper l) (h' : Proper l') : Proper (l ++ l') := by
  intro r hr
  rcases List.mem_append.mp hr with hr | hr
  · exact h r hr
  · exact h' r hr

/-- The first element of a proper range is covered. -/
theorem first_mem_cover (hl : Proper l) (hr : r ∈ l) : r.1 ∈ cover l :=
  ⟨r, hr, le_rfl, hl r hr⟩

/-- Disjoint ranges in the order of their first points are in order. -/
theorem inOrder_of_sorted (hl : Proper l) (hsorted : l.Pairwise fun r s => r.1 ≤ s.1)
    (hdisjoint : l.Pairwise fun r s => r.2 < s.1 ∨ s.2 < r.1) : InOrder l := by
  have h := hsorted.and hdisjoint
  refine h.imp_of_mem fun {r s} _ hs hrs => ?_
  obtain ⟨hle, hlt | hlt⟩ := hrs
  · exact hlt
  · exact absurd (hle.trans (hl s hs)) (not_le_of_gt hlt)

/-- The ranges behind the first are in order. -/
theorem InOrder.tail (h : InOrder (r :: l)) : InOrder l := (List.pairwise_cons.mp h).2

/-- The first range ends before each later one begins. -/
theorem InOrder.head_lt (h : InOrder (r :: l)) (hs : s ∈ l) : r.2 < s.1 :=
  (List.pairwise_cons.mp h).1 s hs

/-- What the other ranges cover is what is covered after the first one. -/
theorem mem_cover_tail (h : InOrder (r :: l)) : x ∈ cover l ↔ x ∈ cover (r :: l) ∧ r.2 < x := by
  rw [mem_cover_cons]
  constructor
  · rintro ⟨s, hs, hle, hge⟩
    exact ⟨.inr ⟨s, hs, hle, hge⟩, (h.head_lt hs).trans_le hle⟩
  · rintro ⟨⟨-, hle⟩ | hx, hlt⟩
    · exact absurd hle (not_le_of_gt hlt)
    · exact hx

/-- Nothing is covered before the first range. -/
theorem first_le_of_mem_cover (h : InOrder (r :: l)) (hl : Proper (r :: l))
    (hx : x ∈ cover (r :: l)) : r.1 ≤ x := by
  rcases mem_cover_cons.mp hx with ⟨hle, -⟩ | hx
  · exact hle
  · exact (proper_cons.mp hl).1.trans ((mem_cover_tail h).mp hx).2.le

/-! ## Ranges with gaps -/

section Apart

variable [SuccOrder α]

/-- Between any two ranges there is a point. -/
def Apart (l : List (α × α)) : Prop := l.Pairwise fun r s => Order.succ r.2 < s.1

/-- The ranges behind the first are apart. -/
theorem Apart.tail (h : Apart (r :: l)) : Apart l := (List.pairwise_cons.mp h).2

/-- There is a gap between the first range and each later one. -/
theorem Apart.head_lt (h : Apart (r :: l)) (hs : s ∈ l) : Order.succ r.2 < s.1 :=
  (List.pairwise_cons.mp h).1 s hs

/-- Ranges with gaps between them are in order. -/
theorem Apart.inOrder (h : Apart l) : InOrder l := h.imp fun hlt => (Order.le_succ _).trans_lt hlt

/-- The first range ends where the points first stop. -/
theorem last_le_of_cover_subset (h : Apart (r :: l))
    (hsub : ∀ x, s.1 ≤ x → x ≤ s.2 → x ∈ cover (r :: l)) (hfirst : s.1 ≤ r.2) : s.2 ≤ r.2 := by
  by_contra hnot
  have hlt : r.2 < s.2 := lt_of_not_ge hnot
  have hsucc : r.2 < Order.succ r.2 := Order.lt_succ_of_not_isMax (not_isMax_of_lt hlt)
  -- the point after the first range is covered by none
  rcases mem_cover_cons.mp (hsub (Order.succ r.2) (hfirst.trans hsucc.le)
    (Order.succ_le_of_lt hlt)) with ⟨-, hle⟩ | ⟨t, ht, hle, -⟩
  · exact absurd hle (not_le_of_gt hsucc)
  · exact absurd hle (not_le_of_gt (h.head_lt ht))

/-- **A list with gaps is determined by the points it covers.** -/
theorem eq_of_cover_eq (hl : Proper l) (h : Apart l) (hl' : Proper l') (h' : Apart l')
    (hcover : cover l = cover l') : l = l' := by
  induction l generalizing l' with
  | nil =>
    cases l' with
    | nil => rfl
    | cons s l' =>
      have hs : s.1 ∈ cover [] := hcover ▸ first_mem_cover hl' (List.mem_cons_self ..)
      simp at hs
  | cons r l ih =>
    cases l' with
    | nil =>
      have hr : r.1 ∈ cover [] := hcover ▸ first_mem_cover hl (List.mem_cons_self ..)
      simp at hr
    | cons s l' =>
      have hfirst : r.1 = s.1 := by
        refine le_antisymm ?_ ?_
        · refine first_le_of_mem_cover h.inOrder hl ?_
          rw [hcover]
          exact first_mem_cover hl' (List.mem_cons_self ..)
        · refine first_le_of_mem_cover h'.inOrder hl' ?_
          rw [← hcover]
          exact first_mem_cover hl (List.mem_cons_self ..)
      have hlast : r.2 = s.2 := by
        refine le_antisymm ?_ ?_
        · refine last_le_of_cover_subset h' (fun x hle hge => ?_)
            (hfirst.le.trans (proper_cons.mp hl').1)
          rw [← hcover]
          exact mem_cover_cons.mpr (.inl ⟨hle, hge⟩)
        · refine last_le_of_cover_subset h (fun x hle hge => ?_)
            (hfirst.ge.trans (proper_cons.mp hl).1)
          rw [hcover]
          exact mem_cover_cons.mpr (.inl ⟨hle, hge⟩)
      have htail : cover l = cover l' := by
        ext x
        rw [mem_cover_tail h.inOrder, mem_cover_tail h'.inOrder, hcover, hlast]
      rw [ih (proper_cons.mp hl).2 h.tail (proper_cons.mp hl').2 h'.tail htail,
        Prod.ext hfirst hlast]

/-! ## Joining neighbours -/

/-- Extend the range from `lo` to `hi` by the ranges that follow without a gap. -/
def join (lo hi : α) : List (α × α) → List (α × α)
  | [] => [(lo, hi)]
  | r :: l => if Order.succ hi = r.1 then join lo r.2 l else (lo, hi) :: join r.1 r.2 l

/-- Join neighbours. -/
def merge : List (α × α) → List (α × α)
  | [] => []
  | r :: l => join r.1 r.2 l

/-- Joining gives proper ranges. -/
theorem proper_join (hle : lo ≤ hi) (hl : Proper l) : Proper (join lo hi l) := by
  induction l generalizing lo hi with
  | nil => simpa [join, Proper] using hle
  | cons r l ih =>
    obtain ⟨hr, hl⟩ := proper_cons.mp hl
    rw [join]
    split_ifs with hnext
    · exact ih (hle.trans ((Order.le_succ hi).trans (hnext.le.trans hr))) hl
    · exact proper_cons.mpr ⟨hle, ih hr hl⟩

/-- Joining keeps what is covered. -/
theorem mem_cover_join (hle : lo ≤ hi) (hl : Proper l) :
    x ∈ cover (join lo hi l) ↔ lo ≤ x ∧ x ≤ hi ∨ x ∈ cover l := by
  induction l generalizing lo hi with
  | nil => simp [join]
  | cons r l ih =>
    obtain ⟨hr, hl⟩ := proper_cons.mp hl
    rw [join]
    split_ifs with hnext
    · have hhi : hi ≤ r.1 := (Order.le_succ hi).trans hnext.le
      rw [ih (hle.trans (hhi.trans hr)) hl, mem_cover_cons, ← or_assoc]
      refine or_congr_left ⟨?_, ?_⟩
      · rintro ⟨hlo, hx⟩
        rcases le_or_gt x hi with hxhi | hxhi
        · exact .inl ⟨hlo, hxhi⟩
        · exact .inr ⟨hnext ▸ Order.succ_le_of_lt hxhi, hx⟩
      · rintro (⟨hlo, hx⟩ | ⟨hlo, hx⟩)
        · exact ⟨hlo, hx.trans (hhi.trans hr)⟩
        · exact ⟨hle.trans (hhi.trans hlo), hx⟩
    · rw [mem_cover_cons, ih hr hl, mem_cover_cons]

/-- What is joined starts no earlier. -/
theorem le_first_of_mem_join (hle : lo ≤ hi) (hl : Proper l) (h : InOrder ((lo, hi) :: l))
    (hs : s ∈ join lo hi l) : lo ≤ s.1 := by
  have hx := first_mem_cover (proper_join hle hl) hs
  rw [mem_cover_join hle hl] at hx
  exact first_le_of_mem_cover h (proper_cons.mpr ⟨hle, hl⟩) (mem_cover_cons.mpr hx)

/-- Ranges in order are joined to ranges with gaps between them. -/
theorem apart_join (hle : lo ≤ hi) (hl : Proper l) (h : InOrder ((lo, hi) :: l)) :
    Apart (join lo hi l) := by
  induction l generalizing lo hi with
  | nil => exact List.pairwise_singleton _ _
  | cons r l ih =>
    obtain ⟨hr, hl⟩ := proper_cons.mp hl
    have hhi : hi < r.1 := h.head_lt (List.mem_cons_self ..)
    rw [join]
    split_ifs with hnext
    · refine ih (hle.trans (hhi.le.trans hr)) hl (List.pairwise_cons.mpr ⟨?_, h.tail.tail⟩)
      exact fun s hs => h.tail.head_lt hs
    · refine List.pairwise_cons.mpr ⟨fun s hs => ?_, ih hr hl h.tail⟩
      have hgap : Order.succ hi < r.1 := lt_of_le_of_ne (Order.succ_le_of_lt hhi) hnext
      exact hgap.trans_le (le_first_of_mem_join hr hl h.tail hs)

/-- Merging gives proper ranges. -/
theorem proper_merge (hl : Proper l) : Proper (merge l) := by
  cases l with
  | nil => exact hl
  | cons r l => exact proper_join (proper_cons.mp hl).1 (proper_cons.mp hl).2

/-- **Joining keeps the points.** -/
theorem cover_merge (hl : Proper l) : cover (merge l) = cover l := by
  cases l with
  | nil => rfl
  | cons r l =>
    obtain ⟨hr, hl⟩ := proper_cons.mp hl
    ext x
    rw [merge, mem_cover_join hr hl, mem_cover_cons]

/-- Merging ranges in order leaves a gap between any two. -/
theorem apart_merge (hl : Proper l) (h : InOrder l) : Apart (merge l) := by
  cases l with
  | nil => exact List.Pairwise.nil
  | cons r l => exact apart_join (proper_cons.mp hl).1 (proper_cons.mp hl).2 h

/-! ## After the ranges -/

/-- The point after the last range. -/
def afterLast : α → List (α × α) → α
  | lo, [] => lo
  | _, r :: l => afterLast (Order.succ r.2) l

/-- The last end of two lists is that of the second, from where the first one ends. -/
theorem afterLast_append (lo : α) (l l' : List (α × α)) :
    afterLast lo (l ++ l') = afterLast (afterLast lo l) l' := by
  induction l generalizing lo with
  | nil => rfl
  | cons r l ih => exact ih (Order.succ r.2)

/-- The point after the last range follows one of them, if there is one. -/
theorem afterLast_eq (lo : α) (l : List (α × α)) :
    l = [] ∧ afterLast lo l = lo ∨ ∃ r ∈ l, afterLast lo l = Order.succ r.2 := by
  induction l generalizing lo with
  | nil => exact .inl ⟨rfl, rfl⟩
  | cons r l ih =>
    refine .inr ?_
    rcases ih (Order.succ r.2) with ⟨-, h⟩ | ⟨s, hs, h⟩
    · exact ⟨r, List.mem_cons_self .., h⟩
    · exact ⟨s, List.mem_cons_of_mem _ hs, h⟩

variable [NoMaxOrder α]

/-- What comes after the last range. -/
theorem afterLast_le (h : InOrder l) (hl : Proper l) :
    afterLast lo l ≤ x ↔ (l = [] → lo ≤ x) ∧ ∀ r ∈ l, r.2 < x := by
  induction l generalizing lo with
  | nil => simp [afterLast]
  | cons r l ih =>
    obtain ⟨-, hl⟩ := proper_cons.mp hl
    rw [afterLast, ih h.tail hl, Order.succ_le_iff]
    simp only [List.forall_mem_cons, reduceCtorEq, false_implies, true_and]
    refine ⟨fun ⟨hr, hall⟩ => ⟨?_, hall⟩, fun ⟨hr, hall⟩ => ⟨fun _ => hr, hall⟩⟩
    cases l with
    | nil => exact hr rfl
    | cons s l =>
      have hs := List.mem_cons_self (a := s) (l := l)
      exact (h.head_lt hs).trans_le ((hl s hs).trans (hall s hs).le)

/-- The ranges go up to a bound when the bound follows one of them. -/
theorem afterLast_eq_iff (h : InOrder l) (hl : Proper l) (hbelow : ∀ r ∈ l, r.2 < hi) :
    afterLast lo l = hi ↔ l = [] ∧ lo = hi ∨ ∃ r ∈ l, Order.succ r.2 = hi := by
  constructor
  · rintro rfl
    rcases afterLast_eq lo l with ⟨hnil, heq⟩ | ⟨r, hr, heq⟩
    · exact .inl ⟨hnil, heq.symm⟩
    · exact .inr ⟨r, hr, heq.symm⟩
  · rintro (⟨rfl, rfl⟩ | ⟨r, hr, rfl⟩)
    · rfl
    · refine le_antisymm ?_ ?_
      · exact (afterLast_le h hl).mpr ⟨fun hnil => absurd hr (hnil ▸ List.not_mem_nil), hbelow⟩
      · have hall := ((afterLast_le h hl).mp (le_refl (afterLast lo l))).2
        exact Order.succ_le_of_lt (hall r hr)

/-- After a range that is apart from the next one there is a point left out. -/
theorem succ_last_notMem_cover (h : Apart l) (hl : Proper l) (hr : r ∈ l) :
    Order.succ r.2 ∉ cover l := by
  induction l with
  | nil => simp at hr
  | cons s l ih =>
    obtain ⟨-, hl⟩ := proper_cons.mp hl
    rw [mem_cover_cons, not_or]
    rcases List.mem_cons.mp hr with rfl | hr
    · refine ⟨fun hmem => absurd hmem.2 (not_le_of_gt (Order.lt_succ _)), ?_⟩
      rintro ⟨t, ht, hle, -⟩
      exact absurd (h.head_lt ht) (not_lt_of_ge hle)
    · refine ⟨fun hmem => ?_, ih h.tail hl hr⟩
      have hlt : s.2 < r.2 := (h.inOrder.head_lt hr).trans_le (hl r hr)
      exact absurd hmem.2 (not_le_of_gt (hlt.trans (Order.lt_succ _)))

end Apart

/-! ## The ranges in between -/

section Gaps

variable [SuccOrder α] [PredOrder α]

/-- The gaps from `lo` up to the last range. -/
def gapsBelow : α → List (α × α) → List (α × α)
  | _, [] => []
  | lo, r :: l =>
    (if lo < r.1 then [(lo, Order.pred r.1)] else []) ++ gapsBelow (Order.succ r.2) l

/-- The gaps from `lo` to `hi`. A single point at the end is no gap. -/
def gapsWithin (lo : α) (l : List (α × α)) (hi : α) : List (α × α) :=
  gapsBelow lo l ++ if afterLast lo l < hi then [(afterLast lo l, hi)] else []

/-- The gaps of two lists are those of the first, and those of the second from
where the first one ends. -/
theorem gapsBelow_append (lo : α) (l l' : List (α × α)) :
    gapsBelow lo (l ++ l') = gapsBelow lo l ++ gapsBelow (afterLast lo l) l' := by
  induction l generalizing lo with
  | nil => rfl
  | cons r l ih => rw [List.cons_append, gapsBelow, gapsBelow, afterLast, ih, List.append_assoc]

/-- A range that reaches past the end moves the end in front of it. -/
theorem gapsWithin_concat (hlast : afterLast lo l < Order.pred r.1) (hend : hi ≤ Order.succ r.2) :
    gapsWithin lo (l ++ [r]) hi = gapsWithin lo l (Order.pred r.1) := by
  have hbefore : afterLast lo l < r.1 := hlast.trans_le (Order.pred_le r.1)
  have hafter : afterLast lo (l ++ [r]) = Order.succ r.2 := afterLast_append lo l [r]
  rw [gapsWithin, gapsWithin, gapsBelow_append, hafter, if_neg (not_lt_of_ge hend),
    List.append_nil, if_pos hlast]
  simp [gapsBelow, hbefore]

/-- A gap starts at the lower bound or behind a range, and ends at the upper bound
or in front of a range. -/
theorem ends_of_mem_gapsWithin (hr : r ∈ gapsWithin lo l hi) :
    (r.1 = lo ∨ ∃ s ∈ l, r.1 = Order.succ s.2) ∧ (r.2 = hi ∨ ∃ s ∈ l, r.2 = Order.pred s.1) := by
  induction l generalizing lo with
  | nil =>
    by_cases hlt : lo < hi
    · obtain rfl : r = (lo, hi) := by simpa [gapsWithin, gapsBelow, afterLast, hlt] using hr
      exact ⟨.inl rfl, .inl rfl⟩
    · simp [gapsWithin, gapsBelow, afterLast, hlt] at hr
  | cons s l ih =>
    rw [gapsWithin, gapsBelow, List.append_assoc] at hr
    rcases List.mem_append.mp hr with hr | hr
    · by_cases hlt : lo < s.1
      · obtain rfl : r = (lo, Order.pred s.1) := by simpa [hlt] using hr
        exact ⟨.inl rfl, .inr ⟨s, List.mem_cons_self .., rfl⟩⟩
      · simp [hlt] at hr
    · obtain ⟨hfirst, hlast⟩ := ih hr
      refine ⟨.inr ?_, hlast.imp_right fun ⟨t, ht, heq⟩ => ⟨t, List.mem_cons_of_mem _ ht, heq⟩⟩
      rcases hfirst with heq | ⟨t, ht, heq⟩
      · exact ⟨s, List.mem_cons_self .., heq⟩
      · exact ⟨t, List.mem_cons_of_mem _ ht, heq⟩

/-- Gaps are proper ranges. -/
theorem proper_gapsBelow : Proper (gapsBelow lo l) := by
  induction l generalizing lo with
  | nil => simp [gapsBelow, Proper]
  | cons r l ih =>
    refine Proper.append ?_ ih
    split_ifs with hlt
    · simpa [Proper] using Order.le_pred_of_lt hlt
    · simp [Proper]

/-- Gaps within bounds are proper ranges. -/
theorem proper_gapsWithin : Proper (gapsWithin lo l hi) := by
  refine proper_gapsBelow.append ?_
  split_ifs with hlt
  · simpa [Proper] using hlt.le
  · simp [Proper]

/-- How often a range is listed makes no difference, when the ranges are sorted. -/
theorem gapsBelow_congr (lo : α) (hsorted : l.Pairwise fun r s => r.1 ≤ s.1) (hl' : Proper l')
    (h' : InOrder l') (hmem : ∀ r, r ∈ l ↔ r ∈ l') :
    gapsBelow lo l = gapsBelow lo l' ∧ afterLast lo l = afterLast lo l' := by
  induction l generalizing lo l' with
  | nil =>
    obtain rfl : l' = [] := List.eq_nil_iff_forall_not_mem.mpr fun r hr => by
      simpa using (hmem r).mpr hr
    exact ⟨rfl, rfl⟩
  | cons r l ih =>
    obtain ⟨hr, hsorted⟩ := List.pairwise_cons.mp hsorted
    cases l' with
    | nil => simpa using (hmem r).mp (List.mem_cons_self ..)
    | cons s l' =>
      obtain ⟨hs, hproper⟩ := proper_cons.mp hl'
      have hfirst : ∀ t ∈ r :: l, r.1 ≤ t.1 := List.forall_mem_cons.mpr ⟨le_rfl, hr⟩
      have hle : r.1 ≤ s.1 := hfirst s ((hmem s).mpr (List.mem_cons_self ..))
      -- the two lists start with the same range
      have hnot : ∀ t ∈ l', r.1 < t.1 :=
        fun t ht => hle.trans_lt (hs.trans_lt (h'.head_lt ht))
      obtain rfl : r = s := by
        rcases List.mem_cons.mp ((hmem r).mp (List.mem_cons_self ..)) with heq | hr'
        · exact heq
        · exact absurd (hnot r hr') (lt_irrefl _)
      have hnotMem : r ∉ l' := fun hr' => lt_irrefl _ (hnot r hr')
      rw [gapsBelow, gapsBelow, afterLast, afterLast]
      by_cases hagain : r ∈ l
      · -- listed once more: no gap behind it
        have hsame : ∀ t, t ∈ l ↔ t ∈ r :: l' := fun t => by
          rw [← hmem t, List.mem_cons]
          exact ⟨.inr, fun h => h.elim (fun heq => heq ▸ hagain) id⟩
        obtain ⟨hgaps, hafter⟩ := @ih (r :: l') (Order.succ r.2) hsorted hl' h' hsame
        have hnone : ¬ Order.succ r.2 < r.1 := not_lt_of_ge (hs.trans (Order.le_succ _))
        rw [hgaps, hafter, gapsBelow, afterLast, if_neg hnone]
        exact ⟨rfl, rfl⟩
      · have hsame : ∀ t, t ∈ l ↔ t ∈ l' := fun t => by
          have ht := hmem t
          rw [List.mem_cons, List.mem_cons] at ht
          constructor
          · intro h
            exact (ht.mp (.inr h)).resolve_left fun heq => hagain (heq ▸ h)
          · intro h
            exact (ht.mpr (.inr h)).resolve_left fun heq => hnotMem (heq ▸ h)
        obtain ⟨hgaps, hafter⟩ := @ih l' (Order.succ r.2) hsorted hproper h'.tail hsame
        rw [hgaps, hafter]
        exact ⟨rfl, rfl⟩

/-- The gaps between two bounds depend on which ranges there are, and on nothing
else of the list. -/
theorem gapsWithin_congr (hsorted : l.Pairwise fun r s => r.1 ≤ s.1) (hl' : Proper l')
    (h' : InOrder l') (hmem : ∀ r, r ∈ l ↔ r ∈ l') : gapsWithin lo l hi = gapsWithin lo l' hi := by
  obtain ⟨hgaps, hafter⟩ := gapsBelow_congr lo hsorted hl' h' hmem
  rw [gapsWithin, gapsWithin, hgaps, hafter]

variable [NoMaxOrder α]

/-- **The gaps cover what the ranges leave out** below the last of them. -/
theorem mem_cover_gapsBelow (hl : Proper l) (h : InOrder l) :
    x ∈ cover (gapsBelow lo l) ↔
      x ∉ cover l ∧ (∃ r ∈ l, x < r.1) ∧ (lo ≤ x ∨ ∃ r ∈ l, r.2 < x) := by
  induction l generalizing lo with
  | nil => simp [gapsBelow]
  | cons r l ih =>
    obtain ⟨hr, hl⟩ := proper_cons.mp hl
    have hafter : ∀ s ∈ l, r.2 < s.1 ∧ s.1 ≤ s.2 := fun s hs => ⟨h.head_lt hs, hl s hs⟩
    have hgap : x ∈ cover (if lo < r.1 then [(lo, Order.pred r.1)] else []) ↔
        lo ≤ x ∧ x < r.1 := by
      split_ifs with hlt
      · rw [← Order.le_pred_iff_of_not_isMin (not_isMin_of_lt hlt)]
        simp
      · simp only [mem_cover, List.not_mem_nil, false_and, exists_false, false_iff, not_and, not_lt]
        exact (le_of_not_gt hlt).trans
    rw [gapsBelow, mem_cover_append, hgap, ih hl h.tail, mem_cover_cons, Order.succ_le_iff]
    simp only [List.exists_mem_cons_iff]
    rcases lt_or_ge x r.1 with hx | hx
    -- before the first range
    · have hnot : ¬ r.2 < x := not_lt_of_ge (hx.le.trans hr)
      have hcover : x ∉ cover l := fun hmem => hnot ((mem_cover_tail h).mp hmem).2
      have hlast : ¬ ∃ s ∈ l, s.2 < x := by
        rintro ⟨s, hs, hlt⟩
        exact hnot ((hafter s hs).1.trans_le ((hafter s hs).2.trans hlt.le))
      simp [hx, hnot, hcover, hlast, not_le_of_gt hx]
    -- in it or after it
    · rcases le_or_gt x r.2 with hx₂ | hx₂
      · have hlast : ¬ ∃ s ∈ l, s.2 < x := by
          rintro ⟨s, hs, hlt⟩
          exact absurd hx₂ (not_le_of_gt ((hafter s hs).1.trans_le ((hafter s hs).2.trans hlt.le)))
        simp [hx, hx₂, not_lt_of_ge hx₂, not_lt_of_ge hx, hlast]
      · simp [hx₂, not_lt_of_ge hx, not_le_of_gt hx₂]

/-- **The gaps between two bounds**: they avoid the ranges, and they miss
nothing but a single point at the end. -/
theorem mem_cover_gapsWithin (hl : Proper l) (h : InOrder l) :
    x ∈ cover (gapsWithin lo l hi) ↔
      x ∉ cover l ∧ (lo ≤ x ∨ ∃ r ∈ l, r.2 < x) ∧
        ((∃ r ∈ l, x < r.1) ∨ x ≤ hi ∧ afterLast lo l < hi) := by
  have hlast : x ∈ cover (if afterLast lo l < hi then [(afterLast lo l, hi)] else []) ↔
      afterLast lo l < hi ∧ afterLast lo l ≤ x ∧ x ≤ hi := by
    split_ifs with hlt <;> simp [hlt]
  have hafter : (¬ ∃ r ∈ l, x < r.1) → (afterLast lo l ≤ x ↔
      x ∉ cover l ∧ (lo ≤ x ∨ ∃ r ∈ l, r.2 < x)) := by
    intro hnone
    have hle : ∀ r ∈ l, r.1 ≤ x := fun r hr => le_of_not_gt fun hlt => hnone ⟨r, hr, hlt⟩
    rw [afterLast_le h hl]
    constructor
    · rintro ⟨hnil, hall⟩
      refine ⟨fun ⟨r, hr, _, hx⟩ => absurd hx (not_le_of_gt (hall r hr)), ?_⟩
      cases l with
      | nil => exact .inl (hnil rfl)
      | cons r l => exact .inr ⟨r, List.mem_cons_self .., hall r (List.mem_cons_self ..)⟩
    · rintro ⟨hx, hlo⟩
      have hall : ∀ r ∈ l, r.2 < x :=
        fun r hr => lt_of_not_ge fun hle' => hx ⟨r, hr, hle r hr, hle'⟩
      refine ⟨?_, hall⟩
      rintro rfl
      simpa using hlo
  rw [gapsWithin, mem_cover_append, mem_cover_gapsBelow hl h, hlast]
  by_cases hsome : ∃ r ∈ l, x < r.1
  · have hnot : ¬ afterLast lo l ≤ x := by
      rw [afterLast_le h hl]
      rintro ⟨-, hall⟩
      obtain ⟨r, hr, hlt⟩ := hsome
      exact absurd (hall r hr) (not_lt_of_ge (hlt.le.trans (hl r hr)))
    simp [hsome, hnot]
  · rw [hafter hsome]
    simp only [hsome, false_and, and_false, false_or]
    tauto

/-- **Between two gaps there is a range.** -/
theorem apart_gapsWithin (hl : Proper l) (h : InOrder l) : Apart (gapsWithin lo l hi) := by
  induction l generalizing lo with
  | nil =>
    rw [gapsWithin, gapsBelow, List.nil_append]
    split_ifs
    · exact List.pairwise_singleton _ _
    · exact List.Pairwise.nil
  | cons r l ih =>
    have hcons : gapsWithin lo (r :: l) hi =
        (if lo < r.1 then [(lo, Order.pred r.1)] else []) ++ gapsWithin (Order.succ r.2) l hi :=
      List.append_assoc ..
    obtain ⟨hr, hl⟩ := proper_cons.mp hl
    rw [hcons]
    split_ifs with hlt
    · refine List.pairwise_cons.mpr ⟨fun s hs => ?_, ih hl h.tail⟩
      rw [Order.succ_pred_of_not_isMin (not_isMin_of_lt hlt)]
      obtain ⟨-, hafter, -⟩ := (mem_cover_gapsWithin hl h.tail).mp
        (first_mem_cover proper_gapsWithin hs)
      refine hr.trans_lt ?_
      rcases hafter with hafter | ⟨t, ht, hafter⟩
      · exact (Order.lt_succ _).trans_le hafter
      · exact (h.head_lt ht).trans ((hl t ht).trans_lt hafter)
    · exact ih hl h.tail

/-- The gaps stay between the bounds when the ranges do. -/
theorem within_of_mem_gapsWithin (hl : Proper l) (h : InOrder l)
    (hwithin : ∀ r ∈ l, lo ≤ r.1 ∧ r.2 ≤ hi) (hx : x ∈ cover (gapsWithin lo l hi)) :
    lo ≤ x ∧ x ≤ hi := by
  obtain ⟨-, hlo, hhi⟩ := (mem_cover_gapsWithin hl h).mp hx
  constructor
  · rcases hlo with hlo | ⟨r, hr, hlt⟩
    · exact hlo
    · exact (hwithin r hr).1.trans ((hl r hr).trans hlt.le)
  · rcases hhi with ⟨r, hr, hlt⟩ | ⟨hle, -⟩
    · exact hlt.le.trans ((hl r hr).trans (hwithin r hr).2)
    · exact hle

/-- The complement between two bounds, when the end is not lost. -/
theorem mem_cover_complement (hl : Proper l) (h : InOrder l)
    (hwithin : ∀ r ∈ l, lo ≤ r.1 ∧ r.2 ≤ hi) (hend : afterLast lo l ≠ hi) :
    x ∈ cover (gapsWithin lo l hi) ↔ lo ≤ x ∧ x ≤ hi ∧ x ∉ cover l := by
  constructor
  · intro hx
    obtain ⟨hlo, hhi⟩ := within_of_mem_gapsWithin hl h hwithin hx
    exact ⟨hlo, hhi, ((mem_cover_gapsWithin hl h).mp hx).1⟩
  · rintro ⟨hlo, hhi, hx⟩
    refine (mem_cover_gapsWithin hl h).mpr ⟨hx, .inl hlo, ?_⟩
    by_cases hsome : ∃ r ∈ l, x < r.1
    · exact .inl hsome
    · refine .inr ⟨hhi, lt_of_le_of_ne ?_ hend⟩
      refine le_trans ((afterLast_le h hl).mpr ⟨fun _ => hlo, fun r hr => ?_⟩) hhi
      exact lt_of_not_ge fun hle => hx ⟨r, hr, le_of_not_gt fun hlt => hsome ⟨r, hr, hlt⟩, hle⟩

/-- **The complement of the complement** is the list with its neighbours joined. -/
theorem gapsWithin_gapsWithin (hl : Proper l) (h : InOrder l) (hlohi : lo < hi)
    (hwithin : ∀ r ∈ l, lo ≤ r.1 ∧ r.2 ≤ hi) (hend : ∀ r ∈ l, Order.succ r.2 ≠ hi ∧ r.1 ≠ hi) :
    gapsWithin lo (gapsWithin lo l hi) hi = merge l := by
  have hafter : afterLast lo l ≠ hi := by
    rcases afterLast_eq lo l with ⟨-, heq⟩ | ⟨r, hr, heq⟩ <;> rw [heq]
    · exact hlohi.ne
    · exact (hend r hr).1
  have hgap : ∀ x, x ∈ cover (gapsWithin lo l hi) ↔ lo ≤ x ∧ x ≤ hi ∧ x ∉ cover l :=
    fun x => mem_cover_complement hl h hwithin hafter
  have hproper : Proper (gapsWithin lo l hi) := proper_gapsWithin
  have hapart : Apart (gapsWithin lo l hi) := apart_gapsWithin hl h
  have hwithin' : ∀ s ∈ gapsWithin lo l hi, lo ≤ s.1 ∧ s.2 ≤ hi := by
    intro s hs
    exact ⟨((hgap _).mp (first_mem_cover hproper hs)).1,
      ((hgap s.2).mp ⟨s, hs, hproper s hs, le_rfl⟩).2.1⟩
  -- no gap ends right before the end: the end would be a range of its own
  have hafter' : afterLast lo (gapsWithin lo l hi) ≠ hi := by
    rcases afterLast_eq lo (gapsWithin lo l hi) with ⟨-, heq⟩ | ⟨s, hs, heq⟩ <;> rw [heq]
    · exact hlohi.ne
    · intro hsucc
      have hlast : s.2 < hi := hsucc ▸ Order.lt_succ _
      have hout := succ_last_notMem_cover hapart hproper hs
      rw [hsucc] at hout
      have hin : hi ∈ cover l := by
        by_contra hnot
        exact hout ((hgap hi).mpr ⟨hlohi.le, le_rfl, hnot⟩)
      obtain ⟨r, hr, hle, hge⟩ := hin
      have hfirst : r.1 ≤ s.2 := by
        rw [← Order.lt_succ_iff, hsucc]
        exact lt_of_le_of_ne hle (hend r hr).2
      exact ((hgap s.2).mp ⟨s, hs, hproper s hs, le_rfl⟩).2.2 ⟨r, hr, hfirst, hlast.le.trans hge⟩
  refine eq_of_cover_eq proper_gapsWithin (apart_gapsWithin hproper hapart.inOrder)
    (proper_merge hl) (apart_merge hl h) ?_
  ext x
  rw [mem_cover_complement hproper hapart.inOrder hwithin' hafter', hgap, cover_merge hl]
  constructor
  · rintro ⟨hlo, hhi, hx⟩
    by_contra hnot
    exact hx ⟨hlo, hhi, hnot⟩
  · intro hx
    obtain ⟨r, hr, hle, hge⟩ := hx
    exact ⟨(hwithin r hr).1.trans hle, hge.trans (hwithin r hr).2,
      fun hnot => hnot.2.2 ⟨r, hr, hle, hge⟩⟩

end Gaps

end ClosedRanges

end AcpiTables
