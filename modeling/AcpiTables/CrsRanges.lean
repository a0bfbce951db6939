import AcpiTables.ClosedRanges
import Mathlib.Data.List.Sort
import Mathlib.Data.Nat.SuccPred
import Mathlib.Data.Nat.Notation
import Mathlib.Order.CompletePartialOrder

/-!
# The address ranges of the reference

`aml-build.c` collects the ranges that the devices of a bus decode, joins
neighbours and computes what they leave free. Ranges are pairs of 64-bit
numbers, both ends included, and the arithmetic on them wraps around.

Up to the wrap, the functions are those of `ClosedRanges` on the sorted pairs
(`crsRangeMerge_pairs`, `crsReplaceWithFreeRanges_pairs`), so what they do is
told by the addresses covered.
-/

namespace AcpiTables.AmlBuild

universe u

/-! ## The functions -/

/-- `CrsRangeEntry`: both ends belong to the range. -/
structure CrsRangeEntry where
  base : UInt64
  limit : UInt64
  deriving DecidableEq

/-- A range is added at the end of the array. -/
def crsRangeInsert (ranges : List CrsRangeEntry) (base limit : UInt64) : List CrsRangeEntry :=
  ranges ++ [⟨base, limit⟩]

/-- Ranges are compared by their bases alone. -/
def crsRangeCompare (a b : CrsRangeEntry) : ℤ :=
  if a.base < b.base then -1 else if a.base > b.base then 1 else 0

/-- `g_ptr_array_sort`, which is stable. -/
def gPtrArraySort {α : Type u} (array : List α) (compare : α → α → ℤ) : List α :=
  array.insertionSort fun a b => compare a b ≤ 0

/-- One turn of the loop over the used ranges: the free ranges so far and the
first address that may be free. -/
def freeRangeStep (state : List CrsRangeEntry × UInt64) (used : CrsRangeEntry) :
    List CrsRangeEntry × UInt64 :=
  let (freeRanges, freeBase) := state
  (if freeBase < used.base then crsRangeInsert freeRanges freeBase (used.base - 1) else freeRanges,
    used.limit + 1)

/-- The free ranges between the used ones and up to the end of the interval. The
step over a used range wraps at the last address. -/
def crsReplaceWithFreeRanges (ranges : List CrsRangeEntry) (start end_ : UInt64) :
    List CrsRangeEntry :=
  let ranges := gPtrArraySort ranges crsRangeCompare
  let (freeRanges, freeBase) := ranges.foldl freeRangeStep ([], start)
  if freeBase < end_ then crsRangeInsert freeRanges freeBase end_ else freeRanges

/-- One turn of the loop that joins neighbours: the finished ranges and the one
that may still grow. -/
def mergeStep (state : List CrsRangeEntry × UInt64 × UInt64) (entry : CrsRangeEntry) :
    List CrsRangeEntry × UInt64 × UInt64 :=
  let (tmp, rangeBase, rangeLimit) := state
  if entry.base - 1 = rangeLimit then (tmp, rangeBase, entry.limit)
  else (crsRangeInsert tmp rangeBase rangeLimit, entry.base, entry.limit)

/-- What the loop was at when it ended is a range too. -/
def mergeEnd (state : List CrsRangeEntry × UInt64 × UInt64) : List CrsRangeEntry :=
  let (tmp, rangeBase, rangeLimit) := state
  crsRangeInsert tmp rangeBase rangeLimit

/-- Neighbours are joined: sorted by base, a range that starts right behind the one
before it becomes part of it. The test wraps at base zero. -/
def crsRangeMerge (range : List CrsRangeEntry) : List CrsRangeEntry :=
  match gPtrArraySort range crsRangeCompare with
  | [] => range
  | entry :: rest =>
    mergeEnd (rest.foldl mergeStep ([], entry.base, entry.limit))

/-! ## What is covered -/

namespace CrsRangeEntry

/-- The ends, as numbers. -/
def pair (e : CrsRangeEntry) : ℕ × ℕ := (e.base.toNat, e.limit.toNat)

/-- A range that is collected: its base is not zero and not past its limit. -/
def IsRegion (e : CrsRangeEntry) : Prop := 0 < e.base ∧ e.base ≤ e.limit

/-- No address in common. -/
def Apart (e e' : CrsRangeEntry) : Prop := e.limit < e'.base ∨ e'.limit < e.base

instance (e : CrsRangeEntry) : Decidable e.IsRegion := inferInstanceAs (Decidable (_ ∧ _))

instance (e e' : CrsRangeEntry) : Decidable (e.Apart e') := inferInstanceAs (Decidable (_ ∨ _))

/-- A range is determined by its ends as numbers. -/
theorem pair_injective : Function.Injective pair := by
  rintro ⟨b, l⟩ ⟨b', l'⟩ h
  obtain ⟨hb, hl⟩ := Prod.mk.inj h
  obtain rfl : b = b' := UInt64.toNat_inj.mp hb
  obtain rfl : l = l' := UInt64.toNat_inj.mp hl
  rfl

end CrsRangeEntry

open CrsRangeEntry ClosedRanges

/-- The addresses of some ranges. -/
def addresses (ranges : List CrsRangeEntry) : Set ℕ := cover (ranges.map pair)

variable {ranges : List CrsRangeEntry} {start end_ : UInt64} {x : ℕ}

/-- An address lies in some ranges when it lies between the ends of one of them. -/
theorem mem_addresses :
    x ∈ addresses ranges ↔ ∃ e ∈ ranges, e.base.toNat ≤ x ∧ x ≤ e.limit.toNat := by
  simp [addresses, pair]

/-! ## The sort -/

/-- The comparison puts a range first exactly when its base is not past the
other's. -/
theorem crsRangeCompare_le (a b : CrsRangeEntry) : crsRangeCompare a b ≤ 0 ↔ a.base ≤ b.base := by
  unfold crsRangeCompare
  split_ifs with hlt hgt
  · simpa using UInt64.le_of_lt hlt
  · simpa using hgt
  · simpa using hgt

/-- The sorted pairs. -/
def sortedPairs (ranges : List CrsRangeEntry) : List (ℕ × ℕ) :=
  (gPtrArraySort ranges crsRangeCompare).map pair

/-- Sorting keeps the ranges. -/
theorem perm_sort (ranges : List CrsRangeEntry) :
    (gPtrArraySort ranges crsRangeCompare).Perm ranges :=
  List.perm_insertionSort _ _

/-- Sorting keeps the addresses. -/
theorem cover_sortedPairs (ranges : List CrsRangeEntry) :
    cover (sortedPairs ranges) = addresses ranges :=
  cover_perm ((perm_sort ranges).map pair)

/-- The sorted pairs are the pairs of the ranges. -/
theorem mem_sortedPairs {r : ℕ × ℕ} : r ∈ sortedPairs ranges ↔ ∃ e ∈ ranges, e.pair = r := by
  rw [sortedPairs, ((perm_sort ranges).map pair).mem_iff, List.mem_map]

/-- What holds of all sorted pairs holds of all ranges. -/
theorem forall_sortedPairs {P : ℕ × ℕ → Prop} :
    (∀ r ∈ sortedPairs ranges, P r) ↔ ∀ e ∈ ranges, P e.pair := by
  simp only [mem_sortedPairs, forall_exists_index, and_imp, forall_apply_eq_imp_iff₂]

/-- What some sorted pair has some range has. -/
theorem exists_sortedPairs {P : ℕ × ℕ → Prop} :
    (∃ r ∈ sortedPairs ranges, P r) ↔ ∃ e ∈ ranges, P e.pair := by
  simp only [mem_sortedPairs, exists_exists_and_eq_and]

/-- Ranges within an interval have pairs within it. -/
theorem within_sortedPairs (h : ∀ e ∈ ranges, start ≤ e.base ∧ e.limit ≤ end_) :
    ∀ r ∈ sortedPairs ranges, start.toNat ≤ r.1 ∧ r.2 ≤ end_.toNat :=
  forall_sortedPairs.mpr fun e he =>
    ⟨UInt64.le_iff_toNat_le.mp (h e he).1, UInt64.le_iff_toNat_le.mp (h e he).2⟩

/-- Ranges that are sorted already. -/
theorem sortedPairs_of_pairwise (h : ranges.Pairwise fun a b => a.base ≤ b.base) :
    sortedPairs ranges = ranges.map pair := by
  refine congrArg (List.map pair) (List.Pairwise.insertionSort_eq ?_)
  exact h.imp fun hle => (crsRangeCompare_le _ _).mpr hle

/-- The sorted array is ordered by base. -/
theorem pairwise_sort (ranges : List CrsRangeEntry) :
    (gPtrArraySort ranges crsRangeCompare).Pairwise fun a b => a.base ≤ b.base := by
  have : Std.Total fun a b : CrsRangeEntry => crsRangeCompare a b ≤ 0 :=
    ⟨fun a b => by
      rw [crsRangeCompare_le, crsRangeCompare_le]
      exact UInt64.le_total ..⟩
  have : IsTrans CrsRangeEntry fun a b => crsRangeCompare a b ≤ 0 :=
    ⟨fun a b c hab hbc => by
      rw [crsRangeCompare_le] at hab hbc ⊢
      exact UInt64.le_trans hab hbc⟩
  exact (List.pairwise_insertionSort _ ranges).imp fun h => (crsRangeCompare_le _ _).mp h

/-- Ranges with their base not past their limit are proper pairs. -/
theorem proper_sortedPairs (h : ∀ e ∈ ranges, e.base ≤ e.limit) : Proper (sortedPairs ranges) := by
  intro r hr
  obtain ⟨e, he, rfl⟩ := mem_sortedPairs.mp hr
  exact UInt64.le_iff_toNat_le.mp (h e he)

/-- Disjoint ranges are in order when they are sorted. -/
theorem inOrder_sortedPairs (h : ∀ e ∈ ranges, e.base ≤ e.limit)
    (hapart : ranges.Pairwise CrsRangeEntry.Apart) : InOrder (sortedPairs ranges) := by
  refine inOrder_of_sorted (proper_sortedPairs h) ?_ ?_
  · exact List.pairwise_map.mpr ((pairwise_sort ranges).imp UInt64.le_iff_toNat_le.mp)
  · refine List.pairwise_map.mpr ?_
    refine ((perm_sort ranges).pairwise_iff fun hab => hab.symm).mpr hapart |>.imp fun hab => ?_
    exact hab.imp UInt64.lt_iff_toNat_lt.mp UInt64.lt_iff_toNat_lt.mp

/-! ## The loops -/

/-- The test for a neighbour in machine arithmetic is the one on numbers, unless
the base is zero. -/
theorem pred_eq_iff {base limit : UInt64} (h : 0 < base) :
    base - 1 = limit ↔ Order.succ limit.toNat = base.toNat := by
  have hpos : 0 < base.toNat := UInt64.lt_iff_toNat_lt.mp h
  have hsub : (base - 1).toNat = base.toNat - 1 :=
    UInt64.toNat_sub_of_le _ _ (UInt64.le_iff_toNat_le.mpr hpos)
  rw [← UInt64.toNat_inj, hsub, Nat.succ_eq_succ]
  omega

/-- The loop that joins neighbours computes `ClosedRanges.join` behind the ranges
it has finished. -/
theorem foldl_mergeStep {rest : List CrsRangeEntry} (tmp : List CrsRangeEntry)
    (base limit : UInt64) (h : ∀ e ∈ rest, 0 < e.base) :
    (mergeEnd (rest.foldl mergeStep (tmp, base, limit))).map pair =
      tmp.map pair ++ join base.toNat limit.toNat (rest.map pair) := by
  induction rest generalizing tmp base limit with
  | nil => simp [mergeEnd, crsRangeInsert, join, pair]
  | cons e rest ih =>
    obtain ⟨he, hrest⟩ := List.forall_mem_cons.mp h
    have hiff : e.base - 1 = limit ↔ Order.succ limit.toNat = e.pair.1 := pred_eq_iff he
    rw [List.foldl_cons, List.map_cons, join, mergeStep]
    by_cases hnext : e.base - 1 = limit
    · rw [if_pos hnext, if_pos (hiff.mp hnext)]
      exact ih tmp base e.limit hrest
    · rw [if_neg hnext, if_neg (mt hiff.mpr hnext)]
      refine (ih _ _ _ hrest).trans ?_
      simp [crsRangeInsert, pair]

/-- **Merging joins the sorted ranges.** -/
theorem crsRangeMerge_pairs (h : ∀ e ∈ ranges, 0 < e.base) :
    (crsRangeMerge ranges).map pair = merge (sortedPairs ranges) := by
  have hperm := perm_sort ranges
  unfold crsRangeMerge sortedPairs
  cases hsort : gPtrArraySort ranges crsRangeCompare with
  | nil =>
    rw [hsort] at hperm
    rw [hperm.symm.eq_nil]
    rfl
  | cons e rest =>
    rw [hsort] at hperm
    exact foldl_mergeStep [] e.base e.limit fun e' he' =>
      h e' (hperm.mem_iff.mp (List.mem_cons_of_mem _ he'))

/-- The loop over the used ranges computes `ClosedRanges.gapsBelow` behind the free
ranges so far, and the first address behind the last used range. -/
theorem foldl_freeRangeStep {used : List CrsRangeEntry} (free : List CrsRangeEntry)
    (freeBase : UInt64) (h : ∀ e ∈ used, e.limit < 0xffffffffffffffff) :
    (used.foldl freeRangeStep (free, freeBase)).1.map pair =
        free.map pair ++ gapsBelow freeBase.toNat (used.map pair) ∧
      (used.foldl freeRangeStep (free, freeBase)).2.toNat =
        afterLast freeBase.toNat (used.map pair) := by
  induction used generalizing free freeBase with
  | nil => simp [gapsBelow, afterLast]
  | cons e used ih =>
    obtain ⟨he, hused⟩ := List.forall_mem_cons.mp h
    have hsucc : (e.limit + 1).toNat = Order.succ e.limit.toNat := by
      have hlt : e.limit.toNat < 0xffffffffffffffff := UInt64.lt_iff_toNat_lt.mp he
      rw [UInt64.toNat_add, Nat.succ_eq_succ]
      exact Nat.mod_eq_of_lt (Nat.succ_lt_succ hlt)
    rw [List.foldl_cons, freeRangeStep, List.map_cons, gapsBelow, afterLast]
    dsimp only [pair]
    obtain ⟨hfree, hafter⟩ := ih (if freeBase < e.base then
      crsRangeInsert free freeBase (e.base - 1) else free) (e.limit + 1) hused
    rw [hsucc] at hfree hafter
    refine ⟨hfree.trans ?_, hafter⟩
    rw [← List.append_assoc]
    refine congrArg (· ++ _) ?_
    by_cases hlt : freeBase < e.base
    · have hlt' : freeBase.toNat < e.base.toNat := UInt64.lt_iff_toNat_lt.mp hlt
      have hpred : (e.base - 1).toNat = Order.pred e.base.toNat := by
        rw [Nat.pred_eq_pred]
        exact UInt64.toNat_sub_of_le _ _ (UInt64.le_iff_toNat_le.mpr (Nat.zero_lt_of_lt hlt'))
      simp [hlt, hlt', crsRangeInsert, pair, hpred]
    · have hge : ¬ freeBase.toNat < e.base.toNat := mt UInt64.lt_iff_toNat_lt.mpr hlt
      simp [hlt, hge]

/-- **The free ranges are the gaps between the sorted ranges.** -/
theorem crsReplaceWithFreeRanges_pairs (start end_ : UInt64)
    (h : ∀ e ∈ ranges, e.limit < 0xffffffffffffffff) :
    (crsReplaceWithFreeRanges ranges start end_).map pair =
      gapsWithin start.toNat (sortedPairs ranges) end_.toNat := by
  have hsort : ∀ e ∈ gPtrArraySort ranges crsRangeCompare, e.limit < 0xffffffffffffffff :=
    fun e he => h e ((perm_sort ranges).mem_iff.mp he)
  obtain ⟨hfree, hafter⟩ := foldl_freeRangeStep [] start hsort
  rw [crsReplaceWithFreeRanges, gapsWithin, sortedPairs, ← hafter]
  dsimp only
  rw [List.map_nil, List.nil_append] at hfree
  rw [← hfree]
  by_cases hlt : ((gPtrArraySort ranges crsRangeCompare).foldl freeRangeStep ([], start)).2 < end_
  · have hlt' := UInt64.lt_iff_toNat_lt.mp hlt
    simp [hlt, hlt', crsRangeInsert, pair]
  · have hge := mt UInt64.lt_iff_toNat_lt.mpr hlt
    simp [hlt, hge]

/-! ## The same ranges -/

/-- The free ranges of ranges that are in order when each is listed once. -/
theorem crsReplaceWithFreeRanges_gaps {l : List (ℕ × ℕ)} (start end_ : UInt64)
    (hmax : ∀ e ∈ ranges, e.limit < 0xffffffffffffffff) (hl : Proper l) (h : InOrder l)
    (hmem : ∀ r, (∃ e ∈ ranges, e.pair = r) ↔ r ∈ l) :
    (crsReplaceWithFreeRanges ranges start end_).map pair =
      gapsWithin start.toNat l end_.toNat := by
  rw [crsReplaceWithFreeRanges_pairs start end_ hmax]
  refine gapsWithin_congr ?_ hl h fun r => mem_sortedPairs.trans (hmem r)
  exact List.pairwise_map.mpr ((pairwise_sort ranges).imp UInt64.le_iff_toNat_le.mp)

section Same

variable {used : List CrsRangeEntry} (h : ∀ e ∈ used, e.base ≤ e.limit)
  (hmax : ∀ e ∈ used, e.limit < 0xffffffffffffffff) (hapart : used.Pairwise CrsRangeEntry.Apart)
include h hmax hapart

/-- A range that is listed twice is used as one that is listed once. -/
theorem crsReplaceWithFreeRanges_congr (start end_ : UInt64) (hmem : ∀ e, e ∈ ranges ↔ e ∈ used) :
    crsReplaceWithFreeRanges ranges start end_ = crsReplaceWithFreeRanges used start end_ := by
  refine List.map_injective_iff.mpr pair_injective ?_
  rw [crsReplaceWithFreeRanges_pairs start end_ hmax]
  refine crsReplaceWithFreeRanges_gaps start end_ (fun e he => hmax e ((hmem e).mp he))
    (proper_sortedPairs h) (inOrder_sortedPairs h hapart) fun r => ?_
  simp only [mem_sortedPairs, hmem]

/-- A used range behind the interval moves the end of the interval in front of it:
what lies between the two is free as well. -/
theorem crsReplaceWithFreeRanges_above {above : CrsRangeEntry} {start end_ : UInt64}
    (habove : above.base ≤ above.limit) (hlast : above.limit < 0xffffffffffffffff)
    (hstart : start.toNat + 1 < above.base.toNat)
    (hbelow : ∀ e ∈ used, e.limit.toNat + 2 < above.base.toNat) (hend : end_ ≤ above.limit)
    (hmem : ∀ e, e ∈ ranges ↔ e ∈ used ∨ e = above) :
    crsReplaceWithFreeRanges ranges start end_ =
      crsReplaceWithFreeRanges used start (above.base - 1) := by
  have hproper := proper_sortedPairs h
  have horder := inOrder_sortedPairs h hapart
  have hlimit : end_.toNat ≤ above.limit.toNat := UInt64.le_iff_toNat_le.mp hend
  have hpred : (above.base - 1).toNat = above.base.toNat - 1 :=
    UInt64.toNat_sub_of_le _ _ (UInt64.le_iff_toNat_le.mpr (show 1 ≤ above.base.toNat by omega))
  have hall : ∀ r ∈ sortedPairs used, r.2 + 2 < above.base.toNat :=
    forall_sortedPairs.mpr hbelow
  have hconcat : InOrder (sortedPairs used ++ [above.pair]) := by
    refine List.pairwise_append.mpr ⟨horder, List.pairwise_singleton _ _, fun r hr s hs => ?_⟩
    obtain rfl := List.mem_singleton.mp hs
    have := hall r hr
    change r.2 < above.base.toNat
    omega
  have hafter : afterLast start.toNat (sortedPairs used) < above.base.toNat - 1 := by
    rcases afterLast_eq start.toNat (sortedPairs used) with ⟨-, heq⟩ | ⟨r, hr, heq⟩
    · omega
    · have := hall r hr
      rw [heq, Nat.succ_eq_succ]
      omega
  refine List.map_injective_iff.mpr pair_injective ?_
  rw [crsReplaceWithFreeRanges_pairs start (above.base - 1) hmax, hpred]
  refine (crsReplaceWithFreeRanges_gaps (l := sortedPairs used ++ [above.pair]) start end_
    (fun e he => ?_) (hproper.append ?_) hconcat fun r => ?_).trans ?_
  · rcases (hmem e).mp he with he | rfl
    · exact hmax e he
    · exact hlast
  · exact List.forall_mem_singleton.mpr (UInt64.le_iff_toNat_le.mp habove)
  · simp only [hmem, List.mem_append, mem_sortedPairs, List.mem_singleton, or_and_right, exists_or,
      exists_eq_left, eq_comm (a := r)]
  · exact gapsWithin_concat hafter (hlimit.trans (Nat.le_succ _))

end Same

/-! ## Lengths -/

/-- The loop that joins neighbours finishes at most one range more than it reads. -/
theorem length_foldl_mergeStep (rest tmp : List CrsRangeEntry) (base limit : UInt64) :
    (mergeEnd (rest.foldl mergeStep (tmp, base, limit))).length ≤ tmp.length + rest.length + 1 := by
  induction rest generalizing tmp base limit with
  | nil => simp [mergeEnd, crsRangeInsert]
  | cons e rest ih =>
    rw [List.foldl_cons, mergeStep, List.length_cons]
    by_cases hnext : e.base - 1 = limit
    · rw [if_pos hnext]
      exact (ih tmp base e.limit).trans (by omega)
    · rw [if_neg hnext]
      refine (ih _ _ _).trans ?_
      simp only [crsRangeInsert, List.length_append, List.length_singleton]
      omega

/-- Merging does not lengthen an array. -/
theorem length_crsRangeMerge_le (ranges : List CrsRangeEntry) :
    (crsRangeMerge ranges).length ≤ ranges.length := by
  have hlen := (perm_sort ranges).length_eq
  unfold crsRangeMerge
  cases hsort : gPtrArraySort ranges crsRangeCompare with
  | nil => exact le_rfl
  | cons e rest =>
    rw [hsort, List.length_cons] at hlen
    exact (length_foldl_mergeStep rest [] e.base e.limit).trans (by simp; omega)

/-- The loop over the used ranges adds at most one free range for each of them. -/
theorem length_foldl_freeRangeStep (used free : List CrsRangeEntry) (freeBase : UInt64) :
    (used.foldl freeRangeStep (free, freeBase)).1.length ≤ free.length + used.length := by
  induction used generalizing free freeBase with
  | nil => simp
  | cons e used ih =>
    rw [List.foldl_cons, freeRangeStep]
    refine (ih _ _).trans ?_
    by_cases hlt : freeBase < e.base
    · simp [hlt, crsRangeInsert]
      omega
    · simp [hlt]

/-- There is at most one free range more than used ones. -/
theorem length_crsReplaceWithFreeRanges_le (ranges : List CrsRangeEntry) (start end_ : UInt64) :
    (crsReplaceWithFreeRanges ranges start end_).length ≤ ranges.length + 1 := by
  have hlen := (perm_sort ranges).length_eq
  have hfree := length_foldl_freeRangeStep (gPtrArraySort ranges crsRangeCompare) [] start
  rw [hlen, List.length_nil, Nat.zero_add] at hfree
  rw [crsReplaceWithFreeRanges]
  dsimp only
  split
  · rw [crsRangeInsert, List.length_append]
    exact Nat.succ_le_succ hfree
  · exact hfree.trans (Nat.le_succ _)

/-! ## What the functions are for -/

/-- The parts of a merged range come from ranges that were collected. -/
theorem mem_merge_ends (h : ∀ e ∈ ranges, e.IsRegion) {e : CrsRangeEntry}
    (he : e ∈ crsRangeMerge ranges) :
    e.base.toNat ≤ e.limit.toNat ∧ e.base.toNat ∈ addresses ranges ∧
      e.limit.toNat ∈ addresses ranges := by
  have hproper := proper_sortedPairs fun e he => (h e he).2
  have hpair : e.pair ∈ merge (sortedPairs ranges) := by
    rw [← crsRangeMerge_pairs fun e he => (h e he).1]
    exact List.mem_map_of_mem he
  have hle := proper_merge hproper _ hpair
  rw [← cover_sortedPairs, ← cover_merge hproper]
  exact ⟨hle, ⟨e.pair, hpair, le_rfl, hle⟩, ⟨e.pair, hpair, hle, le_rfl⟩⟩

/-- Merging keeps the addresses of collected ranges. -/
theorem addresses_crsRangeMerge (h : ∀ e ∈ ranges, e.IsRegion) :
    addresses (crsRangeMerge ranges) = addresses ranges := by
  rw [addresses, crsRangeMerge_pairs fun e he => (h e he).1,
    cover_merge (proper_sortedPairs fun e he => (h e he).2), cover_sortedPairs]

/-- **Merging keeps the addresses.** Of ranges that are disjoint it makes the one
array with a gap between any two: it does not depend on the order in which they
were collected, nor on how the addresses were divided. -/
theorem crsRangeMerge_canonical (h : ∀ e ∈ ranges, e.IsRegion) :
    addresses (crsRangeMerge ranges) = addresses ranges ∧
    (ranges.Pairwise CrsRangeEntry.Apart →
      (crsRangeMerge ranges).Pairwise (fun e e' => e.limit.toNat + 1 < e'.base.toNat) ∧
      ∀ others : List CrsRangeEntry, (∀ e ∈ others, e.IsRegion) →
        others.Pairwise CrsRangeEntry.Apart →
        (addresses others = addresses ranges ↔ crsRangeMerge others = crsRangeMerge ranges)) := by
  have hproper : ∀ {ranges : List CrsRangeEntry}, (∀ e ∈ ranges, e.IsRegion) →
      Proper ((crsRangeMerge ranges).map pair) := by
    intro ranges h
    rw [crsRangeMerge_pairs fun e he => (h e he).1]
    exact proper_merge (proper_sortedPairs fun e he => (h e he).2)
  have hgaps : ∀ {ranges : List CrsRangeEntry}, (∀ e ∈ ranges, e.IsRegion) →
      ranges.Pairwise CrsRangeEntry.Apart → Apart ((crsRangeMerge ranges).map pair) := by
    intro ranges h hapart
    rw [crsRangeMerge_pairs fun e he => (h e he).1]
    exact apart_merge (proper_sortedPairs fun e he => (h e he).2)
      (inOrder_sortedPairs (fun e he => (h e he).2) hapart)
  refine ⟨addresses_crsRangeMerge h,
    fun hapart => ⟨?_, fun others h' hapart' => ⟨fun hsame => ?_, fun hsame => ?_⟩⟩⟩
  · exact List.pairwise_map.mp (hgaps h hapart)
  · refine List.map_injective_iff.mpr pair_injective ?_
    refine eq_of_cover_eq (hproper h') (hgaps h' hapart') (hproper h) (hgaps h hapart) ?_
    exact (addresses_crsRangeMerge h').trans (hsame.trans (addresses_crsRangeMerge h).symm)
  · rw [← addresses_crsRangeMerge h', ← addresses_crsRangeMerge h, hsame]

theorem crsRangeMerge_canonical_three :
    addresses [⟨0x3000, 0x3fff⟩, ⟨0x1000, 0x1fff⟩, ⟨0x2000, 0x2fff⟩] =
      addresses [⟨0x1000, 0x3fff⟩] :=
  (((@crsRangeMerge_canonical [⟨0x1000, 0x3fff⟩] (by decide)).2 (by decide)).2 _
    (by decide) (by decide)).mpr (by decide)

/-- The end of the interval is lost: the used ranges lie below it, and the last
of them ends right before it. -/
def LosesEnd (ranges : List CrsRangeEntry) (start end_ : UInt64) : Prop :=
  (∀ e ∈ ranges, e.limit < end_) ∧
    (ranges = [] ∧ start = end_ ∨ ∃ e ∈ ranges, e.limit.toNat + 1 = end_.toNat)

/-- The lost end, in terms of the sorted pairs. -/
theorem losesEnd_iff : LosesEnd ranges start end_ ↔
    (∀ r ∈ sortedPairs ranges, r.2 < end_.toNat) ∧
      (sortedPairs ranges = [] ∧ start.toNat = end_.toNat ∨
        ∃ r ∈ sortedPairs ranges, Order.succ r.2 = end_.toNat) := by
  have hnil : sortedPairs ranges = [] ↔ ranges = [] := by
    rw [sortedPairs, List.map_eq_nil_iff, ← List.length_eq_zero_iff, (perm_sort ranges).length_eq,
      List.length_eq_zero_iff]
  simp only [LosesEnd, forall_sortedPairs, exists_sortedPairs, hnil, UInt64.lt_iff_toNat_lt,
    UInt64.toNat_inj, pair, Nat.succ_eq_succ, Nat.succ_eq_add_one]

section Free

variable (h : ∀ e ∈ ranges, e.base ≤ e.limit) (hmax : ∀ e ∈ ranges, e.limit < 0xffffffffffffffff)
  (hapart : ranges.Pairwise CrsRangeEntry.Apart)
include h hmax hapart

/-- The addresses declared free are the unused ones from the start, or behind a
used range, up to the end of the interval or in front of a used range. -/
theorem mem_addresses_free : x ∈ addresses (crsReplaceWithFreeRanges ranges start end_) ↔
    x ∉ addresses ranges ∧ (start.toNat ≤ x ∨ ∃ r ∈ sortedPairs ranges, r.2 < x) ∧
      ((∃ r ∈ sortedPairs ranges, x < r.1) ∨
        x ≤ end_.toNat ∧ afterLast start.toNat (sortedPairs ranges) < end_.toNat) := by
  rw [addresses, crsReplaceWithFreeRanges_pairs start end_ hmax,
    mem_cover_gapsWithin (proper_sortedPairs h) (inOrder_sortedPairs h hapart), cover_sortedPairs]

/-- Of the unused addresses of the interval at most its end is not free. -/
theorem mem_free_iff (hlo : start.toNat ≤ x) (hhi : x ≤ end_.toNat) (hx : x ∉ addresses ranges) :
    x ∈ addresses (crsReplaceWithFreeRanges ranges start end_) ↔
      ¬ (x = end_.toNat ∧ LosesEnd ranges start end_) := by
  have hproper := proper_sortedPairs h
  have horder := inOrder_sortedPairs h hapart
  rw [mem_addresses_free h hmax hapart, losesEnd_iff]
  have hcover : x ∉ cover (sortedPairs ranges) := by rwa [cover_sortedPairs]
  simp only [hx, not_false_eq_true, hlo, true_or, true_and, hhi]
  have hlast : (¬ ∃ r ∈ sortedPairs ranges, x < r.1) → ∀ r ∈ sortedPairs ranges, r.2 < x :=
    fun hnone r hr => lt_of_not_ge fun hge =>
      hcover ⟨r, hr, le_of_not_gt fun hlt => hnone ⟨r, hr, hlt⟩, hge⟩
  constructor
  · rintro hor ⟨rfl, hbelow, heq⟩
    rcases hor with ⟨r, hr, hlt⟩ | hlt
    · exact absurd (hbelow r hr) (not_lt_of_ge (hlt.le.trans (hproper r hr)))
    · exact hlt.ne ((afterLast_eq_iff horder hproper hbelow).mpr heq)
  · intro hkeeps
    by_cases hsome : ∃ r ∈ sortedPairs ranges, x < r.1
    · exact .inl hsome
    · refine .inr ?_
      have hafter : afterLast start.toNat (sortedPairs ranges) ≤ x :=
        (afterLast_le horder hproper).mpr ⟨fun _ => hlo, hlast hsome⟩
      rcases hhi.lt_or_eq with hlt | rfl
      · exact hafter.trans_lt hlt
      · refine lt_of_le_of_ne hafter fun heq => hkeeps ⟨rfl, hlast hsome, ?_⟩
        exact (afterLast_eq_iff horder hproper (hlast hsome)).mp heq

/-- When the used ranges lie within the interval, so do the free ones. -/
theorem within_free (hwithin : ∀ e ∈ ranges, start ≤ e.base ∧ e.limit ≤ end_)
    (hx : x ∈ addresses (crsReplaceWithFreeRanges ranges start end_)) :
    start.toNat ≤ x ∧ x ≤ end_.toNat := by
  rw [addresses, crsReplaceWithFreeRanges_pairs start end_ hmax] at hx
  exact within_of_mem_gapsWithin (proper_sortedPairs h) (inOrder_sortedPairs h hapart)
    (within_sortedPairs hwithin) hx

/-- **The free ranges**: disjoint from the used ones, and nothing of the interval
is missing but a single address at its end. They stay in the interval when the
used ranges do. No used range may end at the last address of 64 bits (`hmax`): the
address behind it would be zero, from where everything would be free again. -/
theorem crsReplaceWithFreeRanges_spec :
    (∀ x ∈ addresses (crsReplaceWithFreeRanges ranges start end_), x ∉ addresses ranges) ∧
    (∀ x, start.toNat ≤ x → x ≤ end_.toNat → x ∉ addresses ranges →
      (x ∈ addresses (crsReplaceWithFreeRanges ranges start end_) ↔
        ¬ (x = end_.toNat ∧ LosesEnd ranges start end_))) ∧
    ((∀ e ∈ ranges, start ≤ e.base ∧ e.limit ≤ end_) →
      ∀ x ∈ addresses (crsReplaceWithFreeRanges ranges start end_),
        start.toNat ≤ x ∧ x ≤ end_.toNat) :=
  ⟨fun _ hx => ((mem_addresses_free h hmax hapart).mp hx).1,
    fun _ hlo hhi hx => mem_free_iff h hmax hapart hlo hhi hx,
    fun hwithin _ hx => within_free h hmax hapart hwithin hx⟩

end Free

theorem crsReplaceWithFreeRanges_spec_ports :
    Disjoint
      (addresses (crsReplaceWithFreeRanges [⟨0xc000, 0xcfff⟩, ⟨0x1000, 0x1fff⟩] 0x0d00 0xffff))
      (addresses [⟨0xc000, 0xcfff⟩, ⟨0x1000, 0x1fff⟩]) :=
  Set.disjoint_left.mpr fun x hx =>
    (crsReplaceWithFreeRanges_spec (by decide) (by decide) (by decide)).1 x hx

/-- **Twice free is merged**: the free ranges of the free ranges are the used
ones, with neighbours joined. No used range may end right before the end of the
interval or start at it (`hend`), for then the end of the interval is lost. -/
theorem crsReplaceWithFreeRanges_twice (h : ∀ e ∈ ranges, e.IsRegion)
    (hapart : ranges.Pairwise CrsRangeEntry.Apart) (hlt : start < end_)
    (hmax : end_ < 0xffffffffffffffff)
    (hwithin : ∀ e ∈ ranges, start ≤ e.base ∧ e.limit ≤ end_)
    (hend : ∀ e ∈ ranges, e.limit.toNat + 1 ≠ end_.toNat ∧ e.base ≠ end_) :
    crsReplaceWithFreeRanges (crsReplaceWithFreeRanges ranges start end_) start end_ =
      crsRangeMerge ranges := by
  have hle : ∀ e ∈ ranges, e.base ≤ e.limit := fun e he => (h e he).2
  have hproper := proper_sortedPairs hle
  have horder := inOrder_sortedPairs hle hapart
  have hbelow : ∀ e ∈ ranges, e.limit < 0xffffffffffffffff :=
    fun e he => UInt64.lt_of_le_of_lt (hwithin e he).2 hmax
  have hpairs := crsReplaceWithFreeRanges_pairs start end_ hbelow
  have hgaps : Apart ((crsReplaceWithFreeRanges ranges start end_).map pair) :=
    hpairs ▸ apart_gapsWithin hproper horder
  have hfreeProper : Proper ((crsReplaceWithFreeRanges ranges start end_).map pair) :=
    hpairs ▸ proper_gapsWithin
  -- the free ranges are sorted already, and they end in the interval
  have hsorted : sortedPairs (crsReplaceWithFreeRanges ranges start end_) =
      gapsWithin start.toNat (sortedPairs ranges) end_.toNat := by
    rw [sortedPairs_of_pairwise, hpairs]
    refine (List.pairwise_map.mp hgaps.inOrder).imp_of_mem fun ha _ hlt => ?_
    exact UInt64.le_iff_toNat_le.mpr ((hfreeProper _ (List.mem_map_of_mem ha)).trans hlt.le)
  have hfree : ∀ e ∈ crsReplaceWithFreeRanges ranges start end_, e.limit < 0xffffffffffffffff := by
    intro e he
    have hmem : e.pair ∈ gapsWithin start.toNat (sortedPairs ranges) end_.toNat := by
      rw [← hpairs]
      exact List.mem_map_of_mem he
    have hlast := within_of_mem_gapsWithin hproper horder (within_sortedPairs hwithin)
      ⟨e.pair, hmem, proper_gapsWithin _ hmem, le_rfl⟩
    exact UInt64.lt_of_le_of_lt (UInt64.le_iff_toNat_le.mpr hlast.2) hmax
  refine List.map_injective_iff.mpr pair_injective ?_
  rw [crsReplaceWithFreeRanges_pairs start end_ hfree, hsorted,
    crsRangeMerge_pairs fun e he => (h e he).1]
  refine gapsWithin_gapsWithin hproper horder (UInt64.lt_iff_toNat_lt.mp hlt)
    (within_sortedPairs hwithin) ?_
  exact forall_sortedPairs.mpr fun e he =>
    ⟨(hend e he).1, fun heq => (hend e he).2 (UInt64.toNat_inj.mp heq)⟩

theorem crsReplaceWithFreeRanges_twice_ports :
    crsReplaceWithFreeRanges
      (crsReplaceWithFreeRanges [⟨0xc000, 0xcfff⟩, ⟨0x1000, 0x1fff⟩] 0x0d00 0xffff) 0x0d00 0xffff =
        crsRangeMerge [⟨0xc000, 0xcfff⟩, ⟨0x1000, 0x1fff⟩] :=
  crsReplaceWithFreeRanges_twice (by decide) (by decide) (by decide) (by decide) (by decide)
    (by decide)

end AcpiTables.AmlBuild
