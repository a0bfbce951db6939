import Mathlib.Data.List.Infix
import Mathlib.Data.Nat.Notation
import Mathlib.Order.Basic

/-!
# Trees of containers

Containers are written one behind the other; each has an id and knows the
position of the container around it, 0 if there is none. They are filled in one
pass: on every level one container is open, and the next one of this level is
opened with a larger id, in the open container above it.

Then no container is opened twice (`Distinct.push`), so that two things are in
the same containers down to a level if and only if the ids agree down to there
(`Chain.take_eq_take_iff`).
-/

namespace AcpiTables.ContainerTree

universe u

/-- A container: where it lies, the container around it and its id. -/
structure Container (ι : Type u) where
  position : ℕ
  parent : ℕ
  id : ι
  deriving DecidableEq

variable {ι : Type u}

/-- Where the innermost container lies. -/
def innermost (parent : ℕ) : List (ℕ × ι) → ℕ
  | [] => parent
  | (position, _) :: path => innermost position path

/-- Containers one in the other, from the outermost on. -/
def Chain (tree : List (Container ι)) : ℕ → List (ℕ × ι) → Prop
  | _, [] => True
  | parent, (position, id) :: path => ⟨position, parent, id⟩ ∈ tree ∧ Chain tree position path

/-- Every container lies behind the one around it, and all before the limit. -/
def Below (tree : List (Container ι)) (limit : ℕ) : Prop :=
  ∀ c ∈ tree, c.parent < c.position ∧ c.position < limit

/-- No id occurs twice in a container. -/
def Distinct (tree : List (Container ι)) : Prop :=
  ∀ c ∈ tree, ∀ d ∈ tree, c.parent = d.parent → c.id = d.id → c = d

/-- The open containers: each is the last of those around it. -/
def Opened [LE ι] (tree : List (Container ι)) : ℕ → List (ℕ × ι) → Prop
  | parent, [] => ∀ c ∈ tree, c.parent ≠ parent
  | parent, (position, id) :: path =>
    ⟨position, parent, id⟩ ∈ tree ∧ (∀ c ∈ tree, c.parent = parent → c.id ≤ id) ∧
      Opened tree position path

/-! ## Chains -/

/-- The innermost container of two runs of containers is that of the second, from
the first one's on. -/
theorem innermost_append (parent : ℕ) (p q : List (ℕ × ι)) :
    innermost parent (p ++ q) = innermost (innermost parent p) q := by
  induction p generalizing parent with
  | nil => rfl
  | cons x p ih => exact ih x.1

/-- A path in a tree is one in every larger tree. -/
theorem Chain.mono {tree tree' : List (Container ι)} (h : tree ⊆ tree') {parent : ℕ}
    {path : List (ℕ × ι)} (hpath : Chain tree parent path) : Chain tree' parent path := by
  induction path generalizing parent with
  | nil => trivial
  | cons x path ih => exact ⟨h hpath.1, ih hpath.2⟩

/-- The first containers of a path are a path. -/
theorem Chain.take {tree : List (Container ι)} {parent : ℕ} {path : List (ℕ × ι)}
    (h : Chain tree parent path) (n : ℕ) : Chain tree parent (path.take n) := by
  induction path generalizing parent n with
  | nil =>
    rw [List.take_nil]
    trivial
  | cons x path ih =>
    cases n with
    | zero => trivial
    | succ n => exact ⟨h.1, ih h.2 n⟩

/-- The ids tell the containers. -/
theorem Chain.eq_of_ids_eq {tree : List (Container ι)} (htree : Distinct tree) {parent : ℕ}
    {p q : List (ℕ × ι)} (hp : Chain tree parent p) (hq : Chain tree parent q)
    (h : p.map Prod.snd = q.map Prod.snd) : p = q := by
  induction p generalizing parent q with
  | nil => exact (List.map_eq_nil_iff.mp h.symm).symm
  | cons x p ih =>
    cases q with
    | nil => cases h
    | cons y q =>
      obtain ⟨hid, hids⟩ := List.cons.inj h
      have hsame := congrArg Container.position (htree _ hp.1 _ hq.1 rfl hid)
      obtain rfl : x = y := Prod.ext hsame hid
      exact congrArg (x :: ·) (ih hp.2 hq.2 hids)

/-- **Sharing**: the containers agree down to a level if and only if the ids do. -/
theorem Chain.take_eq_take_iff {tree : List (Container ι)} (htree : Distinct tree) {parent : ℕ}
    {p q : List (ℕ × ι)} (hp : Chain tree parent p) (hq : Chain tree parent q) (n : ℕ) :
    p.take n = q.take n ↔ (p.map Prod.snd).take n = (q.map Prod.snd).take n := by
  rw [← List.map_take, ← List.map_take]
  exact ⟨congrArg _, (hp.take n).eq_of_ids_eq htree (hq.take n)⟩

/-- In a path containers lie behind the one that it starts from. -/
theorem Below.le_innermost {tree : List (Container ι)} {limit : ℕ} (htree : Below tree limit)
    {parent : ℕ} {path : List (ℕ × ι)} (h : Chain tree parent path) :
    parent ≤ innermost parent path := by
  induction path generalizing parent with
  | nil => exact Nat.le_refl _
  | cons x path ih => exact Nat.le_trans (Nat.le_of_lt (htree _ h.1).1) (ih h.2)

/-- In a path containers lie below the limit. -/
theorem Below.innermost_lt {tree : List (Container ι)} {limit : ℕ} (htree : Below tree limit)
    {parent : ℕ} (hparent : parent < limit) {path : List (ℕ × ι)} (h : Chain tree parent path) :
    innermost parent path < limit := by
  induction path generalizing parent with
  | nil => exact hparent
  | cons x path ih => exact ih (htree _ h.1).2 h.2

/-- A container at the limit is added below the next one. -/
theorem Below.push {tree : List (Container ι)} {limit limit' : ℕ} (htree : Below tree limit)
    (hlimit : limit < limit') {parent : ℕ} (hparent : parent < limit) (id : ι) :
    Below (tree ++ [⟨limit, parent, id⟩]) limit' := by
  intro c hc
  rcases List.mem_append.mp hc with hc | hc
  · have := htree c hc
    exact ⟨this.1, Nat.lt_trans this.2 hlimit⟩
  · obtain rfl := List.mem_singleton.mp hc
    exact ⟨hparent, hlimit⟩

/-- What lies below a limit lies below a larger one. -/
theorem Below.mono {tree : List (Container ι)} {limit limit' : ℕ} (htree : Below tree limit)
    (hlimit : limit ≤ limit') : Below tree limit' := fun c hc =>
  ⟨(htree c hc).1, Nat.lt_of_lt_of_le (htree c hc).2 hlimit⟩

/-! ## The pass -/

section

variable [Preorder ι]

/-- The open containers are a path. -/
theorem Opened.chain {tree : List (Container ι)} {parent : ℕ} {path : List (ℕ × ι)}
    (h : Opened tree parent path) : Chain tree parent path := by
  induction path generalizing parent with
  | nil => trivial
  | cons x path ih => exact ⟨h.1, ih h.2.2⟩

/-- Of the open containers the outer ones are a path, and the others are open
inside it. -/
theorem Opened.of_append {tree : List (Container ι)} {parent : ℕ} {kept rest : List (ℕ × ι)}
    (h : Opened tree parent (kept ++ rest)) :
    Chain tree parent kept ∧ Opened tree (innermost parent kept) rest := by
  induction kept generalizing parent with
  | nil => exact ⟨trivial, h⟩
  | cons x kept ih =>
    obtain ⟨hx, _, hrest⟩ := h
    obtain ⟨hchain, hopened⟩ := ih hrest
    exact ⟨⟨hx, hchain⟩, hopened⟩

/-- The ids in a container are at most that of the open one. -/
theorem Opened.id_lt {tree : List (Container ι)} {parent : ℕ} {path : List (ℕ × ι)}
    (h : Opened tree parent path) {id : ι} (hid : ∀ x ∈ path.head?, x.2 < id) {c : Container ι}
    (hc : c ∈ tree) (hparent : c.parent = parent) : c.id < id := by
  cases path with
  | nil => exact absurd hparent (h c hc)
  | cons x path => exact lt_of_le_of_lt (h.2.1 c hc hparent) (hid x rfl)

/-- A container with a larger id is opened in the innermost of those that stay
open. -/
theorem Opened.push {tree : List (Container ι)} {limit : ℕ} (htree : Below tree limit)
    {parent : ℕ} (hparent : parent < limit) {kept rest : List (ℕ × ι)} {id : ι}
    (h : Opened tree parent (kept ++ rest)) (hid : ∀ x ∈ rest.head?, x.2 < id) :
    Opened (tree ++ [⟨limit, innermost parent kept, id⟩]) parent (kept ++ [(limit, id)]) := by
  induction kept generalizing parent with
  | nil =>
    refine ⟨List.mem_append_right _ (List.mem_singleton_self _), ?_, ?_⟩
    · intro c hc hcparent
      rcases List.mem_append.mp hc with hc | hc
      · exact le_of_lt (Opened.id_lt h hid hc hcparent)
      · obtain rfl := List.mem_singleton.mp hc
        exact le_refl _
    · intro c hc
      rcases List.mem_append.mp hc with hc | hc
      · exact Nat.ne_of_lt (Nat.lt_trans (htree c hc).1 (htree c hc).2)
      · obtain rfl := List.mem_singleton.mp hc
        exact Nat.ne_of_lt hparent
  | cons x kept ih =>
    obtain ⟨hx, hlast, hrest⟩ := h
    have hbelow := htree _ hx
    refine ⟨List.mem_append_left _ hx, ?_, ih hbelow.2 hrest⟩
    intro c hc hcparent
    rcases List.mem_append.mp hc with hc | hc
    · exact hlast c hc hcparent
    · -- the new container lies deeper than this level
      obtain rfl := List.mem_singleton.mp hc
      have hdeep : x.1 ≤ innermost x.1 kept := htree.le_innermost (Opened.of_append hrest).1
      exact absurd hcparent (Nat.ne_of_gt (Nat.lt_of_lt_of_le hbelow.1 hdeep))

/-- A container whose id is larger than that of the open one on its level keeps
siblings distinct. -/
theorem Distinct.push {tree : List (Container ι)} (htree : Distinct tree) {parent : ℕ}
    {path : List (ℕ × ι)} (h : Opened tree parent path) {id : ι}
    (hid : ∀ x ∈ path.head?, x.2 < id) (position : ℕ) :
    Distinct (tree ++ [⟨position, parent, id⟩]) := by
  have hnew (c : Container ι) (hc : c ∈ tree) (hparent : c.parent = parent) : c.id ≠ id :=
    ne_of_lt (h.id_lt hid hc hparent)
  intro c hc d hd hparent hsame
  rcases List.mem_append.mp hc with hc | hc
  · rcases List.mem_append.mp hd with hd | hd
    · exact htree c hc d hd hparent hsame
    · obtain rfl := List.mem_singleton.mp hd
      exact absurd hsame (hnew c hc hparent)
  · obtain rfl := List.mem_singleton.mp hc
    rcases List.mem_append.mp hd with hd | hd
    · exact absurd hsame.symm (hnew d hd hparent.symm)
    · exact (List.mem_singleton.mp hd).symm

end

end AcpiTables.ContainerTree
