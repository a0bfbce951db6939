import AcpiTables.Namespace
import Mathlib.Logic.Function.Basic

/-!
# Running a definition block

What an operating system does with a parsed definition block, after the ACPI
specification: it loads the block into a namespace, searches names in it and runs
its control methods. The machine knows the statements that pass values around
(`Return`, `If`, `Else`, `Store`, `LEqual`); on all others it stops.

* `load` — the namespace of a block. A name that exists cannot be declared again,
  and only a scope that exists can be opened.
* `Space.find` — the search rules for names.
* `eval`, `exec`, `invoke` — expressions, statements and calls, by recursion on
  fuel. More fuel changes no result (`invoke_mono`), so that `Calls`, a call with
  some fuel, has one result.
* `Runs` — a history of calls; `Runs.simulates` is its invariant rule.

Integers have as many bits as the revision of the table gives them, `width`.
-/

universe u

namespace AcpiTables

/-! ## Values and objects -/

/-- A value that the machine computes with. -/
inductive Value where
  | integer (n : ℕ)
  | string (chars : Bytes)
  | buffer (data : Bytes)
  | package (elements : List Value)
  /-- the name of an object, inside a package -/
  | name (n : NameString)
  | uninitialized

/-- What a name is bound to. -/
inductive Object where
  | data (value : Value)
  | method (args : ℕ) (body : List Term)
  /-- a device, a scope and all that the machine does not evaluate -/
  | other

section

variable (width : ℕ)

mutual

/-- The value of a `DataRefObject`. Buffers and packages are filled up to the size
they announce. -/
def Term.data : Term → Option Value
  | .int n => some (.integer (n % 2 ^ width))
  | .ones => some (.integer (2 ^ width - 1))
  | .str chars => some (.string chars)
  | .ref n => some (.name n)
  | .node .buffer [.int size] [.bytes bs] =>
    some (.buffer (bs ++ List.replicate (size - bs.length) 0))
  | .node .package [.int n] elements =>
    (dataAll elements).map fun vs =>
      .package (vs ++ List.replicate (n - vs.length) .uninitialized)
  | _ => none

/-- The values of several data objects, if all of them are data. -/
def dataAll : List Term → Option (List Value)
  | [] => some []
  | t :: ts => do
    let v ← t.data
    let vs ← dataAll ts
    return v :: vs

end

/-- The object a declaration makes. The low three bits of a method's flags are the
number of its arguments. -/
def Object.ofTerm : Term → Object
  | .node .name [_, value] _ =>
    match value.data width with
    | some v => .data v
    | none => .other
  | .node .method [_, .int flags] body => .method (flags % 8) body
  | _ => .other

/-! ## The namespace -/

/-- The namespace: what each path is bound to. -/
abbrev Space := AbsPath → Option Object

/-- The namespace before anything is loaded. -/
def Space.predefined : Space := fun path =>
  if path ∈ predefinedScopes then some .other else none

/-- Load the effects of a block, one by one. -/
def load : List Event → Space → Option Space
  | [], space => some space
  | .declares path t :: events, space =>
    if (space path).isSome then none
    else load events (Function.update space path (some (.ofTerm width t)))
  | .opens path :: events, space =>
    if (space path).isSome then load events space else none

/-- **Loading**: a block whose names are new and distinct, and whose scopes exist,
is loaded; every name is then bound to its object, and nothing else changes. -/
theorem load_eq_some {known : List AbsPath} {events : List Event} {space : Space}
    (hnodup : (declaredPaths events).Nodup)
    (hfresh : ∀ path ∈ declaredPaths events, space path = none)
    (hscopes : ScopesKnown known events) (hknown : ∀ path ∈ known, (space path).isSome) :
    ∃ space', load width events space = some space' ∧
      (∀ path t, .declares path t ∈ events → space' path = some (.ofTerm width t)) ∧
      ∀ path ∉ declaredPaths events, space' path = space path := by
  induction events generalizing known space with
  | nil => exact ⟨space, rfl, by simp, fun _ _ => rfl⟩
  | cons event events ih =>
    cases event with
    | opens scope =>
      obtain ⟨space', hload, hbound, hframe⟩ := ih hnodup hfresh hscopes.2 hknown
      refine ⟨space', ?_, fun path t ht => ?_, hframe⟩
      · rw [load, if_pos (hknown scope hscopes.1), hload]
      · rcases List.mem_cons.mp ht with h | h
        · cases h
        · exact hbound path t h
    | declares new t =>
      obtain ⟨hnew, hnodup⟩ := List.nodup_cons.mp hnodup
      obtain ⟨hnone, hfresh⟩ := List.forall_mem_cons.mp hfresh
      have hne {path : AbsPath} (h : path ∈ declaredPaths events) : path ≠ new :=
        fun heq => hnew (heq ▸ h)
      obtain ⟨space', hload, hbound, hframe⟩ :=
        @ih (new :: known) (Function.update space new (some (.ofTerm width t))) hnodup
          (fun path h => by rw [Function.update_of_ne (hne h), hfresh path h]) hscopes
          (fun path h => by
            by_cases heq : path = new
            · rw [heq, Function.update_self]
              rfl
            · rw [Function.update_of_ne heq]
              exact hknown path ((List.mem_cons.mp h).resolve_left heq))
      refine ⟨space', ?_, fun path u hu => ?_, fun path hpath => ?_⟩
      · rw [load, hnone]
        exact hload
      · rcases List.mem_cons.mp hu with h | h
        · obtain ⟨rfl, rfl⟩ := Event.declares.inj h
          rw [hframe path hnew, Function.update_self]
        · exact hbound path u h
      · obtain ⟨hne', hnot⟩ := not_or.mp (mt List.mem_cons.mpr hpath)
        rw [hframe path hnot, Function.update_of_ne hne']

namespace Space

/-- The object that a name denotes in a scope. A single segment is searched in the
scope, then in its parents. -/
def find (space : Space) (scope : AbsPath) (n : NameString) : Option AbsPath :=
  if n.root || n.parents != 0 || n.segs.length != 1 then
    if (space (n.resolve scope)).isSome then some (n.resolve scope) else none
  else
    ((List.range (scope.length + 1)).find? fun up =>
      (space (scope.take (scope.length - up) ++ n.segs)).isSome).map fun up =>
        scope.take (scope.length - up) ++ n.segs

/-- The first scope upwards that has the name. -/
theorem find_seg {space : Space} {scope path : AbsPath} {name : Bytes} (up : ℕ)
    (hup : up ≤ scope.length) (hpath : scope.take (scope.length - up) ++ [name] = path)
    (hbound : (space path).isSome)
    (hfree : ∀ j < up, space (scope.take (scope.length - j) ++ [name]) = none) :
    space.find scope ⟨false, 0, [name]⟩ = some path := by
  have hfirst : (List.range (scope.length + 1)).find? (fun up =>
      (space (scope.take (scope.length - up) ++ [name])).isSome) = some up := by
    rw [List.find?_range_eq_some]
    refine ⟨hpath ▸ hbound, List.mem_range.mpr (Nat.lt_succ_of_le hup), fun j hj => ?_⟩
    rw [hfree j hj]
    rfl
  rw [find, if_neg (by simp)]
  dsimp only
  rw [hfirst, Option.map_some, hpath]

/-- Write an integer to a name that holds one. -/
def assign (space : Space) (path : AbsPath) : Value → Option Space
  | .integer n =>
    match space path with
    | some (.data (.integer _)) =>
      some (Function.update space path (some (.data (.integer n))))
    | _ => none
  | _ => none

end Space

/-! ## Expressions, statements and calls -/

/-- What a method runs in: its own path and the arguments of the call. -/
structure Frame where
  scope : AbsPath
  args : List Value

/-- Evaluate an expression, nested ones with `ev` and calls with `call`. -/
def evalStep (ev : Space → Frame → Term → Option (Space × Value))
    (call : Space → AbsPath → List Value → Option (Space × Option Value))
    (space : Space) (frame : Frame) : Term → Option (Space × Value)
  | .arg i => (frame.args[i]?).map (space, ·)
  | .ref n => do
    let path ← space.find frame.scope n
    match space path with
    | some (.data v) => some (space, v)
    | some (.method 0 _) =>
      let (space, result) ← call space path []
      result.map (space, ·)
    | _ => none
  | .node .lEqual [a, b] [] => do
    let (space, x) ← ev space frame a
    let (space, y) ← ev space frame b
    match x, y with
    | .integer x, .integer y => some (space, .integer (if x = y then 2 ^ width - 1 else 0))
    | _, _ => none
  | .node .store [value, .ref n] [] => do
    let (space, v) ← ev space frame value
    let path ← space.find frame.scope n
    let space ← space.assign path v
    return (space, v)
  | t => (t.data width).map (space, ·)

/-- An `Else` at the front, and what follows it. -/
def splitElse : List Term → List Term × List Term
  | .node .else_ _ no :: rest => (no, rest)
  | rest => ([], rest)

/-- Execute statements up to the first `Return`, expressions with `ev` and
statements with `run`. -/
def execStep (ev : Space → Frame → Term → Option (Space × Value))
    (run : Space → Frame → List Term → Option (Space × Option Value))
    (space : Space) (frame : Frame) : List Term → Option (Space × Option Value)
  | [] => some (space, none)
  | .node .return_ [value] [] :: _ => (ev space frame value).map fun x => (x.1, some x.2)
  | .node .ifElse [predicate] yes :: rest => do
    match ← ev space frame predicate with
    | (space, .integer n) =>
      match ← run space frame (if n = 0 then (splitElse rest).1 else yes) with
      | (space, none) => run space frame (splitElse rest).2
      | returned => some returned
    | _ => none
  | t :: rest => do
    let (space, _) ← ev space frame t
    run space frame rest

mutual

/-- The value of a term, and the namespace after it was computed. -/
def eval : ℕ → Space → Frame → Term → Option (Space × Value)
  | 0 => fun _ _ _ => none
  | fuel + 1 => evalStep width (eval fuel) (invoke fuel)

/-- Run a list of terms. A value is returned where one of them returns it. -/
def exec : ℕ → Space → Frame → List Term → Option (Space × Option Value)
  | 0 => fun _ _ _ => none
  | fuel + 1 => execStep (eval fuel) (exec fuel)

/-- Call a method, with as many arguments as it takes. -/
def invoke : ℕ → Space → AbsPath → List Value → Option (Space × Option Value)
  | 0 => fun _ _ _ => none
  | fuel + 1 => fun space path args =>
    match space path with
    | some (.method n body) => if args.length = n then exec fuel space ⟨path, args⟩ body else none
    | _ => none

end

/-! ### Single steps -/

section

variable {space : Space} {path : AbsPath} {args : List Value}

/-- A name of data has the value it is bound to. -/
theorem eval_name {scope : AbsPath} {n : NameString} {v : Value}
    (hfind : space.find scope n = some path) (hdata : space path = some (.data v)) (fuel : ℕ) :
    eval width (fuel + 1) space ⟨scope, args⟩ (.ref n) = some (space, v) := by
  change evalStep width _ _ space ⟨scope, args⟩ (.ref n) = _
  simp only [evalStep, hfind, Option.bind_eq_bind, Option.bind_some, hdata]

/-- Calling a method with as many arguments as it takes runs its body in its own
scope. -/
theorem invoke_method {k : ℕ} {body : List Term}
    (hmethod : space path = some (.method k body)) (hargs : args.length = k) (fuel : ℕ) :
    invoke width (fuel + 1) space path args = exec width fuel space ⟨path, args⟩ body := by
  change (match space path with
    | some (.method n body) =>
      if args.length = n then exec width fuel space ⟨path, args⟩ body else none
    | _ => none) = _
  rw [hmethod]
  exact if_pos hargs

/-- What returns is a method, called with as many arguments as it takes. -/
theorem method_of_invoke {r : Space × Option Value} {fuel : ℕ}
    (h : invoke width fuel space path args = some r) :
    ∃ body, space path = some (.method args.length body) := by
  cases fuel with
  | zero => cases h
  | succ fuel =>
    rw [invoke] at h
    dsimp only at h
    split at h
    · next k body hmethod =>
      split_ifs at h with hargs
      exact ⟨body, hargs ▸ hmethod⟩
    · cases h

end

/-! ### More fuel -/

/-- Whatever one computation returns, the other returns. -/
def Extends {α β γ δ : Type} (f g : α → β → γ → Option δ) : Prop :=
  ∀ a b c r, f a b c = some r → g a b c = some r

section

variable {ev ev' : Space → Frame → Term → Option (Space × Value)}

/-- Where the computations inside of it extend, the evaluation of a term does. -/
theorem evalStep_extends {call call' : Space → AbsPath → List Value → Option (Space × Option Value)}
    (hev : Extends ev ev') (hcall : Extends call call') :
    Extends (evalStep width ev call) (evalStep width ev' call') := by
  intro space frame t r h
  unfold evalStep at h ⊢
  split at h
  · exact h
  · obtain ⟨path, hpath, h⟩ := Option.bind_eq_some_iff.mp h
    refine Option.bind_eq_some_iff.mpr ⟨path, hpath, ?_⟩
    split at h
    · exact h
    · obtain ⟨x, hx, h⟩ := Option.bind_eq_some_iff.mp h
      exact Option.bind_eq_some_iff.mpr ⟨x, hcall _ _ _ _ hx, h⟩
    · cases h
  · obtain ⟨x, hx, h⟩ := Option.bind_eq_some_iff.mp h
    obtain ⟨y, hy, h⟩ := Option.bind_eq_some_iff.mp h
    exact Option.bind_eq_some_iff.mpr ⟨x, hev _ _ _ _ hx,
      Option.bind_eq_some_iff.mpr ⟨y, hev _ _ _ _ hy, h⟩⟩
  · obtain ⟨x, hx, h⟩ := Option.bind_eq_some_iff.mp h
    exact Option.bind_eq_some_iff.mpr ⟨x, hev _ _ _ _ hx, h⟩
  · exact h

/-- Where the computations inside of it extend, the run of a list of terms does. -/
theorem execStep_extends {run run' : Space → Frame → List Term → Option (Space × Option Value)}
    (hev : Extends ev ev') (hrun : Extends run run') :
    Extends (execStep ev run) (execStep ev' run') := by
  intro space frame ts r h
  unfold execStep at h ⊢
  split at h
  · exact h
  · obtain ⟨x, hx, h⟩ := Option.map_eq_some_iff.mp h
    exact Option.map_eq_some_iff.mpr ⟨x, hev _ _ _ _ hx, h⟩
  · obtain ⟨x, hx, h⟩ := Option.bind_eq_some_iff.mp h
    refine Option.bind_eq_some_iff.mpr ⟨x, hev _ _ _ _ hx, ?_⟩
    split at h
    · obtain ⟨y, hy, h⟩ := Option.bind_eq_some_iff.mp h
      refine Option.bind_eq_some_iff.mpr ⟨y, hrun _ _ _ _ hy, ?_⟩
      split at h
      · exact hrun _ _ _ _ h
      · exact h
    · cases h
  · obtain ⟨x, hx, h⟩ := Option.bind_eq_some_iff.mp h
    exact Option.bind_eq_some_iff.mpr ⟨x, hev _ _ _ _ hx, hrun _ _ _ _ h⟩

end

/-- One more step of fuel changes no result. -/
theorem extends_succ (fuel : ℕ) :
    Extends (eval width fuel) (eval width (fuel + 1)) ∧
    Extends (exec width fuel) (exec width (fuel + 1)) ∧
    Extends (invoke width fuel) (invoke width (fuel + 1)) := by
  induction fuel with
  | zero =>
    refine ⟨?_, ?_, ?_⟩
    all_goals
      intro a b c r h
      cases h
  | succ fuel ih =>
    obtain ⟨heval, hexec, hinvoke⟩ := ih
    refine ⟨evalStep_extends width heval hinvoke, execStep_extends heval hexec, ?_⟩
    intro space path args r h
    rw [invoke] at h ⊢
    dsimp only at h ⊢
    split at h
    · split_ifs at h with hargs
      rw [if_pos hargs]
      exact hexec _ _ _ _ h
    · cases h

/-- **More fuel changes no result.** -/
theorem invoke_mono {fuel fuel' : ℕ} (hle : fuel ≤ fuel') :
    Extends (invoke width fuel) (invoke width fuel') := by
  induction hle with
  | refl => exact fun _ _ _ _ h => h
  | step _ ih => exact fun a b c r h => (extends_succ width _).2.2 a b c r (ih a b c r h)

/-! ### What does not occur in a term -/

mutual

/-- A production occurs nowhere in the term. -/
def Term.avoids (avoided : Production) : Term → Bool
  | .node op parts body => op != avoided && avoidsAll avoided parts && avoidsAll avoided body
  | _ => true

/-- A production occurs nowhere in several terms. -/
def avoidsAll (avoided : Production) : List Term → Bool
  | [] => true
  | t :: ts => t.avoids avoided && avoidsAll avoided ts

end

section

variable {avoided : Production}

/-- A list avoids a production when its first term and the others do. -/
theorem avoidsAll_cons {t : Term} {ts : List Term} :
    avoidsAll avoided (t :: ts) = true ↔ t.avoids avoided = true ∧ avoidsAll avoided ts = true := by
  rw [avoidsAll, Bool.and_eq_true]

/-- A node avoids a production when it is of another one and its parts and its body
avoid it. -/
theorem avoids_node {op : Production} {parts body : List Term} :
    (Term.node op parts body).avoids avoided = true ↔
      op ≠ avoided ∧ avoidsAll avoided parts = true ∧ avoidsAll avoided body = true := by
  rw [Term.avoids, Bool.and_eq_true, Bool.and_eq_true, bne_iff_ne, and_assoc]

/-- Terms that are made one by one avoid a production when each of them does. -/
theorem avoidsAll_map {α : Type} {f : α → Term} {l : List α}
    (h : ∀ a ∈ l, (f a).avoids avoided = true) : avoidsAll avoided (l.map f) = true := by
  induction l with
  | nil => rfl
  | cons a l ih =>
    obtain ⟨ha, hl⟩ := List.forall_mem_cons.mp h
    exact avoidsAll_cons.mpr ⟨ha, ih hl⟩

/-- The else of an if avoids what the whole list avoids. -/
theorem avoidsAll_splitElse {ts : List Term} (h : avoidsAll avoided ts = true) :
    avoidsAll avoided (splitElse ts).1 = true ∧ avoidsAll avoided (splitElse ts).2 = true := by
  unfold splitElse
  split
  · obtain ⟨helse, hrest⟩ := avoidsAll_cons.mp h
    exact ⟨(avoids_node.mp helse).2.2, hrest⟩
  · exact ⟨rfl, h⟩

mutual

/-- What a term without a production declares does not have it either. -/
theorem avoids_of_events {t : Term} (h : t.avoids avoided = true) {scope path : AbsPath} {u : Term}
    (hu : .declares path u ∈ t.events scope) : u.avoids avoided = true := by
  cases t with
  | node op parts body =>
    rw [Term.events.eq_def] at hu
    dsimp only at hu
    split at hu
    · rcases List.mem_append.mp hu with hu | hu
      · rcases List.mem_append.mp hu with hu | hu
        · split_ifs at hu
          · obtain ⟨-, rfl⟩ := Event.declares.inj (List.mem_singleton.mp hu)
            exact h
          · cases hu
        · split_ifs at hu
          · cases List.mem_singleton.mp hu
          · cases hu
      · split_ifs at hu
        · exact avoids_of_eventsAll (avoids_node.mp h).2.2 hu
        · cases hu
    · cases hu
  | _ => cases hu

/-- What a block declares avoids what the block avoids. -/
theorem avoids_of_eventsAll {ts : List Term} (h : avoidsAll avoided ts = true)
    {scope path : AbsPath} {u : Term} (hu : .declares path u ∈ eventsAll scope ts) :
    u.avoids avoided = true := by
  cases ts with
  | nil => cases hu
  | cons t ts =>
    obtain ⟨ht, hts⟩ := avoidsAll_cons.mp h
    rcases List.mem_append.mp hu with hu | hu
    · exact avoids_of_events ht hu
    · exact avoids_of_eventsAll hts hu

end

end

/-- An object that is a method was declared as one, with the number of its
arguments in the lowest three bits of its flags. -/
theorem ofTerm_eq_method {t : Term} {n : ℕ} {body : List Term}
    (h : Object.ofTerm width t = .method n body) :
    ∃ name flags, t = .node .method [name, .int flags] body ∧ n = flags % 8 := by
  unfold Object.ofTerm at h
  split at h
  · split at h <;> cases h
  · obtain ⟨rfl, rfl⟩ := Object.method.inj h
    exact ⟨_, _, rfl, rfl⟩
  · cases h

/-- **Frame**: in a namespace whose argumentless methods store nothing, a term
without a `Store` changes nothing. -/
theorem space_unchanged {space : Space}
    (h : ∀ path body, space path = some (.method 0 body) → avoidsAll .store body = true)
    (fuel : ℕ) :
    (∀ frame t r, t.avoids .store = true → eval width fuel space frame t = some r → r.1 = space) ∧
    (∀ frame ts r, avoidsAll .store ts = true → exec width fuel space frame ts = some r →
      r.1 = space) ∧
    ∀ path n body args r, space path = some (.method n body) → avoidsAll .store body = true →
      invoke width fuel space path args = some r → r.1 = space := by
  induction fuel with
  | zero =>
    refine ⟨?_, ?_, ?_⟩
    · intro frame t r _ hr
      cases hr
    · intro frame ts r _ hr
      cases hr
    · intro path n body args r _ _ hr
      cases hr
  | succ fuel ih =>
    obtain ⟨heval, hexec, hinvoke⟩ := ih
    refine ⟨fun frame t r ht hr => ?_, fun frame ts r hts hr => ?_,
      fun path n body args r hpath hbody hr => ?_⟩
    · change evalStep width _ _ space frame t = some r at hr
      unfold evalStep at hr
      split at hr
      · obtain ⟨v, -, rfl⟩ := Option.map_eq_some_iff.mp hr
        rfl
      · obtain ⟨path, -, hr⟩ := Option.bind_eq_some_iff.mp hr
        split at hr
        · obtain rfl := Option.some.inj hr
          rfl
        · next body hmethod =>
          obtain ⟨x, hx, hr⟩ := Option.bind_eq_some_iff.mp hr
          obtain ⟨v, -, rfl⟩ := Option.map_eq_some_iff.mp hr
          exact hinvoke _ _ _ _ _ hmethod (h _ _ hmethod) hx
        · cases hr
      · next a b =>
        obtain ⟨-, hparts, -⟩ := avoids_node.mp ht
        obtain ⟨ha, hparts⟩ := avoidsAll_cons.mp hparts
        obtain ⟨hb, -⟩ := avoidsAll_cons.mp hparts
        obtain ⟨x, hx, hrest⟩ := Option.bind_eq_some_iff.mp hr
        have hleft := heval frame a x ha hx
        obtain ⟨y, hy, hequal⟩ := Option.bind_eq_some_iff.mp hrest
        rw [hleft] at hy
        have hright := heval frame b y hb hy
        dsimp only at hequal
        split at hequal
        · obtain rfl := Option.some.inj hequal
          exact hright
        · cases hequal
      · exact absurd rfl (avoids_node.mp ht).1
      · obtain ⟨v, -, rfl⟩ := Option.map_eq_some_iff.mp hr
        rfl
    · change execStep _ _ space frame ts = some r at hr
      unfold execStep at hr
      split at hr
      · obtain rfl := Option.some.inj hr
        rfl
      · obtain ⟨x, hx, rfl⟩ := Option.map_eq_some_iff.mp hr
        obtain ⟨-, hparts, -⟩ := avoids_node.mp (avoidsAll_cons.mp hts).1
        exact heval _ _ _ (avoidsAll_cons.mp hparts).1 hx
      · next predicate yes rest =>
        obtain ⟨hif, hrest⟩ := avoidsAll_cons.mp hts
        obtain ⟨-, hparts, hyes⟩ := avoids_node.mp hif
        obtain ⟨hno, hrest⟩ := avoidsAll_splitElse hrest
        obtain ⟨x, hx, hbranch⟩ := Option.bind_eq_some_iff.mp hr
        have hpredicate := heval frame predicate x (avoidsAll_cons.mp hparts).1 hx
        split at hbranch
        · next space₁ n =>
          obtain rfl : space₁ = space := hpredicate
          obtain ⟨y, hy, hafter⟩ := Option.bind_eq_some_iff.mp hbranch
          have hfree : avoidsAll .store (if n = 0 then (splitElse rest).1 else yes) = true := by
            split_ifs <;> assumption
          have hran := hexec frame _ y hfree hy
          split at hafter
          · next space₂ =>
            obtain rfl : space₂ = space₁ := hran
            exact hexec _ _ _ hrest hafter
          · obtain rfl := Option.some.inj hafter
            exact hran
        · cases hbranch
      · next t rest _ _ =>
        obtain ⟨ht, hrest⟩ := avoidsAll_cons.mp hts
        obtain ⟨⟨space₁, v⟩, hx, hafter⟩ := Option.bind_eq_some_iff.mp hr
        have hfirst : space₁ = space := heval frame t (space₁, v) ht hx
        dsimp only at hafter
        rw [hfirst] at hafter
        exact hexec frame rest r hrest hafter
    · rw [invoke] at hr
      dsimp only at hr
      rw [hpath] at hr
      dsimp only at hr
      split_ifs at hr with hargs
      exact hexec _ _ _ hbody hr

/-! ## Histories of calls -/

/-- A call returns: the namespace it leaves and its result, if it has one. -/
def Calls (space : Space) (path : AbsPath) (args : List Value) (r : Space × Option Value) : Prop :=
  ∃ fuel, invoke width fuel space path args = some r

/-- A call has one result. -/
theorem Calls.unique {space : Space} {path : AbsPath} {args : List Value}
    {r r' : Space × Option Value} (h : Calls width space path args r)
    (h' : Calls width space path args r') : r = r' := by
  obtain ⟨fuel, h⟩ := h
  obtain ⟨fuel', h'⟩ := h'
  have hr := invoke_mono width (Nat.le_max_left fuel fuel') _ _ _ _ h
  have hr' := invoke_mono width (Nat.le_max_right fuel fuel') _ _ _ _ h'
  exact Option.some.inj (hr.symm.trans hr')

/-- The path of a method and the arguments it is called with. -/
abbrev Call := AbsPath × List Value

/-- One call after the other, all of which return. -/
inductive Runs : Space → List Call → Space → Prop
  | nil (space : Space) : Runs space [] space
  | cons {space between final : Space} {call : Call} {calls : List Call} {result : Option Value}
      (first : Calls width space call.1 call.2 (between, result))
      (rest : Runs between calls final) : Runs space (call :: calls) final

/-- **Histories simulate**: what every single call keeps in step with a ghost
state is in step after any history. -/
theorem Runs.simulates {σ : Type u} {R : σ → Space → Prop} {step : σ → Call → σ}
    (hstep : ∀ a space call r, R a space → Calls width space call.1 call.2 r →
      R (step a call) r.1)
    {a : σ} {space final : Space} {calls : List Call} (hrel : R a space)
    (hruns : Runs width space calls final) : R (calls.foldl step a) final := by
  induction hruns generalizing a with
  | nil => exact hrel
  | cons first _ ih => exact ih (hstep _ _ _ _ hrel first)

end

end AcpiTables
