import AcpiTables.Grammar

/-!
# Terms in their places, and the namespace they declare

Two things the bytes alone do not say.

* `wellFormed` — the reader of the grammar nests any term anywhere. The
  grammar's own nonterminals are narrower: a `TermList` holds objects and
  statements, a `DataRefObject` no expression, an `Else` stands right after an
  `If`. `Place` names these positions.
* `events` — the effect of a term list on the namespace, in order: objects
  declared under absolute paths and scopes opened. The body of a method declares
  nothing until it runs.
-/

universe u

namespace AcpiTables

/-! ## Places -/

/-- A position in the grammar that a term can stand in. -/
inductive Place where
  | nameString
  | number
  /-- in a `TermList` -/
  | object
  /-- `TermArg` -/
  | termArg
  /-- `SuperName` -/
  | superName
  /-- `Target`: a `SuperName` or the null name -/
  | target
  /-- `DataRefObject` -/
  | data
  /-- `PackageElement` -/
  | element
  | bytes
  | fieldUnit

namespace Production

/-- The statements and the objects that are declared; all others are expressions. -/
def isExpression : Production → Bool
  | name | scope | method | mutex | createField | release | opRegion | field | device | powerRes
  | notify | createDWordField | createQWordField | ifElse | else_ | while_ | return_ => false
  | _ => true

/-- The places of a production's parts. -/
def partPlaces : Production → List Place
  | name => [.nameString, .data]
  | scope | device => [.nameString]
  | buffer | varPackage | ifElse | while_ | return_ | derefOf => [.termArg]
  | package => [.number]
  | method | mutex | acquire | field => [.nameString, .number]
  | release => [.nameString]
  | powerRes => [.nameString, .number, .number]
  | opRegion => [.nameString, .number, .termArg, .termArg]
  | createField => [.termArg, .termArg, .termArg, .nameString]
  | createDWordField | createQWordField => [.termArg, .termArg, .nameString]
  | store => [.termArg, .superName]
  | add | concat | subtract | multiply | shiftLeft | shiftRight | and | nand | or | nor | xor
  | concatRes | mod | index | toString => [.termArg, .termArg, .target]
  | notify => [.superName, .termArg]
  | sizeOf | objectType => [.superName]
  | lNotEqual | lLessEqual | lGreaterEqual | lEqual | lGreater | lLess => [.termArg, .termArg]
  | toBuffer | toInteger => [.termArg, .target]
  | mid => [.termArg, .termArg, .termArg, .target]
  | else_ => []

/-- The place of what fills a production's frame. -/
def bodyPlace : Production → Place
  | package | varPackage => .element
  | buffer => .bytes
  | field => .fieldUnit
  | _ => .object

end Production

/-- Whether a term can stand in a place, by its outermost form. -/
def Place.admits : Place → Term → Bool
  | nameString, .ref _ => true
  | number, .int _ => true
  | object, .node _ _ _ | object, .ref _ => true
  | termArg, .int _ | termArg, .ones | termArg, .str _ | termArg, .ref _ | termArg, .arg _
  | termArg, .localVar _ => true
  | termArg, .node op _ _ => op.isExpression
  | superName, .ref _ | superName, .arg _ | superName, .localVar _ => true
  | superName, .node op _ _ => op == .derefOf || op == .index
  | target, .ref _ | target, .arg _ | target, .localVar _ | target, .int 0 => true
  | target, .node op _ _ => op == .derefOf || op == .index
  | data, .int _ | data, .ones | data, .str _ => true
  | data, .node op _ _ => op == .buffer || op == .package || op == .varPackage
  | element, .int _ | element, .ones | element, .str _ | element, .ref _ => true
  | element, .node op _ _ => op == .buffer || op == .package || op == .varPackage
  | bytes, .bytes _ => true
  | fieldUnit, .fieldUnit _ _ => true
  | _, _ => false

/-- Every term stands in the place that is its turn, with none left over. -/
def admitsEach : List Place → List Term → Bool
  | [], [] => true
  | place :: places, t :: ts => place.admits t && admitsEach places ts
  | _, _ => false

/-- The term is an else. -/
def Term.isElse : Term → Bool
  | .node .else_ _ _ => true
  | _ => false

/-- The term is an if. -/
def Term.isIf : Term → Bool
  | .node .ifElse _ _ => true
  | _ => false

/-- Every `Else` stands right after an `If`. -/
def elseAfterIf : List Term → Bool
  | [] => true
  | [t] => !t.isElse
  | t :: u :: ts =>
    if t.isElse then false else if t.isIf && u.isElse then elseAfterIf ts else elseAfterIf (u :: ts)

/-- The characters of an `AsciiCharList`. -/
def isAsciiCharList (chars : Bytes) : Bool := chars.all fun b => 1 ≤ b && b ≤ 0x7f

/-- A string is one of ASCII characters exactly when each of its bytes is one. -/
theorem isAsciiCharList_iff {chars : Bytes} :
    isAsciiCharList chars = true ↔ ∀ b ∈ chars, 1 ≤ b ∧ b ≤ 0x7f := by
  simp [isAsciiCharList]

/-- The conditions on one node: its parts and its body in their places, at most
as many elements in a package as it announces, and strings of ASCII characters. -/
def Term.wellFormedHere : Term → Bool
  | .str chars => isAsciiCharList chars
  | .node op parts body =>
    admitsEach op.partPlaces parts && body.all op.bodyPlace.admits && elseAfterIf body &&
      match op, parts with
      | .package, [.int n] => body.length ≤ n
      | _, _ => true
  | _ => true

mutual

/-- The term and all terms inside it are where the grammar allows them, and what
the grammar leaves to prose holds of them. -/
def Term.wellFormed : Term → Bool
  | .node op parts body =>
    (Term.node op parts body).wellFormedHere && wellFormedAll parts && wellFormedAll body
  | .str chars => (Term.str chars).wellFormedHere
  | _ => true

/-- All terms of a list are well formed. -/
def wellFormedAll : List Term → Bool
  | [] => true
  | t :: ts => t.wellFormed && wellFormedAll ts

end

/-- The recursion over a list is `List.all`. -/
@[simp] theorem wellFormedAll_eq (ts : List Term) : wellFormedAll ts = ts.all Term.wellFormed := by
  induction ts with
  | nil => rfl
  | cons t ts ih => rw [wellFormedAll, ih, List.all_cons]

/-- A `TermList`: objects and statements, each well formed. -/
def wellFormedTermList (ts : List Term) : Bool :=
  ts.all Place.object.admits && elseAfterIf ts && ts.all Term.wellFormed

/-- Without an `Else` there is nothing to follow. -/
theorem elseAfterIf_of_forall {ts : List Term} (h : ∀ t ∈ ts, t.isElse = false) :
    elseAfterIf ts = true := by
  induction ts with
  | nil => rfl
  | cons t ts ih =>
    obtain ⟨ht, hts⟩ := List.forall_mem_cons.mp h
    cases ts with
    | nil => simp [elseAfterIf, ht]
    | cons u ts => simp [elseAfterIf, ht, ih hts, hts u (List.mem_cons_self ..)]

/-- A list of objects without an else is well formed when each of them is. -/
theorem wellFormedTermList_of_forall {ts : List Term}
    (h : ∀ t ∈ ts, Place.object.admits t = true ∧ t.isElse = false ∧ t.wellFormed = true) :
    wellFormedTermList ts = true := by
  simp only [wellFormedTermList, Bool.and_eq_true, List.all_eq_true]
  exact ⟨⟨fun t ht => (h t ht).1, elseAfterIf_of_forall fun t ht => (h t ht).2.1⟩,
    fun t ht => (h t ht).2.2⟩

/-- A named object is well formed when its value is data. -/
theorem wellFormed_name (n : NameString) (value : Term) :
    (Term.node .name [.ref n, value] []).wellFormed =
      (Place.data.admits value && value.wellFormed) := by
  simp [Term.wellFormed, Term.wellFormedHere, Production.partPlaces, admitsEach, Place.admits,
    elseAfterIf]

/-- A device or a scope is well formed when its body is. -/
theorem wellFormed_device (n : NameString) (body : List Term) :
    (Term.node .device [.ref n] body).wellFormed = wellFormedTermList body := by
  simp [Term.wellFormed, Term.wellFormedHere, Production.partPlaces, Production.bodyPlace,
    admitsEach, Place.admits, wellFormedTermList]

/-- A scope is well formed when its body is. -/
theorem wellFormed_scope (n : NameString) (body : List Term) :
    (Term.node .scope [.ref n] body).wellFormed = wellFormedTermList body := by
  simp [Term.wellFormed, Term.wellFormedHere, Production.partPlaces, Production.bodyPlace,
    admitsEach, Place.admits, wellFormedTermList]

/-! ## The namespace -/

/-- A path from the root. -/
abbrev AbsPath := List Bytes

/-- The path a namestring denotes in a scope. -/
def NameString.resolve (scope : AbsPath) (n : NameString) : AbsPath :=
  if n.root then n.segs else scope.take (scope.length - n.parents) ++ n.segs

/-- One effect on the namespace. -/
inductive Event where
  | declares (path : AbsPath) (object : Term)
  | opens (path : AbsPath)

namespace Production

/-- The productions that declare an object under their first part. -/
def declares : Production → Bool
  | name | method | mutex | opRegion | device | powerRes => true
  | _ => false

/-- The productions whose body is read in a scope of its own. -/
def hasScope : Production → Bool
  | scope | device | powerRes => true
  | _ => false

end Production

mutual

/-- What a term does to the namespace, in a scope. -/
def Term.events (scope : AbsPath) : Term → List Event
  | .node op parts body =>
    match parts with
    | .ref n :: _ =>
      (if op.declares then [Event.declares (n.resolve scope) (.node op parts body)] else []) ++
        (if op == .scope then [.opens (n.resolve scope)] else []) ++
        if op.hasScope then eventsAll (n.resolve scope) body else []
    | _ => []
  | _ => []

/-- The effect of a list of terms, one after the other. -/
def eventsAll (scope : AbsPath) : List Term → List Event
  | [] => []
  | t :: ts => t.events scope ++ eventsAll scope ts

end

/-- The recursion over a list is `List.flatMap`. -/
@[simp] theorem eventsAll_eq (scope : AbsPath) (ts : List Term) :
    eventsAll scope ts = ts.flatMap (Term.events scope) := by
  induction ts with
  | nil => rfl
  | cons t ts ih => rw [eventsAll, ih, List.flatMap_cons]

/-! ### What each production does -/

section

variable (scope : AbsPath) (n : NameString) (ps body : List Term)

/-- A named object declares its name. -/
theorem events_name : (Term.node .name (.ref n :: ps) body).events scope =
    [.declares (n.resolve scope) (.node .name (.ref n :: ps) body)] := rfl

/-- A method declares its name, and nothing of its body. -/
theorem events_method : (Term.node .method (.ref n :: ps) body).events scope =
    [.declares (n.resolve scope) (.node .method (.ref n :: ps) body)] := rfl

/-- A device declares its name, and its body inside it. -/
theorem events_device : (Term.node .device (.ref n :: ps) body).events scope =
    .declares (n.resolve scope) (.node .device (.ref n :: ps) body) ::
      body.flatMap (Term.events (n.resolve scope)) := by
  simp [Term.events, Production.declares, Production.hasScope]

/-- A scope is opened, and its body is declared inside it. -/
theorem events_scope : (Term.node .scope (.ref n :: ps) body).events scope =
    .opens (n.resolve scope) :: body.flatMap (Term.events (n.resolve scope)) := by
  simp [Term.events, Production.declares, Production.hasScope]

end

/-- The effects of a whole definition block. -/
def namespaceEvents (ts : List Term) : List Event := ts.flatMap (Term.events [])

/-- The absolute paths that are declared, in order. -/
def declaredPaths (events : List Event) : List AbsPath :=
  events.filterMap fun
    | .declares path _ => some path
    | .opens _ => none

/-- A device declared directly in a scope: its name and what it contains. -/
def Event.deviceIn (scope : AbsPath) : Event → Option (Bytes × List Term)
  | .declares path (.node .device _ body) =>
    match path.getLast? with
    | some seg => if path.dropLast = scope then some (seg, body) else none
    | none => none
  | _ => none

/-- The devices declared directly in a scope, in order, over all its openings. -/
def devicesIn (scope : AbsPath) (events : List Event) : List (Bytes × List Term) :=
  events.filterMap (Event.deviceIn scope)

/-- A device is found in the scope it was declared in. -/
theorem deviceIn_device (scope parent : AbsPath) (seg : Bytes) (ps body : List Term) :
    (Event.declares (parent ++ [seg]) (.node .device ps body)).deviceIn scope =
      if parent = scope then some (seg, body) else none := by
  simp [Event.deviceIn]

/-- Opening a scope adds no device. -/
theorem devicesIn_opens (scope path : AbsPath) (events : List Event) :
    devicesIn scope (.opens path :: events) = devicesIn scope events := rfl

/-- The devices of two lists of events, one after the other. -/
theorem devicesIn_append (scope : AbsPath) (xs ys : List Event) :
    devicesIn scope (xs ++ ys) = devicesIn scope xs ++ devicesIn scope ys :=
  List.filterMap_append ..

/-- The devices of the events of several parts, one after the other. -/
theorem devicesIn_flatMap {α : Type u} (scope : AbsPath) (l : List α) (f : α → List Event) :
    devicesIn scope (l.flatMap f) = l.flatMap fun a => devicesIn scope (f a) :=
  List.filterMap_flatMap ..

/-! ### Absolute paths -/

/-- The paths of two lists of events, one after the other. -/
theorem declaredPaths_append (xs ys : List Event) :
    declaredPaths (xs ++ ys) = declaredPaths xs ++ declaredPaths ys :=
  List.filterMap_append ..

/-- The paths of the events of several parts, one after the other. -/
theorem declaredPaths_flatMap {α : Type u} (l : List α) (f : α → List Event) :
    declaredPaths (l.flatMap f) = l.flatMap fun a => declaredPaths (f a) :=
  List.filterMap_flatMap ..

/-- An object and the names directly below it. -/
def memberPaths (scope : AbsPath) (seg : Bytes) (names : List Bytes) : List AbsPath :=
  (scope ++ [seg]) :: names.map fun name => scope ++ [seg, name]

/-- The members of a device lie at and below its name. -/
theorem prefix_of_mem_memberPaths {scope path : AbsPath} {seg : Bytes} {names : List Bytes}
    (h : path ∈ memberPaths scope seg names) : scope ++ [seg] <+: path := by
  rcases List.mem_cons.mp h with rfl | h
  · exact List.prefix_rfl
  · obtain ⟨name, -, rfl⟩ := List.mem_map.mp h
    exact ⟨[name], by simp⟩

/-- A device with distinct members declares no path twice. -/
theorem nodup_memberPaths {scope : AbsPath} {seg : Bytes} {names : List Bytes}
    (h : names.Nodup) : (memberPaths scope seg names).Nodup := by
  refine List.nodup_cons.mpr ⟨?_, ?_⟩
  · intro hmem
    obtain ⟨name, -, heq⟩ := List.mem_map.mp hmem
    have := congrArg List.length heq
    simp at this
  · exact h.map fun name name' heq => by simpa using heq

/-- **Members of one scope under different names do not collide.** -/
theorem nodup_flatMap_memberPaths {α : Type u} {scope : AbsPath} {l : List α} {seg : α → Bytes}
    {names : α → List Bytes} (hseg : l.Pairwise fun a b => seg a ≠ seg b)
    (hnames : ∀ a ∈ l, (names a).Nodup) :
    (l.flatMap fun a => memberPaths scope (seg a) (names a)).Nodup := by
  refine List.nodup_flatMap.mpr ⟨fun a ha => nodup_memberPaths (hnames a ha), ?_⟩
  refine hseg.imp fun {a b} hab path ha hb => hab ?_
  -- both names are read off the path, one level below the scope
  have hpre := List.prefix_of_prefix_length_le (prefix_of_mem_memberPaths ha)
    (prefix_of_mem_memberPaths hb) (by simp)
  simpa using hpre.eq_of_length (by simp)

/-- The scopes that exist before anything is declared. -/
def predefinedScopes : List AbsPath :=
  [] :: ["_GPE", "_PR_", "_SB_", "_SI_", "_TZ_"].map fun name =>
    [name.toList.map fun c => UInt8.ofNat c.toNat]

/-- Every scope that is opened is predefined or was declared before. -/
def ScopesDefined (events : List Event) : Prop :=
  ∀ before path after, events = before ++ .opens path :: after →
    path ∈ predefinedScopes ∨ path ∈ declaredPaths before

/-- `ScopesDefined`, by recursion, where some paths are known at the start. -/
def ScopesKnown (known : List AbsPath) : List Event → Prop
  | [] => True
  | .declares path _ :: events => ScopesKnown (path :: known) events
  | .opens path :: events => path ∈ known ∧ ScopesKnown known events

/-- With more scopes known, the scopes that are opened are still known. -/
theorem ScopesKnown.mono {known known' : List AbsPath} {events : List Event}
    (h : ScopesKnown known events) (hle : known ⊆ known') : ScopesKnown known' events := by
  induction events generalizing known known' with
  | nil => trivial
  | cons event events ih =>
    cases event with
    | declares path object => exact ih h (List.cons_subset_cons path hle)
    | opens path => exact ⟨hle h.1, ih h.2 hle⟩

/-- Two lists of events, when the second opens only scopes that are known or
declared by the first. -/
theorem ScopesKnown.append {known : List AbsPath} {xs ys : List Event}
    (hxs : ScopesKnown known xs) (hys : ScopesKnown (declaredPaths xs ++ known) ys) :
    ScopesKnown known (xs ++ ys) := by
  induction xs generalizing known with
  | nil => exact hys
  | cons event xs ih =>
    cases event with
    | declares path object =>
      refine ih hxs (hys.mono fun p hp => ?_)
      simp only [declaredPaths, List.filterMap_cons, List.cons_append, List.mem_cons,
        List.mem_append] at hp ⊢
      tauto
    | opens path => exact ⟨hxs.1, ih hxs.2 hys⟩

/-- Declarations ask for nothing. -/
theorem scopesKnown_of_declares {known : List AbsPath} {events : List Event}
    (h : ∀ event ∈ events, ∃ path object, event = .declares path object) :
    ScopesKnown known events := by
  induction events generalizing known with
  | nil => trivial
  | cons event events ih =>
    obtain ⟨⟨path, object, rfl⟩, hevents⟩ := List.forall_mem_cons.mp h
    exact ih hevents

/-- Scopes that are predefined or declared before they are opened are defined. -/
theorem scopesDefined_of_known {events : List Event} (h : ScopesKnown predefinedScopes events) :
    ScopesDefined events := by
  have hgen : ∀ (before : List Event) (known : List AbsPath) path after,
      ScopesKnown known (before ++ .opens path :: after) →
        path ∈ known ∨ path ∈ declaredPaths before := by
    intro before
    induction before with
    | nil => exact fun known path after h => .inl h.1
    | cons event before ih =>
      intro known path after h
      cases event with
      | declares path' object =>
        rcases ih _ _ _ h with h | h
        · rcases List.mem_cons.mp h with rfl | h
          · exact .inr (List.mem_cons_self ..)
          · exact .inl h
        · exact .inr (List.mem_cons_of_mem _ h)
      | opens path' => exact ih _ _ _ h.2
  rintro before path after rfl
  exact hgen before _ path after h

/-- The values that a name is given directly in a list of terms. -/
def valuesOf (seg : Bytes) (ts : List Term) : List Term :=
  ts.filterMap fun
    | .node .name [.ref n, value] _ => if n = ⟨false, 0, [seg]⟩ then some value else none
    | _ => none

end AcpiTables
