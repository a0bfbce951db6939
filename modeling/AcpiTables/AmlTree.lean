import AcpiTables.Encoding

/-!
# Term trees

`AmlTree` is the syntax of the objects that can be built with the constructors
of the object layer (all but `MethodCall` and the bare field name of
`Name::new_field_name`, whose bytecode does not say where it ends). A tree has
two readings:

* `object` — the object it builds, with the constructors of the object layer;
* `encode` — the word that object writes.

They agree on every tree all of whose nodes pass their own assertions
(`writes_object`). A condition on nodes is lifted to trees by `Everywhere`,
whose derivations are what inductions over trees run on.
-/

namespace AcpiTables

inductive AmlTree where
  | zero
  | one
  | ones
  | byte (v : UInt8)
  | word (v : UInt16)
  | dword (v : UInt32)
  | qword (v : UInt64)
  | string (v : String)
  | eisaName (v : EISAName)
  | path (p : Path)
  | name (p : Path) (inner : AmlTree)
  | package (children : List AmlTree)
  /-- a builder to which the elements are added one by one -/
  | packageBuilder (elements : List AmlTree)
  | varPackageTerm (data : AmlTree)
  | bufferTerm (data : AmlTree)
  | bufferData (data : Bytes)
  | uuid (u : Uuid)
  | resourceTemplate (children : List Descriptor)
  | scope (p : Path) (children : List AmlTree)
  | device (p : Path) (children : List AmlTree)
  | method (p : Path) (args : UInt8) (serialized : Bool) (children : List AmlTree)
  | powerResource (p : Path) (level : UInt8) (order : UInt16) (children : List AmlTree)
  | field (f : FieldObject)
  | opRegion (p : Path) (space : OpRegionSpace) (offset length : AmlTree)
  | mutex (m : Mutex)
  | acquire (a : Acquire)
  | release (r : Release)
  | notify (object value : AmlTree)
  | store (target value : AmlTree)
  | ifTree (predicate : AmlTree) (children : List AmlTree)
  | elseTree (body : List AmlTree)
  | whileTree (predicate : AmlTree) (children : List AmlTree)
  | compare (op : CompareOp) (left right : AmlTree)
  | onObject (op : ObjectOp) (a : AmlTree)
  | binary (op : BinaryOp) (target a b : AmlTree)
  | convert (op : ConvertOp) (target a : AmlTree)
  | createField (nameString source bitIndex bitNum : AmlTree)
  | mid (source index length result : AmlTree)
  | arg (x : Arg)
  | localVar (x : Local)

namespace AmlTree

/-! ## The object a tree builds -/

mutual

/-- The object built by the constructors of the object layer. -/
def object : AmlTree → DynAml
  | zero => dyn ZeroObject.zero
  | one => dyn OneObject.one
  | ones => dyn OnesObject.ones
  | byte v => dyn v
  | word v => dyn v
  | dword v => dyn v
  | qword v => dyn v
  | string v => dyn v
  | eisaName v => dyn v
  | path p => dyn p
  | name p inner => ⟨fun sink => do toAmlBytes (← Name.new p inner.object) sink⟩
  | package children => dyn (Package.mk (objects children))
  | packageBuilder elements =>
    ⟨fun sink => do
      toAmlBytes (← (objects elements).foldlM PackageBuilder.addElement PackageBuilder.new) sink⟩
  | varPackageTerm data => dyn (VarPackageTerm.mk data.object)
  | bufferTerm data => dyn (BufferTerm.mk data.object)
  | bufferData data => dyn (BufferData.mk data)
  | uuid u => dyn u
  | resourceTemplate children => dyn (ResourceTemplate.mk (children.map Descriptor.object))
  | scope p children => dyn (Scope.mk p (objects children))
  | device p children => dyn (Device.mk p (objects children))
  | method p args serialized children => dyn (Method.new p args serialized (objects children))
  | powerResource p level order children =>
    dyn (PowerResource.mk p level order (objects children))
  | field f => dyn f
  | opRegion p space offset length => dyn (OpRegion.mk p space offset.object length.object)
  | mutex m => dyn m
  | acquire a => dyn a
  | release r => dyn r
  | notify object value => dyn (Notify.mk object.object value.object)
  | store target value => dyn (Store.mk target.object value.object)
  | ifTree predicate children => dyn (If.mk predicate.object (objects children))
  | elseTree body => dyn (Else.mk (objects body))
  | whileTree predicate children => dyn (While.mk predicate.object (objects children))
  | compare op left right => dyn (Compare.mk left.object right.object : Compare op)
  | onObject op a => dyn (OnObject.mk a.object : OnObject op)
  | binary op target a b => dyn (Binary.mk target.object a.object b.object : Binary op)
  | convert op target a => dyn (Convert.mk target.object a.object : Convert op)
  | createField nameString source bitIndex bitNum =>
    dyn (CreateField.mk nameString.object source.object bitIndex.object bitNum.object)
  | mid source index length result =>
    dyn (Mid.mk source.object index.object length.object result.object)
  | arg x => dyn x
  | localVar x => dyn x

def objects : List AmlTree → List DynAml
  | [] => []
  | t :: ts => t.object :: objects ts

end

/-- The objects of a list are those of its trees. -/
@[simp] theorem objects_eq (ts : List AmlTree) : objects ts = ts.map object := by
  induction ts with
  | nil => rfl
  | cons t ts ih => rw [objects, ih, List.map_cons]

/-! ## The word it writes -/

mutual

/-- The word the object writes when no assertion fails. -/
def encode : AmlTree → Bytes
  | zero => [zeroOp]
  | one => [oneOp]
  | ones => [onesOp]
  | byte v => encodeInt v.toNat
  | word v => encodeInt v.toNat
  | dword v => encodeInt v.toNat
  | qword v => encodeInt v.toNat
  | string v => encodeString v
  | eisaName v => encodeInt v.value.toNat
  | path p => p.encode
  | name p inner => nameOp :: p.encode ++ inner.encode
  | package children =>
    frame [packageOp] (UInt8.ofNat children.length :: encodeAll children)
  | packageBuilder elements =>
    frame [packageOp] (UInt8.ofNat elements.length :: encodeAll elements)
  | varPackageTerm data => frame [varPackageOp] data.encode
  | bufferTerm data => frame [bufferOp] data.encode
  | bufferData data => frame [bufferOp] (sizedContent data)
  | uuid u => frame [bufferOp] (sizedContent u.name.data)
  | resourceTemplate children =>
    frame [bufferOp] (sizedContent (templateContent (children.flatMap Descriptor.encode)))
  | scope p children => frame [scopeOp] (p.encode ++ encodeAll children)
  | device p children => frame [extOpPrefix, deviceOp] (p.encode ++ encodeAll children)
  | method p args serialized children =>
    frame [methodOp]
      (p.encode ++ (Method.new p args serialized []).flags :: encodeAll children)
  | powerResource p level order children =>
    frame [powerResourceOp, extOpPrefix]
      (p.encode ++ level :: MachineInt.toLeBytes order ++ encodeAll children)
  | field f =>
    frame [extOpPrefix, fieldOp]
      (f.path.encode ++ f.flags :: f.fields.flatMap FieldEntry.bytes)
  | opRegion p space offset length =>
    [extOpPrefix, opRegionOp] ++ p.encode ++ space.toByte :: offset.encode ++ length.encode
  | mutex m => [extOpPrefix, mutexOp] ++ m.path.encode ++ [m.syncLevel]
  | acquire a => [extOpPrefix, acquireOp] ++ a.mutex.encode ++ MachineInt.toLeBytes a.timeout
  | release r => [extOpPrefix, releaseOp] ++ r.mutex.encode
  | notify object value => notifyOp :: object.encode ++ value.encode
  | store target value => storeOp :: value.encode ++ target.encode
  | ifTree predicate children => frame [ifOp] (predicate.encode ++ encodeAll children)
  | elseTree body => frame [elseOp] (encodeAll body)
  | whileTree predicate children => frame [whileOp] (predicate.encode ++ encodeAll children)
  | compare op left right => op.bytes ++ left.encode ++ right.encode
  | onObject op a => op.opcode :: a.encode
  | binary op target a b => op.opcode :: a.encode ++ b.encode ++ target.encode
  | convert op target a => op.opcode :: a.encode ++ target.encode
  | createField nameString source bitIndex bitNum =>
    [extOpPrefix, createFieldOp] ++ source.encode ++ bitIndex.encode ++ bitNum.encode ++
      nameString.encode
  | mid source index length result =>
    midOp :: source.encode ++ index.encode ++ length.encode ++ result.encode
  | arg x => [arg0Op + x.index]
  | localVar x => [local0Op + x.index]

def encodeAll : List AmlTree → Bytes
  | [] => []
  | t :: ts => t.encode ++ encodeAll ts

end

/-- The word of a list is those of its trees, one after the other. -/
@[simp] theorem encodeAll_eq (ts : List AmlTree) : encodeAll ts = ts.flatMap encode := by
  induction ts with
  | nil => rfl
  | cons t ts ih => rw [encodeAll, ih, List.flatMap_cons]

/-! ## Conditions on nodes -/

/-- The subtrees directly below a node. -/
def children : AmlTree → List AmlTree
  | name _ inner => [inner]
  | package children => children
  | packageBuilder elements => elements
  | varPackageTerm data => [data]
  | bufferTerm data => [data]
  | scope _ children => children
  | device _ children => children
  | method _ _ _ children => children
  | powerResource _ _ _ children => children
  | opRegion _ _ offset length => [offset, length]
  | notify object value => [object, value]
  | store target value => [target, value]
  | ifTree predicate children => predicate :: children
  | elseTree body => body
  | whileTree predicate children => predicate :: children
  | compare _ left right => [left, right]
  | onObject _ a => [a]
  | binary _ target a b => [target, a, b]
  | convert _ target a => [target, a]
  | createField nameString source bitIndex bitNum => [nameString, source, bitIndex, bitNum]
  | mid source index length result => [source, index, length, result]
  | zero | one | ones | byte _ | word _ | dword _ | qword _ | string _ | eisaName _ | path _
  | bufferData _ | uuid _ | resourceTemplate _ | field _ | mutex _ | acquire _ | release _
  | arg _ | localVar _ => []

/-- The namestrings a node writes itself. -/
def paths : AmlTree → List Path
  | path p | name p _ | scope p _ | device p _ | method p _ _ _ | powerResource p _ _ _
  | opRegion p _ _ _ => [p]
  | field f => [f.path]
  | mutex m => [m.path]
  | acquire a => [a.mutex]
  | release r => [r.mutex]
  | _ => []

/-- `P` holds at every node of the tree. -/
inductive Everywhere (P : AmlTree → Prop) : AmlTree → Prop
  | node {t : AmlTree} (here : P t) (below : ∀ c ∈ t.children, Everywhere P c) : Everywhere P t

/-- What holds everywhere in a tree holds at its root and everywhere in its
children. -/
theorem everywhere_iff {P : AmlTree → Prop} {t : AmlTree} :
    Everywhere P t ↔ P t ∧ ∀ c ∈ t.children, Everywhere P c :=
  ⟨fun ⟨here, below⟩ => ⟨here, below⟩, fun h => ⟨h.1, h.2⟩⟩

/-- What follows from a condition at each node follows everywhere. -/
theorem Everywhere.mono {P Q : AmlTree → Prop} (hPQ : ∀ t, P t → Q t) {t : AmlTree}
    (h : Everywhere P t) : Everywhere Q t := by
  induction h with
  | node here _ ih => exact .node (hPQ _ here) ih

/-- Check a condition at every node of a tree, down to a depth. -/
def everywhereWithin (P : AmlTree → Prop) [DecidablePred P] : ℕ → AmlTree → Bool
  | 0, _ => false
  | depth + 1, t => decide (P t) && t.children.all (everywhereWithin P depth)

/-- A condition that was checked down to a depth at which the tree ends holds
everywhere. -/
theorem everywhere_of_within {P : AmlTree → Prop} [DecidablePred P] {n : ℕ} {t : AmlTree}
    (h : everywhereWithin P n t = true) : Everywhere P t := by
  induction n generalizing t with
  | zero => cases h
  | succ n ih =>
    obtain ⟨here, below⟩ := Bool.and_eq_true_iff.mp h
    exact .node (of_decide_eq_true here) fun c hc => ih (List.all_eq_true.mp below c hc)

/-- A child is smaller than its node. -/
theorem sizeOf_lt_of_mem_children {c t : AmlTree} (h : c ∈ t.children) : sizeOf c < sizeOf t := by
  cases t <;> simp only [children, List.mem_cons, List.not_mem_nil, or_false] at h
  case package | packageBuilder | scope | device | method | powerResource | elseTree =>
    have := List.sizeOf_lt_of_mem h
    simp
    omega
  case ifTree | whileTree =>
    rcases h with rfl | h
    · simp
      omega
    · have := List.sizeOf_lt_of_mem h
      simp
      omega
  all_goals
    first
    | subst h
      simp
    | rcases h with rfl | rfl | rfl | rfl <;> simp <;> omega

/-- Induction over trees, one step for every node. -/
theorem induction {motive : AmlTree → Prop}
    (step : ∀ t : AmlTree, (∀ c ∈ t.children, motive c) → motive t) (t : AmlTree) : motive t :=
  step t fun c _ => induction step c
termination_by sizeOf t
decreasing_by exact sizeOf_lt_of_mem_children (by assumption)

/-- A node's own assertions hold. -/
def EmitsHere (t : AmlTree) : Prop :=
  (∀ p ∈ t.paths, p.nameParts ≠ []) ∧
  match t with
  | resourceTemplate children => ∀ d ∈ children, d.Fits
  | arg x => x.index ≤ 6
  | localVar x => x.index ≤ 7
  | _ => True

/-- Whether a node can be written is decided by its own data: names, indices, the
fields of descriptors. -/
instance : DecidablePred EmitsHere
  | resourceTemplate _ => inferInstanceAs (Decidable (_ ∧ ∀ d ∈ _, Descriptor.Fits d))
  | arg _ | localVar _ => inferInstanceAs (Decidable (_ ∧ _ ≤ _))
  | zero | one | ones | byte _ | word _ | dword _ | qword _ | string _ | eisaName _ | path _
  | name _ _ | package _ | packageBuilder _ | varPackageTerm _ | bufferTerm _ | bufferData _
  | uuid _ | scope _ _ | device _ _ | method _ _ _ _ | powerResource _ _ _ _ | field _
  | opRegion _ _ _ _ | mutex _ | acquire _ | release _ | notify _ _ | store _ _ | ifTree _ _
  | elseTree _ | whileTree _ _ | compare _ _ _ | onObject _ _ | binary _ _ _ _ | convert _ _ _
  | createField _ _ _ _ | mid _ _ _ _ => inferInstanceAs (Decidable (_ ∧ True))

/-- **Emission of trees**: a tree whose nodes pass their assertions writes its
word. -/
theorem writes_object {t : AmlTree} (h : t.Everywhere EmitsHere) : Writes t.object t.encode := by
  induction t using AmlTree.induction with
  | step t ih =>
    obtain ⟨⟨hpaths, hhere⟩, hbelow⟩ := everywhere_iff.mp h
    replace ih : ∀ c ∈ t.children, Writes c.object c.encode :=
      fun c hc => ih c hc (hbelow c hc)
    cases t <;> simp only [object, encode, objects_eq, encodeAll_eq]
    case zero => exact writes_zero
    case one => exact writes_one
    case ones => exact writes_ones
    case byte v => exact writes_u8 v
    case word v => exact writes_u16 v
    case dword v => exact writes_u32 v
    case qword v => exact writes_u64 v
    case string v => exact writes_string v
    case eisaName v => exact writes_eisaName v
    case path p => exact writes_path (hpaths p (by simp [paths]))
    -- a name encodes its object when it is made
    case name p inner =>
      have hnew := name_new_eq (hpaths p (by simp [paths])) (ih inner (by simp [children]))
      refine ⟨fun s => ?_⟩
      simp only [hnew, Checked.ok_bind]
      exact (writes_name _).run s
    case package cs => exact writes_package ih
    -- and a builder its elements when they are added
    case packageBuilder es =>
      have hnew := foldlM_addElement (l := es) ih PackageBuilder.new
      refine ⟨fun s => ?_⟩
      simp only [hnew, Checked.ok_bind]
      simp only [PackageBuilder.new, List.nil_append, Nat.zero_add]
      exact (writes_packageBuilder { data := es.flatMap encode, elements := es.length }).run s
    case varPackageTerm data => exact writes_varPackageTerm (ih data (by simp [children]))
    case bufferTerm data => exact writes_bufferTerm (ih data (by simp [children]))
    case bufferData data => exact writes_bufferData data
    case uuid u => exact writes_uuid u
    case resourceTemplate ds => exact writes_resourceTemplate fun d hd => d.writes (hhere d hd)
    case scope p cs => exact writes_scope (hpaths p (by simp [paths])) ih
    case device p cs => exact writes_device (hpaths p (by simp [paths])) ih
    case method p args ser cs => exact writes_method args ser (hpaths p (by simp [paths])) ih
    case powerResource p level order cs =>
      exact writes_powerResource level order (hpaths p (by simp [paths])) ih
    case field f => exact writes_field (hpaths f.path (by simp [paths]))
    case opRegion p space off len =>
      exact writes_opRegion space (hpaths p (by simp [paths])) (ih off (by simp [children]))
        (ih len (by simp [children]))
    case mutex m => exact writes_mutex m.syncLevel (hpaths m.path (by simp [paths]))
    case acquire a => exact writes_acquire a.timeout (hpaths a.mutex (by simp [paths]))
    case release r => exact writes_release (hpaths r.mutex (by simp [paths]))
    case notify x y =>
      exact writes_notify (ih x (by simp [children])) (ih y (by simp [children]))
    case store x y =>
      exact writes_store (ih x (by simp [children])) (ih y (by simp [children]))
    case ifTree p cs =>
      exact writes_if (ih p (by simp [children])) fun c hc => ih c (by simp [children, hc])
    case elseTree cs => exact writes_else ih
    case whileTree p cs =>
      exact writes_while (ih p (by simp [children])) fun c hc => ih c (by simp [children, hc])
    case compare op x y =>
      exact writes_compare op (ih x (by simp [children])) (ih y (by simp [children]))
    case onObject op x => exact writes_onObject op (ih x (by simp [children]))
    case binary op x y z =>
      exact writes_binary op (ih x (by simp [children])) (ih y (by simp [children]))
        (ih z (by simp [children]))
    case convert op x y =>
      exact writes_convert op (ih x (by simp [children])) (ih y (by simp [children]))
    case createField x y z t =>
      exact writes_createField (ih x (by simp [children])) (ih y (by simp [children]))
        (ih z (by simp [children])) (ih t (by simp [children]))
    case mid x y z t =>
      exact writes_mid (ih x (by simp [children])) (ih y (by simp [children]))
        (ih z (by simp [children])) (ih t (by simp [children]))
    case arg x => exact writes_arg hhere
    case localVar x => exact writes_local hhere

/-! ## Trees that are written -/

end AmlTree

/-- Some run of the object returns. -/
def Returns (x : DynAml) : Prop :=
  ∃ (S : Type) (_ : AmlSink S) (s s' : S), x.emit s = .ok s'

/-- An object that was written to one sink returns on all of them. -/
theorem returns_of_emit {x : DynAml} {S : Type} [AmlSink S] {s s' : S}
    (h : toAmlBytes x s = .ok s') : Returns x :=
  ⟨S, inferInstance, s, s', h⟩

/-- Children that are all written each return. -/
theorem returns_of_emitAll {l : List DynAml} {S : Type} [AmlSink S] {s s' : S}
    (h : emitAll l s = .ok s') : ∀ x ∈ l, Returns x := by
  induction l generalizing s with
  | nil => simp
  | cons x l ih =>
    rw [emitAll, List.foldlM_cons] at h
    obtain ⟨s₁, hx, h⟩ := Checked.bind_eq_ok.mp h
    exact List.forall_mem_cons.mpr ⟨returns_of_emit hx, ih h⟩

/-- Elements that were all added return each. -/
theorem returns_of_foldlM_addElement {l : List DynAml} {builder builder' : PackageBuilder}
    (h : l.foldlM PackageBuilder.addElement builder = .ok builder') : ∀ x ∈ l, Returns x := by
  induction l generalizing builder with
  | nil => simp
  | cons x l ih =>
    rw [List.foldlM_cons] at h
    obtain ⟨b₁, hx, h⟩ := Checked.bind_eq_ok.mp h
    obtain ⟨b₂, hx, -⟩ := Checked.bind_eq_ok.mp hx
    exact List.forall_mem_cons.mpr ⟨returns_of_emit hx, ih h⟩

namespace AmlTree

/-- A tree that is written has its subtrees written. -/
theorem returns_children {t : AmlTree} (h : Returns t.object) :
    ∀ c ∈ t.children, Returns c.object := by
  obtain ⟨S, _, s, s', h⟩ := h
  have hmap : ∀ {cs : List AmlTree}, (∀ x ∈ cs.map object, Returns x) →
      ∀ c ∈ cs, Returns c.object := fun h c hc => h _ (List.mem_map_of_mem hc)
  cases t <;> simp only [object, objects_eq, dyn, toAmlBytes, Checked.bind_eq_ok] at h <;>
    simp only [children, List.forall_mem_cons, List.not_mem_nil, false_implies, implies_true,
      and_true]
  case name p inner =>
    obtain ⟨built, hnew, -⟩ := h
    obtain ⟨_, -, hnew⟩ := Checked.bind_eq_ok.mp hnew
    obtain ⟨_, hinner, -⟩ := Checked.bind_eq_ok.mp hnew
    exact returns_of_emit hinner
  case package cs | elseTree cs =>
    obtain ⟨_, hcs, -⟩ := h
    exact hmap (returns_of_emitAll hcs)
  case packageBuilder es =>
    obtain ⟨_, hes, -⟩ := h
    exact hmap (returns_of_foldlM_addElement hes)
  case varPackageTerm | bufferTerm =>
    obtain ⟨_, hdata, -⟩ := h
    exact returns_of_emit hdata
  case scope cs | device cs | method cs | powerResource cs =>
    obtain ⟨_, -, _, hcs, -⟩ := h
    exact hmap (returns_of_emitAll hcs)
  case ifTree | whileTree =>
    obtain ⟨_, hp, _, hcs, -⟩ := h
    exact ⟨returns_of_emit hp, hmap (returns_of_emitAll hcs)⟩
  case opRegion =>
    obtain ⟨_, -, _, hoff, hlen⟩ := h
    exact ⟨returns_of_emit hoff, returns_of_emit hlen⟩
  case notify | compare =>
    obtain ⟨_, hx, hy⟩ := h
    exact ⟨returns_of_emit hx, returns_of_emit hy⟩
  -- the operand is written before the target
  case store | convert =>
    obtain ⟨_, hx, hy⟩ := h
    exact ⟨returns_of_emit hy, returns_of_emit hx⟩
  case onObject => exact returns_of_emit h
  case binary =>
    obtain ⟨_, ha, _, hb, htarget⟩ := h
    exact ⟨returns_of_emit htarget, returns_of_emit ha, returns_of_emit hb⟩
  case createField =>
    obtain ⟨_, hsource, _, hindex, _, hnum, hname⟩ := h
    exact ⟨returns_of_emit hname, returns_of_emit hsource, returns_of_emit hindex,
      returns_of_emit hnum⟩
  case mid =>
    obtain ⟨_, hsource, _, hindex, _, hlen, hresult⟩ := h
    exact ⟨returns_of_emit hsource, returns_of_emit hindex, returns_of_emit hlen,
      returns_of_emit hresult⟩

/-- A node's namestrings have a segment and its argument and local numbers
exist. -/
def NamesHere (t : AmlTree) : Prop :=
  (∀ p ∈ t.paths, p.nameParts ≠ []) ∧
  match t with
  | arg x => x.index ≤ 6
  | localVar x => x.index ≤ 7
  | _ => True

/-- The rest of a node's assertions, on the ranges of descriptors, hold when the
node is written. -/
theorem emitsHere_of_returns {t : AmlTree} (hnames : t.NamesHere) (h : Returns t.object) :
    t.EmitsHere := by
  obtain ⟨S, _, s, s', h⟩ := h
  refine ⟨hnames.1, ?_⟩
  cases t with
  | resourceTemplate ds =>
    simp only [object, dyn, toAmlBytes, Checked.bind_eq_ok] at h
    obtain ⟨_, hds, -⟩ := h
    intro d hd
    obtain ⟨S', _, s₁, s₂, hd⟩ := returns_of_emitAll hds _ (List.mem_map_of_mem hd)
    exact Descriptor.fits_of_emit hd
  | arg x | localVar x => exact hnames.2
  | _ => trivial

/-- **What is written is the word**: a tree that is written at all writes its
word. -/
theorem eq_encode_of_emit {t : AmlTree} (hnames : t.Everywhere NamesHere) {w : Bytes}
    (h : toAmlBytes t.object ([] : Bytes) = .ok w) : w = t.encode := by
  have hemits : t.Everywhere EmitsHere := by
    have hreturns := returns_of_emit h
    clear h
    induction hnames with
    | node hhere _ ih =>
      exact .node (emitsHere_of_returns hhere hreturns) fun c hc =>
        ih c hc (returns_children hreturns c hc)
  exact Except.ok.inj (h.symm.trans (writes_object hemits).runNil)

end AmlTree

end AcpiTables
