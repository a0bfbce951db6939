import AcpiTables.EisaId
import AcpiTables.RoundTrip

/-!
# The words of the reference

For an identifier `aml_eisaid` always appends four bytes behind a prefix, where
the generator takes the shortest integer. The two differ for an identifier whose
product number is `0000`: its word is below `2 ^ 16`. In all other nodes there is
no such choice, so the word that the reference builds for a tree is that of the
generator with wider identifiers in it: `referenceWord`.

A wider identifier makes every frame around it longer, and never a part of it
shorter. So the two words of a tree are equal exactly when no identifier is
narrow, at any depth (`grows_referenceWord`). `Grows` is this comparison; it goes
through everything that words are composed with.
-/

namespace AcpiTables

/-! ## Words that grow -/

/-- The second word is the first one if `c` holds, and longer if it does not. -/
structure Grows (w w' : Bytes) (c : Prop) : Prop where
  /-- nothing was widened -/
  eq : c → w' = w
  /-- nothing gets shorter -/
  le : w.length ≤ w'.length
  /-- what was widened is seen in the length -/
  lt : ¬ c → w.length < w'.length

namespace Grows

variable {w w' w₁ w₁' w₂ w₂' : Bytes} {c c' c₁ c₂ : Prop}

/-- The condition may be replaced by an equivalent one. -/
theorem congr (h : Grows w w' c) (hc : c ↔ c') : Grows w w' c' := propext hc ▸ h

/-- A word that is kept. -/
theorem refl (w : Bytes) (hc : c) : Grows w w c := ⟨fun _ => rfl, le_rfl, fun hn => absurd hc hn⟩

/-- The words are equal only if nothing was widened. -/
theorem eq_iff (h : Grows w w' c) : w' = w ↔ c := by
  refine ⟨fun heq => ?_, h.eq⟩
  by_contra hc
  have := h.lt hc
  rw [heq] at this
  omega

/-- Words in a row. -/
theorem append (h₁ : Grows w₁ w₁' c₁) (h₂ : Grows w₂ w₂' c₂) :
    Grows (w₁ ++ w₂) (w₁' ++ w₂') (c₁ ∧ c₂) := by
  have hle₁ := h₁.le
  have hle₂ := h₂.le
  refine ⟨fun ⟨hc₁, hc₂⟩ => by rw [h₁.eq hc₁, h₂.eq hc₂], ?_, fun hn => ?_⟩
  · rw [List.length_append, List.length_append]
    omega
  · rw [List.length_append, List.length_append]
    by_cases hc₁ : c₁
    · have := h₂.lt fun hc₂ => hn ⟨hc₁, hc₂⟩
      omega
    · have := h₁.lt hc₁
      omega

/-- A word behind one that is kept. -/
theorem append_left (v : Bytes) (h : Grows w w' c) : Grows (v ++ w) (v ++ w') c :=
  ((refl v trivial).append h).congr (iff_of_eq (true_and c))

/-- A word behind a byte. -/
theorem cons (b : UInt8) (h : Grows w w' c) : Grows (b :: w) (b :: w') c := h.append_left [b]

/-- Words of a list. -/
theorem flatMap {α : Type} {f g : α → Bytes} {c : α → Prop} {l : List α}
    (h : ∀ a ∈ l, Grows (f a) (g a) (c a)) :
    Grows (l.flatMap f) (l.flatMap g) (∀ a ∈ l, c a) := by
  induction l with
  | nil => exact refl [] (by simp)
  | cons a l ih =>
    obtain ⟨ha, hl⟩ := List.forall_mem_cons.mp h
    rw [List.flatMap_cons, List.flatMap_cons]
    exact (ha.append (ih hl)).congr (by rw [List.forall_mem_cons])

/-- A frame is longer when its content is: a package length does not shrink. -/
theorem frame (op : Bytes) (h : Grows w w' c) :
    Grows (AcpiTables.frame op w) (AcpiTables.frame op w') c := by
  have hlength : ∀ content : Bytes, (AcpiTables.frame op content).length =
      op.length + (content.length + pkgWidth content.length) := by
    intro content
    rw [AcpiTables.frame, List.length_append, List.length_append, length_createPkgLength_eq]
    omega
  have hle := h.le
  refine ⟨fun hc => by rw [h.eq hc], ?_, fun hn => ?_⟩
  · have := pkgWidth_mono hle
    rw [hlength, hlength]
    omega
  · have := add_pkgWidth_lt (h.lt hn)
    rw [hlength, hlength]
    omega

end Grows

/-! ## The word of a tree -/

namespace AmlTree

mutual

/-- The word that the calls of the reference build for a tree. -/
def referenceWord : AmlTree → Bytes
  | eisaName v => dwordPrefix :: MachineInt.toLeBytes v.value
  | name p inner => nameOp :: p.encode ++ inner.referenceWord
  | package children =>
    frame [packageOp] (UInt8.ofNat children.length :: referenceWords children)
  | packageBuilder elements =>
    frame [packageOp] (UInt8.ofNat elements.length :: referenceWords elements)
  | varPackageTerm data => frame [varPackageOp] data.referenceWord
  | bufferTerm data => frame [bufferOp] data.referenceWord
  | scope p children => frame [scopeOp] (p.encode ++ referenceWords children)
  | device p children => frame [extOpPrefix, deviceOp] (p.encode ++ referenceWords children)
  | method p args serialized children =>
    frame [methodOp]
      (p.encode ++ (Method.new p args serialized []).flags :: referenceWords children)
  | powerResource p level order children =>
    frame [powerResourceOp, extOpPrefix]
      (p.encode ++ level :: MachineInt.toLeBytes order ++ referenceWords children)
  | opRegion p space offset length =>
    [extOpPrefix, opRegionOp] ++ p.encode ++
      space.toByte :: offset.referenceWord ++ length.referenceWord
  | notify object value => notifyOp :: object.referenceWord ++ value.referenceWord
  | store target value => storeOp :: value.referenceWord ++ target.referenceWord
  | ifTree predicate children =>
    frame [ifOp] (predicate.referenceWord ++ referenceWords children)
  | elseTree body => frame [elseOp] (referenceWords body)
  | whileTree predicate children =>
    frame [whileOp] (predicate.referenceWord ++ referenceWords children)
  | compare op left right => op.bytes ++ left.referenceWord ++ right.referenceWord
  | onObject op a => op.opcode :: a.referenceWord
  | binary op target a b =>
    op.opcode :: a.referenceWord ++ b.referenceWord ++ target.referenceWord
  | convert op target a => op.opcode :: a.referenceWord ++ target.referenceWord
  | createField nameString source bitIndex bitNum =>
    [extOpPrefix, createFieldOp] ++ source.referenceWord ++ bitIndex.referenceWord ++
      bitNum.referenceWord ++ nameString.referenceWord
  | mid source index length result =>
    midOp :: source.referenceWord ++ index.referenceWord ++ length.referenceWord ++
      result.referenceWord
  -- a node without subtrees that is no identifier
  | t => t.encode

/-- The words of several trees, one by one. -/
def referenceWords : List AmlTree → Bytes
  | [] => []
  | t :: ts => t.referenceWord ++ referenceWords ts

end

@[simp] theorem referenceWords_eq (ts : List AmlTree) :
    referenceWords ts = ts.flatMap referenceWord := by
  induction ts with
  | nil => rfl
  | cons t ts ih => rw [referenceWords, ih, List.flatMap_cons]

/-- An identifier that needs the four bytes: its product number is not `0000`. -/
def WideHere : AmlTree → Prop
  | eisaName v => 65536 ≤ v.value.toNat
  | _ => True

instance : DecidablePred WideHere
  | eisaName v => inferInstanceAs (Decidable (65536 ≤ v.value.toNat))
  | zero | one | ones | byte _ | word _ | dword _ | qword _ | string _ | path _ | name _ _
  | package _ | packageBuilder _ | varPackageTerm _ | bufferTerm _ | bufferData _ | uuid _
  | resourceTemplate _ | scope _ _ | device _ _ | method _ _ _ _ | powerResource _ _ _ _
  | field _ | opRegion _ _ _ _ | mutex _ | acquire _ | release _ | notify _ _ | store _ _
  | ifTree _ _ | elseTree _ | whileTree _ _ | compare _ _ _ | onObject _ _ | binary _ _ _ _
  | convert _ _ _ | createField _ _ _ _ | mid _ _ _ _ | arg _ | localVar _ => .isTrue trivial

/-- An identifier is narrow for the generator only if its product number is
`0000`. -/
theorem grows_eisaName (v : EISAName) :
    Grows (encodeInt v.value.toNat) (dwordPrefix :: MachineInt.toLeBytes v.value)
      (65536 ≤ v.value.toNat) := by
  have hlt := v.value.toNat_lt
  have hfive : (dwordPrefix :: MachineInt.toLeBytes v.value).length = 5 := rfl
  refine ⟨fun h => ((encodeInt_eq_dword_iff hlt).mpr (Nat.not_lt.mpr h)).symm, ?_, fun h => ?_⟩
  · rw [hfive, length_encodeInt, intLength]
    split_ifs <;> omega
  · rw [hfive, length_encodeInt, intLength]
    split_ifs <;> omega

/-- **The two words of a tree** are equal if no identifier in it is narrow, and
otherwise that of the reference is longer. -/
theorem grows_referenceWord (t : AmlTree) :
    Grows t.encode t.referenceWord (t.Everywhere WideHere) := by
  induction t using AmlTree.induction with
  | step t ih =>
    rw [everywhere_iff]
    have hall : ∀ {ts : List AmlTree}, (∀ c ∈ ts, c ∈ t.children) →
        Grows (ts.flatMap encode) (ts.flatMap referenceWord)
          (∀ c ∈ ts, c.Everywhere WideHere) := fun h => Grows.flatMap fun c hc => ih c (h c hc)
    cases t <;> simp only [encode, encodeAll_eq, referenceWord, referenceWords_eq]
    case eisaName v => exact (grows_eisaName v).congr (by simp [WideHere, children])
    case name p inner =>
      exact (((ih inner (by simp [children])).append_left p.encode).cons nameOp).congr
        (by simp [WideHere, children])
    case package cs | packageBuilder cs =>
      exact (((hall fun _ h => h).cons _).frame _).congr (by simp [WideHere, children])
    case varPackageTerm data | bufferTerm data =>
      exact ((ih data (by simp [children])).frame _).congr (by simp [WideHere, children])
    case scope p cs | device p cs =>
      exact (((hall fun _ h => h).append_left _).frame _).congr (by simp [WideHere, children])
    case method p args ser cs =>
      exact ((((hall fun _ h => h).cons _).append_left _).frame _).congr
        (by simp [WideHere, children])
    case powerResource p level order cs =>
      exact (((hall fun _ h => h).append_left _).frame _).congr (by simp [WideHere, children])
    case elseTree cs =>
      exact ((hall fun _ h => h).frame _).congr (by simp [WideHere, children])
    case ifTree x cs | whileTree x cs =>
      have hx := ih x (by simp [children])
      have hcs := @hall cs fun c hc => by simp [children, hc]
      exact ((hx.append hcs).frame _).congr (by simp [WideHere, children])
    case opRegion p space x y =>
      have hx := ih x (by simp [children])
      have hy := ih y (by simp [children])
      exact (((hx.cons _).append_left _).append hy).congr (by simp [WideHere, children])
    case notify x y =>
      have hx := ih x (by simp [children])
      have hy := ih y (by simp [children])
      exact ((hx.cons _).append hy).congr (by simp [WideHere, children])
    case store x y =>
      have hx := ih x (by simp [children])
      have hy := ih y (by simp [children])
      exact ((hy.cons _).append hx).congr (by simp [WideHere, children, and_comm])
    case compare op x y =>
      have hx := ih x (by simp [children])
      have hy := ih y (by simp [children])
      exact ((hx.append_left _).append hy).congr (by simp [WideHere, children])
    case onObject op x =>
      exact ((ih x (by simp [children])).cons _).congr (by simp [WideHere, children])
    case binary op z x y =>
      have hx := ih x (by simp [children])
      have hy := ih y (by simp [children])
      have hz := ih z (by simp [children])
      exact (((hx.cons _).append hy).append hz).congr (by simp [WideHere, children]; tauto)
    case convert op z x =>
      have hx := ih x (by simp [children])
      have hz := ih z (by simp [children])
      exact ((hx.cons _).append hz).congr (by simp [WideHere, children, and_comm])
    case createField n x y z =>
      have hn := ih n (by simp [children])
      have hx := ih x (by simp [children])
      have hy := ih y (by simp [children])
      have hz := ih z (by simp [children])
      exact ((((hx.append_left _).append hy).append hz).append hn).congr
        (by simp [WideHere, children]; tauto)
    case mid x y z r =>
      have hx := ih x (by simp [children])
      have hy := ih y (by simp [children])
      have hz := ih z (by simp [children])
      have hr := ih r (by simp [children])
      exact ((((hx.cons _).append hy).append hz).append hr).congr
        (by simp [WideHere, children]; tauto)
    all_goals exact Grows.refl _ ⟨trivial, by simp [children]⟩

/-- The word of a subtree is shorter than that of the node around it. -/
theorem length_referenceWord_lt_of_mem_children {c t : AmlTree} (h : c ∈ t.children) :
    c.referenceWord.length < t.referenceWord.length := by
  have hframed := length_frame
  cases t <;>
    simp only [children, List.mem_cons, List.not_mem_nil, or_false] at h <;>
    simp only [referenceWord, referenceWords_eq]
  case package cs | packageBuilder cs | scope cs | device cs | method cs | powerResource cs
      | elseTree cs =>
    have := length_le_length_flatMap (f := referenceWord) h
    refine lt_of_lt_of_le ?_ (hframed _ _)
    simp only [List.length_append, List.length_cons, List.length_nil]
    omega
  case ifTree p cs | whileTree p cs =>
    refine lt_of_lt_of_le ?_ (hframed _ _)
    simp only [List.length_append, List.length_cons, List.length_nil]
    rcases h with rfl | h
    · omega
    · have := length_le_length_flatMap (f := referenceWord) h
      omega
  case varPackageTerm | bufferTerm =>
    subst h
    refine lt_of_lt_of_le ?_ (hframed _ _)
    simp only [List.length_cons, List.length_nil]
    omega
  case compare op x y =>
    have := length_compareOp_pos op
    simp only [List.length_append]
    rcases h with rfl | rfl <;> omega
  all_goals
    simp only [List.length_append, List.length_cons, List.length_nil]
    rcases h with rfl | rfl | rfl | rfl <;> omega

end AmlTree

end AcpiTables
