import Mathlib.Data.List.Basic
import Mathlib.Data.Nat.Notation

/-!
# Readers: prefix decoders and what they settle

A reader consumes a prefix of its input and returns a value and the rest. The
question asked of a reader and a writer is always the same: given the written
word `w` of a value `a`, does the reader give `a` back and leave exactly what
follows? `Settles p w a c` answers it *both ways* at once: if `c` holds, `p`
reads `w` back as `a` in front of every continuation; if `c` fails, `p` returns
`a` in front of none. So an induction over a writer's syntax, whose steps only
compose `Settles` facts, yields an exact condition for the round trip and not
just a sufficient one.

`SettlesEnd` is the variant for readers that run to the end of their input (the
content of a length-framed object). `Reader.framed` turns it back into
`Settles`.

Everything is over an arbitrary symbol type `σ`.
-/

namespace AcpiTables

universe u v w k

/-- A reader: a value and the unread rest, or nothing. -/
abbrev Reader (σ : Type u) (α : Type v) : Type (max u v) := List σ → Option (α × List σ)

namespace Reader

variable {σ : Type u} {α : Type v} {β : Type w}

/-- Apply a function to the value read. -/
def map (f : α → β) (p : Reader σ α) : Reader σ β := fun s =>
  (p s).map fun x => (f x.1, x.2)

/-- Read with `p`, then with `q`. -/
def seq (p : Reader σ α) (q : Reader σ β) : Reader σ (α × β) := fun s =>
  (p s).bind fun x => (q x.2).map fun y => ((x.1, y.1), y.2)

/-- Accept a value only when it passes a test. -/
def filter (ok : α → Bool) (p : Reader σ α) : Reader σ α := fun s =>
  (p s).filter fun x => ok x.1

/-- Read `n` symbols. -/
def take (n : ℕ) : Reader σ (List σ) := fun s =>
  if n ≤ s.length then some (s.take n, s.drop n) else none

/-- Read everything. -/
def rest : Reader σ (List σ) := fun s => some (s, [])

/-- Read one value for every key, each with the reader of its key. -/
def each {κ : Type k} (p : κ → Reader σ α) : List κ → Reader σ (List α)
  | [] => fun s => some ([], s)
  | k :: ks => map (fun x => x.1 :: x.2) (seq (p k) (each p ks))

/-- Read `n` values in a row. -/
def count (p : Reader σ α) (n : ℕ) : Reader σ (List α) :=
  each (fun _ => p) (List.replicate n ())

/-- Read values until the input ends, at most `fuel` of them. -/
def manyFuel (p : Reader σ α) : ℕ → Reader σ (List α)
  | _, [] => some ([], [])
  | 0, _ :: _ => none
  | fuel + 1, b :: s => map (fun x => x.1 :: x.2) (seq p (manyFuel p fuel)) (b :: s)

/-- Read values until the input ends. As many steps as there are symbols are
enough when every value takes at least one. -/
def many (p : Reader σ α) : Reader σ (List α) := fun s => manyFuel p s.length s

/-- Read a length with `len`, then run `p` on exactly that many symbols, all of
which it must consume. -/
def framed (len : Reader σ ℕ) (p : Reader σ α) : Reader σ α := fun s =>
  (seq len rest s).bind fun x =>
    if x.1.1 ≤ x.1.2.length then
      match p (x.1.2.take x.1.1) with
      | some (a, []) => some (a, x.1.2.drop x.1.1)
      | _ => none
    else none

/-! ## Settling -/

/-- `p` reads the word `w` as `a`, in front of every continuation, exactly when
`c` holds; when `c` fails it reads no word starting with `w` as `a`. -/
structure Settles (p : Reader σ α) (w : List σ) (a : α) (c : Prop) : Prop where
  /-- the word is read back, and only the word -/
  reads : c → ∀ rest, p (w ++ rest) = some (a, rest)
  /-- the value is not read -/
  misses : ¬ c → ∀ rest r, p (w ++ rest) ≠ some (a, r)

/-- `Settles` for an input that ends with the word. -/
structure SettlesEnd (p : Reader σ α) (w : List σ) (a : α) (c : Prop) : Prop where
  /-- the word is read back to its end -/
  reads : c → p w = some (a, [])
  /-- the value is not read -/
  misses : ¬ c → p w ≠ some (a, [])

variable {p : Reader σ α} {q : Reader σ β} {w w₁ w₂ : List σ} {a : α} {b : β} {c c₁ c₂ : Prop}

/-- A word that is always read back settles under no condition. -/
theorem Settles.of_reads (h : ∀ rest, p (w ++ rest) = some (a, rest)) : Settles p w a True :=
  ⟨fun _ => h, fun hn => absurd trivial hn⟩

/-- The condition may be replaced by an equivalent one. -/
theorem Settles.congr (h : Settles p w a c₁) (hc : c₁ ↔ c₂) : Settles p w a c₂ :=
  propext hc ▸ h

/-- The condition may be replaced by an equivalent one, also at the end. -/
theorem SettlesEnd.congr (h : SettlesEnd p w a c₁) (hc : c₁ ↔ c₂) : SettlesEnd p w a c₂ :=
  propext hc ▸ h

/-- The word and the condition may be replaced. -/
theorem Settles.cast (h : Settles p w₁ a c₁) (hw : w₁ = w₂) (hc : c₁ ↔ c₂) : Settles p w₂ a c₂ :=
  hw ▸ h.congr hc

/-- Inversion for `map`. -/
theorem map_eq_some {f : α → β} {s r : List σ} {b : β} :
    map f p s = some (b, r) ↔ ∃ a, p s = some (a, r) ∧ f a = b := by
  simp [map, Option.map_eq_some_iff]

/-- An injective function of the value keeps what settles. -/
theorem Settles.map {f : α → β} (hf : Function.Injective f) (h : Settles p w a c) :
    Settles (map f p) w (f a) c := by
  refine ⟨fun hc rest => ?_, fun hc rest r he => ?_⟩
  · rw [Reader.map, h.reads hc rest]
    rfl
  · obtain ⟨a', hp, hfa⟩ := map_eq_some.mp he
    obtain rfl := hf hfa
    exact h.misses hc rest r hp

/-- An injective function of the value keeps what settles at the end. -/
theorem SettlesEnd.map {f : α → β} (hf : Function.Injective f) (h : SettlesEnd p w a c) :
    SettlesEnd (Reader.map f p) w (f a) c := by
  refine ⟨fun hc => ?_, fun hc he => ?_⟩
  · rw [Reader.map, h.reads hc]
    rfl
  · obtain ⟨a', hp, hfa⟩ := map_eq_some.mp he
    obtain rfl := hf hfa
    exact h.misses hc hp

/-- Inversion for `seq`. -/
theorem seq_eq_some {s r : List σ} {x : α × β} :
    seq p q s = some (x, r) ↔ ∃ s', p s = some (x.1, s') ∧ q s' = some (x.2, r) := by
  obtain ⟨x₁, x₂⟩ := x
  simp [seq, Option.bind_eq_some_iff, and_assoc]

/-- Inversion for `framed`. -/
theorem framed_eq_some {len : Reader σ ℕ} {s r : List σ} {a : α} :
    framed len p s = some (a, r) ↔ ∃ n s', len s = some (n, s') ∧ n ≤ s'.length ∧
      p (s'.take n) = some (a, []) ∧ s'.drop n = r := by
  constructor
  · intro h
    obtain ⟨⟨⟨n, s'⟩, tail⟩, hseq, h⟩ := Option.bind_eq_some_iff.mp h
    obtain ⟨s'', hlen, hrest⟩ := seq_eq_some.mp hseq
    obtain ⟨rfl, rfl⟩ := Prod.mk.inj (Option.some.inj hrest)
    dsimp only at h
    split_ifs at h with hle
    split at h
    · next a' ha =>
      obtain ⟨rfl, hr⟩ := Prod.mk.inj (Option.some.inj h)
      exact ⟨n, s'', hlen, hle, ha, hr⟩
    · cases h
  · rintro ⟨n, s', hlen, hle, ha, rfl⟩
    have hseq : seq len rest s = some ((n, s'), []) := seq_eq_some.mpr ⟨s', hlen, rfl⟩
    rw [framed, hseq, Option.bind_some, if_pos hle, ha]

/-- Two words settle one after the other, under both conditions. -/
theorem Settles.seq (hp : Settles p w₁ a c₁) (hq : Settles q w₂ b c₂) :
    Settles (seq p q) (w₁ ++ w₂) (a, b) (c₁ ∧ c₂) := by
  refine ⟨fun hc rest => ?_, fun hc rest r he => ?_⟩
  · rw [List.append_assoc, seq_eq_some]
    exact ⟨w₂ ++ rest, hp.reads hc.1 _, hq.reads hc.2 rest⟩
  · rw [List.append_assoc, seq_eq_some] at he
    obtain ⟨s', h₁, h₂⟩ := he
    by_cases hc₁ : c₁
    · -- the first word is read exactly, so the second value would be read too
      rw [hp.reads hc₁] at h₁
      obtain ⟨-, rfl⟩ := Prod.mk.inj (Option.some.inj h₁)
      exact hq.misses (fun hc₂ => hc ⟨hc₁, hc₂⟩) rest r h₂
    · exact hp.misses hc₁ _ _ h₁

/-- Two words settle one after the other up to the end. -/
theorem Settles.seqEnd (hp : Settles p w₁ a c₁) (hq : SettlesEnd q w₂ b c₂) :
    SettlesEnd (Reader.seq p q) (w₁ ++ w₂) (a, b) (c₁ ∧ c₂) := by
  refine ⟨fun hc => ?_, fun hc he => ?_⟩
  · rw [seq_eq_some]
    exact ⟨w₂, hp.reads hc.1 _, hq.reads hc.2⟩
  · rw [seq_eq_some] at he
    obtain ⟨s', h₁, h₂⟩ := he
    by_cases hc₁ : c₁
    · rw [hp.reads hc₁] at h₁
      obtain ⟨-, rfl⟩ := Prod.mk.inj (Option.some.inj h₁)
      exact hq.misses (fun hc₂ => hc ⟨hc₁, hc₂⟩) h₂
    · exact hp.misses hc₁ _ _ h₁

/-- A filter that the value passes changes nothing. -/
theorem Settles.filter {ok : α → Bool} (h : Settles p w a c) (hok : ok a = true) :
    Settles (Reader.filter ok p) w a c := by
  refine ⟨fun hc rest => ?_, fun hc rest r he => ?_⟩
  · rw [Reader.filter, h.reads hc rest]
    simp [Option.filter, hok]
  · exact h.misses hc rest r (Option.filter_eq_some_iff.mp he).1

/-- So many symbols are read back, whatever they are. -/
theorem settles_take {n : ℕ} (h : w.length = n) : Settles (take n) w w True := by
  refine .of_reads fun rest => ?_
  subst h
  simp [take]

/-- The rest of the input is read back. -/
theorem settlesEnd_rest (w : List σ) : SettlesEnd rest w w True :=
  ⟨fun _ => rfl, fun hn => absurd trivial hn⟩

/-! ### Runs of values -/

variable {τ : Type w} {enc : τ → List σ} {val : τ → α} {ok : τ → Prop}

/-- A keyed run settles when each of its values does. -/
theorem settles_each {κ : Type k} {f : κ → Reader σ α} {k : τ → κ} (ts : List τ)
    (h : ∀ t ∈ ts, Settles (f (k t)) (enc t) (val t) (ok t)) :
    Settles (each f (ts.map k)) (ts.flatMap enc) (ts.map val) (∀ t ∈ ts, ok t) := by
  induction ts with
  | nil => exact (Settles.of_reads fun _ => rfl).congr (by simp)
  | cons t ts ih =>
    have ht := h t (List.mem_cons_self ..)
    have hts := ih fun u hu => h u (List.mem_cons_of_mem _ hu)
    rw [List.map_cons, each, List.flatMap_cons, List.map_cons]
    refine ((ht.seq hts).map (f := fun x : α × List α => x.1 :: x.2) ?_).congr (by simp)
    rintro ⟨x, xs⟩ ⟨y, ys⟩ hxy
    obtain ⟨rfl, rfl⟩ := List.cons.inj hxy
    rfl

/-- A counted run settles when each of its values does. -/
theorem settles_count (ts : List τ) (h : ∀ t ∈ ts, Settles p (enc t) (val t) (ok t)) :
    Settles (count p ts.length) (ts.flatMap enc) (ts.map val) (∀ t ∈ ts, ok t) := by
  have := settles_each (f := fun _ : Unit => p) (k := fun _ => ()) ts h
  rwa [List.map_const'] at this

/-- A run to the end of the input settles when each of its values does and none
of them is empty. -/
theorem settlesEnd_manyFuel (ts : List τ) :
    ∀ {fuel : ℕ}, (ts.flatMap enc).length ≤ fuel →
      (∀ t ∈ ts, Settles p (enc t) (val t) (ok t)) → (∀ t ∈ ts, enc t ≠ []) →
      SettlesEnd (manyFuel p fuel) (ts.flatMap enc) (ts.map val) (∀ t ∈ ts, ok t) := by
  induction ts with
  | nil =>
    intro fuel _ _ _
    refine ⟨fun _ => ?_, fun hn => absurd (by simp) hn⟩
    cases fuel <;> rfl
  | cons t ts ih =>
    intro fuel hfuel h hne
    obtain ⟨b, s, hb⟩ := List.exists_cons_of_ne_nil (hne t (List.mem_cons_self ..))
    rw [List.flatMap_cons, List.length_append, hb, List.length_cons] at hfuel
    obtain ⟨n, rfl⟩ : ∃ n, fuel = n + 1 := ⟨fuel - 1, by omega⟩
    have ht := h t (List.mem_cons_self ..)
    have hrest : (ts.flatMap enc).length ≤ n := by omega
    have hts := ih hrest (fun u hu => h u (List.mem_cons_of_mem _ hu))
      fun u hu => hne u (List.mem_cons_of_mem _ hu)
    have hall : (ok t ∧ ∀ u ∈ ts, ok u) ↔ ∀ u ∈ t :: ts, ok u := by simp
    have hcons := ((ht.seqEnd hts).map (f := fun x : α × List α => x.1 :: x.2) (by
      rintro ⟨x, xs⟩ ⟨y, ys⟩ hxy
      obtain ⟨rfl, rfl⟩ := List.cons.inj hxy
      rfl)).congr hall
    -- the input is not empty, so the run takes its recursive branch
    rw [hb] at hcons
    rw [List.flatMap_cons, hb]
    exact ⟨hcons.reads, hcons.misses⟩

/-- Values settle up to the end when each of them does and none has an empty word. -/
theorem settlesEnd_many (ts : List τ) (h : ∀ t ∈ ts, Settles p (enc t) (val t) (ok t))
    (hne : ∀ t ∈ ts, enc t ≠ []) :
    SettlesEnd (many p) (ts.flatMap enc) (ts.map val) (∀ t ∈ ts, ok t) := by
  have := settlesEnd_manyFuel ts (Nat.le_refl _) h hne
  exact ⟨this.reads, this.misses⟩

/-- Inversion for a run: it begins with the values of the words it begins with. -/
theorem exists_of_manyFuel (ts : List τ) (h : ∀ t ∈ ts, Settles p (enc t) (val t) True)
    (hne : ∀ t ∈ ts, enc t ≠ []) {fuel : ℕ} {s r : List σ} {xs : List α}
    (hread : manyFuel p fuel (ts.flatMap enc ++ s) = some (xs, r)) :
    ∃ ys, xs = ts.map val ++ ys := by
  induction ts generalizing fuel xs with
  | nil => exact ⟨xs, rfl⟩
  | cons t ts ih =>
    obtain ⟨b, w, hb⟩ := List.exists_cons_of_ne_nil (hne t (List.mem_cons_self ..))
    have ht := (h t (List.mem_cons_self ..)).reads trivial (ts.flatMap enc ++ s)
    rw [List.flatMap_cons, List.append_assoc, hb, List.cons_append] at hread
    cases fuel with
    | zero => cases hread
    | succ fuel =>
      obtain ⟨⟨x, zs⟩, hseq, rfl⟩ := map_eq_some.mp hread
      obtain ⟨s', hx, hzs⟩ := seq_eq_some.mp hseq
      rw [← List.cons_append, ← hb, ht] at hx
      obtain ⟨rfl, rfl⟩ := Prod.mk.inj (Option.some.inj hx)
      obtain ⟨ys, rfl⟩ := ih (fun u hu => h u (List.mem_cons_of_mem _ hu))
        (fun u hu => hne u (List.mem_cons_of_mem _ hu)) hzs
      exact ⟨ys, rfl⟩

/-! ### Framing -/

/-- A length-framed object settles when its content does. -/
theorem SettlesEnd.framed {len : Reader σ ℕ} (hlen : Settles len w₁ w₂.length True)
    (hp : SettlesEnd p w₂ a c) : Settles (framed len p) (w₁ ++ w₂) a c := by
  have hstep : ∀ s, Reader.framed len p (w₁ ++ w₂ ++ s) =
      match p w₂ with
      | some (a, []) => some (a, s)
      | _ => none := by
    intro s
    rw [List.append_assoc]
    simp [Reader.framed, Reader.seq, Reader.rest, hlen.reads trivial]
  refine ⟨fun hc s => ?_, fun hc s r he => ?_⟩
  · rw [hstep, hp.reads hc]
  · rw [hstep] at he
    split at he
    · next a' hpa =>
      obtain ⟨rfl, -⟩ := Prod.mk.inj (Option.some.inj he)
      exact hp.misses hc hpa
    · cases he

end Reader

end AcpiTables
