import AcpiTables.ByteSeq

/-!
# Chunks placed one after the other

A buffer that is filled from front to back: each chunk of bytes comes under a
key, and a record is kept of where it starts and how long it is. `place` is that
record; `layChunks` is the buffer.

* `place_readBack` — at its recorded place, each chunk is found as it was given.
* `place_insert` — a chunk put between others moves what follows by its own
  length, and moves nothing else.
* `pairwise_offset_lt` — chunks that are not empty start at different offsets.

The type of the keys is arbitrary.
-/

universe u

namespace AcpiTables

/-- A keyed chunk in its place. -/
structure Placed (κ : Type u) where
  key : κ
  offset : ℕ
  length : ℕ
  deriving DecidableEq

namespace Placed

variable {κ : Type u}

/-- The same chunk, further on. -/
def shift (d : ℕ) (p : Placed κ) : Placed κ := { p with offset := p.offset + d }

/-- Moving a place keeps its key. -/
@[simp] theorem shift_key (d : ℕ) (p : Placed κ) : (p.shift d).key = p.key := rfl

/-- Moving a place adds to its offset. -/
@[simp] theorem shift_offset (d : ℕ) (p : Placed κ) : (p.shift d).offset = p.offset + d := rfl

/-- Moving a place keeps its length. -/
@[simp] theorem shift_length (d : ℕ) (p : Placed κ) : (p.shift d).length = p.length := rfl

end Placed

section

variable {κ : Type u}

/-- The chunks in a row. -/
def layChunks (cs : List (κ × Bytes)) : Bytes := cs.flatMap Prod.snd

/-- Where each chunk comes to lie, when the first starts at `start`. -/
def place (start : ℕ) : List (κ × Bytes) → List (Placed κ)
  | [] => []
  | c :: cs => ⟨c.1, start, c.2.length⟩ :: place (start + c.2.length) cs

/-- No chunks take no bytes. -/
@[simp] theorem layChunks_nil : layChunks ([] : List (κ × Bytes)) = [] := rfl

/-- The bytes of the first chunk, then those of the others. -/
@[simp] theorem layChunks_cons (c : κ × Bytes) (cs : List (κ × Bytes)) :
    layChunks (c :: cs) = c.2 ++ layChunks cs := rfl

/-- The bytes of two runs of chunks, one after the other. -/
@[simp] theorem layChunks_append (cs ds : List (κ × Bytes)) :
    layChunks (cs ++ ds) = layChunks cs ++ layChunks ds := by
  simp [layChunks]

/-- No chunks have no places. -/
@[simp] theorem place_nil (start : ℕ) : place start ([] : List (κ × Bytes)) = [] := rfl

/-- The first chunk begins at the start, the others behind it. -/
theorem place_cons (start : ℕ) (c : κ × Bytes) (cs : List (κ × Bytes)) :
    place start (c :: cs) = ⟨c.1, start, c.2.length⟩ :: place (start + c.2.length) cs := rfl

/-- The places of two runs of chunks, the second behind the first. -/
theorem place_append (start : ℕ) (cs ds : List (κ × Bytes)) :
    place start (cs ++ ds) = place start cs ++ place (start + (layChunks cs).length) ds := by
  induction cs generalizing start with
  | nil => rfl
  | cons c cs ih =>
    rw [List.cons_append, place_cons, ih, place_cons, layChunks_cons, List.length_append,
      Nat.add_assoc]
    rfl

/-- There is one place for each chunk. -/
@[simp] theorem length_place (start : ℕ) (cs : List (κ × Bytes)) :
    (place start cs).length = cs.length := by
  induction cs generalizing start with
  | nil => rfl
  | cons c cs ih => rw [place_cons, List.length_cons, ih, List.length_cons]

/-- The places have the keys of their chunks, in order. -/
@[simp] theorem keys_place (start : ℕ) (cs : List (κ × Bytes)) :
    (place start cs).map Placed.key = cs.map Prod.fst := by
  induction cs generalizing start with
  | nil => rfl
  | cons c cs ih => rw [place_cons, List.map_cons, ih, List.map_cons]

/-- A later start moves every chunk alike. -/
theorem place_add (start d : ℕ) (cs : List (κ × Bytes)) :
    place (start + d) cs = (place start cs).map (Placed.shift d) := by
  induction cs generalizing start with
  | nil => rfl
  | cons c cs ih =>
    rw [place_cons, place_cons, List.map_cons, Nat.add_right_comm, ih]
    rfl

/-- **A chunk put between others** moves what follows by its own length. -/
theorem place_insert (start : ℕ) (cs ds : List (κ × Bytes)) (c : κ × Bytes) :
    place start (cs ++ c :: ds) =
      place start cs ++ ⟨c.1, start + (layChunks cs).length, c.2.length⟩ ::
        (place (start + (layChunks cs).length) ds).map (Placed.shift c.2.length) := by
  rw [place_append, place_cons, place_add]

/-- Chunks lie between the start and the end of the buffer. -/
theorem bounds_of_mem_place {start : ℕ} {cs : List (κ × Bytes)} {p : Placed κ}
    (h : p ∈ place start cs) :
    start ≤ p.offset ∧ p.offset + p.length ≤ start + (layChunks cs).length := by
  induction cs generalizing start with
  | nil => cases h
  | cons c cs ih =>
    rw [layChunks_cons, List.length_append]
    rcases List.mem_cons.mp h with rfl | h
    · dsimp only
      omega
    · have := ih h
      omega

/-- **Reading back**: at its place, each chunk is found as it was given. -/
theorem place_readBack (front : Bytes) (cs : List (κ × Bytes)) :
    (place front.length cs).map
      (fun p => (p.key, slice (front ++ layChunks cs) p.offset p.length)) = cs := by
  induction cs generalizing front with
  | nil => rfl
  | cons c cs ih =>
    have hrest := ih (front ++ c.2)
    have hfirst := slice_mid front c.2 (layChunks cs)
    rw [List.length_append] at hrest
    rw [place_cons, List.map_cons, layChunks_cons, ← List.append_assoc, hrest, hfirst]

/-- The bytes of one chunk among others. -/
theorem slice_layChunks (front : Bytes) (cs : List (κ × Bytes)) (c : κ × Bytes)
    (ds : List (κ × Bytes)) :
    slice (front ++ layChunks (cs ++ c :: ds)) (front.length + (layChunks cs).length) c.2.length =
      c.2 := by
  rw [layChunks_append, layChunks_cons, ← List.append_assoc, ← List.append_assoc,
    ← List.length_append, slice_mid]

/-- A placed chunk and its bytes. -/
theorem mem_of_mem_place {front : Bytes} {cs : List (κ × Bytes)} {p : Placed κ}
    (h : p ∈ place front.length cs) :
    (p.key, slice (front ++ layChunks cs) p.offset p.length) ∈ cs := by
  have := List.mem_map_of_mem
    (f := fun p : Placed κ => (p.key, slice (front ++ layChunks cs) p.offset p.length)) h
  rwa [place_readBack] at this

/-- Chunks that are not empty start one after the other. -/
theorem pairwise_offset_lt {start : ℕ} {cs : List (κ × Bytes)} (h : ∀ c ∈ cs, c.2 ≠ []) :
    (place start cs).Pairwise fun p q => p.offset < q.offset := by
  induction cs generalizing start with
  | nil => exact .nil
  | cons c cs ih =>
    obtain ⟨hc, hcs⟩ := List.forall_mem_cons.mp h
    have hpos := List.length_pos_of_ne_nil hc
    refine List.pairwise_cons.mpr ⟨fun q hq => ?_, ih hcs⟩
    have := (bounds_of_mem_place hq).1
    dsimp only
    omega

end

end AcpiTables
