import Mathlib.Data.List.Basic
import Mathlib.Data.Nat.Notation
import Mathlib.Data.UInt
import Mathlib.Algebra.BigOperators.Group.List.Basic
import Mathlib.Tactic.Linarith

/-!
# Byte sequences: little-endian numbers, slices, patches

Everything a table builder does to a buffer comes down to three operations on a
list of bytes:

* `leBytes n v` / `leValue bs` — the little-endian image of a number at a fixed
  width, and the number an image stands for. They are inverse up to `256 ^ n`.
* `slice bs start len` — the bytes a reader finds at an offset. A slice of a
  concatenation lies in one of its parts (`slice_append_left`,
  `slice_append_right`, `slice_mid`).
* `patch bs start src` — overwrite in place. A patched buffer reads back the
  patch where it was written (`slice_patch_self`) and is unchanged elsewhere
  (`slice_patch_of_disjoint`): the frame rule of in-place writes.

Slices are total and clip at the end of the buffer, so every statement that
needs the bytes to be there says so.
-/

namespace AcpiTables

/-- A buffer, as the list of its bytes. -/
abbrev Bytes : Type := List UInt8

/-- What a check of a whole list says of its elements. -/
theorem forall_mem_of_all {α : Type} {p : α → Prop} [DecidablePred p] {xs : List α}
    (h : xs.all (fun x => decide (p x)) = true) : ∀ x ∈ xs, p x :=
  fun x hx => of_decide_eq_true (List.all_eq_true.mp h x hx)

/-! ## Little-endian numbers -/

/-- The low `n` bytes of `v`, least significant first. -/
def leBytes : ℕ → ℕ → Bytes
  | 0, _ => []
  | n + 1, v => UInt8.ofNat v :: leBytes n (v / 256)

/-- The number that a little-endian image stands for. -/
def leValue : Bytes → ℕ
  | [] => 0
  | b :: bs => b.toNat + 256 * leValue bs

/-- No bytes of a number. -/
@[simp] theorem leBytes_zero (v : ℕ) : leBytes 0 v = [] := rfl

/-- The bytes of a number: the lowest one, then those of the rest. -/
theorem leBytes_succ (n v : ℕ) :
    leBytes (n + 1) v = UInt8.ofNat v :: leBytes n (v / 256) := rfl

/-- No bytes are worth nothing. -/
@[simp] theorem leValue_nil : leValue [] = 0 := rfl

/-- The first byte is the lowest one. -/
@[simp] theorem leValue_cons (b : UInt8) (bs : Bytes) :
    leValue (b :: bs) = b.toNat + 256 * leValue bs := rfl

/-- A number is written in as many bytes as were asked for. -/
@[simp] theorem length_leBytes (n v : ℕ) : (leBytes n v).length = n := by
  induction n generalizing v with
  | zero => rfl
  | succ n ih => rw [leBytes_succ, List.length_cons, ih]

/-- Reading an image back gives the number, reduced to the width it holds. -/
theorem leValue_leBytes (n v : ℕ) : leValue (leBytes n v) = v % 256 ^ n := by
  induction n generalizing v with
  | zero => simp [Nat.mod_one]
  | succ n ih =>
    have hbyte : (UInt8.ofNat v).toNat = v % 256 := by simp
    rw [leBytes_succ, leValue_cons, ih, hbyte, Nat.pow_succ, Nat.mul_comm _ 256, Nat.mod_mul]

/-- A number that its bytes can hold is read back. -/
theorem leValue_leBytes_of_lt {n v : ℕ} (h : v < 256 ^ n) :
    leValue (leBytes n v) = v := by
  rw [leValue_leBytes, Nat.mod_eq_of_lt h]

/-- So many bytes hold no larger number. -/
theorem leValue_lt (bs : Bytes) : leValue bs < 256 ^ bs.length := by
  induction bs with
  | nil => simp
  | cons b bs ih =>
    have hb : b.toNat < 256 := b.toNat_lt
    rw [leValue_cons, List.length_cons, Nat.pow_succ]
    omega

/-- An image is the image of the number it stands for. -/
theorem leBytes_leValue (bs : Bytes) : leBytes bs.length (leValue bs) = bs := by
  induction bs with
  | nil => rfl
  | cons b bs ih =>
    have hb : b.toNat < 256 := b.toNat_lt
    have hdiv : (b.toNat + 256 * leValue bs) / 256 = leValue bs := by omega
    have hbyte : UInt8.ofNat (b.toNat + 256 * leValue bs) = b := by
      apply UInt8.toNat_inj.mp
      simp
    rw [List.length_cons, leBytes_succ, leValue_cons, hdiv, ih, hbyte]

/-! ## Slices -/

/-- The `len` bytes at offset `start`. -/
def slice (bs : Bytes) (start len : ℕ) : Bytes := (bs.drop start).take len

/-- A part that lies within the bytes has its full length. -/
theorem length_slice {bs : Bytes} {start len : ℕ} (h : start + len ≤ bs.length) :
    (slice bs start len).length = len := by
  rw [slice, List.length_take, List.length_drop]
  omega

/-- A part of the first of two strings. -/
theorem slice_append_left {a b : Bytes} {start len : ℕ} (h : start + len ≤ a.length) :
    slice (a ++ b) start len = slice a start len := by
  rw [slice, List.drop_append_of_le_length (by omega),
    List.take_append_of_le_length (by rw [List.length_drop]; omega), slice]

/-- A part of the second of two strings. -/
theorem slice_append_right (a b : Bytes) (start len : ℕ) :
    slice (a ++ b) (a.length + start) len = slice b start len := by
  have hdrop : a.drop (a.length + start) = [] := List.drop_eq_nil_of_le (by omega)
  rw [slice, List.drop_append, hdrop, List.nil_append, Nat.add_sub_cancel_left, slice]

/-- The middle part of a concatenation, read at its own offset and length. -/
theorem slice_mid (a b c : Bytes) : slice (a ++ b ++ c) a.length b.length = b := by
  rw [List.append_assoc, ← Nat.add_zero a.length, slice_append_right, slice]
  simp

/-- A slice inside a slice. -/
theorem slice_slice {bs : Bytes} {start len start' len' : ℕ} (h : start' + len' ≤ len) :
    slice (slice bs start len) start' len' = slice bs (start + start') len' := by
  simp only [slice]
  rw [List.drop_take, List.take_take, List.drop_drop, Nat.min_eq_left (by omega)]

/-- A part in two parts. -/
theorem slice_add (bs : Bytes) (start m n : ℕ) :
    slice bs start (m + n) = slice bs start m ++ slice bs (start + m) n := by
  rw [slice, slice, slice, List.take_add, List.drop_drop]

/-- Reading a prefix of a buffer that starts with it. -/
theorem slice_prefix (a b : Bytes) : slice (a ++ b) 0 a.length = a := by
  simpa using slice_mid [] a b

/-! ## Patches -/

/-- Overwrite the bytes at offset `start` by `src`. -/
def patch (bs : Bytes) (start : ℕ) (src : Bytes) : Bytes :=
  bs.take start ++ src ++ bs.drop (start + src.length)

/-- Patching within the bytes changes no length. -/
theorem length_patch {bs src : Bytes} {start : ℕ} (h : start + src.length ≤ bs.length) :
    (patch bs start src).length = bs.length := by
  simp only [patch, List.length_append, List.length_take, List.length_drop]
  omega

/-- A patch of the middle part of a concatenation. -/
theorem patch_mid {a b c src : Bytes} (h : src.length = b.length) :
    patch (a ++ b ++ c) a.length src = a ++ src ++ c := by
  have hfront : a.length + src.length = (a ++ b).length := by rw [List.length_append, h]
  rw [patch, hfront, List.drop_left, List.append_assoc a b c, List.take_left]

/-- A patch reads back where it was written. -/
theorem slice_patch_self {bs src : Bytes} {start : ℕ} (h : start ≤ bs.length) :
    slice (patch bs start src) start src.length = src := by
  have hlen : (bs.take start).length = start := by rw [List.length_take]; omega
  have := slice_mid (bs.take start) src (bs.drop (start + src.length))
  rwa [hlen] at this

/-- The frame rule: a patch changes nothing outside its own range. -/
theorem slice_patch_of_disjoint {bs src : Bytes} {start off len : ℕ}
    (h : start + src.length ≤ bs.length)
    (hd : off + len ≤ start ∨ start + src.length ≤ off) :
    slice (patch bs start src) off len = slice bs off len := by
  have hlen : (bs.take start).length = start := by rw [List.length_take]; omega
  rcases hd with hd | hd
  · rw [patch, List.append_assoc, slice_append_left (by omega)]
    conv_rhs => rw [← List.take_append_drop start bs]
    rw [slice_append_left (by omega)]
  · obtain ⟨k, rfl⟩ := Nat.exists_eq_add_of_le hd
    have hfront : (bs.take start ++ src).length = start + src.length := by
      rw [List.length_append, hlen]
    rw [patch, ← hfront, slice_append_right, hfront, slice, List.drop_drop, slice]

/-- The ranges of a list of writes, each an offset and the bytes written there,
lie inside a buffer of `n` bytes and pairwise apart. -/
def DisjointWrites (n : ℕ) (ws : List (ℕ × Bytes)) : Prop :=
  (∀ w ∈ ws, w.1 + w.2.length ≤ n) ∧
    ws.Pairwise fun u w => u.1 + u.2.length ≤ w.1 ∨ w.1 + w.2.length ≤ u.1

/-- Apply writes in order. -/
def patchAll (bs : Bytes) (ws : List (ℕ × Bytes)) : Bytes :=
  ws.foldl (fun bs w => patch bs w.1 w.2) bs

/-- No write changes nothing. -/
@[simp] theorem patchAll_nil (bs : Bytes) : patchAll bs [] = bs := rfl

/-- The first write, then the others. -/
@[simp] theorem patchAll_cons (bs : Bytes) (w : ℕ × Bytes) (ws : List (ℕ × Bytes)) :
    patchAll bs (w :: ws) = patchAll (patch bs w.1 w.2) ws := rfl

/-- Writes within the bytes change no length. -/
theorem length_patchAll {ws : List (ℕ × Bytes)} :
    ∀ {bs : Bytes}, (∀ w ∈ ws, w.1 + w.2.length ≤ bs.length) →
      (patchAll bs ws).length = bs.length := by
  induction ws with
  | nil => intro bs _; rfl
  | cons w ws ih =>
    intro bs h
    have hlen := length_patch (h w (List.mem_cons_self ..))
    rw [patchAll_cons, ih, hlen]
    intro v hv
    rw [hlen]
    exact h v (List.mem_cons_of_mem _ hv)

/-- Writes that stay clear of a range leave it as it was. -/
theorem slice_patchAll_of_disjoint {ws : List (ℕ × Bytes)} {off len : ℕ} :
    ∀ {bs : Bytes}, (∀ w ∈ ws, w.1 + w.2.length ≤ bs.length) →
      (∀ w ∈ ws, off + len ≤ w.1 ∨ w.1 + w.2.length ≤ off) →
      slice (patchAll bs ws) off len = slice bs off len := by
  induction ws with
  | nil => intro bs _ _; rfl
  | cons w ws ih =>
    intro bs h hd
    have hlen := length_patch (h w (List.mem_cons_self ..))
    rw [patchAll_cons, ih, slice_patch_of_disjoint (h w (List.mem_cons_self ..))
      (hd w (List.mem_cons_self ..))]
    · intro v hv
      rw [hlen]
      exact h v (List.mem_cons_of_mem _ hv)
    · exact fun v hv => hd v (List.mem_cons_of_mem _ hv)

/-- Writes that pairwise stay apart all read back, whatever their order. -/
theorem slice_patchAll_of_mem {ws : List (ℕ × Bytes)} {w : ℕ × Bytes} :
    ∀ {bs : Bytes}, DisjointWrites bs.length ws → w ∈ ws →
      slice (patchAll bs ws) w.1 w.2.length = w.2 := by
  induction ws with
  | nil => intro bs _ hw; cases hw
  | cons v ws ih =>
    intro bs h hw
    obtain ⟨hin, hpw⟩ := h
    obtain ⟨hv, hpw⟩ := List.pairwise_cons.mp hpw
    have hlen := length_patch (hin v (List.mem_cons_self ..))
    have hin' : ∀ u ∈ ws, u.1 + u.2.length ≤ (patch bs v.1 v.2).length := by
      intro u hu
      rw [hlen]
      exact hin u (List.mem_cons_of_mem _ hu)
    rw [patchAll_cons]
    rcases List.mem_cons.mp hw with rfl | hw
    · -- the first write: no later one touches its range
      rw [slice_patchAll_of_disjoint hin' fun u hu => (hv u hu)]
      have := hin w (List.mem_cons_self ..)
      exact slice_patch_self (by omega)
    · exact ih ⟨hin', hpw⟩ hw

/-- Writes that follow one another without a gap, the first at `off`. -/
def Consecutive : ℕ → List (ℕ × Bytes) → Prop
  | _, [] => True
  | off, w :: ws => w.1 = off ∧ Consecutive (off + w.2.length) ws

/-- Consecutive writes that fill the rest of a buffer leave what is in front of
them and the concatenation of what they wrote. -/
theorem patchAll_consecutive {ws : List (ℕ × Bytes)} :
    ∀ {done buf : Bytes}, Consecutive done.length ws →
      (ws.flatMap Prod.snd).length = buf.length →
      patchAll (done ++ buf) ws = done ++ ws.flatMap Prod.snd := by
  induction ws with
  | nil =>
    intro done buf _ hlen
    obtain rfl : buf = [] := List.eq_nil_of_length_eq_zero hlen.symm
    rfl
  | cons w ws ih =>
    intro done buf hcons hlen
    obtain ⟨off, src⟩ := w
    obtain ⟨rfl, hcons⟩ := hcons
    rw [List.flatMap_cons, List.length_append] at hlen
    have hstep : patch (done ++ buf) done.length src = done ++ src ++ buf.drop src.length := by
      rw [patch, List.take_left, List.drop_append, List.drop_eq_nil_of_le (by omega),
        List.nil_append, Nat.add_sub_cancel_left]
    dsimp only at hlen hcons
    rw [patchAll_cons, hstep, ih, List.flatMap_cons, List.append_assoc]
    · rwa [List.length_append]
    · rw [List.length_drop]
      omega

/-- Consecutive writes that cover the buffer are all that is left in it. -/
theorem patchAll_cover {ws : List (ℕ × Bytes)} {buf : Bytes} (h : Consecutive 0 ws)
    (hlen : (ws.flatMap Prod.snd).length = buf.length) :
    patchAll buf ws = ws.flatMap Prod.snd := by
  have h' : Consecutive ([] : Bytes).length ws := h
  simpa using patchAll_consecutive h' hlen

end AcpiTables
