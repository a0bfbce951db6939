import AcpiTables.ByteSeq

/-!
# Packed fields

A record of numbers, each little-endian at a width of its own, one after the
other. `packFields` writes such a record and `readFields` cuts one into its
numbers; `readFields_packFields` is the round trip, up to what the widths hold.
-/

namespace AcpiTables

/-- Numbers with their widths, in the order in which they lie. -/
def packFields (fields : List (ℕ × ℕ)) : Bytes := fields.flatMap fun f => leBytes f.1 f.2

/-- The numbers of these widths in front of a sequence. -/
def readFields : List ℕ → Bytes → List ℕ
  | [], _ => []
  | width :: widths, bs => leValue (bs.take width) :: readFields widths (bs.drop width)

@[simp] theorem packFields_nil : packFields [] = [] := rfl

@[simp] theorem packFields_cons (f : ℕ × ℕ) (fields : List (ℕ × ℕ)) :
    packFields (f :: fields) = leBytes f.1 f.2 ++ packFields fields := List.flatMap_cons

/-- Packed fields are as long as their widths together. -/
theorem length_packFields (fields : List (ℕ × ℕ)) :
    (packFields fields).length = (fields.map Prod.fst).sum := by
  induction fields with
  | nil => rfl
  | cons f fields ih =>
    rw [packFields_cons, List.length_append, length_leBytes, ih, List.map_cons, List.sum_cons]

/-- **The fields read back**, whatever follows the record. -/
theorem readFields_packFields (fields : List (ℕ × ℕ)) (rest : Bytes) :
    readFields (fields.map Prod.fst) (packFields fields ++ rest) =
      fields.map fun f => f.2 % 256 ^ f.1 := by
  induction fields with
  | nil => rfl
  | cons f fields ih =>
    have hlen : (leBytes f.1 f.2).length = f.1 := length_leBytes ..
    rw [List.map_cons, packFields_cons, List.append_assoc, readFields, List.take_left' hlen,
      List.drop_left' hlen, ih, leValue_leBytes, List.map_cons]

/-- Fields that fit their widths are read as they are. -/
theorem readFields_packFields_of_fit (fields : List (ℕ × ℕ))
    (h : ∀ f ∈ fields, f.2 < 256 ^ f.1) (rest : Bytes) :
    readFields (fields.map Prod.fst) (packFields fields ++ rest) = fields.map Prod.snd := by
  rw [readFields_packFields]
  exact List.map_congr_left fun f hf => Nat.mod_eq_of_lt (h f hf)

/-- Only what the width holds is written. -/
theorem leBytes_mod (n v : ℕ) : leBytes n (v % 256 ^ n) = leBytes n v := by
  have h := leBytes_leValue (leBytes n v)
  rwa [length_leBytes, leValue_leBytes] at h

/-- A number in two parts lies as the whole does. -/
theorem leBytes_add (m n v : ℕ) : leBytes (m + n) v = leBytes m v ++ leBytes n (v / 256 ^ m) := by
  induction m generalizing v with
  | zero => simp
  | succ m ih =>
    rw [Nat.add_right_comm, leBytes_succ, ih, leBytes_succ, Nat.div_div_eq_div_mul,
      ← Nat.pow_succ', List.cons_append]

end AcpiTables
