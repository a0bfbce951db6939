import AcpiTables.ByteSeq

/-!
# Checked computation: panics, fixed-width integers, byte strings

The run-time behaviour of the language the generator is written in, as far as
its code relies on it.

* `Checked α` — a computation that returns or panics. An assertion, an
  arithmetic overflow, a slice bound, an `unwrap` of nothing: each stops the
  program, so each is an `error` here and is threaded by the monad. Arithmetic
  on a fixed-width integer panics when the result leaves the type (the checked
  profile); `as` casts truncate and never panic.
* `MachineInt T` — a fixed-width unsigned integer: its width in bytes and its
  image in `ℕ`. Little-endian emission and checked arithmetic are defined once
  over it.
* Strings are sequences of Unicode scalar values; `asBytes` is their UTF-8
  image.
-/

namespace AcpiTables

universe u

/-- The ways a run stops without a result. -/
inductive Panic where
  /-- an `assert!` or `assert_eq!` does not hold -/
  | assertion
  /-- the result of an integer operation does not fit its type -/
  | overflow
  /-- an index or a slice bound is past the end -/
  | outOfRange
  /-- `unwrap` of a missing value -/
  | unwrapNone
  /-- a loop does not end within the steps it is given -/
  | outOfFuel
  /-- an explicit `panic!` with its text -/
  | explicit (text : String)
  deriving DecidableEq, Repr

/-- A computation that returns a value or panics. -/
abbrev Checked (α : Type u) : Type u := Except Panic α

namespace Checked

variable {α β : Type u}

/-- What has returned goes on with its value. -/
@[simp] theorem ok_bind (a : α) (f : α → Checked β) :
    ((Except.ok a : Checked α) >>= f) = f a := rfl

/-- A panic goes on as itself. -/
@[simp] theorem error_bind (e : Panic) (f : α → Checked β) :
    ((Except.error e : Checked α) >>= f) = Except.error e := rfl

@[simp] theorem pure_eq (a : α) : (pure a : Checked α) = Except.ok a := rfl

@[simp] theorem map_ok (f : α → β) (a : α) :
    (f <$> (Except.ok a : Checked α)) = Except.ok (f a) := rfl

@[simp] theorem map_error (f : α → β) (e : Panic) :
    (f <$> (Except.error e : Checked α)) = Except.error e := rfl

/-- Returning what was returned changes nothing. -/
theorem bind_ok (x : Checked α) : (x >>= fun a => Except.ok a) = x := by
  cases x <;> rfl

/-- Inversion for `bind`: a run that returns went through a value of the first
part. -/
theorem bind_eq_ok {x : Checked α} {f : α → Checked β} {b : β} :
    (x >>= f) = Except.ok b ↔ ∃ a, x = Except.ok a ∧ f a = Except.ok b := by
  cases x with
  | error e => simp
  | ok a => simp

end Checked

/-- Inversion for `mapM`: a run that returns has a value for each element. -/
theorem mapM_eq_ok {α γ : Type} {f : α → Checked γ} {xs : List α} {ys : List γ}
    (h : xs.mapM f = .ok ys) : List.Forall₂ (fun x y => f x = .ok y) xs ys := by
  induction xs generalizing ys with
  | nil =>
    cases h
    exact .nil
  | cons x xs ih =>
    rw [List.mapM_cons] at h
    obtain ⟨y, hy, h⟩ := Checked.bind_eq_ok.mp h
    obtain ⟨ys, hys, h⟩ := Checked.bind_eq_ok.mp h
    cases h
    exact .cons hy (ih hys)

/-- Go on when `p` holds, panic with `e` otherwise. -/
def ensure (p : Prop) [Decidable p] (e : Panic) : Checked Unit :=
  if p then .ok () else .error e

/-- A check passes exactly when its condition holds. -/
@[simp] theorem ensure_eq_ok {p : Prop} [Decidable p] {e : Panic} {u : Unit} :
    ensure p e = .ok u ↔ p := by
  unfold ensure
  split <;> simp_all

/-- A check whose condition holds passes. -/
theorem ensure_of {p : Prop} [Decidable p] {e : Panic} (h : p) : ensure p e = .ok () :=
  if_pos h

/-- A check whose condition fails panics. -/
theorem ensure_of_not {p : Prop} [Decidable p] {e : Panic} (h : ¬ p) :
    ensure p e = .error e :=
  if_neg h

/-! ## Fixed-width integers -/

/-- An unsigned integer type of a fixed number of bytes. -/
class MachineInt (T : Type) where
  /-- the width in bytes -/
  width : ℕ
  /-- the value -/
  toNat : T → ℕ
  /-- truncation to the width -/
  ofNat : ℕ → T
  /-- values fit the width -/
  toNat_lt : ∀ x, toNat x < 256 ^ width
  /-- truncation reduces modulo the width -/
  toNat_ofNat : ∀ n, toNat (ofNat n) = n % 256 ^ width
  /-- a value determines its integer -/
  ofNat_toNat : ∀ x, ofNat (toNat x) = x

instance : MachineInt UInt8 where
  width := 1
  toNat := UInt8.toNat
  ofNat := UInt8.ofNat
  toNat_lt x := x.toNat_lt
  toNat_ofNat n := by simp
  ofNat_toNat x := by simp

instance : MachineInt UInt16 where
  width := 2
  toNat := UInt16.toNat
  ofNat := UInt16.ofNat
  toNat_lt x := x.toNat_lt
  toNat_ofNat n := by simp
  ofNat_toNat x := by simp

instance : MachineInt UInt32 where
  width := 4
  toNat := UInt32.toNat
  ofNat := UInt32.ofNat
  toNat_lt x := x.toNat_lt
  toNat_ofNat n := by simp
  ofNat_toNat x := by simp

instance : MachineInt UInt64 where
  width := 8
  toNat := UInt64.toNat
  ofNat := UInt64.ofNat
  toNat_lt x := x.toNat_lt
  toNat_ofNat n := by simp
  ofNat_toNat x := by simp

namespace MachineInt

variable {T : Type} [MachineInt T]

/-- A number below `2 ^ 32` is itself as an integer of 32 bits. -/
theorem toNat_ofNat_u32 {n : ℕ} (h : n < 4294967296) : toNat (UInt32.ofNat n) = n :=
  UInt32.toNat_ofNat_of_lt' h

/-- `to_le_bytes`. -/
def toLeBytes (x : T) : Bytes := leBytes (width T) (toNat x)

/-- An integer has as many bytes as its type. -/
@[simp] theorem length_toLeBytes (x : T) : (toLeBytes x).length = width T :=
  length_leBytes ..

/-- The bytes of an integer give back its value. -/
@[simp] theorem leValue_toLeBytes (x : T) : leValue (toLeBytes x) = toNat x :=
  leValue_leBytes_of_lt (toNat_lt x)

/-- The integer of value `n`, or an overflow panic when `n` leaves the type. -/
def fit (n : ℕ) : Checked T :=
  if n < 256 ^ width T then .ok (ofNat n) else .error .overflow

/-- Addition of the checked profile. -/
def checkedAdd (x y : T) : Checked T := fit (toNat x + toNat y)

/-- Multiplication of the checked profile. -/
def checkedMul (x y : T) : Checked T := fit (toNat x * toNat y)

/-- Subtraction of the checked profile. -/
def checkedSub (x y : T) : Checked T :=
  if toNat y ≤ toNat x then .ok (ofNat (toNat x - toNat y)) else .error .overflow

/-- A number that the type can hold fits it. -/
theorem fit_of_lt {n : ℕ} (h : n < 256 ^ width T) : fit n = .ok (ofNat n : T) :=
  if_pos h

/-- Inversion for `fit`: the integer has the value asked for. -/
theorem fit_eq_ok {n : ℕ} {x : T} (h : fit n = .ok x) : n = toNat x := by
  unfold fit at h
  split at h
  · next hlt =>
    obtain rfl := Except.ok.inj h
    rw [toNat_ofNat, Nat.mod_eq_of_lt hlt]
  · cases h

/-- An addition that stays in the type returns the sum. -/
theorem checkedAdd_isOk {x y : T} (h : toNat x + toNat y < 256 ^ width T) :
    ∃ z, checkedAdd x y = .ok z ∧ toNat z = toNat x + toNat y :=
  ⟨_, fit_of_lt h, by rw [toNat_ofNat, Nat.mod_eq_of_lt h]⟩

/-- A multiplication that stays in the type returns the product. -/
theorem checkedMul_isOk {x y : T} (h : toNat x * toNat y < 256 ^ width T) :
    ∃ z, checkedMul x y = .ok z ∧ toNat z = toNat x * toNat y :=
  ⟨_, fit_of_lt h, by rw [toNat_ofNat, Nat.mod_eq_of_lt h]⟩

/-- Inversion for `checkedAdd`. -/
theorem checkedAdd_eq_ok {x y z : T} (h : checkedAdd x y = .ok z) :
    toNat z = toNat x + toNat y :=
  (fit_eq_ok h).symm

/-- Inversion for `checkedMul`. -/
theorem checkedMul_eq_ok {x y z : T} (h : checkedMul x y = .ok z) :
    toNat z = toNat x * toNat y :=
  (fit_eq_ok h).symm

end MachineInt

@[simp] theorem width_u8 : MachineInt.width UInt8 = 1 := rfl

@[simp] theorem width_u16 : MachineInt.width UInt16 = 2 := rfl

@[simp] theorem width_u32 : MachineInt.width UInt32 = 4 := rfl

@[simp] theorem width_u64 : MachineInt.width UInt64 = 8 := rfl

/-- An address below the limit is kept whole in four bytes. -/
theorem toLeBytes_toUInt32 {address : UInt64} (h : address.toNat < 4294967296) :
    MachineInt.toLeBytes address.toUInt32 = leBytes 4 address.toNat := by
  have hvalue : MachineInt.toNat address.toUInt32 = address.toNat := by
    change address.toUInt32.toNat = _
    rw [UInt64.toNat_toUInt32]
    exact Nat.mod_eq_of_lt h
  rw [MachineInt.toLeBytes, hvalue]
  rfl

/-- Subtraction of `usize`, the type of lengths and indices. -/
def usizeSub (m n : ℕ) : Checked ℕ :=
  if n ≤ m then .ok (m - n) else .error .overflow

/-- A difference of sizes that is not negative is returned. -/
theorem usizeSub_of_le {m n : ℕ} (h : n ≤ m) : usizeSub m n = .ok (m - n) := if_pos h

/-- Inversion for `usizeSub`. -/
theorem usizeSub_eq_ok {m n k : ℕ} (h : usizeSub m n = .ok k) : n ≤ m ∧ k = m - n := by
  unfold usizeSub at h
  split at h
  · next hle => exact ⟨hle, (Except.ok.inj h).symm⟩
  · cases h

/-- `buf[start..stop].copy_from_slice(src)`: the bounds must lie in the buffer
and the lengths must agree. -/
def copyFromSlice (buf : Bytes) (start stop : ℕ) (src : Bytes) : Checked Bytes := do
  ensure (start ≤ stop ∧ stop ≤ buf.length) .outOfRange
  ensure (stop - start = src.length) .assertion
  return patch buf start src

/-- `buf[index] = byte`. -/
def setByte (buf : Bytes) (index : ℕ) (byte : UInt8) : Checked Bytes := do
  ensure (index < buf.length) .outOfRange
  return patch buf index [byte]

/-- Copying a slice into a place of its own length overwrites what is there. -/
theorem copyFromSlice_of_le {buf src : Bytes} {start stop : ℕ}
    (h : start + src.length = stop) (hb : stop ≤ buf.length) :
    copyFromSlice buf start stop src = .ok (patch buf start src) := by
  rw [copyFromSlice, ensure_of ⟨by omega, hb⟩, ensure_of (by omega)]
  rfl

/-- Assigning a byte inside the buffer overwrites one byte. -/
theorem setByte_of_lt {buf : Bytes} {index : ℕ} {byte : UInt8} (h : index < buf.length) :
    setByte buf index byte = .ok (patch buf index [byte]) := by
  rw [setByte, ensure_of h]
  rfl

/-! ## Strings -/

/-- `as_bytes`: the UTF-8 image of a string. -/
def asBytes (s : String) : Bytes := s.toList.flatMap String.utf8EncodeChar

/-- `*b"…"`: a string literal of `n` bytes as an array. -/
def bstr {n : ℕ} (s : String) (h : (asBytes s).length == n := by exact @rfl Bool true) :
    Vector UInt8 n :=
  ⟨(asBytes s).toArray, by simpa using h⟩

/-- A string as an array of bytes has the bytes of the string. -/
@[simp] theorem toList_bstr {n : ℕ} (s : String) (h : (asBytes s).length == n) :
    (bstr s h).toList = asBytes s := by
  simp [bstr, Vector.toList]

end AcpiTables
