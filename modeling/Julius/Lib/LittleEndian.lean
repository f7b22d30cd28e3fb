import Mathlib.Data.BitVec

set_option autoImplicit false

/- Numbers and records of numbers as bytes, least significant byte first. -/
namespace LittleEndian

/-- The lowest `n` bytes of `v`. -/
def encode : Nat → Nat → List (BitVec 8)
  | 0, _ => []
  | n + 1, v => BitVec.ofNat 8 v :: encode n (v / 2 ^ 8)

def decode : List (BitVec 8) → Nat
  | [] => 0
  | byte :: rest => byte.toNat + 2 ^ 8 * decode rest

@[simp] theorem length_encode (n v : Nat) : (encode n v).length = n := by
  induction n generalizing v with
  | zero => rfl
  | succ n ih => rw [encode, List.length_cons, ih]

/-- What does not fit in the bytes is lost, and nothing else. -/
theorem decode_encode (n v : Nat) : decode (encode n v) = v % 2 ^ (8 * n) := by
  induction n generalizing v with
  | zero => rw [Nat.mul_zero, Nat.pow_zero, Nat.mod_one]; rfl
  | succ n ih =>
      rw [encode, decode, ih, BitVec.toNat_ofNat, Nat.mul_succ, Nat.add_comm (8 * n), Nat.pow_add,
        Nat.mod_mul]

/-- An unsigned integer of `8 * n` bits, in `n` bytes. -/
def ofBits {w : Nat} (n : Nat) (v : BitVec w) : List (BitVec 8) := encode n v.toNat

def toBits (w : Nat) (bytes : List (BitVec 8)) : BitVec w := BitVec.ofNat w (decode bytes)

@[simp] theorem length_ofBits {w : Nat} (n : Nat) (v : BitVec w) : (ofBits n v).length = n :=
  length_encode n _

theorem toBits_ofBits {w n : Nat} (width : w = 8 * n) (v : BitVec w) : toBits w (ofBits n v) = v := by
  rw [toBits, ofBits, decode_encode, ← width, Nat.mod_eq_of_lt v.isLt, BitVec.ofNat_toNat,
    BitVec.setWidth_eq]

section

variable {w : Nat}

/-- A record of fields of `n` bytes each, without padding. -/
def pack (n : Nat) (fields : List (BitVec w)) : List (BitVec 8) := fields.flatMap (ofBits n)

/-- The field with index `i` of such a record. -/
def field (w n : Nat) (bytes : List (BitVec 8)) (i : Nat) : BitVec w :=
  toBits w ((bytes.drop (n * i)).take n)

@[simp] theorem length_pack (n : Nat) (fields : List (BitVec w)) :
    (pack n fields).length = fields.length * n := by
  induction fields with
  | nil => rw [List.length_nil, Nat.zero_mul]; rfl
  | cons v rest ih =>
      rw [pack, List.flatMap_cons, List.length_append, length_ofBits, List.length_cons,
        Nat.succ_mul, Nat.add_comm]
      exact congrArg (· + n) ih

/-- Every field reads back, wherever it lies in the record. -/
theorem field_pack {n : Nat} (width : w = 8 * n) (fields : List (BitVec w)) (i : Nat)
    (inside : i < fields.length) : field w n (pack n fields) i = fields[i] := by
  induction fields generalizing i with
  | nil => exact absurd inside (Nat.not_lt_zero i)
  | cons v rest ih =>
      have shape : pack n (v :: rest) = ofBits n v ++ pack n rest := List.flatMap_cons
      rw [field, shape]
      cases i with
      | zero =>
          rw [Nat.mul_zero, List.drop_zero, List.take_left' (length_ofBits n v)]
          exact toBits_ofBits width v
      | succ i =>
          rw [Nat.mul_succ, Nat.add_comm, ← List.drop_drop, List.drop_left' (length_ofBits n v)]
          exact ih i (Nat.lt_of_succ_lt_succ inside)

end

end LittleEndian
