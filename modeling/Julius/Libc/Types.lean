import Mathlib.Algebra.Group.Nat.Defs
import Mathlib.Logic.Function.Basic

set_option autoImplicit false

/- The integer types of libc/include/julius/types.h and the constants that the
C library and julius-init share. -/
namespace Julius

abbrev Byte := BitVec 8

/-- `uint64_t`, and with it `size_t`, `uintptr_t` and every pointer. -/
abbrev Word := BitVec 64

abbrev KernReturn := BitVec 32

abbrev MachPort := BitVec 32

def kernSuccess : KernReturn := 0

def machPortNull : MachPort := 0

def machPortRightReceive : BitVec 32 := 1

def machMsgTypeMakeSend : BitVec 32 := 20

def machMsgTypeCopySend : BitVec 32 := 19

def vmFlagsAnywhere : BitVec 32 := 1

/-- A null pointer, as `malloc` and the region allocator return it. -/
def null : Word := 0

/-- The macro `ALIGN(n, a)`. Its mask `~((a) - 1)` is an `int` in the source and
is sign-extended to the width of `n`. -/
def align (n a : Word) : Word := (n + a - 1) &&& ~~~(a - 1)

private theorem and_not_fifteen (x : Word) : x &&& ~~~15#64 = (x >>> 4) <<< 4 := by
  ext i inside
  have mask : (15#64)[i] = decide (i < 4) := by
    rw [← BitVec.getLsbD_eq_getElem, BitVec.getLsbD_ofNat, show (15 : Nat) = 2 ^ 4 - 1 from rfl,
      Nat.testBit_two_pow_sub_one]
    simp [inside]
  rw [BitVec.getElem_and, BitVec.getElem_not, mask, BitVec.getElem_shiftLeft]
  by_cases low : i < 4
  · simp [low]
  · simp [low, inside, Nat.add_sub_cancel' (Nat.le_of_not_lt low)]

/-- `ALIGN(n, 16)` rounds the sum it computes modulo `2^64` down to sixteen. -/
theorem align_sixteen_wrap (n : Word) :
    (align n 16).toNat = (n.toNat + 15) % 2 ^ 64 / 16 * 16 := by
  have sum : (n + 16 - 1 : Word).toNat = (n.toNat + 15) % 2 ^ 64 := by bv_omega
  have shape : align n 16 = ((n + 16 - 1) >>> 4) <<< 4 := and_not_fifteen _
  rw [shape, BitVec.toNat_shiftLeft, BitVec.toNat_ushiftRight, sum, Nat.shiftRight_eq_div_pow,
    Nat.shiftLeft_eq]
  omega

/-- Rounding up to sixteen is exact as long as the addition in `ALIGN` does not wrap. -/
theorem align_sixteen_toNat (n : Word) (fits : n.toNat + 15 < 2 ^ 64) :
    (align n 16).toNat = (n.toNat + 15) / 16 * 16 := by
  rw [align_sixteen_wrap, Nat.mod_eq_of_lt fits]

/-- Stepping a pointer is exact below the end of the address space. -/
theorem succ_toNat (address : Word) (fits : address.toNat + 1 < 2 ^ 64) :
    (address + 1).toNat = address.toNat + 1 := by
  have one : (1 : Word).toNat = 1 := rfl
  rw [BitVec.toNat_add, one]
  omega

/-- `i` bytes behind the next byte are `i + 1` bytes on. -/
theorem next_add (address : Word) (i : Nat) :
    address + 1 + BitVec.ofNat 64 i = address + BitVec.ofNat 64 (i + 1) := by
  rw [Nat.add_comm i, BitVec.ofNat_add, ← BitVec.add_assoc]
  rfl

theorem add_next (address : Word) (i : Nat) :
    address + BitVec.ofNat 64 i + 1 = address + BitVec.ofNat 64 (i + 1) := by
  rw [BitVec.ofNat_add, ← BitVec.add_assoc]
  rfl

/-- `i` bytes on, below the end of the address space. -/
theorem offset_toNat (address : Word) (i : Nat) (fits : address.toNat + i < 2 ^ 64) :
    (address + BitVec.ofNat 64 i).toNat = address.toNat + i := by
  rw [BitVec.toNat_add, BitVec.toNat_ofNat, Nat.add_mod_mod, Nat.mod_eq_of_lt fits]

/-- Addresses that differ by less than the address space are different. -/
theorem offset_ne (address : Word) {i j : Nat} (less : i < j) (inside : j < 2 ^ 64) :
    address + BitVec.ofNat 64 i ≠ address + BitVec.ofNat 64 j := by
  intro same
  have counts := congrArg BitVec.toNat (BitVec.add_right_inj address |>.mp same)
  rw [BitVec.toNat_ofNat, BitVec.toNat_ofNat] at counts
  omega

/-- A flat byte memory. It is total: what an address holds before the kernel
maps a region there is left open. -/
abbrev Memory := Word → Byte

end Julius
