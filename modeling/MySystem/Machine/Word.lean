import Mathlib.Algebra.Group.Int.Defs
import Mathlib.Algebra.GroupWithZero.Nat
import Mathlib.Data.Nat.Basic

/-!
# Machine words as natural numbers

Address arithmetic of the verified code is carried out on 32-bit words, while
its invariants are about natural numbers. The lemmas here move an operation on
encoded naturals to the encoding of the natural operation; each one states the
bound under which the word operation does not wrap.
-/

namespace Machine

/-- A 32-bit machine word, also used as a linear address. -/
abbrev Word := BitVec 32

abbrev Byte := BitVec 8

/-- A 16-bit operand: a character cell, a port number or a segment selector. -/
abbrev Half := BitVec 16

namespace Word

/-- The word encoding a natural number. -/
abbrev of (n : Nat) : Word := BitVec.ofNat 32 n

variable {a b : Nat}

theorem toNat_of (h : a < 2 ^ 32) : (of a).toNat = a := by
  rw [BitVec.toNat_ofNat, Nat.mod_eq_of_lt h]

/-- As an `int` a small number is itself. -/
theorem toInt_of (h : a < 2 ^ 31) : (of a).toInt = a := by
  have hnat : (of a).toNat = a := toNat_of (Nat.lt_trans h (by decide))
  rw [BitVec.toInt_eq_toNat_of_lt (by omega), hnat]

theorem of_toNat (v : Word) : of v.toNat = v := BitVec.ofNat_toNat 32 v

theorem of_inj (ha : a < 2 ^ 32) (hb : b < 2 ^ 32) : of a = of b ↔ a = b := by
  refine ⟨fun h => ?_, fun h => h ▸ rfl⟩
  have := congrArg BitVec.toNat h
  rwa [toNat_of ha, toNat_of hb] at this

theorem of_lt_of (ha : a < 2 ^ 32) (hb : b < 2 ^ 32) : of a < of b ↔ a < b := by
  rw [BitVec.lt_def, toNat_of ha, toNat_of hb]

theorem of_le_of (ha : a < 2 ^ 32) (hb : b < 2 ^ 32) : of a ≤ of b ↔ a ≤ b := by
  rw [BitVec.le_def, toNat_of ha, toNat_of hb]

/-- Sums need no bound: both sides wrap alike. -/
theorem of_add_of (a b : Nat) : of a + of b = of (a + b) := (BitVec.ofNat_add a b).symm

theorem of_mul_of (a b : Nat) : of a * of b = of (a * b) := (BitVec.ofNat_mul a b).symm

theorem of_sub_of (ha : a < 2 ^ 32) (h : b ≤ a) : of a - of b = of (a - b) :=
  BitVec.ofNat_sub_ofNat_of_le a b (Nat.lt_of_le_of_lt h ha) h

theorem of_shiftLeft_one (a : Nat) : of a <<< 1 = of (2 * a) := by
  apply BitVec.eq_of_toNat_eq
  simp only [BitVec.toNat_shiftLeft, BitVec.toNat_ofNat, Nat.shiftLeft_eq]
  omega

theorem of_shiftRight (ha : a < 2 ^ 32) (n : Nat) : of a >>> n = of (a / 2 ^ n) := by
  apply BitVec.eq_of_toNat_eq
  rw [BitVec.toNat_ushiftRight, toNat_of ha, Nat.shiftRight_eq_div_pow,
    toNat_of (Nat.lt_of_le_of_lt (Nat.div_le_self _ _) ha)]

end Word

/-- The value of an `int` after an operation whose exact result is `n`. -/
def int32 (n : Int) : Int := n.bmod (2 ^ 32)

theorem int32_eq {n : Int} (h : -2 ^ 31 ≤ n) (h' : n < 2 ^ 31) : int32 n = n := by
  rw [int32, Int.bmod_eq_of_le (by omega) (by omega)]

/-! Operands need not be exact, as long as the result is taken modulo 2^32. -/

@[simp] theorem int32_add_left (a b : Int) : int32 (int32 a + b) = int32 (a + b) :=
  Int.bmod_add_bmod

@[simp] theorem int32_add_right (a b : Int) : int32 (a + int32 b) = int32 (a + b) :=
  Int.add_bmod_bmod

@[simp] theorem int32_sub_left (a b : Int) : int32 (int32 a - b) = int32 (a - b) :=
  Int.bmod_sub_bmod

@[simp] theorem int32_mul_right (a b : Int) : int32 (a * int32 b) = int32 (a * b) :=
  Int.mul_bmod_bmod

/-- The byte of an ASCII character. -/
abbrev ch (c : Char) : Byte := BitVec.ofNat 8 c.toNat

end Machine
