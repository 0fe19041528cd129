/-
TraceSim/Lib/BitFields.lean

Bits and fields of words: setting, clearing and copying one bit, and overwriting
the bits under a mask.

Each operation is described by the bits of its result, so an identity between
status words is proved bit by bit.
-/
import Mathlib.Algebra.Group.Nat.Defs
import Mathlib.Tactic.Common

namespace TraceSim

variable {w : ℕ}

/-! ### Single bits -/

/-- The word `x` with bit `i` set. -/
def setBit (x : BitVec w) (i : ℕ) : BitVec w := x ||| BitVec.twoPow w i

/-- The word `x` with bit `i` clear. -/
def clearBit (x : BitVec w) (i : ℕ) : BitVec w := x &&& ~~~BitVec.twoPow w i

/-- The word `x` with bit `i` equal to its bit `j`. -/
def copyBit (x : BitVec w) (i j : ℕ) : BitVec w :=
  if x.getLsbD j then setBit x i else clearBit x i

/-- One bit is set and the others are kept. -/
theorem getLsbD_setBit (x : BitVec w) (i k : ℕ) :
    (setBit x i).getLsbD k = (x.getLsbD k || decide (i < w) && decide (i = k)) := by
  rw [setBit, BitVec.getLsbD_or, BitVec.getLsbD_twoPow]

/-- One bit is cleared and the others are kept. -/
theorem getLsbD_clearBit (x : BitVec w) (i k : ℕ) :
    (clearBit x i).getLsbD k = (x.getLsbD k && decide (i ≠ k)) := by
  rw [clearBit, BitVec.getLsbD_and, BitVec.getLsbD_not, BitVec.getLsbD_twoPow]
  by_cases hk : k < w
  · by_cases hi : i = k
    · simp [hi, hk]
    · simp [hi, hk]
  · simp [BitVec.getLsbD_of_ge x k (by omega)]

/-- One bit takes the value of another one. -/
theorem getLsbD_copyBit (x : BitVec w) {i : ℕ} (hi : i < w) (j k : ℕ) :
    (copyBit x i j).getLsbD k = if i = k then x.getLsbD j else x.getLsbD k := by
  rw [copyBit]
  cases hj : x.getLsbD j
  · rw [if_neg Bool.false_ne_true, getLsbD_clearBit]
    by_cases hk : i = k <;> simp [hk]
  · rw [if_pos rfl, getLsbD_setBit]
    by_cases hk : i = k
    · simp [← hk, hi]
    · simp [hk]

/-! ### Masks -/

/-- The word `x` with the bits under `mask` taken from `y`. -/
def maskWrite (mask x y : BitVec w) : BitVec w := (x &&& ~~~mask) ||| (y &&& mask)

/-- Bits under the mask are written. -/
theorem getLsbD_maskWrite (mask x y : BitVec w) (k : ℕ) :
    (maskWrite mask x y).getLsbD k
      = if mask.getLsbD k then y.getLsbD k else x.getLsbD k := by
  rw [maskWrite, BitVec.getLsbD_or, BitVec.getLsbD_and, BitVec.getLsbD_and, BitVec.getLsbD_not]
  by_cases hk : k < w
  · cases mask.getLsbD k <;> simp [hk]
  · simp [BitVec.getLsbD_of_ge x k (by omega), BitVec.getLsbD_of_ge y k (by omega)]

/-- The bits of a word outside and under a mask make up the word. -/
theorem maskWrite_self (mask x : BitVec w) : maskWrite mask x x = x := by
  apply BitVec.eq_of_getLsbD_eq
  intro k _
  rw [getLsbD_maskWrite, ite_self]

/-- What is outside the mask is kept. -/
theorem maskWrite_and_of_disjoint {mask r : BitVec w} (h : mask &&& r = 0) (x y : BitVec w) :
    maskWrite mask x y &&& r = x &&& r := by
  apply BitVec.eq_of_getLsbD_eq
  intro k _
  have hk := congrArg (fun m : BitVec w => m.getLsbD k) h
  simp only [BitVec.getLsbD_and] at hk
  rw [BitVec.getLsbD_and, BitVec.getLsbD_and, getLsbD_maskWrite]
  cases hr : r.getLsbD k
  · rw [Bool.and_false, Bool.and_false]
  · rw [hr, Bool.and_true] at hk
    have hmask : mask.getLsbD k = false := by simpa using hk
    rw [hmask, if_neg Bool.false_ne_true]

/-- What was written under the mask is read back under it. -/
theorem maskWrite_and (mask x y : BitVec w) : maskWrite mask x y &&& mask = y &&& mask := by
  apply BitVec.eq_of_getLsbD_eq
  intro k _
  rw [BitVec.getLsbD_and, BitVec.getLsbD_and, getLsbD_maskWrite]
  cases mask.getLsbD k <;> simp

/-! ### Single bits under a mask -/

section Masks

variable {mask : BitVec w} {i j : ℕ}

/-- A bit of the mask can be set on either side of the mask. -/
theorem setBit_and (h : mask.getLsbD i = true) (x : BitVec w) :
    setBit x i &&& mask = setBit (x &&& mask) i := by
  apply BitVec.eq_of_getLsbD_eq
  intro k _
  rw [BitVec.getLsbD_and, getLsbD_setBit, getLsbD_setBit, BitVec.getLsbD_and]
  by_cases hk : i = k
  · rw [← hk, h, Bool.and_true, Bool.and_true]
  · simp [hk]

/-- Clearing a bit commutes with a mask. -/
theorem clearBit_and (x mask : BitVec w) (i : ℕ) :
    clearBit x i &&& mask = clearBit (x &&& mask) i := by
  apply BitVec.eq_of_getLsbD_eq
  intro k _
  rw [BitVec.getLsbD_and, getLsbD_clearBit, getLsbD_clearBit, BitVec.getLsbD_and,
    Bool.and_right_comm]

/-- So does copying within the mask. -/
theorem copyBit_and (hi : mask.getLsbD i = true) (hj : mask.getLsbD j = true) (x : BitVec w) :
    copyBit x i j &&& mask = copyBit (x &&& mask) i j := by
  rw [copyBit, copyBit, BitVec.getLsbD_and, hj, Bool.and_true]
  cases x.getLsbD j
  · exact clearBit_and x mask i
  · exact setBit_and hi x

/-- A bit outside the mask does not count under it. -/
theorem setBit_and_of_not (h : mask.getLsbD i = false) (x : BitVec w) :
    setBit x i &&& mask = x &&& mask := by
  apply BitVec.eq_of_getLsbD_eq
  intro k _
  rw [BitVec.getLsbD_and, BitVec.getLsbD_and, getLsbD_setBit]
  by_cases hk : i = k
  · rw [← hk, h, Bool.and_false, Bool.and_false]
  · simp [hk]

/-- A bit outside the mask does not show. -/
theorem clearBit_and_of_not (h : mask.getLsbD i = false) (x : BitVec w) :
    clearBit x i &&& mask = x &&& mask := by
  apply BitVec.eq_of_getLsbD_eq
  intro k _
  rw [BitVec.getLsbD_and, BitVec.getLsbD_and, getLsbD_clearBit]
  by_cases hk : i = k
  · rw [← hk, h, Bool.and_false, Bool.and_false]
  · simp [hk]

/-- A bit outside the mask does not show, whatever it is copied from. -/
theorem copyBit_and_of_not (h : mask.getLsbD i = false) (x : BitVec w) (j : ℕ) :
    copyBit x i j &&& mask = x &&& mask := by
  rw [copyBit]
  split_ifs
  · exact setBit_and_of_not h x
  · exact clearBit_and_of_not h x

end Masks

/-! ### Low and high bits -/

/-- The low bits are a remainder. -/
theorem toNat_and_low (x : BitVec w) {k : ℕ} (hk : k ≤ w) :
    (x &&& BitVec.ofNat w (2 ^ k - 1)).toNat = x.toNat % 2 ^ k := by
  have hlt : 2 ^ k - 1 < 2 ^ w :=
    Nat.lt_of_lt_of_le (Nat.sub_lt (Nat.two_pow_pos k) Nat.one_pos)
      (Nat.pow_le_pow_right (by decide) hk)
  rw [BitVec.toNat_and, BitVec.toNat_ofNat, Nat.mod_eq_of_lt hlt, Nat.and_two_pow_sub_one_eq_mod]

/-- And the high bits a quotient. -/
theorem toNat_and_high (x : BitVec w) (k : ℕ) :
    (x &&& ~~~BitVec.ofNat w (2 ^ k - 1)).toNat = x.toNat / 2 ^ k * 2 ^ k := by
  have hshift : x &&& ~~~BitVec.ofNat w (2 ^ k - 1) = (x >>> k) <<< k := by
    refine BitVec.eq_of_getLsbD_eq fun i hi => ?_
    rw [BitVec.getLsbD_and, BitVec.getLsbD_not, BitVec.getLsbD_ofNat, Nat.testBit_two_pow_sub_one,
      BitVec.getLsbD_shiftLeft, BitVec.getLsbD_ushiftRight]
    by_cases hlow : i < k
    · simp [hlow, hi]
    · simp [hlow, hi, show k + (i - k) = i by omega]
  have hlt : x.toNat / 2 ^ k * 2 ^ k < 2 ^ w :=
    Nat.lt_of_le_of_lt (Nat.div_mul_le_self _ _) x.isLt
  rw [hshift, BitVec.toNat_shiftLeft, BitVec.toNat_ushiftRight, Nat.shiftRight_eq_div_pow,
    Nat.shiftLeft_eq, Nat.mod_eq_of_lt hlt]

end TraceSim
