/-
TraceSim/Lib/AddressSplit.lean

Splitting a word into line, index and tag.

For a line of `2 ^ k` bytes, clearing the low `k` bits of a word leaves
`x / 2 ^ k` lines below it; masking and shifting that line number by `j` bits
gives an index and a tag.  The three equations say what the bit operations
compute, and `split_eq_iff` that index and tag together are as good as the
line.
-/
import Mathlib.Data.Nat.Bitwise
import Mathlib.Tactic.Common

namespace TraceSim

variable {w : ℕ}

/-- One less than a power of two. -/
theorem toNat_sub_one {l : BitVec w} {k : ℕ} (h : l.toNat = 2 ^ k) :
    (l - 1).toNat = 2 ^ k - 1 := by
  have hpos : 0 < 2 ^ k := Nat.two_pow_pos k
  have hlt : 2 ^ k < 2 ^ w := h ▸ l.isLt
  have hone : (1 : BitVec w).toNat = 1 := by
    have hw : 1 < 2 ^ w := by omega
    simp only [BitVec.ofNat_eq_ofNat, BitVec.toNat_ofNat]
    exact Nat.mod_eq_of_lt hw
  rw [BitVec.toNat_sub_of_le, h, hone]
  rw [BitVec.le_def, h, hone]
  omega

/-- Clearing the bits below `2 ^ k` rounds down to a multiple of it. -/
theorem toNat_and_not_sub_one (x : BitVec w) {l : BitVec w} {k : ℕ}
    (h : l.toNat = 2 ^ k) : (x &&& ~~~(l - 1)).toNat = x.toNat / 2 ^ k * 2 ^ k := by
  apply Nat.eq_of_testBit_eq
  intro i
  rw [Nat.testBit_mul_two_pow, Nat.testBit_div_two_pow, BitVec.testBit_toNat,
    BitVec.getLsbD_and, BitVec.getLsbD_not]
  have hm : (l - 1).getLsbD i = decide (i < k) := by
    rw [← BitVec.testBit_toNat, toNat_sub_one h, Nat.testBit_two_pow_sub_one]
  rw [hm]
  by_cases hik : k ≤ i
  · have hsub : i - k + k = i := by omega
    by_cases hiw : i < w
    · simp [hik, hiw, hsub, BitVec.testBit_toNat]
    · have hx : x.getLsbD i = false := BitVec.getLsbD_of_ge x i (by omega)
      simp [hsub, hx, BitVec.testBit_toNat]
  · have hlt : i < k := by omega
    simp [hik, hlt]

/-- Shifting by `k` and masking by `2 ^ j - 1` takes the line number modulo
`2 ^ j`. -/
theorem toNat_shift_and (x : BitVec w) {m : BitVec w} {k j : ℕ}
    (h : m.toNat = 2 ^ j - 1) :
    ((x >>> k) &&& m).toNat = x.toNat / 2 ^ k % 2 ^ j := by
  rw [BitVec.toNat_and, h, Nat.and_two_pow_sub_one_eq_mod, BitVec.toNat_ushiftRight,
    Nat.shiftRight_eq_div_pow]

/-- Shifting by `k + j` divides the line number by `2 ^ j`. -/
theorem toNat_shift_add (x : BitVec w) (k j : ℕ) :
    (x >>> (k + j)).toNat = x.toNat / 2 ^ k / 2 ^ j := by
  rw [BitVec.toNat_ushiftRight, Nat.shiftRight_eq_div_pow, Nat.pow_add,
    Nat.div_div_eq_div_mul]

/-- Two words lie in the same line when their line numbers agree. -/
theorem line_eq_iff (x y : BitVec w) {l : BitVec w} {k : ℕ} (h : l.toNat = 2 ^ k) :
    (x &&& ~~~(l - 1)) = (y &&& ~~~(l - 1)) ↔ x.toNat / 2 ^ k = y.toNat / 2 ^ k := by
  rw [← BitVec.toNat_inj, toNat_and_not_sub_one x h, toNat_and_not_sub_one y h]
  exact Nat.mul_left_inj (Nat.two_pow_pos k).ne'

/-- **Index and tag determine the line**, and are determined by it. -/
theorem split_eq_iff (x y : BitVec w) {l m : BitVec w} {k j : ℕ} (hl : l.toNat = 2 ^ k)
    (hm : m.toNat = 2 ^ j - 1) :
    ((x >>> k) &&& m) = ((y >>> k) &&& m) ∧ x >>> (k + j) = y >>> (k + j) ↔
      (x &&& ~~~(l - 1)) = (y &&& ~~~(l - 1)) := by
  rw [line_eq_iff x y hl, ← BitVec.toNat_inj, toNat_shift_and x hm,
    toNat_shift_and y hm, ← BitVec.toNat_inj, toNat_shift_add, toNat_shift_add]
  constructor
  · rintro ⟨hmod, hdiv⟩
    rw [← Nat.div_add_mod (x.toNat / 2 ^ k) (2 ^ j), hmod, hdiv, Nat.div_add_mod]
  · intro h
    rw [h]
    exact ⟨rfl, rfl⟩

/-- Rounding down twice is rounding down once. -/
theorem line_line (x : BitVec w) (l : BitVec w) :
    (x &&& ~~~(l - 1)) &&& ~~~(l - 1) = x &&& ~~~(l - 1) := by
  rw [BitVec.and_assoc, BitVec.and_self]

end TraceSim
