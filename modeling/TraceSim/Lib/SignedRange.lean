/-
TraceSim/Lib/SignedRange.lean

When the signed difference and the signed sum of two words stay in range.

Words are read as addresses here: from the address `y` to the address `x` the signed
difference stays in range if both lie in the same half of the address space, or if they
are so far apart that the way around the end of the address space is the shorter one
(`ssubOverflow_eq_false_iff`).  A sum stays in range just if the difference from its
first term does (`saddOverflow_eq`).
-/
import Mathlib.Algebra.Order.Ring.Int
import Mathlib.Tactic.NormNum

namespace TraceSim

variable {w : ℕ}

/-- The address `x` follows `y` in the same half of the address space, or by the way
around its end. -/
def Follows (y x : BitVec w) : Prop :=
  y.msb = x.msb ∨ y.toNat + 2 ^ (w - 1) ≤ x.toNat ∨ x.toNat + 2 ^ (w - 1) < y.toNat

instance (y x : BitVec w) : Decidable (Follows y x) :=
  inferInstanceAs (Decidable (_ ∨ _ ∨ _))

theorem ssubOverflow_eq_false {x y : BitVec w} : x.ssubOverflow y = false ↔
    -2 ^ (w - 1) ≤ x.toInt - y.toInt ∧ x.toInt - y.toInt < 2 ^ (w - 1) := by
  rw [BitVec.ssubOverflow, Bool.or_eq_false_iff, decide_eq_false_iff_not,
    decide_eq_false_iff_not, not_le, not_lt]
  exact and_comm

theorem saddOverflow_eq_false {x y : BitVec w} : x.saddOverflow y = false ↔
    -2 ^ (w - 1) ≤ x.toInt + y.toInt ∧ x.toInt + y.toInt < 2 ^ (w - 1) := by
  rw [BitVec.saddOverflow, Bool.or_eq_false_iff, decide_eq_false_iff_not,
    decide_eq_false_iff_not, not_le, not_lt]
  exact and_comm

/-- **A difference in range**, in terms of unsigned addresses. -/
theorem ssubOverflow_eq_false_iff (x y : BitVec w) :
    x.ssubOverflow y = false ↔ Follows y x := by
  rw [ssubOverflow_eq_false, Follows]
  cases w with
  | zero => simp [BitVec.toInt_zero_length, BitVec.msb]
  | succ k =>
    have hhalf : (2 : ℤ) ^ k = ((2 ^ k : ℕ) : ℤ) := by norm_cast
    have hx := x.isLt
    have hy := y.isLt
    rw [Nat.pow_succ] at hx hy
    rw [Nat.add_sub_cancel, hhalf, BitVec.toInt_eq_msb_cond, BitVec.toInt_eq_msb_cond,
      BitVec.msb_eq_decide, BitVec.msb_eq_decide, Nat.add_sub_cancel, Nat.pow_succ,
      decide_eq_decide]
    simp only [decide_eq_true_eq]
    generalize 2 ^ k = half at *
    split_ifs with hhx hhy hhy
    all_goals omega

/-- **A sum in range** does not leave the range on the way from its first term. -/
theorem saddOverflow_eq (x y : BitVec w) : x.saddOverflow y = (x + y).ssubOverflow x := by
  have hback : x + y - x = y := by
    rw [BitVec.add_comm, BitVec.add_sub_cancel]
  rw [Bool.eq_iff_iff, ← not_iff_not, Bool.not_eq_true, Bool.not_eq_true]
  have hbounds := y.le_toInt
  constructor
  · intro h
    have hsum := BitVec.toInt_add_of_not_saddOverflow (Bool.eq_false_iff.mp h)
    rw [ssubOverflow_eq_false, hsum]
    have := y.toInt_lt
    omega
  · intro h
    have hdiff := BitVec.toInt_sub_of_not_ssubOverflow (Bool.eq_false_iff.mp h)
    rw [hback] at hdiff
    rw [saddOverflow_eq_false]
    have := (x + y).toInt_lt
    have := (x + y).le_toInt
    omega

end TraceSim
