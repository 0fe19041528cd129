/-
TraceSim/Lib/BitPolynomial.lean

Words as polynomials over the field of two elements: bit `i` is the coefficient
of `X ^ i`.

Exclusive or is the sum.  The coefficients of a product are sums over the bits
of one factor, and a loop that takes the exclusive or of one word for each set
bit computes such a sum in every bit of its result.
-/
import Mathlib.Algebra.Polynomial.Coeff
import Mathlib.Algebra.Field.ZMod

namespace TraceSim

open Polynomial

variable {v w : ℕ}

/-! ### One bit -/

/-- A bit as a coefficient. -/
def coeffOf (b : Bool) : ZMod 2 := if b then 1 else 0

@[simp] theorem coeffOf_false : coeffOf false = 0 := rfl

@[simp] theorem coeffOf_true : coeffOf true = 1 := rfl

/-- Exclusive or is the sum of coefficients. -/
theorem coeffOf_xor (a b : Bool) : coeffOf (a ^^ b) = coeffOf a + coeffOf b := by
  cases a <;> cases b <;> rfl

/-- And is the product. -/
theorem coeffOf_and (a b : Bool) : coeffOf (a && b) = coeffOf a * coeffOf b := by
  cases a <;> cases b <;> rfl

/-- A bit can be read back from its coefficient. -/
theorem coeffOf_injective : Function.Injective coeffOf := by
  intro a b h
  cases a <;> cases b <;> first | rfl | exact absurd h (by decide)

/-! ### The polynomial of a word -/

/-- The polynomial whose coefficients are the bits of `x`. -/
noncomputable def wordPoly (x : BitVec w) : (ZMod 2)[X] :=
  ∑ i ∈ Finset.range w, C (coeffOf (x.getLsbD i)) * X ^ i

/-- The coefficients of a word are its bits. -/
theorem coeff_wordPoly (x : BitVec w) (k : ℕ) :
    (wordPoly x).coeff k = coeffOf (x.getLsbD k) := by
  rw [wordPoly, finsetSum_coeff]
  simp only [coeff_C_mul_X_pow]
  rw [Finset.sum_ite_eq]
  by_cases hk : k < w
  · rw [if_pos (Finset.mem_range.2 hk)]
  · rw [if_neg fun h => hk (Finset.mem_range.1 h), BitVec.getLsbD_of_ge x k (by omega),
      coeffOf_false]

/-- The coefficients of a product, by the bits of the second factor. -/
theorem coeff_wordPoly_mul (x : BitVec v) (y : BitVec w) (k : ℕ) :
    (wordPoly x * wordPoly y).coeff k
      = ∑ i ∈ Finset.range w,
          coeffOf (y.getLsbD i && (decide (i ≤ k) && x.getLsbD (k - i))) := by
  rw [show wordPoly y = ∑ i ∈ Finset.range w, C (coeffOf (y.getLsbD i)) * X ^ i from rfl,
    Finset.mul_sum, finsetSum_coeff]
  apply Finset.sum_congr rfl
  intro i _
  rw [mul_left_comm, coeff_C_mul, coeff_mul_X_pow', coeff_wordPoly, coeffOf_and]
  by_cases hi : i ≤ k <;> simp [hi]

/-! ### Exclusive or over the set bits of a word -/

/-- One bit of the exclusive or of the words `term i` over the indices `l` that
are set in `y`. -/
theorem coeffOf_foldl_xor (y : BitVec v) (term : ℕ → BitVec w) (k : ℕ) (l : List ℕ)
    (acc : BitVec w) :
    coeffOf ((l.foldl (fun output i => if y.getLsbD i then output ^^^ term i else output)
        acc).getLsbD k)
      = coeffOf (acc.getLsbD k)
        + (l.map fun i => coeffOf (y.getLsbD i && (term i).getLsbD k)).sum := by
  induction l generalizing acc with
  | nil => simp
  | cons i l ih =>
      rw [List.foldl_cons, ih, List.map_cons, List.sum_cons, ← add_assoc]
      congr 1
      cases hb : y.getLsbD i
      · simp
      · rw [if_pos rfl, BitVec.getLsbD_xor, coeffOf_xor, Bool.true_and]

end TraceSim
