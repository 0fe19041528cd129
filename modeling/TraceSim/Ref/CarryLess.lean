/-
TraceSim/Ref/CarryLess.lean

The carry-less products of the reference CPU are three windows of one product of
polynomials over the field of two elements.

Bit `k` of `clmul`, `clmulr` and `clmulh` is coefficient `k`, `k + 31` and
`k + 32` of the product (`clmulLoop_window`).  The loop of `clmulh` starts at 1:
its term for bit 0 would be a shift by the whole width.

In the source a shift of a 32-bit word is defined for amounts from 0 to 31 only.
The loops are also given with such partial shifts, and are then defined for all
operands (`clmulLoopDefined_eq`).
-/
import TraceSim.Lib.BitPolynomial
import TraceSim.Ref.Alu

namespace TraceSim.Ref

/-! ### Windows of the product -/

/-- The loop adds up the shifted terms where the second operand has its bits. -/
theorem coeffOf_clmulLoop (b : BitVec 32) {start : ℕ} (hs : start ≤ 32)
    (term : ℕ → BitVec 32) (k : ℕ) :
    coeffOf ((clmulLoop b start term).getLsbD k)
      = ∑ i ∈ Finset.Ico start 32, coeffOf (b.getLsbD i && (term i).getLsbD k) := by
  have hindices : (List.range' start (32 - start)).toFinset = Finset.Ico start 32 := by
    ext i
    simp only [List.mem_toFinset, List.mem_range'_1, Finset.mem_Ico]
    omega
  rw [clmulLoop, coeffOf_foldl_xor, ← hindices, List.sum_toFinset _ List.nodup_range']
  simp

/-- If the terms of a loop are shifted copies of `a`, bit `k` of the loop is
coefficient `k + s` of the product.  The bits of `b` below `start` must not
contribute. -/
theorem clmulLoop_window (a b : BitVec 32) {start s k : ℕ} (hs : start ≤ 32)
    (term : ℕ → BitVec 32)
    (hterm : ∀ i, start ≤ i → i < 32 →
      (term i).getLsbD k = (decide (i ≤ k + s) && a.getLsbD (k + s - i)))
    (hstart : ∀ i, i < start → a.getLsbD (k + s - i) = false) :
    coeffOf ((clmulLoop b start term).getLsbD k) = (wordPoly a * wordPoly b).coeff (k + s) := by
  rw [coeffOf_clmulLoop b hs, coeff_wordPoly_mul, Finset.range_eq_Ico]
  apply Finset.sum_subset_zero_on_sdiff (Finset.Ico_subset_Ico_left (Nat.zero_le _))
  · intro i hi
    have hlt : i < start := by
      simp only [Finset.mem_sdiff, Finset.mem_Ico] at hi
      omega
    rw [hstart i hlt, Bool.and_false, Bool.and_false, coeffOf_false]
  · intro i hi
    rw [hterm i (Finset.mem_Ico.1 hi).1 (Finset.mem_Ico.1 hi).2]

/-- Bit `k` is the coefficient of the product there. -/
theorem coeffOf_clmul (a b : BitVec 32) {k : ℕ} (hk : k < 32) :
    coeffOf ((clmul a b).getLsbD k) = (wordPoly a * wordPoly b).coeff k := by
  apply clmulLoop_window (s := 0) a b (Nat.zero_le _)
  · intro i _ _
    rw [BitVec.getLsbD_shiftLeft, decide_eq_true hk, Bool.true_and, Nat.add_zero,
      ← decide_not, decide_eq_decide.2 Nat.not_lt]
  · intro i hi
    omega

/-- The reversed product begins 31 places higher. -/
theorem coeffOf_clmulr (a b : BitVec 32) (k : ℕ) :
    coeffOf ((clmulr a b).getLsbD k) = (wordPoly a * wordPoly b).coeff (k + 31) := by
  apply clmulLoop_window (s := 31) a b (Nat.zero_le _)
  · intro i _ hi
    rw [BitVec.getLsbD_ushiftRight, decide_eq_true (by omega), Bool.true_and,
      show 31 - i + k = k + 31 - i by omega]
  · intro i hi
    omega

/-- And the high product 32. -/
theorem coeffOf_clmulh (a b : BitVec 32) (k : ℕ) :
    coeffOf ((clmulh a b).getLsbD k) = (wordPoly a * wordPoly b).coeff (k + 32) := by
  apply clmulLoop_window (s := 32) a b (by decide)
  · intro i _ hi
    rw [BitVec.getLsbD_ushiftRight, decide_eq_true (by omega), Bool.true_and,
      show 32 - i + k = k + 32 - i by omega]
  · intro i hi
    -- bit 0 of `b`, the only one the loop leaves out, meets no bit of `a`
    exact BitVec.getLsbD_of_ge a _ (by omega)

/-- The 64-bit word of `clmulh` and `clmul` is the product. -/
theorem wordPoly_clmulh_append_clmul (a b : BitVec 32) :
    wordPoly (clmulh a b ++ clmul a b) = wordPoly a * wordPoly b := by
  ext k
  rw [coeff_wordPoly, BitVec.getLsbD_append]
  by_cases hk : k < 32
  · rw [if_pos hk, coeffOf_clmul a b hk]
  · rw [if_neg hk, coeffOf_clmulh, Nat.sub_add_cancel (Nat.not_lt.1 hk)]

/-- The middle window is cut out of the 64-bit word. -/
theorem clmulr_eq_window (a b : BitVec 32) :
    clmulr a b = ((clmulh a b ++ clmul a b) >>> 31).setWidth 32 := by
  refine BitVec.eq_of_getLsbD_eq fun k hk => coeffOf_injective ?_
  rw [coeffOf_clmulr, BitVec.getLsbD_setWidth, decide_eq_true hk, Bool.true_and,
    BitVec.getLsbD_ushiftRight, ← coeff_wordPoly, wordPoly_clmulh_append_clmul, Nat.add_comm]

/-- A loop whose bits are coefficients of the product does not tell its operands
apart. -/
theorem comm_of_window {f : BitVec 32 → BitVec 32 → BitVec 32} (s : ℕ)
    (hf : ∀ a b k, k < 32 →
      coeffOf ((f a b).getLsbD k) = (wordPoly a * wordPoly b).coeff (k + s))
    (a b : BitVec 32) : f a b = f b a := by
  refine BitVec.eq_of_getLsbD_eq fun k hk => coeffOf_injective ?_
  rw [hf a b k hk, hf b a k hk, mul_comm]

/-- The product of polynomials is commutative. -/
theorem clmul_comm (a b : BitVec 32) : clmul a b = clmul b a :=
  comm_of_window 0 (fun a b _ hk => coeffOf_clmul a b hk) a b

/-- So is each of its windows. -/
theorem clmulr_comm (a b : BitVec 32) : clmulr a b = clmulr b a :=
  comm_of_window 31 (fun a b k _ => coeffOf_clmulr a b k) a b

/-- And the high one. -/
theorem clmulh_comm (a b : BitVec 32) : clmulh a b = clmulh b a :=
  comm_of_window 32 (fun a b k _ => coeffOf_clmulh a b k) a b

/-! ### Shift amounts -/

/-- A left shift of a 32-bit word in the source: undefined unless the amount lies
between 0 and 31. -/
def shiftLeftDefined (x : BitVec 32) (n : ℤ) : Option (BitVec 32) :=
  if 0 ≤ n ∧ n < 32 then some (x <<< n.toNat) else none

/-- A right shift of an unsigned 32-bit word in the source. -/
def shiftRightDefined (x : BitVec 32) (n : ℤ) : Option (BitVec 32) :=
  if 0 ≤ n ∧ n < 32 then some (x >>> n.toNat) else none

/-- One iteration with the shifts as the source has them: the test of bit `i` is a
shift too, and `term i` is evaluated for the set bits only. -/
def clmulIterDefined (b : BitVec 32) (term : ℤ → Option (BitVec 32)) (output : BitVec 32)
    (i : ℕ) : Option (BitVec 32) := do
  let bit ← shiftRightDefined b i
  if bit &&& 1 ≠ 0 then
    let t ← term i
    some (output ^^^ t)
  else some output

/-- The loops with partial shifts. -/
def clmulLoopDefined (b : BitVec 32) (start : ℕ) (term : ℤ → Option (BitVec 32)) :
    Option (BitVec 32) :=
  (List.range' start (32 - start)).foldlM (clmulIterDefined b term) 0

/-- The function with the shifts of the language, which are undefined from 32 on. -/
def clmulDefined (a b : BitVec 32) : Option (BitVec 32) :=
  clmulLoopDefined b 0 fun i => shiftLeftDefined a i

/-- The same for the reversed product. -/
def clmulrDefined (a b : BitVec 32) : Option (BitVec 32) :=
  clmulLoopDefined b 0 fun i => shiftRightDefined a (31 - i)

/-- And for the high one. -/
def clmulhDefined (a b : BitVec 32) : Option (BitVec 32) :=
  clmulLoopDefined b 1 fun i => shiftRightDefined a (32 - i)

/-- Shifts below 32 are those of bit vectors. -/
theorem shiftLeftDefined_of_lt (x : BitVec 32) {n : ℕ} (hn : n < 32) :
    shiftLeftDefined x n = some (x <<< n) := by
  rw [shiftLeftDefined, if_pos ⟨by omega, by omega⟩, Int.toNat_natCast]

/-- Also to the right. -/
theorem shiftRightDefined_of_lt (x : BitVec 32) {n : ℕ} (hn : n < 32) :
    shiftRightDefined x n = some (x >>> n) := by
  rw [shiftRightDefined, if_pos ⟨by omega, by omega⟩, Int.toNat_natCast]

/-- The low bit of a shifted word is the bit at the amount. -/
theorem ushiftRight_and_one_ne_zero (b : BitVec 32) (i : ℕ) :
    (b >>> i) &&& 1 ≠ 0 ↔ b.getLsbD i = true := by
  have hbit : ((b >>> i) &&& 1#32) = if b.getLsbD i then 1 else 0 := by
    apply BitVec.eq_of_getLsbD_eq
    intro k hk
    rw [BitVec.getLsbD_and, BitVec.getLsbD_ushiftRight, BitVec.getLsbD_one]
    by_cases h0 : k = 0
    · subst h0
      cases h : b.getLsbD i <;> simp
    · cases h : b.getLsbD i <;> simp [h0]
  rw [show (1 : BitVec 32) = 1#32 from rfl, hbit]
  cases b.getLsbD i <;> simp

/-- A turn of the loop is defined if its term is. -/
theorem clmulIterDefined_eq (b : BitVec 32) {term : ℤ → Option (BitVec 32)} {i : ℕ}
    {t : BitVec 32} (hi : i < 32) (ht : term i = some t) (output : BitVec 32) :
    clmulIterDefined b term output i
      = some (if b.getLsbD i then output ^^^ t else output) := by
  rw [clmulIterDefined, shiftRightDefined_of_lt b hi, ht]
  by_cases hb : b.getLsbD i = true
  · rw [if_pos hb]
    exact if_pos ((ushiftRight_and_one_ne_zero b i).2 hb)
  · rw [if_neg hb]
    exact if_neg (mt (ushiftRight_and_one_ne_zero b i).1 hb)

/-- A loop whose terms are defined is defined, and computes the same word. -/
theorem clmulLoopDefined_eq (b : BitVec 32) {start : ℕ} {term : ℤ → Option (BitVec 32)}
    {term' : ℕ → BitVec 32}
    (h : ∀ i : ℕ, start ≤ i → i < 32 → term i = some (term' i)) :
    clmulLoopDefined b start term = some (clmulLoop b start term') := by
  have key : ∀ (l : List ℕ) (output : BitVec 32), (∀ i ∈ l, start ≤ i ∧ i < 32) →
      l.foldlM (clmulIterDefined b term) output
        = some (l.foldl (fun output i =>
            if b.getLsbD i then output ^^^ term' i else output) output) := by
    intro l
    induction l with
    | nil => intro output _; rfl
    | cons i l ih =>
        intro output hl
        obtain ⟨hi, hlt⟩ := hl i List.mem_cons_self
        rw [List.foldlM_cons, clmulIterDefined_eq b hlt (h i hi hlt), List.foldl_cons]
        exact ih _ fun j hj => hl j (List.mem_cons_of_mem i hj)
  apply key _ 0
  intro i hi
  rw [List.mem_range'_1] at hi
  omega

/-- **Carry-less multiplication.**  The words of `clmulh` and `clmul` form the
product of the operands as polynomials over the field of two elements; `clmulr`
is that product shifted right by 31; all three are commutative; and no shift in
their loops is by 32 or more. -/
theorem clmul_windows (a b : BitVec 32) :
    wordPoly (clmulh a b ++ clmul a b) = wordPoly a * wordPoly b
      ∧ clmulr a b = ((clmulh a b ++ clmul a b) >>> 31).setWidth 32
      ∧ clmul a b = clmul b a ∧ clmulr a b = clmulr b a ∧ clmulh a b = clmulh b a
      ∧ clmulDefined a b = some (clmul a b) ∧ clmulrDefined a b = some (clmulr a b)
      ∧ clmulhDefined a b = some (clmulh a b) := by
  refine ⟨wordPoly_clmulh_append_clmul a b, clmulr_eq_window a b, clmul_comm a b,
    clmulr_comm a b, clmulh_comm a b, ?_, ?_, ?_⟩
  · exact clmulLoopDefined_eq b fun i _ hi => shiftLeftDefined_of_lt a hi
  · apply clmulLoopDefined_eq b
    intro i _ hi
    rw [← shiftRightDefined_of_lt a (show 31 - i < 32 by omega),
      show (31 : ℤ) - i = ((31 - i : ℕ) : ℤ) by omega]
  · apply clmulLoopDefined_eq b
    intro i hi hlt
    rw [← shiftRightDefined_of_lt a (show 32 - i < 32 by omega),
      show (32 : ℤ) - i = ((32 - i : ℕ) : ℤ) by omega]

end TraceSim.Ref
