/-
TraceSim/Ref/MulDiv.lean

Multiplication and division of the reference CPU.

A high word and the low word form a product that is exact over the integers: the
operands are extended to 64 bits by sign or by zero, and no product of two such
words leaves the range of its type (`mulDivDefined_eq`, which also covers the
divisions).  Quotient and remainder satisfy the division identity modulo `2 ^ 32`
for every divisor; the branches that answer for the divisor 0 and for the
overflow keep it.
-/
import Mathlib.Tactic.IntervalCases
import Mathlib.Tactic.Linarith
import TraceSim.Ref.Alu

namespace TraceSim.Ref

/-! ### The eight operations -/

/-- The low word, which is the same for all signs. -/
def mul (a b : BitVec 32) : BitVec 32 := (a.setWidth 64 * b.setWidth 64).setWidth 32

/-- The high word of the product of two signed numbers. -/
def mulh (a b : BitVec 32) : BitVec 32 :=
  ((a.signExtend 64 * b.signExtend 64).sshiftRight 32).setWidth 32

/-- Of a signed and an unsigned number: the second operand is extended by zeros. -/
def mulhsu (a b : BitVec 32) : BitVec 32 :=
  ((a.signExtend 64 * b.setWidth 64).sshiftRight 32).setWidth 32

/-- Of two unsigned numbers. -/
def mulhu (a b : BitVec 32) : BitVec 32 := ((a.setWidth 64 * b.setWidth 64) >>> 32).setWidth 32

/-- Division by zero gives -1, and the one overflow gives the dividend. -/
def div (a b : BitVec 32) : BitVec 32 :=
  if b = 0 then -1
  else if a = BitVec.intMin 32 ∧ b = -1#32 then BitVec.intMin 32 else a.sdiv b

/-- Division by zero gives the largest number. -/
def divu (a b : BitVec 32) : BitVec 32 := if b = 0 then 0xFFFFFFFF else a / b

/-- Division by zero gives the dividend, and the one overflow 0. -/
def rem (a b : BitVec 32) : BitVec 32 :=
  if b = 0 then a else if a = BitVec.intMin 32 ∧ b = -1#32 then 0 else a.srem b

/-- Division by zero gives the dividend. -/
def remu (a b : BitVec 32) : BitVec 32 := if b = 0 then a else a % b

/-- The operation selected by `funct3`. -/
def mulDivResult (f3 : ℕ) (a b : BitVec 32) : Option (BitVec 32) :=
  match f3 with
  | 0 => some (mul a b)
  | 1 => some (mulh a b)
  | 2 => some (mulhsu a b)
  | 3 => some (mulhu a b)
  | 4 => some (div a b)
  | 5 => some (divu a b)
  | 6 => some (rem a b)
  | 7 => some (remu a b)
  | _ => none

/-- The cases of the source are those of the table. -/
theorem opMulDiv_eq (i a b : BitVec 32) :
    opMulDiv i a b = mulDivResult (funct3 i).toNat a b := by
  unfold opMulDiv mulDivResult
  rfl

/-! ### Products -/

/-- The two halves of a 64-bit word. -/
theorem high_append_low (p : BitVec 64) : (p >>> 32).setWidth 32 ++ p.setWidth 32 = p := by
  apply BitVec.eq_of_getLsbD_eq
  intro i hi
  rw [BitVec.getLsbD_append]
  by_cases h : i < 32
  · rw [if_pos h, BitVec.getLsbD_setWidth, decide_eq_true h, Bool.true_and]
  · rw [if_neg h, BitVec.getLsbD_setWidth, decide_eq_true (by omega), Bool.true_and,
      BitVec.getLsbD_ushiftRight, Nat.add_sub_cancel' (Nat.not_lt.1 h)]

/-- The high half of a 64-bit word is the same under both right shifts. -/
theorem setWidth_sshiftRight (p : BitVec 64) :
    (p.sshiftRight 32).setWidth 32 = (p >>> 32).setWidth 32 := by
  apply BitVec.eq_of_getLsbD_eq
  intro i hi
  rw [BitVec.getLsbD_setWidth, BitVec.getLsbD_setWidth, BitVec.getLsbD_sshiftRight,
    BitVec.getLsbD_ushiftRight]
  have hlt : 32 + i < 64 := by omega
  simp [hlt, show ¬ 64 ≤ i by omega]

/-- The low word of an extension by the sign is the number itself. -/
theorem setWidth_signExtend_self (a : BitVec 32) : (a.signExtend 64).setWidth 32 = a := by
  apply BitVec.eq_of_getLsbD_eq
  intro i hi
  rw [BitVec.getLsbD_setWidth, BitVec.getLsbD_signExtend]
  simp [hi, show i < 64 by omega]

/-- So is that of an extension by zeros. -/
theorem setWidth_setWidth_self (a : BitVec 32) : (a.setWidth 64).setWidth 32 = a := by
  apply BitVec.eq_of_getLsbD_eq
  intro i hi
  simp [hi]

/-- The low word does not depend on how the operands are extended. -/
theorem mul_eq_low {x y : BitVec 64} {a b : BitVec 32} (hx : x.setWidth 32 = a)
    (hy : y.setWidth 32 = b) : mul a b = (x * y).setWidth 32 := by
  rw [mul, BitVec.setWidth_mul _ _ (by decide), BitVec.setWidth_mul _ _ (by decide), hx, hy,
    setWidth_setWidth_self, setWidth_setWidth_self]

/-- The two instructions together give the 64-bit product. -/
theorem mulh_append_mul (a b : BitVec 32) :
    mulh a b ++ mul a b = a.signExtend 64 * b.signExtend 64 := by
  rw [mulh, setWidth_sshiftRight, mul_eq_low (setWidth_signExtend_self a)
    (setWidth_signExtend_self b), high_append_low]

/-- With one unsigned operand. -/
theorem mulhsu_append_mul (a b : BitVec 32) :
    mulhsu a b ++ mul a b = a.signExtend 64 * b.setWidth 64 := by
  rw [mulhsu, setWidth_sshiftRight, mul_eq_low (setWidth_signExtend_self a)
    (setWidth_setWidth_self b), high_append_low]

/-- With two. -/
theorem mulhu_append_mul (a b : BitVec 32) :
    mulhu a b ++ mul a b = a.setWidth 64 * b.setWidth 64 := by
  rw [mulhu, mul_eq_low (setWidth_setWidth_self a) (setWidth_setWidth_self b), high_append_low]

/-! ### Operands of 32 bits fill the products -/

/-- The range of a 32-bit signed number. -/
theorem toInt_bounds (a : BitVec 32) : -2147483648 ≤ a.toInt ∧ a.toInt < 2147483648 := by
  have hle := BitVec.le_toInt a
  have hlt := BitVec.toInt_lt (x := a)
  norm_num at hle hlt
  exact ⟨hle, hlt⟩

/-- An extension by the sign keeps the signed value. -/
theorem toInt_signExtend_64 (a : BitVec 32) : (a.signExtend 64).toInt = a.toInt :=
  BitVec.toInt_signExtend_of_le (by decide)

/-- An extension by zeros makes the unsigned value signed. -/
theorem toInt_setWidth_64 (a : BitVec 32) : (a.setWidth 64).toInt = (a.toNat : ℤ) := by
  rw [BitVec.toInt_eq_toNat_of_lt, BitVec.toNat_setWidth]
  · rw [Nat.mod_eq_of_lt (by omega)]
  · rw [BitVec.toNat_setWidth, Nat.mod_eq_of_lt (by omega)]
    omega

/-- A signed product stays in range when one factor is a signed and the other at
most an unsigned 32-bit value. -/
theorem not_smulOverflow_of_bounds {x y : BitVec 64}
    (hx : -2147483648 ≤ x.toInt ∧ x.toInt < 2147483648)
    (hy : -2147483648 ≤ y.toInt ∧ y.toInt < 4294967296) : x.smulOverflow y = false := by
  have hle : x.toInt * y.toInt < 9223372036854775808 := by nlinarith
  have hge : -9223372036854775808 ≤ x.toInt * y.toInt := by nlinarith
  simp only [BitVec.smulOverflow, Bool.or_eq_false_iff, decide_eq_false_iff_not]
  norm_num
  exact ⟨hle, hge⟩

/-- A product of two 32-bit numbers fits in 64 bits. -/
theorem not_smulOverflow_mulh (a b : BitVec 32) :
    (a.signExtend 64).smulOverflow (b.signExtend 64) = false := by
  have ha := toInt_bounds a
  have hb := toInt_bounds b
  refine not_smulOverflow_of_bounds ?_ ?_
  · rwa [toInt_signExtend_64]
  · rw [toInt_signExtend_64]
    omega

/-- Also of a signed and an unsigned one. -/
theorem not_smulOverflow_mulhsu (a b : BitVec 32) :
    (a.signExtend 64).smulOverflow (b.setWidth 64) = false := by
  refine not_smulOverflow_of_bounds ?_ ?_
  · rw [toInt_signExtend_64]
    exact toInt_bounds a
  · rw [toInt_setWidth_64]
    omega

/-- And of two unsigned ones. -/
theorem not_umulOverflow_mulhu (a b : BitVec 32) :
    (a.setWidth 64).umulOverflow (b.setWidth 64) = false := by
  have ha : a.toNat < 4294967296 := a.isLt
  have hb : b.toNat < 4294967296 := b.isLt
  have hlt : a.toNat * b.toNat < 18446744073709551616 := by nlinarith
  rw [BitVec.umulOverflow, decide_eq_false_iff_not, BitVec.toNat_setWidth,
    BitVec.toNat_setWidth, Nat.mod_eq_of_lt (by omega), Nat.mod_eq_of_lt (by omega)]
  omega

/-- So the two words are the exact product. -/
theorem toInt_mulh_append_mul (a b : BitVec 32) :
    (mulh a b ++ mul a b).toInt = a.toInt * b.toInt := by
  rw [mulh_append_mul, BitVec.toInt_mul_of_not_smulOverflow
    (by rw [not_smulOverflow_mulh]; decide), toInt_signExtend_64, toInt_signExtend_64]

/-- With one unsigned operand. -/
theorem toInt_mulhsu_append_mul (a b : BitVec 32) :
    (mulhsu a b ++ mul a b).toInt = a.toInt * (b.toNat : ℤ) := by
  rw [mulhsu_append_mul, BitVec.toInt_mul_of_not_smulOverflow
    (by rw [not_smulOverflow_mulhsu]; decide), toInt_signExtend_64, toInt_setWidth_64]

/-- With two. -/
theorem toNat_mulhu_append_mul (a b : BitVec 32) :
    (mulhu a b ++ mul a b).toNat = a.toNat * b.toNat := by
  rw [mulhu_append_mul, BitVec.toNat_mul_of_not_umulOverflow
    (by rw [not_umulOverflow_mulhu]; decide), BitVec.toNat_setWidth, BitVec.toNat_setWidth,
    Nat.mod_eq_of_lt (by omega), Nat.mod_eq_of_lt (by omega)]

/-! ### Quotient and remainder -/

/-- The native signed quotient and remainder, where they are defined. -/
theorem sdiv_mul_add_srem (a b : BitVec 32) (h : a ≠ BitVec.intMin 32 ∨ b ≠ -1#32) :
    a.sdiv b * b + a.srem b = a := by
  have hdiv : a.sdiv b = BitVec.ofInt 32 (a.toInt.tdiv b.toInt) := by
    rw [← BitVec.toInt_sdiv_of_ne_or_ne a b h, BitVec.ofInt_toInt]
  have hrem : a.srem b = BitVec.ofInt 32 (a.toInt.tmod b.toInt) := by
    rw [← BitVec.toInt_srem, BitVec.ofInt_toInt]
  calc a.sdiv b * b + a.srem b
      = BitVec.ofInt 32 (a.toInt.tdiv b.toInt) * BitVec.ofInt 32 b.toInt
          + BitVec.ofInt 32 (a.toInt.tmod b.toInt) := by rw [hdiv, hrem, BitVec.ofInt_toInt]
    _ = BitVec.ofInt 32 (a.toInt.tdiv b.toInt * b.toInt + a.toInt.tmod b.toInt) := by
        rw [BitVec.ofInt_add, BitVec.ofInt_mul]
    _ = a := by rw [Int.tdiv_mul_add_tmod, BitVec.ofInt_toInt]

/-- The identity of division, with the cases of zero and of overflow. -/
theorem div_mul_add_rem (a b : BitVec 32) : div a b * b + rem a b = a := by
  rw [div, rem]
  by_cases hb : b = 0
  · rw [if_pos hb, if_pos hb, hb]
    simp
  rw [if_neg hb, if_neg hb]
  by_cases ho : a = BitVec.intMin 32 ∧ b = -1#32
  · rw [if_pos ho, if_pos ho, ho.1, ho.2]
    decide
  · rw [if_neg ho, if_neg ho]
    exact sdiv_mul_add_srem a b (not_and_or.1 ho)

/-- The same for unsigned numbers. -/
theorem divu_mul_add_remu (a b : BitVec 32) : divu a b * b + remu a b = a := by
  rw [divu, remu]
  by_cases hb : b = 0
  · rw [if_pos hb, if_pos hb, hb]
    simp
  · rw [if_neg hb, if_neg hb]
    refine BitVec.eq_of_toNat_eq ?_
    rw [BitVec.toNat_add, BitVec.toNat_mul, BitVec.toNat_udiv, BitVec.toNat_umod,
      Nat.mod_add_mod, Nat.div_add_mod', Nat.mod_eq_of_lt a.isLt]

/-- The signed remainder by a divisor other than 0. -/
theorem toInt_rem (a b : BitVec 32) (hb : b ≠ 0) :
    (rem a b).toInt = a.toInt.tmod b.toInt := by
  rw [rem, if_neg hb]
  by_cases ho : a = BitVec.intMin 32 ∧ b = -1#32
  · rw [if_pos ho, ho.1, ho.2]
    decide
  · rw [if_neg ho, BitVec.toInt_srem]

/-- The remainder has the sign of the dividend. -/
theorem sign_rem (a b : BitVec 32) (hb : b ≠ 0) :
    rem a b = 0 ∨ (rem a b).toInt.sign = a.toInt.sign := by
  rw [toInt_rem a b hb, Int.sign_tmod]
  by_cases hdvd : b.toInt ∣ a.toInt
  · left
    refine BitVec.eq_of_toInt_eq ?_
    rw [toInt_rem a b hb, Int.tmod_eq_zero_of_dvd hdvd]
    rfl
  · right
    rw [if_neg hdvd]

/-- And is smaller than the divisor. -/
theorem natAbs_rem_lt (a b : BitVec 32) (hb : b ≠ 0) :
    (rem a b).toInt.natAbs < b.toInt.natAbs := by
  have hne : b.toInt ≠ 0 := fun h => hb (BitVec.eq_of_toInt_eq (by rw [h]; rfl))
  rw [toInt_rem a b hb, Int.natAbs_tmod]
  exact Nat.mod_lt _ (Int.natAbs_pos.2 hne)

/-- So is the unsigned one. -/
theorem toNat_remu_lt (a b : BitVec 32) (hb : b ≠ 0) : (remu a b).toNat < b.toNat := by
  rw [remu, if_neg hb, BitVec.toNat_umod]
  refine Nat.mod_lt _ (Nat.pos_of_ne_zero fun h => hb (BitVec.eq_of_toNat_eq ?_))
  rw [h]
  rfl

/-! ### Every operation that is evaluated is defined -/

/-- A product of two `int64_t`, undefined on overflow. -/
def mulInt64 (x y : BitVec 64) : Option (BitVec 64) :=
  if x.smulOverflow y then none else some (x * y)

/-- A product of two `uint64_t`; here too an overflow counts as undefined. -/
def mulUInt64 (x y : BitVec 64) : Option (BitVec 64) :=
  if x.umulOverflow y then none else some (x * y)

/-- The native signed division: undefined for the divisor 0 and on overflow. -/
def divInt32 (x y : BitVec 32) : Option (BitVec 32) :=
  if y = 0 ∨ x.sdivOverflow y then none else some (x.sdiv y)

/-- The native signed remainder, undefined where the quotient is. -/
def modInt32 (x y : BitVec 32) : Option (BitVec 32) :=
  if y = 0 ∨ x.sdivOverflow y then none else some (x.srem y)

/-- The unsigned `/` of the language, undefined for zero. -/
def divUInt32 (x y : BitVec 32) : Option (BitVec 32) := if y = 0 then none else some (x / y)

/-- The unsigned `%`. -/
def modUInt32 (x y : BitVec 32) : Option (BitVec 32) := if y = 0 then none else some (x % y)

/-- The branch with each product and each division as a partial operation. -/
def mulDivDefined (f3 : ℕ) (a b : BitVec 32) : Option (BitVec 32) :=
  let s1 := a.signExtend 64
  let s2 := b.signExtend 64
  let u1 := a.setWidth 64
  let u2 := b.setWidth 64
  let overflows := a = BitVec.intMin 32 ∧ b = -1#32
  match f3 with
  | 0 => (mulUInt64 u1 u2).map fun (p : BitVec 64) => p.setWidth 32
  | 1 => (mulInt64 s1 s2).map fun (p : BitVec 64) => (p.sshiftRight 32).setWidth 32
  | 2 => (mulInt64 s1 u2).map fun (p : BitVec 64) => (p.sshiftRight 32).setWidth 32
  | 3 => (mulUInt64 u1 u2).map fun (p : BitVec 64) => (p >>> 32).setWidth 32
  | 4 => if b = 0 then some (-1) else if overflows then some (BitVec.intMin 32) else divInt32 a b
  | 5 => if b = 0 then some 0xFFFFFFFF else divUInt32 a b
  | 6 => if b = 0 then some a else if overflows then some 0 else modInt32 a b
  | 7 => if b = 0 then some a else modUInt32 a b
  | _ => none

/-- The guard of the overflow is the one the native division needs. -/
theorem not_sdivOverflow {a b : BitVec 32} (ho : ¬ (a = BitVec.intMin 32 ∧ b = -1#32)) :
    a.sdivOverflow b = false := by
  have hnot : ¬ (a = BitVec.intMin 32 ∧ b = BitVec.allOnes 32) := by
    rwa [← BitVec.neg_one_eq_allOnes]
  rw [BitVec.sdivOverflow_eq, decide_eq_true (by decide), Bool.true_and, ← Bool.decide_and,
    decide_eq_false hnot]

/-- Away from zero and overflow the language divides as the bit vectors do. -/
theorem divInt32_eq {a b : BitVec 32} (hb : b ≠ 0)
    (ho : ¬ (a = BitVec.intMin 32 ∧ b = -1#32)) : divInt32 a b = some (a.sdiv b) := by
  rw [divInt32, not_sdivOverflow ho, if_neg fun h => h.elim hb Bool.false_ne_true]

/-- The remainder goes with it. -/
theorem modInt32_eq {a b : BitVec 32} (hb : b ≠ 0)
    (ho : ¬ (a = BitVec.intMin 32 ∧ b = -1#32)) : modInt32 a b = some (a.srem b) := by
  rw [modInt32, not_sdivOverflow ho, if_neg fun h => h.elim hb Bool.false_ne_true]

/-- The partial operations are defined wherever the branch evaluates them. -/
theorem mulDivDefined_eq {f3 : ℕ} (hf : f3 < 8) (a b : BitVec 32) :
    mulDivDefined f3 a b = mulDivResult f3 a b := by
  have hs := not_smulOverflow_mulh a b
  have hsu := not_smulOverflow_mulhsu a b
  have hu := not_umulOverflow_mulhu a b
  interval_cases f3
  -- the products do not overflow 64 bits
  · show (mulUInt64 _ _).map _ = _
    rw [mulUInt64, hu]
    rfl
  · show (mulInt64 _ _).map _ = _
    rw [mulInt64, hs]
    rfl
  · show (mulInt64 _ _).map _ = _
    rw [mulInt64, hsu]
    rfl
  · show (mulUInt64 _ _).map _ = _
    rw [mulUInt64, hu]
    rfl
  -- the quotients and remainders are asked for only where they are defined
  · show (if _ then _ else if _ then _ else divInt32 a b) = some (div a b)
    rw [div]
    split_ifs with hb ho
    · rfl
    · rfl
    · exact divInt32_eq hb ho
  · show (if _ then _ else divUInt32 a b) = some (divu a b)
    rw [divu, divUInt32]
    split_ifs with hb
    · rfl
    · rfl
  · show (if _ then _ else if _ then _ else modInt32 a b) = some (rem a b)
    rw [rem]
    split_ifs with hb ho
    · rfl
    · rfl
    · exact modInt32_eq hb ho
  · show (if _ then _ else modUInt32 a b) = some (remu a b)
    rw [remu, modUInt32]
    split_ifs with hb
    · rfl
    · rfl

/-- There are eight operations, and all of them answer. -/
theorem isSome_mulDivResult {f3 : ℕ} (hf : f3 < 8) (a b : BitVec 32) :
    ∃ v, mulDivResult f3 a b = some v := by
  interval_cases f3
  all_goals exact ⟨_, rfl⟩

/-- **Multiplication and division.**  The high word and the low word form the
exact product for each reading of the operands; the division identity holds modulo
`2 ^ 32` for every divisor; the remainders by a divisor other than 0 have their
sign and bound; and every instruction of the branch computes its operation, with no
product or signed division that overflows and no division by 0. -/
theorem mulDiv_spec (a b : BitVec 32) :
    (mulh a b ++ mul a b).toInt = a.toInt * b.toInt
      ∧ (mulhsu a b ++ mul a b).toInt = a.toInt * (b.toNat : ℤ)
      ∧ (mulhu a b ++ mul a b).toNat = a.toNat * b.toNat
      ∧ a = div a b * b + rem a b ∧ a = divu a b * b + remu a b
      ∧ (b ≠ 0 → (rem a b = 0 ∨ (rem a b).toInt.sign = a.toInt.sign)
        ∧ (rem a b).toInt.natAbs < b.toInt.natAbs ∧ (remu a b).toNat < b.toNat)
      ∧ ∀ i : BitVec 32, funct7 i = 1 →
        ∃ v, mulDivDefined (funct3 i).toNat a b = some v
          ∧ mulDivResult (funct3 i).toNat a b = some v ∧ opReg i a b = some v := by
  refine ⟨toInt_mulh_append_mul a b, toInt_mulhsu_append_mul a b, toNat_mulhu_append_mul a b,
    (div_mul_add_rem a b).symm, (divu_mul_add_remu a b).symm,
    fun hb => ⟨sign_rem a b hb, natAbs_rem_lt a b hb, toNat_remu_lt a b hb⟩, fun i hi => ?_⟩
  obtain ⟨v, hv⟩ := isSome_mulDivResult (funct3_lt i) a b
  refine ⟨v, ?_, hv, ?_⟩
  · rw [mulDivDefined_eq (funct3_lt i), hv]
  · rw [opReg, if_pos hi, opMulDiv_eq, hv]

end TraceSim.Ref
