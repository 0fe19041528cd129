/-
TraceSim/Ref/Rotates.lean

The rotates of the reference CPU (`rol`, `ror` and `rori` in `Ref_cpu::RV32IM`).

A rotate is built from two opposite shifts whose amounts have the sum 32, so at the
amount 0 one of them is a shift by 32.  In words of Lean that shift is 0 and the value
is right at every amount (`Rotate.rotates_value`), but in the source it is undefined.
With the partial shifts of `CarryLess` the rotates are exact just at the amounts from 1
to 31 (`Rotate.exact_iff`).
-/
import TraceSim.Lib.Rotation
import TraceSim.Ref.CarryLess
import TraceSim.Ref.Instructions

namespace TraceSim.Ref

/-! ### The expressions of the source -/

/-- The value of `rol`, by an amount `shift`, with the shifts of the source. -/
def rolDefined (a : BitVec 32) (shift : ℕ) : Option (BitVec 32) := do
  let left ← shiftLeftDefined a shift
  let right ← shiftRightDefined a (32 - shift)
  some (left ||| right)

/-- The value of `ror`. -/
def rorDefined (a : BitVec 32) (shift : ℕ) : Option (BitVec 32) := do
  let right ← shiftRightDefined a shift
  let left ← shiftLeftDefined a (32 - shift)
  some (right ||| left)

/-- The value of `rori`, by the amount in the immediate. -/
def roriDefined (a : BitVec 32) (shamt : ℕ) : Option (BitVec 32) := rorDefined a shamt

/-- The rotates. -/
inductive Rotate
  | rol
  | ror
  | rori

namespace Rotate

/-- The case of the switch in which the rotate is found. -/
def Encodes : Rotate → BitVec 32 → Prop
  | rol, i => opcode i = some .add ∧ funct3 i = 1 ∧ funct7 i = 0x30
  | ror, i => opcode i = some .add ∧ funct3 i = 5 ∧ funct7 i = 0x30
  | rori, i => opcode i = some .addi ∧ funct3 i = 5 ∧ funct7 i = 0x30

instance : (r : Rotate) → (i : BitVec 32) → Decidable (r.Encodes i)
  | rol, _ => inferInstanceAs (Decidable (_ ∧ _))
  | ror, _ => inferInstanceAs (Decidable (_ ∧ _))
  | rori, _ => inferInstanceAs (Decidable (_ ∧ _))

/-- The amount, from the second register or from the immediate. -/
def amount : Rotate → Cpu → ℕ
  | rol, s => (s.gpr (regB s.instruction) &&& 0x1F).toNat
  | ror, s => (s.gpr (regB s.instruction) &&& 0x1F).toNat
  | rori, s => (immI s.instruction &&& 0x1F).toNat

/-- What the source computes, if all its shifts are defined. -/
def defined : Rotate → BitVec 32 → ℕ → Option (BitVec 32)
  | rol => rolDefined
  | ror => rorDefined
  | rori => roriDefined

/-- `v` is `x` rotated by `n`, to the left or to the right. -/
def Rotates : Rotate → ℕ → BitVec 32 → BitVec 32 → Prop
  | rol, n, x, v => IsRotation n x v
  | ror, n, x, v => IsRotation n v x
  | rori, n, x, v => IsRotation n v x

/-- A rotate that the CPU executes is total and exact: its shifts are defined, the
destination gets the rotation, a rotation to the right undoes one to the left, and a
rotation to the left is one to the right by the rest. -/
structure Exact (r : Rotate) (s : Cpu) : Prop where
  value : ∃ v, r.defined (s.gpr (regA s.instruction)) (r.amount s) = some v ∧
    r.Rotates (r.amount s) (s.gpr (regA s.instruction)) v ∧
    s.rv32im = some (.next ((s.traceRegisters (rv32imRegisters s.instruction)).writeBack
      (regD s.instruction) (some v)).advance)
  inverse : ∀ x, (rolDefined x (r.amount s)).bind (rorDefined · (r.amount s)) = some x
  opposite : ∀ x, rolDefined x (r.amount s) = rorDefined x ((32 - r.amount s) % 32)

/-! ### Values -/

/-- The value in words of Lean, where a shift by 32 is 0. -/
def value : Rotate → BitVec 32 → ℕ → BitVec 32
  | rol, a, n => (a <<< n) ||| (a >>> (32 - n))
  | ror, a, n => (a >>> n) ||| (a <<< (32 - n))
  | rori, a, n => (a >>> n) ||| (a <<< (32 - n))

variable {r : Rotate} {s : Cpu} {x v : BitVec 32} {n : ℕ}

theorem amount_lt (r : Rotate) (s : Cpu) : r.amount s < 32 := by
  have hmask (b : BitVec 32) : (b &&& 0x1F).toNat < 32 := by
    rw [BitVec.toNat_and]
    exact Nat.lt_of_le_of_lt Nat.and_le_right (by decide)
  cases r with
  | rol => exact hmask _
  | ror => exact hmask _
  | rori => exact hmask _

theorem isRotation_ror (hn : n ≤ 32) (a : BitVec 32) :
    IsRotation n ((a >>> n) ||| (a <<< (32 - n))) a := by
  have hright := isRotation_or_shifts (Nat.sub_le 32 n) a
  rw [Nat.sub_sub_self hn, BitVec.or_comm] at hright
  exact (isRotation_comm hn).mpr hright

/-- The value is the rotation, at the amount 0 too. -/
theorem rotates_value (r : Rotate) (hn : n ≤ 32) (a : BitVec 32) :
    r.Rotates n a (r.value a n) := by
  cases r with
  | rol => exact isRotation_or_shifts hn a
  | ror => exact isRotation_ror hn a
  | rori => exact isRotation_ror hn a

/-! ### Shifts -/

theorem defined_zero (r : Rotate) (a : BitVec 32) : r.defined a 0 = none := by
  have hleft : shiftLeftDefined a 32 = none := if_neg (by omega)
  have hright : shiftRightDefined a 32 = none := if_neg (by omega)
  have hror : rorDefined a 0 = none := by
    rw [rorDefined, Nat.cast_zero, sub_zero, hleft]
    rfl
  cases r with
  | rol =>
    show rolDefined a 0 = none
    rw [rolDefined, Nat.cast_zero, sub_zero, hright]
    rfl
  | ror => exact hror
  | rori => exact hror

/-- Away from the amount 0 all shifts are defined. -/
theorem defined_eq (r : Rotate) (a : BitVec 32) (hpos : n ≠ 0) (hlt : n < 32) :
    r.defined a n = some (r.value a n) := by
  have hrest : (32 : ℤ) - n = ((32 - n : ℕ) : ℤ) := by omega
  have hror : rorDefined a n = some ((a >>> n) ||| (a <<< (32 - n))) := by
    rw [rorDefined, hrest, shiftRightDefined_of_lt a hlt, shiftLeftDefined_of_lt a (by omega)]
    rfl
  cases r with
  | rol =>
    show rolDefined a n = _
    rw [rolDefined, hrest, shiftLeftDefined_of_lt a hlt, shiftRightDefined_of_lt a (by omega)]
    rfl
  | ror => exact hror
  | rori => exact hror

/-! ### Execution -/

/-- The CPU writes the value to the destination. -/
theorem rv32im_rotate (h : r.Encodes s.instruction) :
    s.rv32im = some (.next ((s.traceRegisters (rv32imRegisters s.instruction)).writeBack
      (regD s.instruction)
      (some (r.value (s.gpr (regA s.instruction)) (r.amount s)))).advance) := by
  unfold Cpu.rv32im
  dsimp only
  -- the case of the switch that the encoding selects
  cases r with
  | rol =>
    obtain ⟨hop, hf3, hf7⟩ := h
    have hvalue (a b : BitVec 32) : opReg s.instruction a b
        = some (rol.value a (b &&& 0x1F).toNat) := by
      rw [opReg, hf7, if_neg (by decide), hf3]
      rfl
    rw [hop]
    dsimp only
    rw [hvalue]
    rfl
  | ror =>
    obtain ⟨hop, hf3, hf7⟩ := h
    have hvalue (a b : BitVec 32) : opReg s.instruction a b
        = some (ror.value a (b &&& 0x1F).toNat) := by
      rw [opReg, hf7, if_neg (by decide), hf3]
      rfl
    rw [hop]
    dsimp only
    rw [hvalue]
    rfl
  | rori =>
    obtain ⟨hop, hf3, hf7⟩ := h
    have hvalue (a : BitVec 32) : opImm s.instruction a
        = some (rori.value a (immI s.instruction &&& 0x1F).toNat) := by
      rw [opImm, hf3]
      show opImmShiftRight s.instruction a = _
      rw [opImmShiftRight, hf7]
      rfl
    rw [hop]
    dsimp only
    rw [hvalue]
    rfl

/-- A rotation to the right by the same amount gives the word back. -/
theorem inverse_of_pos (hpos : n ≠ 0) (hlt : n < 32) (x : BitVec 32) :
    (rolDefined x n).bind (rorDefined · n) = some x := by
  have hleft : rolDefined x n = some (rol.value x n) := defined_eq rol x hpos hlt
  have hright : rorDefined (rol.value x n) n = some (ror.value (rol.value x n) n) :=
    defined_eq ror _ hpos hlt
  have hback : ror.value (rol.value x n) n = x := by
    have hto : IsRotation n x (rol.value x n) := rotates_value rol hlt.le x
    have hfrom : IsRotation n (ror.value (rol.value x n) n) (rol.value x n) :=
      rotates_value ror hlt.le _
    exact hfrom.injective hto
  rw [hleft, Option.bind_some, hright, hback]

/-- A rotation to the left is one to the right by the rest. -/
theorem opposite_of_pos (hpos : n ≠ 0) (hlt : n < 32) (x : BitVec 32) :
    rolDefined x n = rorDefined x ((32 - n) % 32) := by
  have hrest : (32 - n) % 32 = 32 - n := Nat.mod_eq_of_lt (by omega)
  have hleft : rolDefined x n = some (rol.value x n) := defined_eq rol x hpos hlt
  have hright : rorDefined x (32 - n) = some (ror.value x (32 - n)) :=
    defined_eq ror x (by omega) (by omega)
  have hsame : rol.value x n = ror.value x (32 - n) := by
    have hto : IsRotation n x (rol.value x n) := rotates_value rol hlt.le x
    have hfrom : IsRotation (32 - n) (ror.value x (32 - n)) x :=
      rotates_value ror (Nat.sub_le 32 n) x
    exact hto.unique hlt.le ((isRotation_comm hlt.le).mpr hfrom)
  rw [hrest, hleft, hright, hsame]

theorem not_exact_of_zero (hzero : r.amount s = 0) : ¬ r.Exact s := by
  intro hexact
  obtain ⟨v, hv, -⟩ := hexact.value
  rw [hzero, defined_zero] at hv
  cases hv

/-- **A rotate is total and exact** just if its amount is not 0. -/
theorem exact_iff (h : r.Encodes s.instruction) : r.Exact s ↔ r.amount s ≠ 0 := by
  have hlt := r.amount_lt s
  constructor
  · intro hexact hzero
    exact not_exact_of_zero hzero hexact
  · intro hpos
    refine ⟨⟨_, defined_eq r _ hpos hlt, rotates_value r hlt.le _, rv32im_rotate h⟩, ?_, ?_⟩
    · exact inverse_of_pos hpos hlt
    · exact opposite_of_pos hpos hlt

/-- A CPU that is to execute the instruction. -/
def cpuOf (i : BitVec 32) : Cpu := { Cpu.machineOf i with instruction := i }

/-- `rori x1, x2, 4` -/
theorem exact_rori_four : rori.Exact (cpuOf 0x60415093) :=
  (exact_iff (by decide)).mpr (by decide)

/-- The rotates by 0: `rol x1, x2, x3` and `ror x1, x2, x3` when `x3` is 0, and
`rori x1, x2, 0`. -/
theorem rotates_zero_not_exact :
    (rol.Encodes 0x603110B3 ∧ ¬ rol.Exact (cpuOf 0x603110B3)) ∧
      (ror.Encodes 0x603150B3 ∧ ¬ ror.Exact (cpuOf 0x603150B3)) ∧
      rori.Encodes 0x60015093 ∧ ¬ rori.Exact (cpuOf 0x60015093) := by
  refine ⟨⟨by decide, ?_⟩, ⟨by decide, ?_⟩, by decide, ?_⟩
  · exact not_exact_of_zero (by decide)
  · exact not_exact_of_zero (by decide)
  · exact not_exact_of_zero (by decide)

end Rotate

end TraceSim.Ref
