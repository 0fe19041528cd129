/-
TraceSim/Ref/Alu.lean

What the instructions without memory access compute (`Ref_cpu::RV32IM`): the
value for the destination register, from the instruction word and the operands.

An encoding that the switch leaves out writes no register; its value is `none`.
Integer arithmetic is that of 32-bit words; products are formed with 64 bits.
-/
import TraceSim.Ref.Decode

namespace TraceSim.Ref

/-! ### Bit counting and permutation -/

/-- The builtin `__builtin_clz` and its guard: the zeros above the highest set
bit. -/
def clz (x : BitVec 32) : BitVec 32 :=
  if x = 0 then 32 else BitVec.ofNat 32 (31 - Nat.log2 x.toNat)

/-- The builtin `__builtin_ctz` and its guard: the zeros below the lowest set
bit. -/
def ctz (x : BitVec 32) : BitVec 32 :=
  if x = 0 then 32 else BitVec.ofNat 32 ((List.range 32).findIdx fun i => x.getLsbD i)

/-- The builtin `__builtin_popcount`. -/
def pcnt (x : BitVec 32) : BitVec 32 :=
  BitVec.ofNat 32 ((List.range 32).countP fun i => x.getLsbD i)

def rev8 (x : BitVec 32) : BitVec 32 :=
  ((x &&& 0xFF) <<< 24) ||| ((x &&& 0xFF00) <<< 8) ||| ((x &&& 0xFF0000) >>> 8)
    ||| ((x &&& 0xFF000000) >>> 24)

def orcb (x : BitVec 32) : BitVec 32 :=
  (if x &&& 0xFF ≠ 0 then 0xFF else 0) ||| (if x &&& 0xFF00 ≠ 0 then 0xFF00 else 0)
    ||| (if x &&& 0xFF0000 ≠ 0 then 0xFF0000 else 0)
    ||| (if x &&& 0xFF000000 ≠ 0 then 0xFF000000 else 0)

/-- One value as a word. -/
def boolWord (b : Bool) : BitVec 32 := if b then 1 else 0

/-! ### Operations with an immediate -/

/-- The unary operations of Zbb, told apart by the second register field. -/
def opUnary (sub : ℕ) (a : BitVec 32) : Option (BitVec 32) :=
  match sub with
  | 0 => some (clz a)
  | 1 => some (ctz a)
  | 2 => some (pcnt a)
  | 4 => some (sext a 8)
  | 5 => some (sext a 16)
  | _ => none

/-- The left shifts with an immediate and their neighbours. -/
def opImmShiftLeft (i a : BitVec 32) : Option (BitVec 32) :=
  let shamt := (immI i &&& 0x1F).toNat
  match (funct7 i).toNat with
  | 0 => some (a <<< shamt)
  | 0x30 => opUnary (regB i).val a
  | 0x14 => some (a ||| (1#32 <<< shamt))
  | 0x24 => some (a &&& ~~~(1#32 <<< shamt))
  | 0x34 => some (a ^^^ (1#32 <<< shamt))
  | _ => none

/-- The right shifts with an immediate and their neighbours. -/
def opImmShiftRight (i a : BitVec 32) : Option (BitVec 32) :=
  let shamt := (immI i &&& 0x1F).toNat
  match (funct7 i).toNat with
  | 0 => some (a >>> shamt)
  | 0x20 => some (a.sshiftRight shamt)
  | 0x30 => some ((a >>> shamt) ||| (a <<< (32 - shamt)))
  | 0x24 => some ((a >>> shamt) &&& 1)
  | 0x34 => if regB i = 24 then some (rev8 a) else none
  | 0x14 => if regB i = 7 then some (orcb a) else none
  | _ => none

/-- The case `number_7_opcode_addi`. -/
def opImm (i a : BitVec 32) : Option (BitVec 32) :=
  let imm := immI i
  match (funct3 i).toNat with
  | 0 => some (a + imm)
  | 2 => some (boolWord (a.slt imm))
  | 3 => some (boolWord (a.ult imm))
  | 4 => some (a ^^^ imm)
  | 6 => some (a ||| imm)
  | 7 => some (a &&& imm)
  | 1 => opImmShiftLeft i a
  | 5 => opImmShiftRight i a
  | _ => none

/-! ### Multiplication and division -/

/-- The division branch of the register operations (`funct7` is 1). -/
def opMulDiv (i a b : BitVec 32) : Option (BitVec 32) :=
  let s1 := a.signExtend 64
  let s2 := b.signExtend 64
  let u1 := a.setWidth 64
  let u2 := b.setWidth 64
  let overflows := a = BitVec.intMin 32 ∧ b = -1#32
  match (funct3 i).toNat with
  | 0 => some ((u1 * u2).setWidth 32)
  | 1 => some (((s1 * s2).sshiftRight 32).setWidth 32)
  | 2 => some (((s1 * u2).sshiftRight 32).setWidth 32)
  | 3 => some (((u1 * u2) >>> 32).setWidth 32)
  | 4 => some (if b = 0 then -1 else if overflows then BitVec.intMin 32 else a.sdiv b)
  | 5 => some (if b = 0 then 0xFFFFFFFF else a / b)
  | 6 => some (if b = 0 then a else if overflows then 0 else a.srem b)
  | 7 => some (if b = 0 then a else a % b)
  | _ => none

/-! ### Carry-less multiplication -/

/-- The loops of the carry-less products: the exclusive or of `term i` over the
set bits `i` of `b`, from `start` on. -/
def clmulLoop (b : BitVec 32) (start : ℕ) (term : ℕ → BitVec 32) : BitVec 32 :=
  (List.range' start (32 - start)).foldl
    (fun output i => if b.getLsbD i then output ^^^ term i else output) 0

def clmul (a b : BitVec 32) : BitVec 32 := clmulLoop b 0 fun i => a <<< i

def clmulr (a b : BitVec 32) : BitVec 32 := clmulLoop b 0 fun i => a >>> (31 - i)

def clmulh (a b : BitVec 32) : BitVec 32 := clmulLoop b 1 fun i => a >>> (32 - i)

/-! ### Operations on two registers -/

/-- The left shifts by a register and their neighbours. -/
def opShiftLeft (f7 : ℕ) (a b : BitVec 32) : Option (BitVec 32) :=
  let shift := (b &&& 0x1F).toNat
  match f7 with
  | 0 => some (a <<< shift)
  | 0x30 => some ((a <<< shift) ||| (a >>> (32 - shift)))
  | 0x24 => some (a &&& ~~~(1#32 <<< shift))
  | 0x14 => some (a ||| (1#32 <<< shift))
  | 0x34 => some (a ^^^ (1#32 <<< shift))
  | 0x05 => some (clmul a b)
  | _ => none

/-- The right shifts by a register and their neighbours. -/
def opShiftRight (f7 : ℕ) (a b : BitVec 32) : Option (BitVec 32) :=
  let shift := (b &&& 0x1F).toNat
  match f7 with
  | 0 => some (a >>> shift)
  | 0x20 => some (a.sshiftRight shift)
  | 0x30 => some ((a >>> shift) ||| (a <<< (32 - shift)))
  | 0x24 => some ((a >>> shift) &&& 1)
  | 0x05 => some (if a.ult b then a else b)
  | _ => none

/-- The operations on two registers that are not products or quotients, by
`funct3` and `funct7`. -/
def opPlain (f3 f7 : ℕ) (a b : BitVec 32) : Option (BitVec 32) :=
  match f3, f7 with
  | 0, 0 => some (a + b)
  | 0, 0x20 => some (a - b)
  | 1, _ => opShiftLeft f7 a b
  | 2, 0 => some (boolWord (a.slt b))
  | 2, 0x10 => some (b + (a <<< 1))
  | 2, 0x05 => some (clmulr a b)
  | 3, 0 => some (boolWord (a.ult b))
  | 3, 0x05 => some (clmulh a b)
  | 4, 0 => some (a ^^^ b)
  | 4, 0x20 => some (~~~(a ^^^ b))
  | 4, 0x10 => some (b + (a <<< 2))
  | 4, 0x05 => some (if a.slt b then a else b)
  | 4, 0x04 => some ((a &&& 0xFFFF) ||| (b <<< 16))
  | 5, _ => opShiftRight f7 a b
  | 6, 0 => some (a ||| b)
  | 6, 0x20 => some (a ||| ~~~b)
  | 6, 0x05 => some (if b.slt a then a else b)
  | 6, 0x10 => some (b + (a <<< 3))
  | 7, 0 => some (a &&& b)
  | 7, 0x20 => some (a &&& ~~~b)
  | 7, 0x05 => some (if b.ult a then a else b)
  | 7, 0x04 => some ((a &&& 0xFF) ||| ((b &&& 0xFF) <<< 8))
  | _, _ => none

/-- The case `number_8_opcode_add`. -/
def opReg (i a b : BitVec 32) : Option (BitVec 32) :=
  if funct7 i = 1 then opMulDiv i a b
  else opPlain (funct3 i).toNat (funct7 i).toNat a b

/-! ### Branches -/

/-- Whether a branch with the given `funct3` is taken. -/
def branchTaken (f3 : ℕ) (a b : BitVec 32) : Bool :=
  match f3 with
  | 0 => a == b
  | 1 => a != b
  | 4 => a.slt b
  | 5 => !a.slt b
  | 6 => a.ult b
  | 7 => !a.ult b
  | _ => false

/-! ### Loads -/

/-- What a load makes of the word at its address: the selected bytes, with their
sign unless the load is unsigned. -/
def loadValue (f3 pAddr word : BitVec 32) : BitVec 32 :=
  let data := word >>> ((pAddr &&& 3).toNat * 8)
  match (f3 &&& 3).toNat with
  | 0 =>
      (data &&& 0xFF) ||| (if data.getLsbD 7 ∧ ¬ f3.getLsbD 2 then 0xFFFFFF00 else 0)
  | 1 =>
      (data &&& 0xFFFF) ||| (if data.getLsbD 15 ∧ ¬ f3.getLsbD 2 then 0xFFFF0000 else 0)
  | _ => data

/-! ### Atomic operations -/

/-- What an atomic read-modify-write stores, from the old word and the operand;
`none` for load-reserved, store-conditional and the encodings the switch leaves
out. -/
def amoData (f5 : ℕ) (old b : BitVec 32) : Option (BitVec 32) :=
  match f5 with
  | 0 => some (old + b)
  | 1 => some b
  | 4 => some (old ^^^ b)
  | 8 => some (old ||| b)
  | 12 => some (old &&& b)
  | 16 => some (if b.slt old then b else old)
  | 20 => some (if b.slt old then old else b)
  | 24 => some (if old.ult b then old else b)
  | 28 => some (if b.ult old then old else b)
  | _ => none

/-- Whether there is an operation does not depend on its operands. -/
theorem amoData_isSome (f5 : ℕ) (old b old' b' : BitVec 32) :
    (amoData f5 old b).isSome = (amoData f5 old' b').isSome := by
  unfold amoData
  split
  all_goals simp

end TraceSim.Ref
