/-
TraceSim/Ref/Decode.lean

Instruction words (`include/RISCV.h` and the macros of `include/ref.h`).

A field is a part of the 32-bit word, again as a word; register fields have five
bits and are numbers below 32.  The immediates are built with the macros of the
source, whose 64-bit results are used as 32-bit words.
-/
import TraceSim.Trace

namespace TraceSim.Ref

/-! ### Fields -/

/-- The macro `BITS`. -/
def bits (x : BitVec 32) (hi lo : ℕ) : BitVec 32 :=
  (x >>> lo) &&& BitVec.ofNat 32 (2 ^ (hi - lo + 1) - 1)

/-- The macro `SEXT`: the low `len` bits, with their sign. -/
def sext (x : BitVec 32) (len : ℕ) : BitVec 32 := (x.setWidth len).signExtend 32

/-- The immediate of loads and of operations with one register. -/
def immI (i : BitVec 32) : BitVec 32 := sext (bits i 31 20) 12

/-- The upper immediate. -/
def immU (i : BitVec 32) : BitVec 32 := sext (bits i 31 12) 20 <<< 12

/-- The immediate of stores. -/
def immS (i : BitVec 32) : BitVec 32 := (sext (bits i 31 25) 7 <<< 5) ||| bits i 11 7

/-- The offset of a jump. -/
def immJ (i : BitVec 32) : BitVec 32 :=
  (sext (bits i 31 31) 1 <<< 20) ||| (bits i 19 12 <<< 12) ||| (bits i 20 20 <<< 11)
    ||| (bits i 30 21 <<< 1)

/-- The offset of a branch. -/
def immB (i : BitVec 32) : BitVec 32 :=
  (sext (bits i 31 31) 1 <<< 12) ||| (bits i 7 7 <<< 11) ||| (bits i 30 25 <<< 5)
    ||| (bits i 11 8 <<< 1)

/-- The operation within an opcode. -/
def funct3 (i : BitVec 32) : BitVec 32 := bits i 14 12

/-- The operation of an atomic instruction. -/
def funct5 (i : BitVec 32) : BitVec 32 := bits i 31 27

/-- The variant of an operation. -/
def funct7 (i : BitVec 32) : BitVec 32 := bits i 31 25

/-- There are eight values. -/
theorem funct3_lt (i : BitVec 32) : (funct3 i).toNat < 8 := by
  rw [funct3, bits, BitVec.toNat_and]
  exact Nat.lt_of_le_of_lt Nat.and_le_right (by decide)

/-- The destination register (`reg_d_index`). -/
def regD (i : BitVec 32) : Fin 32 := Fin.ofNat 32 (bits i 11 7).toNat

/-- The first source register (`reg_a_index`). -/
def regA (i : BitVec 32) : Fin 32 := Fin.ofNat 32 (bits i 19 15).toNat

/-- The second source register (`reg_b_index`). -/
def regB (i : BitVec 32) : Fin 32 := Fin.ofNat 32 (bits i 24 20).toNat

/-! ### Whole instructions -/

def instEbreak : BitVec 32 := 0x00100073
def instEcall : BitVec 32 := 0x00000073
def instMret : BitVec 32 := 0x30200073
def instSret : BitVec 32 := 0x10200073
def instWfi : BitVec 32 := 0x10500073

/-! ### Opcodes -/

/-- The enumeration `enum_number_opcode`, each named after its first
instruction. -/
inductive Opcode
  | lui
  | auipc
  | jal
  | jalr
  | beq
  | lb
  | sb
  | addi
  | add
  | fence
  | ecall
  | lrw
  deriving DecidableEq, Repr

/-- The opcode bits of an instruction, as the trace carries them. -/
def opcodeBits (i : BitVec 32) : BitVec 32 := bits i 6 0

/-- The opcode of an instruction; a word with any other opcode bits has none. -/
def opcode (i : BitVec 32) : Option Opcode :=
  match (opcodeBits i).toNat with
  | 0b0110111 => some .lui
  | 0b0010111 => some .auipc
  | 0b1101111 => some .jal
  | 0b1100111 => some .jalr
  | 0b1100011 => some .beq
  | 0b0000011 => some .lb
  | 0b0100011 => some .sb
  | 0b0010011 => some .addi
  | 0b0110011 => some .add
  | 0b0001111 => some .fence
  | 0b1110011 => some .ecall
  | 0b0101111 => some .lrw
  | _ => none

end TraceSim.Ref
