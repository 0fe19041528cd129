/-
TraceSim/Trace.lean

Trace records and reorder-buffer entries (`include/Trace.h`,
`trace_sim/OpEntry.h`).

A `TraceInst` is what one step of the reference CPU hands to the timing model.
Its register fields are five-bit fields of an instruction word and index tables
of 32 entries, so they are numbers below 32.  An `OpEntry` keeps the members
the simulator uses; a member without initialiser is 0 here and is written
before it is read.
-/
import Mathlib.Algebra.GroupWithZero.Nat
import Mathlib.Tactic.Common

namespace TraceSim

/-- There are 32 registers, and `0` is one of them. -/
instance neZero_registers : NeZero 32 := ⟨by decide⟩

/-- The record of a step. -/
structure TraceInst where
  pc : BitVec 32 := 0
  opcode : BitVec 32 := 0
  rd : Fin 32 := 0
  rs1 : Fin 32 := 0
  rs2 : Fin 32 := 0
  isBranch : Bool := false
  branchTaken : Bool := false
  target : BitVec 32 := 0
  isLoad : Bool := false
  isStore : Bool := false
  isTrap : Bool := false
  isWfi : Bool := false
  isEbreak : Bool := false
  memAddr : BitVec 32 := 0
  deriving DecidableEq, Repr

/-- The records that end the trace and never enter the pipeline. -/
def TraceInst.isTerminator (inst : TraceInst) : Bool := inst.isWfi || inst.isEbreak

/-- The functional units. -/
inductive FuType
  | alu
  | lsu
  | bru
  deriving DecidableEq, Repr

/-- The method `get_fu_type`, on the seven opcode bits. -/
def getFuType (opcode : BitVec 32) : FuType :=
  if opcode = 0b0000011 ∨ opcode = 0b0100011 ∨ opcode = 0b0101111 then .lsu
  else if opcode = 0b1100011 ∨ opcode = 0b1101111 ∨ opcode = 0b1100111 then .bru
  else .alu

/-- An op on its way through the pipeline. -/
structure OpEntry where
  inst : TraceInst := {}
  entryId : ℕ := 0
  fetchCycle : ℕ := 0
  dispatchCycle : ℕ := 0
  issueCycle : ℕ := 0
  executeCycle : ℕ := 0
  fuType : FuType := .alu
  executed : Bool := false
  aguDone : Bool := false
  waitingOnMemory : Bool := false
  waitingOnMemDep : Bool := false
  staDone : Bool := false
  stdDone : Bool := false
  staCycle : ℕ := 0
  stdCycle : ℕ := 0
  loadClassified : Bool := false
  isDependentLoad : Bool := false
  baseWriterValid : Bool := false
  baseWriterIsLoad : Bool := false
  deriving DecidableEq, Repr

instance : Inhabited OpEntry := ⟨{}⟩

end TraceSim
