/-
TraceSim/Ref/Step.lean

One step of the reference CPU (`Ref_cpu::RISCV` and `Ref_cpu::step`), and runs of
such steps.

A step clears the working flags, fetches an instruction, decides whether a trap,
a return or an interrupt comes first, and else executes the instruction.  The
method is cut at the points where it can return.
-/
import TraceSim.Ref.Instructions

namespace TraceSim.Ref

namespace Cpu

variable (s : Cpu)

/-- The start of a step: the flags of the last one are cleared. -/
def beginStep : Cpu :=
  let s :=
    if s.privilege = 0 then
      { s with
        currentBbHeadPc := if s.currentBbLen = 0 then s.pc else s.currentBbHeadPc
        currentBbLen := s.currentBbLen + 1 }
    else s
  { s with
    isException := false, isBr := false, brTaken := false
    illegalException := false, pageFaultLoad := false, pageFaultInst := false
    pageFaultStore := false, asy := false, store := false }

/-- The header of the trace record. -/
def traceHeader : Cpu :=
  s.trace fun t =>
    { t with
      pc := s.pc, opcode := opcodeBits s.instruction
      rd := 0, rs1 := 0, rs2 := 0, isBranch := false, branchTaken := false
      target := 0, isLoad := false, isStore := false, isTrap := false, memAddr := 0 }

/-- An interrupt is pending and enabled. -/
def pending (bit : ℕ) : Bool := (s.csr .mip).getLsbD bit && (s.csr .mie).getLsbD bit

/-- A machine interrupt that is not delegated, where M interrupts are enabled. -/
def mInterrupt (bit : ℕ) : Bool :=
  s.pending bit && !(s.csr .mideleg).getLsbD bit
    && (s.privilege < 3 || (s.csr .mstatus).getLsbD mstatusMie)

/-- A delegated machine interrupt, or the supervisor interrupt of that kind, where
S interrupts are enabled. -/
def sInterrupt (mBit sBit : ℕ) : Bool :=
  ((s.pending mBit && (s.csr .mideleg).getLsbD mBit) || s.pending sBit)
    && (s.privilege < 2
      && (s.privilege < 1 || (s.privilege = 1 && (s.csr .mstatus).getLsbD mstatusSie)))

/-- The six interrupt flags of a step. -/
def pollInterrupts : Cpu :=
  { s with
    interrupts :=
      { mSoftware := s.mInterrupt mipMsip
        mTimer := s.mInterrupt mipMtip
        mExternal := s.mInterrupt mipMeip
        sSoftware := s.sInterrupt mipMsip mipSsip
        sTimer := s.sInterrupt mipMtip mipStip
        sExternal := s.sInterrupt mipMeip mipSeip } }

/-- The local `MTrap` of `RISCV`. -/
def decodeMTrap : Bool :=
  s.interrupts.anyM || s.ecallM
    || (s.pageFaultInst && !s.medeleg medelegPageFaultInst) || s.illegalException

/-- The local `STrap` of `RISCV`. -/
def decodeSTrap : Bool :=
  s.interrupts.anyS || s.ecallS || (s.pageFaultInst && s.medeleg medelegPageFaultInst)

/-- The member `asy`: the step traps or returns from a trap. -/
def decodeAsy : Bool :=
  s.decodeMTrap || s.decodeSTrap || s.instruction = instMret || s.instruction = instSret

/-- The instruction groups. -/
def execute : Option Flow :=
  match opcode s.instruction with
  | some .ecall => some s.rv32csr
  | some .lrw => s.rv32a
  | _ => s.rv32im

/-- The end of a step that executed an instruction. -/
def finish : Cpu :=
  { (s.trace fun t => { t with isBranch := s.isBr, branchTaken := s.brTaken }) with
    gpr := Function.update s.gpr 0 0 }

/-- A trap decided on before the instruction is executed. -/
def trapNow (trapVal : BitVec 32) : Cpu := s.traceTrap.exception trapVal

/-- The step from the decoded instruction on. -/
def decode : Option Cpu :=
  if s.instruction = instEbreak then
    some { s.trace (fun t => { t with isEbreak := true }) with simEnd := true }
  else
    let s := s.pollInterrupts
    let s := { s with asy := s.decodeAsy }
    if s.instruction = instWfi && !s.asy && !s.pageFaultInst && !s.pageFaultLoad
        && !s.pageFaultStore then
      -- waiting for an interrupt ends the process
      none
    else if s.pageFaultInst then some (s.trapNow s.pc)
    else if s.illegalException then some (s.trapNow s.instruction)
    else if s.asy || s.instruction = instEcall then some (s.trapNow 0)
    else s.execute.map fun flow => flow.run.finish

/-- The method `RISCV`. -/
def riscv : Option Cpu := do
  let s := s.beginStep
  match ← s.translate s.pc .fetch with
  | none =>
      -- nothing is fetched: the instruction is still that of the step before
      some ({ s with pageFaultInst := true }.exception s.pc)
  | some pAddr =>
      if checkMemRange pAddr 4 then
        let word ← s.loadWord pAddr
        { s with instruction := word }.traceHeader.decode
      else none

/-- The method `step`. -/
def step : Option (TraceInst × Cpu) := do
  let s ← { s with currentTrace := {} }.riscv
  some (s.currentTrace, { s with simTime := s.simTime + 1 })

end Cpu

/-! ### Runs -/

/-- The state after `n` steps of `RISCV`.  The callers of the method keep the time: after
each step it is what `clock` says. -/
def Cpu.riscvs (s : Cpu) (clock : ℕ → BitVec 64) : ℕ → Option Cpu
  | 0 => some s
  | n + 1 => do
      let s ← s.riscvs clock n
      let s ← s.riscv
      some { s with simTime := clock n }

end TraceSim.Ref
