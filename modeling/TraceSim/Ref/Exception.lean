/-
TraceSim/Ref/Exception.lean

Traps and returns (`Ref_cpu::exception`).

The method looks at the last instruction, the interrupt flags and the fault flags
as it finds them in the members of the CPU, and decides again whether the trap
goes to M or S mode.  If it goes to neither it executes `mret` or `sret`, or
moves on.
-/
import TraceSim.Ref.Translate

namespace TraceSim.Ref

namespace Interrupts

variable (irq : Interrupts)

/-- An interrupt that goes to M mode. -/
def anyM : Bool := irq.mSoftware || irq.mTimer || irq.mExternal

/-- An interrupt that goes to S mode. -/
def anyS : Bool := irq.sSoftware || irq.sTimer || irq.sExternal

end Interrupts

/-- The causes that `medeleg` can delegate, with their bits. -/
def medelegUEcall : ℕ := 8
def medelegSEcall : ℕ := 9
def medelegPageFaultInst : ℕ := 12
def medelegPageFaultLoad : ℕ := 13
def medelegPageFaultStore : ℕ := 15

/-- The interrupt bit of a cause. -/
def causeInterrupt : BitVec 32 := 0x80000000

/-- The pc of a trap with the given vector register: only interrupts use the
vectored mode. -/
def trapPc (tvec cause : BitVec 32) : BitVec 32 :=
  if tvec.getLsbD 0 ∧ cause.getLsbD 31 then
    (tvec &&& 0xfffffffc) + 4 * (cause &&& 0x7fffffff)
  else tvec &&& 0xfffffffc

/-- The status word after a trap into M mode from privilege `p`. -/
def trapMstatus (mstatus : BitVec 32) (p : BitVec 8) : BitVec 32 :=
  let mstatus := (mstatus &&& ~~~mstatusMpp) ||| ((p &&& 3).setWidth 32 <<< 11)
  clearBit (copyBit mstatus mstatusMpie mstatusMie) mstatusMie

/-- The supervisor status word after a trap into S mode from privilege `p`. -/
def trapSstatus (sstatus : BitVec 32) (p : BitVec 8) : BitVec 32 :=
  let sstatus :=
    if p = 1 then setBit sstatus mstatusSpp else clearBit sstatus mstatusSpp
  clearBit (copyBit sstatus mstatusSpie mstatusSie) mstatusSie

namespace Cpu

variable (s : Cpu)

def medeleg (bit : ℕ) : Bool := (s.csr .medeleg).getLsbD bit

def isEcall : Bool := s.instruction = instEcall

/-- An environment call that goes to M mode. -/
def ecallM : Bool :=
  s.isEcall
    && ((s.privilege = 0 && !s.medeleg medelegUEcall)
      || (s.privilege = 1 && !s.medeleg medelegSEcall) || s.privilege = 3)

/-- An environment call that goes to S mode. -/
def ecallS : Bool :=
  s.isEcall
    && ((s.privilege = 0 && s.medeleg medelegUEcall)
      || (s.privilege = 1 && s.medeleg medelegSEcall))

/-- The local `MTrap` of `exception`. -/
def mTrap : Bool :=
  s.interrupts.anyM || s.ecallM
    || (s.pageFaultInst && !s.medeleg medelegPageFaultInst)
    || (s.pageFaultLoad && !s.medeleg medelegPageFaultLoad)
    || (s.pageFaultStore && !s.medeleg medelegPageFaultStore) || s.illegalException

/-- The local `STrap` of `exception`. -/
def sTrap : Bool :=
  s.interrupts.anyS || s.ecallS
    || (s.pageFaultInst && s.medeleg medelegPageFaultInst)
    || (s.pageFaultLoad && s.medeleg medelegPageFaultLoad)
    || (s.pageFaultStore && s.medeleg medelegPageFaultStore)

/-- The exception code of a trap into M mode. -/
def mCode : BitVec 32 :=
  if s.interrupts.mSoftware then 3
  else if s.interrupts.mTimer then 7
  else if s.interrupts.mExternal
      || (s.isEcall && s.privilege = 3 && !s.medeleg medelegUEcall) then 11
  else if s.isEcall && s.privilege = 0 && !s.medeleg medelegUEcall then 8
  else if s.isEcall && s.privilege = 1 && !s.medeleg medelegSEcall then 9
  else if s.pageFaultInst && !s.medeleg medelegPageFaultInst then 12
  else if s.pageFaultLoad && !s.medeleg medelegPageFaultLoad then 13
  else if s.pageFaultStore && !s.medeleg medelegPageFaultStore then 15
  else if s.illegalException then 2
  else 0

def mCause : BitVec 32 := (if s.interrupts.anyM then causeInterrupt else 0) ||| s.mCode

/-- The exception code of a trap into S mode. -/
def sCode : BitVec 32 :=
  if s.interrupts.sExternal
      || (s.isEcall && s.privilege = 1 && s.medeleg medelegSEcall) then 9
  else if s.interrupts.sTimer then 5
  else if s.isEcall && s.privilege = 0 && s.medeleg medelegUEcall then 8
  else if s.interrupts.sSoftware then 1
  else if s.pageFaultInst && s.medeleg medelegPageFaultInst then 12
  else if s.pageFaultLoad && s.medeleg medelegPageFaultLoad then 13
  else if s.pageFaultStore && s.medeleg medelegPageFaultStore then 15
  else 0

def sCause : BitVec 32 := (if s.interrupts.anyS then causeInterrupt else 0) ||| s.sCode

/-! ### The four cases of `exception` -/

/-- A trap into M mode. -/
def enterM (trapVal : BitVec 32) : Cpu :=
  let mstatus := trapMstatus (s.csr .mstatus) s.privilege
  { ((((s.setCsr .mepc s.pc).setCsr .mcause s.mCause).setCsr .mstatus mstatus).setCsr
      .sstatus (mstatus &&& trapStatusMask)).setCsr .mtval trapVal with
    privilege := 3
    pc := trapPc (s.csr .mtvec) s.mCause }

/-- A trap into S mode. -/
def enterS (trapVal : BitVec 32) : Cpu :=
  let sstatus := trapSstatus (s.csr .sstatus) s.privilege
  { ((((s.setCsr .sepc s.pc).setCsr .scause s.sCause).setCsr .sstatus sstatus).setCsr
      .mstatus (maskWrite sstatusMask (s.csr .mstatus) sstatus)).setCsr .stval trapVal with
    privilege := 1
    pc := trapPc (s.csr .stvec) s.sCause }

/-- The instruction `mret`. -/
def mret : Cpu :=
  let restored := copyBit (s.csr .mstatus) mstatusMie mstatusMpie
  let mstatus := setBit restored mstatusMpie &&& ~~~mstatusMpp
  { (s.setCsr .mstatus mstatus).setCsr .sstatus (mstatus &&& sstatusMask) with
    privilege := (getMpp restored).setWidth 8
    pc := s.csr .mepc }

/-- The instruction `sret`. -/
def sret : Cpu :=
  let restored := copyBit (s.csr .sstatus) mstatusSie mstatusSpie
  let sstatus := clearBit (setBit restored mstatusSpie) mstatusSpp
  { (s.setCsr .sstatus sstatus).setCsr .mstatus
      (maskWrite sstatusMask (s.csr .mstatus) sstatus) with
    privilege := (getSpp restored).setWidth 8
    pc := s.csr .sepc }

/-- The method `exception`, after its first line. -/
def handle (trapVal : BitVec 32) : Cpu :=
  if s.mTrap then s.enterM trapVal
  else if s.sTrap then s.enterS trapVal
  else if s.instruction = instMret then s.mret
  else if s.instruction = instSret then s.sret
  else { s with pc := s.pc + 4 }

/-- The method `exception`. -/
def exception (trapVal : BitVec 32) : Cpu := { s with isException := true }.handle trapVal

end Cpu

end TraceSim.Ref
