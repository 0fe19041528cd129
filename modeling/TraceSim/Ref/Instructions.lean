/-
TraceSim/Ref/Instructions.lean

The three instruction groups (`Ref_cpu::RV32CSR`, `Ref_cpu::RV32A` and
`Ref_cpu::RV32IM`).

In the source a faulting instruction calls `exception` and returns.  Here it ends
in `Flow.trap`, with the state and the argument of that call; the caller makes
the call (`Flow.run`).  An instruction that ends the process yields `none`.
-/
import TraceSim.Ref.Alu
import TraceSim.Ref.Exception

namespace TraceSim.Ref

/-- How an instruction ends: in a state, or in a call of `exception`. -/
inductive Flow
  | next (s : Cpu)
  | trap (s : Cpu) (trapVal : BitVec 32)

namespace Flow

/-- The state the instruction ends in, or calls `exception` from. -/
def cpu : Flow → Cpu
  | next s => s
  | trap s _ => s

def run : Flow → Cpu
  | next s => s
  | trap s trapVal => s.exception trapVal

end Flow

/-- The registers of an instruction, as the trace names them; 0 stands for none. -/
structure Registers where
  rd : Fin 32 := 0
  rs1 : Fin 32 := 0
  rs2 : Fin 32 := 0
  deriving DecidableEq, Repr

namespace Cpu

variable (s : Cpu)

/-! ### Common parts -/

def traceRegisters (regs : Registers) : Cpu :=
  s.trace fun t => { t with rd := regs.rd, rs1 := regs.rs1, rs2 := regs.rs2 }

def traceTrap : Cpu := s.trace fun t => { t with isTrap := true }

/-- An access outside RAM is marked as a trap in the trace. -/
def traceIo (pAddr : BitVec 32) : Cpu := if pAddr < kRamBase then s.traceTrap else s

def setPc (pc : BitVec 32) : Cpu := { s with pc := pc }

/-- The end of an instruction that does not jump. -/
def advance : Cpu := s.setPc (s.pc + 4)

/-- An instruction that computes at most a register value. -/
def writeBack (rd : Fin 32) : Option (BitVec 32) → Cpu
  | none => s
  | some v => s.setGpr rd v

def raiseIllegal : Cpu := { s with illegalException := true }

def raiseLoadFault : Cpu := { s with pageFaultLoad := true }

def raiseStoreFault : Cpu := { s with pageFaultStore := true }

end Cpu

/-! ### The group `RV32CSR` -/

/-- An access with an immediate reads no register. -/
def csrRegisters (i : BitVec 32) : Registers where
  rd := regD i
  rs1 := if (funct3 i).getLsbD 2 then 0 else regA i

/-- The value a CSR access writes, by the kind of access (`wcmd`). -/
def csrWdata (wcmd old wdata : BitVec 32) : BitVec 32 :=
  if wcmd = 0b01 then wdata
  else if wcmd = 0b10 then old ||| wdata
  else if wcmd = 0b11 then old &&& ~~~wdata
  else 0

namespace Cpu

variable (s : Cpu)

/-- A write to an implemented CSR, with its mask and its shadow. -/
def writeCsr (r : Csr) (v : BitVec 32) : Cpu :=
  match r with
  | .sie =>
      let mie := maskWrite sieMask (s.csr .mie) v
      (s.setCsr .mie mie).setCsr .sie (mie &&& sieMask)
  | .mie =>
      let mie := v &&& mieMask
      (s.setCsr .mie mie).setCsr .sie (mie &&& sieMask)
  | .sip =>
      let mip := maskWrite sieMask (s.csr .mip) v
      (s.setCsr .mip mip).setCsr .sip (mip &&& sieMask)
  | .mip =>
      let mip := v &&& mieMask
      (s.setCsr .mip mip).setCsr .sip (mip &&& sieMask)
  | .sstatus =>
      let mstatus := maskWrite sstatusMask (s.csr .mstatus) v
      (s.setCsr .mstatus mstatus).setCsr .sstatus (mstatus &&& sstatusMask)
  | .mstatus =>
      let mstatus := maskWrite mstatusMask (s.csr .mstatus) v
      (s.setCsr .mstatus mstatus).setCsr .sstatus (mstatus &&& sstatusMask)
  | r => s.setCsr r v

/-- The operand of a CSR access: the register field itself, or the register. -/
def csrOperand (i : BitVec 32) : BitVec 32 :=
  if (funct3 i).getLsbD 2 then BitVec.ofNat 32 (regA i).val else s.gpr (regA i)

/-- The read and the write of an access to an implemented CSR. -/
def csrAccess (i : BitVec 32) (r : Csr) : Cpu :=
  let old := s.csr r
  let wdata := s.csrOperand i
  let s := if funct3 i ≠ 1 ∨ regD i ≠ 0 then s.setGpr (regD i) old else s
  if funct3 i = 1 ∨ regA i ≠ 0 then s.writeCsr r (csrWdata (funct3 i &&& 3) old wdata) else s

/-- The method `RV32CSR`. -/
def rv32csr : Flow :=
  let i := s.instruction
  let csrAddr := bits i 31 20
  let s := s.traceRegisters (csrRegisters i)
  if csrAddr = numberTime ∨ csrAddr = numberTimeh then .trap s.raiseIllegal i
  else
    match cvtNumberToCsr csrAddr with
    -- an access to any other register does nothing
    | none => .next s.advance
    | some r => .next (s.csrAccess i r).advance

end Cpu

/-! ### The group `RV32A` -/

def amoRegisters (i : BitVec 32) : Registers := ⟨regD i, regA i, regB i⟩

namespace Cpu

variable (s : Cpu)

/-- The two translations of an atomic access: as a load and as a store. -/
def translateAmo (vAddr : BitVec 32) :
    Option (Option (BitVec 32) × Option (BitVec 32)) :=
  if s.paging then do
    let p1 ← s.va2pa vAddr .load
    let p2 ← s.va2pa vAddr .store
    some (p1, p2)
  else some (some vAddr, some vAddr)

/-- The page fault of an atomic access, from the results of its translations:
the state with the flag that is raised. -/
def amoFault (f5 : BitVec 32) (p1 p2 : Option (BitVec 32)) : Option Cpu :=
  if f5 = 2 then if p1.isNone then some s.raiseLoadFault else none
  else if f5 = 3 then if p2.isNone then some s.raiseStoreFault else none
  else if p1.isNone || p2.isNone then some s.raiseStoreFault
  else none

/-- The store an atomic operation announces before it reads memory. -/
def prepareAmo (f5 pAddr : BitVec 32) : Cpu :=
  if f5 ≠ 2 then { s with store := true, storeAddr := pAddr, storeStrb := 0b1111 } else s

/-- A store-conditional: the reservation ends in any case. -/
def storeConditional (rd : Fin 32) (pAddr b : BitVec 32) : Cpu :=
  if s.reserveValid && s.reserveAddr = pAddr then
    { s.setGpr rd 0 with storeData := b, reserveValid := false }
  else { s.setGpr rd 1 with store := false, reserveValid := false }

/-- The switch of `RV32A`, with the old word and the second operand. -/
def amoExecute (rd : Fin 32) (f5 pAddr old b : BitVec 32) : Cpu :=
  if f5 = 2 then { s.setGpr rd old with reserveValid := true, reserveAddr := pAddr }
  else if f5 = 3 then s.storeConditional rd pAddr b
  else
    match amoData f5.toNat old b with
    | some data => { s.setGpr rd old with storeData := data }
    -- an undefined operation keeps what `store_data` held
    | none => s

/-- The part of `RV32A` after the translation. -/
def amoAccess (i pAddr b : BitVec 32) : Option Cpu := do
  let s := s.prepareAmo (funct5 i) pAddr
  let old ← s.loadWord pAddr
  let s := s.amoExecute (regD i) (funct5 i) pAddr old b
  s.doIf s.store commitStoreData

/-- The trace of an atomic access, before its address is translated. -/
def traceAmo (i vAddr : BitVec 32) : Cpu :=
  (s.traceRegisters (amoRegisters i)).trace fun t =>
    { t with
      memAddr := vAddr, isLoad := funct5 i = 2, isStore := funct5 i ≠ 2
      isTrap := decide (vAddr < kRamBase) }

/-- The method `RV32A`. -/
def rv32a : Option Flow := do
  let i := s.instruction
  let vAddr := s.gpr (regA i)
  let b := s.gpr (regB i)
  let s := s.traceAmo i vAddr
  if vAddr &&& 3 ≠ 0 then none
  else
    let (p1, p2) ← s.translateAmo vAddr
    match s.amoFault (funct5 i) p1 p2 with
    | some s => some (.trap s.traceTrap vAddr)
    | none =>
        let pAddr := p2.getD (p1.getD vAddr)
        if checkMemRange pAddr 4 then
          (s.amoAccess i pAddr b).map fun s => .next s.advance
        else none

end Cpu

/-! ### The group `RV32IM` -/

def rv32imRegisters (i : BitVec 32) : Registers :=
  match opcode i with
  | some .lui | some .auipc | some .jal => { rd := regD i }
  | some .jalr | some .lb | some .addi => { rd := regD i, rs1 := regA i }
  | some .sb | some .beq => { rs1 := regA i, rs2 := regB i }
  | some .add => { rd := regD i, rs1 := regA i, rs2 := regB i }
  | _ => {}

/-- The size of an access in bytes. -/
def accessSize (size : BitVec 32) : ℕ := if size = 0 then 1 else if size = 1 then 2 else 4

/-- An access that is not aligned to its size. -/
def misaligned (size vAddr : BitVec 32) : Bool :=
  (size = 1 && vAddr.getLsbD 0) || (size = 2 && vAddr &&& 3 ≠ 0)

namespace Cpu

variable (s : Cpu)

/-- The case of a jump to `target`. -/
def jump (rd : Fin 32) (target : BitVec 32) : Cpu :=
  let s := { s.trace (fun t => { t with target := target }) with isBr := true, brTaken := true }
  (s.setGpr rd (s.pc + 4)).setPc target

/-- The case `number_4_opcode_beq`. -/
def branch (i a b : BitVec 32) : Cpu :=
  if branchTaken (funct3 i).toNat a b then
    let target := s.pc + immB i
    let s :=
      { s.trace (fun t => { t with target := target }) with isBr := true, brTaken := true }
    s.setPc target
  else { s with isBr := true }.advance

/-- What a load returns: the word at the address, or the timer. -/
def loadData (f3 pAddr word : BitVec 32) : BitVec 32 :=
  if pAddr = 0x1fd0e004 then 0
  else if pAddr = 0x1fd0e000 then s.simTime.setWidth 32
  else loadValue f3 pAddr word

/-- The case `number_5_opcode_lb`. -/
def load (i a : BitVec 32) : Option Flow := do
  let vAddr := a + immI i
  let s := s.trace fun t => { t with isLoad := true, memAddr := vAddr }
  let size := funct3 i &&& 3
  if misaligned size vAddr then none
  else
    match ← s.translate vAddr .load with
    | none => some (.trap (s.traceIo vAddr).raiseLoadFault.traceTrap vAddr)
    | some pAddr =>
        if checkMemRange pAddr (accessSize size) then
          let word ← s.loadWord pAddr
          let s := s.traceIo pAddr
          some (.next (s.setGpr (regD i) (s.loadData (funct3 i) pAddr word)).advance)
        else none

/-- The fields a store hands to `store_data`. -/
def prepareStore (f3 pAddr b : BitVec 32) : Cpu :=
  if f3 = 0 then
    { s with store := true, storeAddr := pAddr, storeStrb := 0b1, storeData := b &&& 0xFF }
  else if f3 = 1 then
    { s with store := true, storeAddr := pAddr, storeStrb := 0b11, storeData := b &&& 0xFFFF }
  else { s with store := true, storeAddr := pAddr, storeStrb := 0b1111, storeData := b }

/-- The case `number_6_opcode_sb`. -/
def storeCase (i a b : BitVec 32) : Option Flow := do
  let vAddr := a + immS i
  let s := s.trace fun t => { t with isStore := true, memAddr := vAddr }
  if misaligned (funct3 i) vAddr then none
  else
    match ← s.translate vAddr .store with
    | none => some (.trap s.raiseStoreFault.traceTrap vAddr)
    | some pAddr =>
        if checkMemRange pAddr (accessSize (funct3 i)) then
          let s := (s.traceIo pAddr).prepareStore (funct3 i) pAddr b
          s.commitStoreData.map fun s => .next s.advance
        else none

/-- The method `RV32IM`. -/
def rv32im : Option Flow :=
  let i := s.instruction
  let a := s.gpr (regA i)
  let b := s.gpr (regB i)
  let s := s.traceRegisters (rv32imRegisters i)
  match opcode i with
  | some .lui => some (.next (s.setGpr (regD i) (immU i)).advance)
  | some .auipc => some (.next (s.setGpr (regD i) (immU i + s.pc)).advance)
  | some .jal => some (.next (s.jump (regD i) (s.pc + immJ i)))
  | some .jalr => some (.next (s.jump (regD i) ((a + immI i) &&& 0xFFFFFFFC)))
  | some .beq => some (.next (s.branch i a b))
  | some .lb => s.load i a
  | some .sb => s.storeCase i a b
  | some .addi => some (.next (s.writeBack (regD i) (opImm i a)).advance)
  | some .add => some (.next (s.writeBack (regD i) (opReg i a b)).advance)
  | _ => some (.next s.advance)

end Cpu

end TraceSim.Ref
