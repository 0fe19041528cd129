/-
TraceSim/Ref/Bookkeeping.lean

What no instruction touches: the opcode in the trace, the basic block that is being
counted, and the time.

These fields are read together (`ledger`), and each part of an instruction keeps
them.  So only the start of a step counts an instruction, and the record of a jump
is that of an executed jump (`step_jump`).
-/
import TraceSim.Ref.Frames
import TraceSim.Ref.Paths

namespace TraceSim.Ref

/-- The fields of `ledger`. -/
structure Ledger where
  opcode : BitVec 32
  currentBbHeadPc : BitVec 32
  currentBbLen : BitVec 32
  simTime : BitVec 64

/-- What an instruction leaves alone. -/
def Cpu.ledger (s : Cpu) : Ledger :=
  ⟨s.currentTrace.opcode, s.currentBbHeadPc, s.currentBbLen, s.simTime⟩

variable {s s' u : Cpu}

/-! ### Parts of instructions -/

section Parts

variable (s)

@[simp] theorem ledger_setGpr (rd : Fin 32) (v : BitVec 32) :
    (s.setGpr rd v).ledger = s.ledger := rfl

@[simp] theorem ledger_setPc (pc : BitVec 32) : (s.setPc pc).ledger = s.ledger := rfl

@[simp] theorem ledger_advance : s.advance.ledger = s.ledger := rfl

@[simp] theorem ledger_traceRegisters (regs : Registers) :
    (s.traceRegisters regs).ledger = s.ledger := rfl

@[simp] theorem ledger_traceTrap : s.traceTrap.ledger = s.ledger := rfl

@[simp] theorem ledger_traceAmo (i vAddr : BitVec 32) :
    (s.traceAmo i vAddr).ledger = s.ledger := rfl

@[simp] theorem ledger_raise (c : Raised) : (s.raise c).ledger = s.ledger := by
  cases c <;> rfl

@[simp] theorem ledger_jump (rd : Fin 32) (target : BitVec 32) :
    (s.jump rd target).ledger = s.ledger := rfl

/-- The flag of a device access is no part of the books. -/
theorem ledger_traceIo (p : BitVec 32) : (s.traceIo p).ledger = s.ledger := by
  unfold Cpu.traceIo
  split_ifs
  · rfl
  · rfl

/-- An instruction with a result, or without one. -/
theorem ledger_writeBack (rd : Fin 32) (v : Option (BitVec 32)) :
    (s.writeBack rd v).ledger = s.ledger := by
  cases v with
  | none => rfl
  | some v => rfl

/-- A CSR write changes registers only, also where it writes two of them. -/
theorem ledger_writeCsr (r : Csr) (v : BitVec 32) : (s.writeCsr r v).ledger = s.ledger := by
  cases r <;> rfl

/-- A CSR instruction: the read, the write and the step to the next pc. -/
theorem ledger_csrAccess (i : BitVec 32) (r : Csr) : (s.csrAccess i r).ledger = s.ledger := by
  unfold Cpu.csrAccess
  dsimp only
  split_ifs
  · exact ledger_writeCsr _ _ _
  · exact ledger_writeCsr _ _ _
  · rfl
  · rfl

/-- What an atomic access puts into the store members. -/
theorem ledger_prepareAmo (f5 pAddr : BitVec 32) :
    (s.prepareAmo f5 pAddr).ledger = s.ledger := by
  unfold Cpu.prepareAmo
  split_ifs
  · rfl
  · rfl

/-- The operation: a load reserves, a conditional store answers, the others compute. -/
theorem ledger_amoExecute (rd : Fin 32) (f5 pAddr old b : BitVec 32) :
    (s.amoExecute rd f5 pAddr old b).ledger = s.ledger := by
  unfold Cpu.amoExecute Cpu.storeConditional
  split_ifs
  · rfl
  · rfl
  · rfl
  · rcases amoData f5.toNat old b with - | data
    · rfl
    · rfl

/-- A branch writes its target and its flag into the trace, and the pc. -/
theorem ledger_branch (i a b : BitVec 32) : (s.branch i a b).ledger = s.ledger := by
  unfold Cpu.branch
  dsimp only
  split_ifs
  · rfl
  · rfl

/-- What a store puts into the store members. -/
theorem ledger_prepareStore (f3 pAddr b : BitVec 32) :
    (s.prepareStore f3 pAddr b).ledger = s.ledger := by
  unfold Cpu.prepareStore
  split_ifs
  · rfl
  · rfl
  · rfl

/-- A trap writes CSRs, the privilege and the pc. -/
theorem ledger_exception (v : BitVec 32) : (s.exception v).ledger = s.ledger := by
  rw [exception_frame]
  rfl

end Parts

/-- The parts of an instruction that store leave the books alone. -/
theorem Stored.ledger (h : Stored s u) : u.ledger = s.ledger := by
  rw [h.eq]
  rfl

/-- An atomic access, with its store. -/
theorem ledger_amoAccess {i pAddr b : BitVec 32} (h : s.amoAccess i pAddr b = some u) :
    u.ledger = s.ledger := by
  unfold Cpu.amoAccess at h
  obtain ⟨old, -, h⟩ := Option.bind_eq_some_iff.mp h
  have hstored := Stored.doIf (fun _ _ => Stored.commitStoreData) h
  rw [hstored.ledger, ledger_amoExecute, ledger_prepareAmo]

/-! ### Instructions -/

/-- The whole of `RV32CSR`. -/
theorem ledger_rv32csr : s.rv32csr.cpu.ledger = s.ledger := by
  unfold Cpu.rv32csr
  dsimp only
  split_ifs
  · rfl
  · rcases cvtNumberToCsr (bits s.instruction 31 20) with - | r
    · rfl
    · exact ledger_csrAccess _ _ _

/-- The whole of `RV32A`, for an instruction that gets there. -/
theorem ledger_rv32a {flow : Flow} (hop : opcode s.instruction = some .lrw)
    (h : s.rv32a = some flow) : flow.cpu.ledger = s.ledger := by
  rw [Cpu.rv32a_eq hop] at h
  dsimp only at h
  split_ifs at h
  obtain ⟨p, -, h⟩ := Option.bind_eq_some_iff.mp h
  rcases p with - | pAddr
  · obtain rfl := Option.some.inj h
    simp [Flow.cpu]
  · dsimp only at h
    split_ifs at h
    obtain ⟨u, hu, rfl⟩ := Option.map_eq_some_iff.mp h
    simp [Flow.cpu, ledger_amoAccess hu]

/-- A load, whether it is mapped or faults. -/
theorem ledger_load {i a : BitVec 32} {flow : Flow} (h : s.load i a = some flow) :
    flow.cpu.ledger = s.ledger := by
  unfold Cpu.load at h
  dsimp only at h
  split_ifs at h
  obtain ⟨p, -, h⟩ := Option.bind_eq_some_iff.mp h
  rcases p with - | pAddr
  · obtain rfl := Option.some.inj h
    have hio := ledger_traceIo
      (s.trace fun t => { t with isLoad := true, memAddr := a + immI i }) (a + immI i)
    exact hio
  · dsimp only at h
    split_ifs at h
    obtain ⟨word, -, h⟩ := Option.bind_eq_some_iff.mp h
    obtain rfl := Option.some.inj h
    have hio := ledger_traceIo
      (s.trace fun t => { t with isLoad := true, memAddr := a + immI i }) pAddr
    exact hio

/-- A store, whether it is mapped or faults. -/
theorem ledger_storeCase {i a b : BitVec 32} {flow : Flow} (h : s.storeCase i a b = some flow) :
    flow.cpu.ledger = s.ledger := by
  unfold Cpu.storeCase at h
  dsimp only at h
  split_ifs at h
  obtain ⟨p, -, h⟩ := Option.bind_eq_some_iff.mp h
  rcases p with - | pAddr
  · obtain rfl := Option.some.inj h
    rfl
  · dsimp only at h
    split_ifs at h
    obtain ⟨u, hu, rfl⟩ := Option.map_eq_some_iff.mp h
    have hstored := (Stored.commitStoreData hu).ledger
    rw [ledger_prepareStore, ledger_traceIo] at hstored
    exact hstored

/-- The whole of `RV32IM`, one case for each opcode. -/
theorem ledger_rv32im {flow : Flow} (h : s.rv32im = some flow) :
    flow.cpu.ledger = s.ledger := by
  unfold Cpu.rv32im at h
  dsimp only at h
  split at h
  · obtain rfl := Option.some.inj h
    rfl
  · obtain rfl := Option.some.inj h
    rfl
  · obtain rfl := Option.some.inj h
    rfl
  · obtain rfl := Option.some.inj h
    rfl
  · obtain rfl := Option.some.inj h
    exact ledger_branch _ _ _ _
  · have hload := ledger_load h
    exact hload
  · have hstore := ledger_storeCase h
    exact hstore
  · obtain rfl := Option.some.inj h
    exact ledger_writeBack _ _ _
  · obtain rfl := Option.some.inj h
    exact ledger_writeBack _ _ _
  · obtain rfl := Option.some.inj h
    rfl

/-- **An executed instruction** keeps the ledger. -/
theorem ledger_execute {flow : Flow} (h : s.execute = some flow) :
    flow.run.finish.ledger = s.ledger := by
  have hcpu : flow.cpu.ledger = s.ledger := by
    unfold Cpu.execute at h
    split at h
    · obtain rfl := Option.some.inj h
      exact ledger_rv32csr
    · next hop => exact ledger_rv32a hop h
    · exact ledger_rv32im h
  rw [← hcpu]
  cases flow with
  | next u => rfl
  | trap u v => exact ledger_exception u v

/-! ### Steps -/

/-- What the books hold: the opcode of the trace, the two members of the basic block, and
the time. -/
theorem ledger_fields (h : u.ledger = s.ledger) :
    u.currentTrace.opcode = s.currentTrace.opcode ∧ u.currentBbHeadPc = s.currentBbHeadPc ∧
      u.currentBbLen = s.currentBbLen ∧ u.simTime = s.simTime :=
  ⟨congrArg Ledger.opcode h, congrArg Ledger.currentBbHeadPc h, congrArg Ledger.currentBbLen h,
    congrArg Ledger.simTime h⟩

/-- A step changes the block and the time at its start only. -/
theorem riscv_block (h : s.riscv = some s') :
    s'.currentBbHeadPc = s.beginStep.currentBbHeadPc ∧
      s'.currentBbLen = s.beginStep.currentBbLen ∧ s'.simTime = s.simTime := by
  have htime : s.beginStep.simTime = s.simTime := s.agree_beginStep.simTime
  rcases Cpu.riscv_cases h with ⟨-, rfl⟩ | ⟨-, rfl⟩ | ⟨i, -, -, -, rfl⟩ |
    ⟨i, flow, -, hflow, rfl⟩
  · obtain ⟨-, hhead, hlen, hclock⟩ := ledger_fields (ledger_exception s.fetchFault s.pc)
    exact ⟨hhead, hlen, hclock.trans htime⟩
  · exact ⟨rfl, rfl, htime⟩
  · rw [Cpu.trapNow]
    obtain ⟨-, hhead, hlen, hclock⟩ :=
      ledger_fields (ledger_exception (s.decided i).traceTrap 0)
    exact ⟨hhead, hlen, hclock.trans htime⟩
  · obtain ⟨-, hhead, hlen, hclock⟩ := ledger_fields (ledger_execute hflow)
    exact ⟨hhead, hlen, hclock.trans htime⟩

/-! ### Jumps -/

/-- The executed jumps, by the opcode bits. -/
theorem opcode_of_jump {i : BitVec 32} (h : opcodeBits i = 0b1101111 ∨ opcodeBits i = 0b1100111) :
    opcode i = some .jal ∨ opcode i = some .jalr := by
  rcases h with h | h
  · left
    rw [opcode, h]
    rfl
  · right
    rw [opcode, h]
    rfl

/-- An executed jump is a taken branch in its trace. -/
theorem execute_jump {i : BitVec 32} {flow : Flow}
    (hop : opcode i = some .jal ∨ opcode i = some .jalr) (hi : s.instruction = i)
    (h : s.execute = some flow) :
    flow.run.finish.currentTrace.isBranch = true ∧
      flow.run.finish.currentTrace.branchTaken = true := by
  subst hi
  unfold Cpu.execute at h
  rcases hop with hop | hop
  · rw [hop] at h
    change s.rv32im = some flow at h
    rw [Cpu.rv32im, hop] at h
    obtain rfl := Option.some.inj h
    exact ⟨rfl, rfl⟩
  · rw [hop] at h
    change s.rv32im = some flow at h
    rw [Cpu.rv32im, hop] at h
    obtain rfl := Option.some.inj h
    exact ⟨rfl, rfl⟩

/-- **The record of a jump** that does not trap is that of a taken branch. -/
theorem step_jump {t : TraceInst} (h : s.step = some (t, s'))
    (hjump : t.opcode = 0b1101111 ∨ t.opcode = 0b1100111) (htrap : t.isTrap = false) :
    t.isBranch = true ∧ t.branchTaken = true := by
  unfold Cpu.step at h
  obtain ⟨v, hv, h⟩ := Option.bind_eq_some_iff.mp h
  obtain ⟨rfl, -⟩ := Prod.mk.inj (Option.some.inj h)
  generalize hs : ({ s with currentTrace := {} } : Cpu) = r at hv
  rcases Cpu.riscv_cases hv with ⟨-, rfl⟩ | ⟨-, rfl⟩ | ⟨i, -, -, -, rfl⟩ |
    ⟨i, flow, -, hflow, rfl⟩
  · -- a fetch fault leaves the empty record
    have hopcode : (r.fetchFault.exception r.pc).currentTrace.opcode = 0 := by
      obtain ⟨hopcode, -⟩ := ledger_fields (ledger_exception r.fetchFault r.pc)
      have hempty : r.beginStep.currentTrace = {} := by
        rw [Cpu.beginStep_currentTrace, ← hs]
      exact hopcode.trans (congrArg TraceInst.opcode hempty)
    rw [hopcode] at hjump
    exact absurd hjump (by decide)
  · have hopcode : (r.fetched instEbreak).currentTrace.opcode = opcodeBits instEbreak := rfl
    change (r.fetched instEbreak).currentTrace.opcode = _
      ∨ (r.fetched instEbreak).currentTrace.opcode = _ at hjump
    rw [hopcode] at hjump
    exact absurd hjump (by decide)
  · have hflag : ((r.decided i).trapNow 0).currentTrace.isTrap = true := by
      rw [Cpu.trapNow, exception_frame]
      rfl
    rw [hflag] at htrap
    cases htrap
  · have hopcode : flow.run.finish.currentTrace.opcode = opcodeBits i :=
      (ledger_fields (ledger_execute hflow)).1
    rw [hopcode] at hjump
    exact execute_jump (opcode_of_jump hjump) rfl hflow

end TraceSim.Ref
