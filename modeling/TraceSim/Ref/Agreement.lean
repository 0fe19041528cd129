/-
TraceSim/Ref/Agreement.lean

Two runs of one step.

`Agree E` relates two states with the same architectural state, except for the
registers outside `E`.  From the decoded instruction on, a step also reads the
instruction, the interrupt flags and the flags it has set itself; two states that
agree on those too are in `Ready E`.  Every function of the step takes related
states to related results, as long as the registers it reads are in `E`.
-/
import TraceSim.Ref.Flows
import TraceSim.Lib.Options
import Mathlib.Data.Set.Basic

namespace TraceSim.Ref

/-- Two states with the same architectural state, except for the registers
outside `E`. -/
structure Agree (E : Set (Fin 32)) (s s' : Cpu) : Prop where
  gpr : ∀ r ∈ E, s'.gpr r = s.gpr r
  csr : s'.csr = s.csr
  pc : s'.pc = s.pc
  privilege : s'.privilege = s.privilege
  memory : s'.memory = s.memory
  ioWords : s'.ioWords = s.ioWords
  reserveValid : s'.reserveValid = s.reserveValid
  reserveAddr : s'.reserveAddr = s.reserveAddr
  simTime : s'.simTime = s.simTime

/-- Two states that agree, also on what a step reads of its own. -/
structure Ready (E : Set (Fin 32)) (s s' : Cpu) : Prop extends Agree E s s' where
  instruction : s'.instruction = s.instruction
  interrupts : s'.interrupts = s.interrupts
  pageFaultInst : s'.pageFaultInst = s.pageFaultInst
  pageFaultLoad : s'.pageFaultLoad = s.pageFaultLoad
  pageFaultStore : s'.pageFaultStore = s.pageFaultStore
  illegalException : s'.illegalException = s.illegalException
  store : s'.store = s.store

variable {E : Set (Fin 32)} {s s' : Cpu}

namespace Agree

/-- Agreement does not depend on which run one looks at first. -/
theorem symm (h : Agree E s s') : Agree E s' s where
  gpr r hr := (h.gpr r hr).symm
  csr := h.csr.symm
  pc := h.pc.symm
  privilege := h.privilege.symm
  memory := h.memory.symm
  ioWords := h.ioWords.symm
  reserveValid := h.reserveValid.symm
  reserveAddr := h.reserveAddr.symm
  simTime := h.simTime.symm

/-- Agreement can be chained. -/
theorem trans {t : Cpu} (h : Agree E s s') (h' : Agree E s' t) : Agree E s t where
  gpr r hr := (h'.gpr r hr).trans (h.gpr r hr)
  csr := h'.csr.trans h.csr
  pc := h'.pc.trans h.pc
  privilege := h'.privilege.trans h.privilege
  memory := h'.memory.trans h.memory
  ioWords := h'.ioWords.trans h.ioWords
  reserveValid := h'.reserveValid.trans h.reserveValid
  reserveAddr := h'.reserveAddr.trans h.reserveAddr
  simTime := h'.simTime.trans h.simTime

/-- To agree on fewer registers asks less. -/
theorem mono {F : Set (Fin 32)} (hFE : F ⊆ E) (h : Agree E s s') : Agree F s s' :=
  { h with gpr := fun r hr => h.gpr r (hFE hr) }

end Agree

/-! ### Reads -/

namespace Agree

variable (h : Agree E s s')

include h

/-- Memory and devices are part of the state in full. -/
theorem loadWord (a : BitVec 32) : s'.loadWord a = s.loadWord a := by
  rw [Cpu.loadWord, Cpu.loadWord, h.memory, h.ioWords]

/-- The permission check reads `mstatus` and the privilege. -/
theorem leafDenied (type : AccessType) (pte : BitVec 32) :
    s'.leafDenied type pte = s.leafDenied type pte := by
  simp only [Cpu.leafDenied, Cpu.effPriv, h.csr, h.privilege]

/-- So both walks take the same way. -/
theorem va2pa (v : BitVec 32) (type : AccessType) : s'.va2pa v type = s.va2pa v type := by
  simp only [Cpu.va2pa, Cpu.walkLevel2, h.csr, h.loadWord, h.leafDenied]

/-- Whether addresses are translated at all is read from `satp`, `mstatus` and the
privilege. -/
theorem paging : s'.paging = s.paging := by
  rw [Cpu.paging, Cpu.paging, h.csr, h.privilege]

/-- Translation reads no register of the program. -/
theorem translate (v : BitVec 32) (type : AccessType) :
    s'.translate v type = s.translate v type := by
  rw [Cpu.translate, Cpu.translate, h.paging, h.va2pa]

/-- Nor does that of an atomic access. -/
theorem translateAmo (v : BitVec 32) : s'.translateAmo v = s.translateAmo v := by
  simp only [Cpu.translateAmo, h.paging, h.va2pa]

/-- The delegation bits. -/
theorem medeleg : s'.medeleg = s.medeleg := by
  funext bit
  rw [Cpu.medeleg, Cpu.medeleg, h.csr]

end Agree

/-! ### Writes -/

namespace Ready

variable (h : Ready E s s')

include h

/-- The trace is no part of the state: the two runs may write different ones. -/
theorem trace (f g : TraceInst → TraceInst) : Ready E (s.trace f) (s'.trace g) :=
  { h with }

/-- A jump to the same target. -/
theorem setPc (pc : BitVec 32) : Ready E (s.setPc pc) (s'.setPc pc) :=
  { h with pc := rfl }

/-- A step to the pc that follows, from the same pc. -/
theorem advance : Ready E s.advance s'.advance := by
  rw [Cpu.advance, Cpu.advance, h.pc]
  exact h.setPc _

/-- A register is written with the same value, whether it is in `E` or not. -/
theorem setGpr (rd : Fin 32) (v : BitVec 32) : Ready E (s.setGpr rd v) (s'.setGpr rd v) :=
  { h with
    gpr := fun r hr => by
      by_cases hrd : r = rd
      · simp [Cpu.setGpr, hrd]
      · simp [Cpu.setGpr, hrd, h.gpr r hr] }

/-- A CSR is written with the same value. -/
theorem setCsr (r : Csr) (v : BitVec 32) : Ready E (s.setCsr r v) (s'.setCsr r v) :=
  { h with csr := by simp only [Cpu.setCsr, h.csr] }

/-- The end of an instruction with a result. -/
theorem writeBack (rd : Fin 32) (v : Option (BitVec 32)) :
    Ready E (s.writeBack rd v) (s'.writeBack rd v) := by
  cases v with
  | none => exact h
  | some v => exact h.setGpr rd v

/-- A store of one word gives `none` in both runs or in neither. -/
theorem storeWord (a d : BitVec 32) :
    Option.Rel (Ready E) (s.storeWord a d) (s'.storeWord a d) := by
  unfold Cpu.storeWord
  split_ifs
  · exact .some { h with memory := by simp only [h.memory] }
  · exact .some { h with ioWords := by simp only [h.ioWords] }
  · exact .none

/-- Reading a word and writing what becomes of it. -/
theorem rewriteWord (a b : BitVec 32) (f : BitVec 32 → BitVec 32) :
    Option.Rel (Ready E) (s.loadWord a >>= fun word => s.storeWord b (f word))
      (s'.loadWord a >>= fun word => s'.storeWord b (f word)) := by
  rw [h.loadWord]
  exact rel_same fun word _ => h.storeWord b (f word)

/-- The console is a device word like the others. -/
theorem uartPrint : Option.Rel (Ready E) s.uartPrint s'.uartPrint :=
  h.rewriteWord _ _ _

/-- So is its status. -/
theorem uartReady : Option.Rel (Ready E) s.uartReady s'.uartReady :=
  h.rewriteWord _ _ fun word => (word &&& 0xfff0ffff) ||| 0x00030000

/-- The same change of one bit of `mip` and of `sip`. -/
theorem setPending (f : BitVec 32 → BitVec 32) :
    Ready E ((s.setCsr .mip (f (s.csr .mip))).setCsr .sip (f (s.csr .sip)))
      ((s'.setCsr .mip (f (s'.csr .mip))).setCsr .sip (f (s'.csr .sip))) := by
  rw [h.csr]
  exact (h.setCsr _ _).setCsr _ _

end Ready

namespace Ready

/-- An action in both runs or in neither. -/
theorem doIf (h : Ready E s s') {p : Prop} [Decidable p] {f : Cpu → Option Cpu}
    (hf : ∀ t t', Ready E t t' → Option.Rel (Ready E) (f t) (f t')) :
    Option.Rel (Ready E) (s.doIf p f) (s'.doIf p f) := by
  unfold Cpu.doIf
  split_ifs
  · exact hf _ _ h
  · exact .some h

variable (h : Ready E s s')

include h

/-- The interrupt of the console goes into `mip` and `sip` of both. -/
theorem uartRaise : Option.Rel (Ready E) s.uartRaise s'.uartRaise := by
  unfold Cpu.uartRaise
  refine rel_bind (h.storeWord _ _) fun t t' ht => ?_
  rw [ht.loadWord]
  refine rel_same fun word _ => rel_bind (ht.storeWord _ _) fun u u' hu => .some ?_
  exact hu.setPending fun x => setBit x seip

/-- And is taken back in both. -/
theorem plicComplete : Option.Rel (Ready E) s.plicComplete s'.plicComplete := by
  unfold Cpu.plicComplete
  refine rel_bind (h.storeWord _ _) fun t t' ht => .some ?_
  exact ht.setPending fun x => clearBit x seip

/-- The hooks look at the store address and data only. -/
theorem storeHooks (haddr : s'.storeAddr = s.storeAddr) (hdata : s'.storeData = s.storeData) :
    Option.Rel (Ready E) s.storeHooks s'.storeHooks := by
  unfold Cpu.storeHooks
  dsimp only
  rw [haddr, hdata]
  refine rel_bind (h.doIf fun _ _ ht => ht.uartPrint) fun t t' ht => ?_
  refine rel_bind (ht.doIf fun _ _ hu => hu.uartRaise) fun u u' hu => ?_
  refine rel_bind (hu.doIf fun _ _ hv => hv.uartReady) fun v v' hv => ?_
  exact hv.doIf fun _ _ hw => hw.plicComplete

end Ready

/-- Two states that agree, also on the operands of a store. -/
structure StoreReady (E : Set (Fin 32)) (s s' : Cpu) : Prop extends Ready E s s' where
  storeAddr : s'.storeAddr = s.storeAddr
  storeData : s'.storeData = s.storeData
  storeStrb : s'.storeStrb = s.storeStrb

namespace StoreReady

variable (h : StoreReady E s s')

include h

/-- The same, where the members of a store agree as well. -/
theorem storeWord (a d : BitVec 32) :
    Option.Rel (StoreReady E) (s.storeWord a d) (s'.storeWord a d) := by
  unfold Cpu.storeWord
  split_ifs
  · exact .some { h with memory := by simp only [h.memory] }
  · exact .some { h with ioWords := by simp only [h.ioWords] }
  · exact .none

/-- A store reads address, strobe and data from those members. -/
theorem storeBytes : Option.Rel (StoreReady E) s.storeBytes s'.storeBytes := by
  have hreserve : StoreReady E (if s.store then { s with reserveValid := false } else s)
      (if s'.store then { s' with reserveValid := false } else s') := by
    by_cases hs : s.store = true
    · rw [if_pos hs, if_pos (h.store.trans hs)]
      exact { h with reserveValid := rfl }
    · rw [if_neg hs, if_neg (by rwa [h.store])]
      exact h
  unfold Cpu.storeBytes
  dsimp only
  -- both runs go on without the reservation
  generalize (if s.store then { s with reserveValid := false } else s) = t at hreserve ⊢
  generalize (if s'.store then { s' with reserveValid := false } else s') = t' at hreserve ⊢
  rw [hreserve.storeAddr, hreserve.loadWord, hreserve.store]
  refine rel_same fun old _ => ?_
  unfold Cpu.doIf
  dsimp only
  split_ifs
  · rw [hreserve.storeAddr, hreserve.storeStrb, hreserve.storeData]
    exact hreserve.storeWord _ _
  · exact .some hreserve

/-- **A store** of the same operands. -/
theorem commitStoreData : Option.Rel (Ready E) s.commitStoreData s'.commitStoreData := by
  have hsize : s'.storeSize = s.storeSize := by
    rw [Cpu.storeSize, Cpu.storeSize, h.storeStrb]
  unfold Cpu.commitStoreData
  rw [h.storeAddr, hsize]
  split_ifs
  · exact rel_bind h.storeBytes fun t t' ht => ht.storeHooks ht.storeAddr ht.storeData
  · exact .none

end StoreReady

/-! ### Traps -/

namespace Ready

variable (h : Ready E s s')

include h

/-- What kind of call it is depends on the instruction and the privilege. -/
theorem isEcall : s'.isEcall = s.isEcall := by
  rw [Cpu.isEcall, Cpu.isEcall, h.instruction]

/-- The cause is computed from the flags and the delegation. -/
theorem mCause : s'.mCause = s.mCause := by
  rw [Cpu.mCause, Cpu.mCause, Cpu.mCode, Cpu.mCode, h.interrupts, h.isEcall, h.medeleg,
    h.privilege, h.pageFaultInst, h.pageFaultLoad, h.pageFaultStore, h.illegalException]

/-- So is that of S mode. -/
theorem sCause : s'.sCause = s.sCause := by
  rw [Cpu.sCause, Cpu.sCause, Cpu.sCode, Cpu.sCode, h.interrupts, h.isEcall, h.medeleg,
    h.privilege, h.pageFaultInst, h.pageFaultLoad, h.pageFaultStore]

/-- The end of a trap and of a return. -/
theorem redirect (p : BitVec 8) (pc : BitVec 32) :
    Agree E { s with privilege := p, pc := pc } { s' with privilege := p, pc := pc } :=
  { h.toAgree with privilege := rfl, pc := rfl }

/-- A trap into M mode leads to the same handler. -/
theorem enterM (v : BitVec 32) : Agree E (s.enterM v) (s'.enterM v) := by
  unfold Cpu.enterM
  rw [h.mCause, h.csr, h.pc, h.privilege]
  have hepc := (h.setCsr .mepc s.pc).setCsr .mcause s.mCause
  have hstatus := (hepc.setCsr .mstatus (trapMstatus (s.csr .mstatus) s.privilege)).setCsr .sstatus
    (trapMstatus (s.csr .mstatus) s.privilege &&& trapStatusMask)
  exact (hstatus.setCsr .mtval v).redirect 3 _

/-- A trap into S mode as well. -/
theorem enterS (v : BitVec 32) : Agree E (s.enterS v) (s'.enterS v) := by
  unfold Cpu.enterS
  rw [h.sCause, h.csr, h.pc, h.privilege]
  have hepc := (h.setCsr .sepc s.pc).setCsr .scause s.sCause
  have hstatus := (hepc.setCsr .sstatus (trapSstatus (s.csr .sstatus) s.privilege)).setCsr .mstatus
    (maskWrite sstatusMask (s.csr .mstatus) (trapSstatus (s.csr .sstatus) s.privilege))
  exact (hstatus.setCsr .stval v).redirect 1 _

/-- The return reads `mstatus` and `mepc`. -/
theorem mret : Agree E s.mret s'.mret := by
  unfold Cpu.mret
  rw [h.csr]
  exact ((h.setCsr _ _).setCsr _ _).redirect _ _

/-- And this one `sstatus` and `sepc`. -/
theorem sret : Agree E s.sret s'.sret := by
  unfold Cpu.sret
  rw [h.csr]
  exact ((h.setCsr _ _).setCsr _ _).redirect _ _

/-- Both runs trap into M mode or neither does. -/
theorem mTrap : s'.mTrap = s.mTrap := by
  rw [Cpu.mTrap, Cpu.mTrap, Cpu.ecallM, Cpu.ecallM, h.interrupts, h.isEcall, h.medeleg,
    h.privilege, h.pageFaultInst, h.pageFaultLoad, h.pageFaultStore, h.illegalException]

/-- Both runs trap into S mode or neither does. -/
theorem sTrap : s'.sTrap = s.sTrap := by
  rw [Cpu.sTrap, Cpu.sTrap, Cpu.ecallS, Cpu.ecallS, h.interrupts, h.isEcall, h.medeleg,
    h.privilege, h.pageFaultInst, h.pageFaultLoad, h.pageFaultStore]

/-- The function `exception` past its flag. -/
theorem handle (v : BitVec 32) : Agree E (s.handle v) (s'.handle v) := by
  unfold Cpu.handle
  rw [h.mTrap, h.sTrap, h.instruction]
  split_ifs
  · exact h.enterM v
  · exact h.enterS v
  · exact h.mret
  · exact h.sret
  · exact { h.toAgree with pc := by simp only [h.pc] }

/-- **A call of `exception`** from states that agree on its reasons. -/
theorem exception (v : BitVec 32) : Agree E (s.exception v) (s'.exception v) := by
  have hready : Ready E { s with isException := true } { s' with isException := true } :=
    { h with }
  exact hready.handle v

end Ready

/-! ### Instructions -/

/-- Two ways an instruction can end that agree. -/
inductive Flow.Rel (E : Set (Fin 32)) : Flow → Flow → Prop
  | next {s s' : Cpu} (h : Ready E s s') : Rel E (.next s) (.next s')
  | trap {s s' : Cpu} (h : Ready E s s') (v : BitVec 32) : Rel E (.trap s v) (.trap s' v)

/-- Instructions that end in the same way leave states that agree. -/
theorem Flow.Rel.run {f f' : Flow} (h : Flow.Rel E f f') : Agree E f.run f'.run := by
  cases h with
  | next h => exact h.toAgree
  | trap h v => exact h.exception v

/-- The end of a step clears register 0. -/
theorem Agree.finish (h : Agree E s s') : Agree E s.finish s'.finish :=
  { h with
    gpr := fun r hr => by
      by_cases h0 : r = 0
      · simp [Cpu.finish, h0]
      · simp [Cpu.finish, Cpu.trace, h0, h.gpr r hr] }

namespace Ready

/-- The trap flag is no part of the state. -/
theorem traceTrap (h : Ready E s s') : Ready E s.traceTrap s'.traceTrap := h.trace _ _

/-- Nor is the mark of a device access. -/
theorem traceIo (h : Ready E s s') (p : BitVec 32) : Ready E (s.traceIo p) (s'.traceIo p) := by
  unfold Cpu.traceIo
  split_ifs
  · exact h.traceTrap
  · exact h

/-- An illegal instruction in both runs. -/
theorem raiseIllegal (h : Ready E s s') : Ready E s.raiseIllegal s'.raiseIllegal :=
  { h with illegalException := rfl }

/-- A load fault in both runs. -/
theorem raiseLoadFault (h : Ready E s s') : Ready E s.raiseLoadFault s'.raiseLoadFault :=
  { h with pageFaultLoad := rfl }

/-- A store fault in both runs. -/
theorem raiseStoreFault (h : Ready E s s') : Ready E s.raiseStoreFault s'.raiseStoreFault :=
  { h with pageFaultStore := rfl }

/-- Whatever is raised. -/
theorem raise (h : Ready E s s') (c : Raised) : Ready E (s.raise c) (s'.raise c) := by
  cases c with
  | loadFault => exact h.raiseLoadFault
  | storeFault => exact h.raiseStoreFault
  | illegal => exact h.raiseIllegal

/-- A CSR is written, and its copies with it. -/
theorem writeCsr (h : Ready E s s') (r : Csr) (v : BitVec 32) :
    Ready E (s.writeCsr r v) (s'.writeCsr r v) := by
  cases r <;> simp only [Cpu.writeCsr, h.csr] <;>
    first
    | exact (h.setCsr _ _).setCsr _ _
    | exact h.setCsr _ _

/-- The register operand is read if bit 2 of `funct3` is clear; then it has to be in
`E`. -/
theorem csrAccess (h : Ready E s s') {i : BitVec 32}
    (hA : (funct3 i).getLsbD 2 = false → regA i ∈ E) (r : Csr) :
    Ready E (s.csrAccess i r) (s'.csrAccess i r) := by
  have hoperand : s'.csrOperand i = s.csrOperand i := by
    unfold Cpu.csrOperand
    split_ifs with himm
    · rfl
    · exact h.gpr _ (hA (by simpa using himm))
  unfold Cpu.csrAccess
  dsimp only
  rw [h.csr, hoperand]
  split_ifs
  · exact (h.setGpr _ _).writeCsr _ _
  · exact h.writeCsr _ _
  · exact h.setGpr _ _
  · exact h

/-- **The group `RV32CSR`**, if `E` has the register that an access reads. -/
theorem rv32csr (h : Ready E s s')
    (hA : (funct3 s.instruction).getLsbD 2 = false → regA s.instruction ∈ E) :
    Flow.Rel E s.rv32csr s'.rv32csr := by
  have htrace : Ready E (s.traceRegisters (csrRegisters s.instruction))
      (s'.traceRegisters (csrRegisters s.instruction)) := h.trace _ _
  unfold Cpu.rv32csr
  dsimp only
  rw [h.instruction]
  split_ifs
  · exact .trap htrace.raiseIllegal _
  · rcases cvtNumberToCsr (bits s.instruction 31 20) with - | r
    · exact .next htrace.advance
    · exact .next (htrace.csrAccess hA r).advance

end Ready

/-! ### Atomic instructions -/

namespace Ready

/-- The store of an atomic instruction, if it makes one. -/
theorem commitIfStore (h : Ready E s s') (hop : s.store = true → StoreReady E s s') :
    Option.Rel (Ready E) (s.doIf s.store Cpu.commitStoreData)
      (s'.doIf s'.store Cpu.commitStoreData) := by
  unfold Cpu.doIf
  rw [h.store]
  split_ifs with hstore
  · exact (hop hstore).commitStoreData
  · exact .some h

/-- An undefined operation stores what `store_data` held before, so there the runs have to
agree on it; the defined ones write it first. -/
theorem amoExecute (h : Ready E s s') {f5 : BitVec 32} (rd : Fin 32) (pAddr old b : BitVec 32)
    (hop : s.store = true →
      f5 ≠ 2 ∧ s'.storeAddr = s.storeAddr ∧ s'.storeStrb = s.storeStrb)
    (hdata : amoDefined f5 = true ∨ s'.storeData = s.storeData) :
    Ready E (s.amoExecute rd f5 pAddr old b) (s'.amoExecute rd f5 pAddr old b) ∧
      ((s.amoExecute rd f5 pAddr old b).store = true →
        StoreReady E (s.amoExecute rd f5 pAddr old b) (s'.amoExecute rd f5 pAddr old b)) := by
  unfold Cpu.amoExecute
  by_cases h2 : f5 = 2
  -- a load only reserves
  · rw [if_pos h2, if_pos h2]
    exact ⟨{ h.setGpr rd old with reserveValid := rfl, reserveAddr := rfl },
      fun hs => absurd h2 (hop hs).1⟩
  rw [if_neg h2, if_neg h2]
  by_cases h3 : f5 = 3
  -- a conditional store compares with the reservation, on which both agree
  · rw [if_pos h3, if_pos h3]
    unfold Cpu.storeConditional
    rw [h.reserveValid, h.reserveAddr]
    split_ifs
    · exact ⟨{ h.setGpr rd 0 with reserveValid := rfl }, fun hs =>
        { h.setGpr rd 0 with
          reserveValid := rfl
          storeAddr := (hop hs).2.1
          storeData := rfl
          storeStrb := (hop hs).2.2 }⟩
    · exact ⟨{ h.setGpr rd 1 with reserveValid := rfl, store := rfl },
        fun hs => hs.elim⟩
  · rw [if_neg h3, if_neg h3]
    rcases hold : amoData f5.toNat old b with - | data
    · -- only an undefined operation stores what was left of an earlier store
      have hundefined : amoDefined f5 = false := by
        rw [amoDefined, amoData_isSome f5.toNat 0 0 old b, hold, decide_eq_false h2,
          decide_eq_false h3]
        rfl
      have hleft : s'.storeData = s.storeData :=
        hdata.resolve_left (by rw [hundefined]; exact Bool.false_ne_true)
      exact ⟨h, fun hs => { h with
        storeAddr := (hop hs).2.1, storeData := hleft, storeStrb := (hop hs).2.2 }⟩
    · exact ⟨{ h.setGpr rd old with }, fun hs =>
        { h.setGpr rd old with
          storeAddr := (hop hs).2.1
          storeData := rfl
          storeStrb := (hop hs).2.2 }⟩

/-- The operation and its store. -/
theorem amoAccess (h : Ready E s s') {i : BitVec 32} (pAddr b : BitVec 32)
    (hstore : s.store = false)
    (hdata : amoDefined (funct5 i) = true ∨ s'.storeData = s.storeData) :
    Option.Rel (Ready E) (s.amoAccess i pAddr b) (s'.amoAccess i pAddr b) := by
  have hprepare : Ready E (s.prepareAmo (funct5 i) pAddr) (s'.prepareAmo (funct5 i) pAddr) := by
    unfold Cpu.prepareAmo
    split_ifs
    · exact { h with store := rfl }
    · exact h
  -- an operation that stores has announced it on both sides
  have hop : (s.prepareAmo (funct5 i) pAddr).store = true →
      funct5 i ≠ 2 ∧
        (s'.prepareAmo (funct5 i) pAddr).storeAddr = (s.prepareAmo (funct5 i) pAddr).storeAddr ∧
        (s'.prepareAmo (funct5 i) pAddr).storeStrb
          = (s.prepareAmo (funct5 i) pAddr).storeStrb := by
    unfold Cpu.prepareAmo
    split_ifs with h2
    · exact fun _ => ⟨h2, rfl, rfl⟩
    · intro hs
      rw [hstore] at hs
      cases hs
  have hleft : amoDefined (funct5 i) = true ∨
      (s'.prepareAmo (funct5 i) pAddr).storeData = (s.prepareAmo (funct5 i) pAddr).storeData := by
    unfold Cpu.prepareAmo
    split_ifs
    · exact hdata
    · exact hdata
  unfold Cpu.amoAccess
  dsimp only
  rw [hprepare.loadWord]
  refine rel_same fun old _ => ?_
  obtain ⟨hready, hcommit⟩ := hprepare.amoExecute (regD i) pAddr old b hop hleft
  exact hready.commitIfStore hcommit

end Ready

/-- The address of an atomic access is in a register. -/
theorem Agree.amoTranslation (h : Agree E s s') {i : BitVec 32} (hA : regA i ∈ E) :
    s'.amoTranslation i = s.amoTranslation i := by
  simp only [Cpu.amoTranslation, h.gpr _ hA, h.translateAmo, Cpu.amoFault_isSome s' s]

/-- With all registers, the address of any access. -/
theorem Agree.dataVAddr (h : Agree Set.univ s s') (i : BitVec 32) :
    s'.dataVAddr i = s.dataVAddr i := by
  simp only [Cpu.dataVAddr, h.gpr _ (Set.mem_univ _)]

/-- And what it is translated to. -/
theorem Agree.dataTranslation (h : Agree Set.univ s s') (i : BitVec 32) :
    s'.dataTranslation i = s.dataTranslation i := by
  simp only [Cpu.dataTranslation, h.dataVAddr, h.translate, h.amoTranslation (Set.mem_univ _)]

namespace Ready

/-- **The group `RV32A`**, if `E` has the registers of the instruction and the two
runs do not store different leftovers. -/
theorem rv32a (h : Ready E s s') (hop : opcode s.instruction = some .lrw)
    (hA : regA s.instruction ∈ E) (hB : regB s.instruction ∈ E) (hstore : s.store = false)
    (hdata : ∀ pAddr, s.ReachesAmo s.instruction pAddr →
      amoDefined (funct5 s.instruction) = true ∨ s'.storeData = s.storeData) :
    Option.Rel (Flow.Rel E) s.rv32a s'.rv32a := by
  have hop' : opcode s'.instruction = some .lrw := by rw [h.instruction, hop]
  rw [Cpu.rv32a_eq hop, Cpu.rv32a_eq hop']
  dsimp only
  rw [h.instruction, h.gpr _ hA, h.gpr _ hB, h.amoTranslation hA]
  have htrace : Ready E (s.traceAmo s.instruction (s.gpr (regA s.instruction)))
      (s'.traceAmo s.instruction (s.gpr (regA s.instruction))) := (h.trace _ _).trace _ _
  split_ifs with halign
  · exact .none
  refine rel_same fun p hp => ?_
  rcases p with - | pAddr
  · exact .some (.trap (htrace.raise _).traceTrap _)
  dsimp only
  split_ifs with hrange
  -- what is left of an earlier store matters only to an access that is made
  · have hreaches : s.ReachesAmo s.instruction pAddr := ⟨not_not.mp halign, hp, hrange⟩
    exact rel_map (htrace.amoAccess _ _ hstore (hdata pAddr hreaches)) fun _ _ ht =>
      .next ht.advance
  · exact .none

end Ready

/-! ### The integer instructions -/

namespace Ready

/-- A jump links and goes to the same target. -/
theorem jump (h : Ready E s s') (rd : Fin 32) (target : BitVec 32) :
    Ready E (s.jump rd target) (s'.jump rd target) := by
  have hbr : Ready E
      { s.trace (fun t => { t with target := target }) with isBr := true, brTaken := true }
      { s'.trace (fun t => { t with target := target }) with isBr := true, brTaken := true } :=
    { h with }
  unfold Cpu.jump
  dsimp only
  rw [hbr.pc]
  exact (hbr.setGpr rd _).setPc target

/-- A branch compares the same operands. -/
theorem branch (h : Ready E s s') (i a b : BitVec 32) :
    Ready E (s.branch i a b) (s'.branch i a b) := by
  have htaken (target : BitVec 32) : Ready E
      { s.trace (fun t => { t with target := target }) with isBr := true, brTaken := true }
      { s'.trace (fun t => { t with target := target }) with isBr := true, brTaken := true } :=
    { h with }
  have hbr : Ready E { s with isBr := true } { s' with isBr := true } := { h with }
  unfold Cpu.branch
  dsimp only
  by_cases hb : branchTaken (funct3 i).toNat a b = true
  · rw [if_pos hb, if_pos hb, h.pc]
    exact (htaken _).setPc _
  · rw [if_neg hb, if_neg hb]
    exact hbr.advance

/-- The bytes that a load takes from its word. -/
theorem loadData (h : Ready E s s') (f3 pAddr word : BitVec 32) :
    s'.loadData f3 pAddr word = s.loadData f3 pAddr word := by
  rw [Cpu.loadData, Cpu.loadData, h.simTime]

/-- A load maps, faults or gives `none` in both runs alike. -/
theorem load (h : Ready E s s') (i a : BitVec 32) :
    Option.Rel (Flow.Rel E) (s.load i a) (s'.load i a) := by
  unfold Cpu.load
  dsimp only
  have htrace : Ready E (s.trace fun t => { t with isLoad := true, memAddr := a + immI i })
      (s'.trace fun t => { t with isLoad := true, memAddr := a + immI i }) := h.trace _ _
  rw [htrace.translate]
  split_ifs
  · exact .none
  · refine rel_same fun p _ => ?_
    rcases p with - | pAddr
    · exact .some (.trap (htrace.traceIo _).raiseLoadFault.traceTrap _)
    · dsimp only
      rw [htrace.loadWord]
      split_ifs
      · refine rel_same fun word _ => .some (.next ?_)
        rw [(htrace.traceIo pAddr).loadData]
        exact ((htrace.traceIo pAddr).setGpr _ _).advance
      · exact .none

/-- The members of a store are written anew, so they agree from here on. -/
theorem prepareStore (h : Ready E s s') (f3 pAddr b : BitVec 32) :
    StoreReady E (s.prepareStore f3 pAddr b) (s'.prepareStore f3 pAddr b) := by
  unfold Cpu.prepareStore
  split_ifs
  · exact { h with store := rfl, storeAddr := rfl, storeStrb := rfl, storeData := rfl }
  · exact { h with store := rfl, storeAddr := rfl, storeStrb := rfl, storeData := rfl }
  · exact { h with store := rfl, storeAddr := rfl, storeStrb := rfl, storeData := rfl }

/-- A store maps, faults or gives `none` in both runs alike. -/
theorem storeCase (h : Ready E s s') (i a b : BitVec 32) :
    Option.Rel (Flow.Rel E) (s.storeCase i a b) (s'.storeCase i a b) := by
  unfold Cpu.storeCase
  dsimp only
  have htrace : Ready E (s.trace fun t => { t with isStore := true, memAddr := a + immS i })
      (s'.trace fun t => { t with isStore := true, memAddr := a + immS i }) := h.trace _ _
  rw [htrace.translate]
  split_ifs
  · exact .none
  · refine rel_same fun p _ => ?_
    rcases p with - | pAddr
    · exact .some (.trap htrace.raiseStoreFault.traceTrap _)
    · dsimp only
      split_ifs
      · exact rel_map ((htrace.traceIo pAddr).prepareStore _ _ _).commitStoreData
          fun _ _ ht => .next ht.advance
      · exact .none

/-- **The group `RV32IM`**, if `E` has the registers the trace names. -/
theorem rv32im (h : Ready E s s') (h1 : (rv32imRegisters s.instruction).rs1 ∈ E)
    (h2 : (rv32imRegisters s.instruction).rs2 ∈ E) :
    Option.Rel (Flow.Rel E) s.rv32im s'.rv32im := by
  unfold Cpu.rv32im
  dsimp only
  rw [h.instruction]
  generalize hi : s.instruction = i at h1 h2
  have htrace : Ready E (s.traceRegisters (rv32imRegisters i))
      (s'.traceRegisters (rv32imRegisters i)) := h.trace _ _
  unfold rv32imRegisters at h1 h2
  rcases hop : opcode i with - | op
  · exact .some (.next htrace.advance)
  rw [hop] at h1 h2
  -- each case reads the registers that the first switch has named
  cases op with
  | lui => exact .some (.next (htrace.setGpr _ _).advance)
  | auipc =>
    dsimp only
    rw [htrace.pc]
    exact .some (.next (htrace.setGpr _ _).advance)
  | jal =>
    dsimp only
    rw [htrace.pc]
    exact .some (.next (htrace.jump _ _))
  | jalr =>
    dsimp only
    rw [h.gpr _ h1]
    exact .some (.next (htrace.jump _ _))
  | beq =>
    dsimp only
    rw [h.gpr _ h1, h.gpr _ h2]
    exact .some (.next (htrace.branch _ _ _))
  | lb =>
    dsimp only
    rw [h.gpr _ h1]
    exact htrace.load _ _
  | sb =>
    dsimp only
    rw [h.gpr _ h1, h.gpr _ h2]
    exact htrace.storeCase _ _ _
  | addi =>
    dsimp only
    rw [h.gpr _ h1]
    exact .some (.next (htrace.writeBack _ _).advance)
  | add =>
    dsimp only
    rw [h.gpr _ h1, h.gpr _ h2]
    exact .some (.next (htrace.writeBack _ _).advance)
  | fence => exact .some (.next htrace.advance)
  | ecall => exact .some (.next htrace.advance)
  | lrw => exact .some (.next htrace.advance)

end Ready

/-! ### All instructions -/

/-- **An instruction**, if `E` has the source registers that the trace names. -/
theorem Ready.execute (h : Ready E s s') (h1 : (registers s.instruction).rs1 ∈ E)
    (h2 : (registers s.instruction).rs2 ∈ E) (hstore : s.store = false)
    (hdata : opcode s.instruction = some .lrw → ∀ pAddr, s.ReachesAmo s.instruction pAddr →
      amoDefined (funct5 s.instruction) = true ∨ s'.storeData = s.storeData) :
    Option.Rel (Flow.Rel E) s.execute s'.execute := by
  unfold registers at h1 h2
  unfold Cpu.execute
  rw [h.instruction]
  split
  · next hop =>
    rw [hop] at h1
    refine .some (h.rv32csr fun himm => ?_)
    have hrs1 : (csrRegisters s.instruction).rs1 = regA s.instruction :=
      if_neg (by rw [himm]; exact Bool.false_ne_true)
    rwa [← hrs1]
  · next hop =>
    rw [hop] at h1 h2
    exact h.rv32a hop h1 h2 hstore (hdata hop)
  · next hcsr hamo =>
    split at h1
    · contradiction
    · contradiction
    · split at h2
      · contradiction
      · contradiction
      · exact h.rv32im h1 h2

end TraceSim.Ref
