/-
TraceSim/Ref/Frames.lean

What an instruction leaves alone.

A store changes memory, the pending bits and the reservation (`Stored`).  An executed
instruction keeps the registers other than its destination, the privilege and the
header of the trace (`Frame`).
-/
import TraceSim.Ref.Flows

namespace TraceSim.Ref

variable {s t u : Cpu}

/-! ### Changes of the CSRs -/

/-- What an instruction can do to the CSRs: a write of a CSR instruction, and an external
interrupt that a store raises or takes back. -/
inductive CsrStep : (Csr → BitVec 32) → (Csr → BitVec 32) → Prop
  | refl (c : Csr → BitVec 32) : CsrStep c c
  | write (s : Cpu) (r : Csr) (v : BitVec 32) : CsrStep s.csr (s.writeCsr r v).csr
  | raise (s : Cpu) :
      CsrStep s.csr ((s.setCsr .mip (setBit (s.csr .mip) seip)).setCsr .sip
        (setBit (s.csr .sip) seip)).csr
  | complete (s : Cpu) :
      CsrStep s.csr ((s.setCsr .mip (clearBit (s.csr .mip) seip)).setCsr .sip
        (clearBit (s.csr .sip) seip)).csr
  | trans {c c' c'' : Csr → BitVec 32} (h : CsrStep c c') (h' : CsrStep c' c'') : CsrStep c c''

/-! ### Stores -/

/-- The states differ at most in what a store changes. -/
structure Stored (s u : Cpu) : Prop where
  eq : u = { s with
    memory := u.memory, ioWords := u.ioWords, csr := u.csr, reserveValid := u.reserveValid }
  csr : CsrStep s.csr u.csr

namespace Stored

/-- No store at all. -/
theorem refl (s : Cpu) : Stored s s := ⟨rfl, .refl _⟩

/-- Stores one after the other. -/
theorem trans (h : Stored s t) (h' : Stored t u) : Stored s u where
  eq := by
    have heq := h.eq
    have heq' := h'.eq
    rw [heq] at heq'
    exact heq'
  csr := h.csr.trans h'.csr

/-- The store of one word. -/
theorem storeWord {a d : BitVec 32} (h : s.storeWord a d = some u) : Stored s u := by
  have hframe := Cpu.storeWord_frame h
  have hcsr : u.csr = s.csr := by rw [hframe]
  have hreserve : u.reserveValid = s.reserveValid := by rw [hframe]
  refine ⟨?_, by rw [hcsr]; exact .refl _⟩
  rw [hcsr, hreserve]
  exact hframe

/-- A part that is done under a condition. -/
theorem doIf {p : Prop} [Decidable p] {f : Cpu → Option Cpu}
    (hf : ∀ t u, f t = some u → Stored t u) (h : s.doIf p f = some u) : Stored s u := by
  unfold Cpu.doIf at h
  split_ifs at h
  · exact hf _ _ h
  · obtain rfl := Option.some.inj h
    exact refl s

/-- The console takes a character. -/
theorem uartPrint (h : s.uartPrint = some u) : Stored s u := by
  unfold Cpu.uartPrint at h
  obtain ⟨w, -, h⟩ := Option.bind_eq_some_iff.mp h
  exact storeWord h

/-- The console answers its status. -/
theorem uartReady (h : s.uartReady = some u) : Stored s u := by
  unfold Cpu.uartReady at h
  obtain ⟨w, -, h⟩ := Option.bind_eq_some_iff.mp h
  exact storeWord h

/-- The console raises the external interrupt. -/
theorem uartRaise (h : s.uartRaise = some u) : Stored s u := by
  unfold Cpu.uartRaise at h
  obtain ⟨t, ht, h⟩ := Option.bind_eq_some_iff.mp h
  obtain ⟨w, -, h⟩ := Option.bind_eq_some_iff.mp h
  obtain ⟨v, hv, h⟩ := Option.bind_eq_some_iff.mp h
  obtain rfl := Option.some.inj h
  exact (storeWord ht).trans ((storeWord hv).trans ⟨rfl, .raise v⟩)

/-- The interrupt controller takes it back. -/
theorem plicComplete (h : s.plicComplete = some u) : Stored s u := by
  unfold Cpu.plicComplete at h
  obtain ⟨t, ht, h⟩ := Option.bind_eq_some_iff.mp h
  obtain rfl := Option.some.inj h
  exact (storeWord ht).trans ⟨rfl, .complete t⟩

/-- Everything that a store to a device does besides. -/
theorem storeHooks (h : s.storeHooks = some u) : Stored s u := by
  unfold Cpu.storeHooks at h
  obtain ⟨t₁, h₁, h⟩ := Option.bind_eq_some_iff.mp h
  obtain ⟨t₂, h₂, h⟩ := Option.bind_eq_some_iff.mp h
  obtain ⟨t₃, h₃, h⟩ := Option.bind_eq_some_iff.mp h
  exact (doIf (fun _ _ => uartPrint) h₁).trans ((doIf (fun _ _ => uartRaise) h₂).trans
    ((doIf (fun _ _ => uartReady) h₃).trans (doIf (fun _ _ => plicComplete) h)))

/-- The store itself: the old word is read, and its bytes under the strobe replaced. -/
theorem storeBytes (h : s.storeBytes = some u) : Stored s u := by
  have hreserve : Stored s (if s.store then { s with reserveValid := false } else s) := by
    split_ifs
    · exact ⟨rfl, .refl _⟩
    · exact refl s
  unfold Cpu.storeBytes at h
  obtain ⟨old, -, h⟩ := Option.bind_eq_some_iff.mp h
  exact hreserve.trans (doIf (fun _ _ => storeWord) h)

/-- **What a store changes.** -/
theorem commitStoreData (h : s.commitStoreData = some u) : Stored s u := by
  unfold Cpu.commitStoreData at h
  split_ifs at h
  obtain ⟨t, ht, h⟩ := Option.bind_eq_some_iff.mp h
  exact (storeBytes ht).trans (storeHooks h)

end Stored

/-! ### What an instruction keeps -/

/-- An instruction with destination `rd` keeps the other registers, the privilege and the
header of the trace. -/
structure Frame (rd : Fin 32) (s u : Cpu) : Prop where
  gpr : ∀ r, r ≠ rd → u.gpr r = s.gpr r
  privilege : u.privilege = s.privilege
  isException : u.isException = s.isException
  tracePc : u.currentTrace.pc = s.currentTrace.pc
  traceRd : u.currentTrace.rd = s.currentTrace.rd
  traceRs1 : u.currentTrace.rs1 = s.currentTrace.rs1
  traceRs2 : u.currentTrace.rs2 = s.currentTrace.rs2

/-- Parts of one instruction have one destination. -/
theorem Frame.trans {rd : Fin 32} (h : Frame rd s t) (h' : Frame rd t u) : Frame rd s u where
  gpr r hr := (h'.gpr r hr).trans (h.gpr r hr)
  privilege := h'.privilege.trans h.privilege
  isException := h'.isException.trans h.isException
  tracePc := h'.tracePc.trans h.tracePc
  traceRd := h'.traceRd.trans h.traceRd
  traceRs1 := h'.traceRs1.trans h.traceRs1
  traceRs2 := h'.traceRs2.trans h.traceRs2

/-- A part of an instruction that does not decide on the trap flag of the trace. -/
structure Quiet (rd : Fin 32) (s u : Cpu) : Prop extends Frame rd s u where
  traceTrap : u.currentTrace.isTrap = s.currentTrace.isTrap
  csr : CsrStep s.csr u.csr

namespace Quiet

variable {rd : Fin 32}

/-- Nothing happens. -/
theorem refl (rd : Fin 32) (s : Cpu) : Quiet rd s s :=
  ⟨⟨fun _ _ => rfl, rfl, rfl, rfl, rfl, rfl, rfl⟩, rfl, .refl _⟩

/-- One part after the other. -/
theorem trans (h : Quiet rd s t) (h' : Quiet rd t u) : Quiet rd s u :=
  { h.toFrame.trans h'.toFrame with
    traceTrap := h'.traceTrap.trans h.traceTrap
    csr := h.csr.trans h'.csr }

/-- A store writes no register. -/
theorem of_stored (h : Stored s u) : Quiet rd s u := by
  have hcsr := h.csr
  rw [h.eq] at hcsr ⊢
  exact { refl rd s with csr := hcsr }

/-- The destination may be written. -/
theorem setGpr (s : Cpu) (v : BitVec 32) : Quiet rd s (s.setGpr rd v) :=
  { refl rd s with gpr := fun _ hr => Function.update_of_ne hr _ _ }

/-- So may the pc. -/
theorem setPc (s : Cpu) (pc : BitVec 32) : Quiet rd s (s.setPc pc) := { refl rd s with }

/-- The step to the pc that follows. -/
theorem advance (s : Cpu) : Quiet rd s s.advance := setPc s _

/-- The result of an instruction, or none. -/
theorem writeBack (s : Cpu) (v : Option (BitVec 32)) : Quiet rd s (s.writeBack rd v) := by
  cases v with
  | none => exact refl _ s
  | some v => exact setGpr s v

/-- A CSR write, with its copies. -/
theorem writeCsr (s : Cpu) (r : Csr) (v : BitVec 32) : Quiet rd s (s.writeCsr r v) := by
  have hcsr := CsrStep.write s r v
  cases r <;> exact { refl rd s with csr := hcsr }

/-- The CSR instructions read the old value into the destination. -/
theorem csrAccess (s : Cpu) (i : BitVec 32) (r : Csr) : Quiet (regD i) s (s.csrAccess i r) := by
  unfold Cpu.csrAccess
  dsimp only
  split_ifs
  · exact (setGpr _ _).trans (writeCsr _ _ _)
  · exact writeCsr _ _ _
  · exact setGpr _ _
  · exact refl _ _

/-- An atomic operation answers in the destination. -/
theorem amoExecute (s : Cpu) (f5 pAddr old b : BitVec 32) :
    Quiet rd s (s.amoExecute rd f5 pAddr old b) := by
  unfold Cpu.amoExecute Cpu.storeConditional
  split_ifs
  · exact { setGpr s old with }
  · exact { setGpr s 0 with }
  · exact { setGpr s 1 with }
  · rcases amoData f5.toNat old b with - | data
    · exact refl _ s
    · exact { setGpr s old with }

/-- The operation with its store. -/
theorem amoAccess {i pAddr b : BitVec 32} (h : s.amoAccess i pAddr b = some u) :
    Quiet (regD i) s u := by
  have hprepare : Quiet (regD i) s (s.prepareAmo (funct5 i) pAddr) := by
    unfold Cpu.prepareAmo
    split_ifs
    · exact { refl _ s with }
    · exact refl _ s
  unfold Cpu.amoAccess at h
  obtain ⟨old, -, h⟩ := Option.bind_eq_some_iff.mp h
  have hstored := Stored.doIf (fun _ _ => Stored.commitStoreData) h
  exact hprepare.trans ((amoExecute _ _ _ _ _).trans (of_stored hstored))

/-- A jump links in the destination. -/
theorem jump (s : Cpu) (target : BitVec 32) : Quiet rd s (s.jump rd target) := by
  have htarget : Quiet rd s
      { s.trace (fun t => { t with target := target }) with isBr := true, brTaken := true } :=
    { refl rd s with }
  exact htarget.trans ((setGpr _ _).trans (setPc _ _))

/-- A branch has none. -/
theorem branch (s : Cpu) (i a b : BitVec 32) : Quiet rd s (s.branch i a b) := by
  unfold Cpu.branch
  dsimp only
  split_ifs
  · exact { refl rd s with }
  · exact { refl rd s with }

/-- The members of a store are no architectural state. -/
theorem prepareStore (s : Cpu) (f3 pAddr b : BitVec 32) :
    Quiet rd s (s.prepareStore f3 pAddr b) := by
  unfold Cpu.prepareStore
  split_ifs
  · exact { refl rd s with }
  · exact { refl rd s with }
  · exact { refl rd s with }

end Quiet

/-! ### How an instruction ends -/

/-- An access to `time` or `timeh`. -/
def accessesTime (i : BitVec 32) : Prop :=
  opcode i = some .ecall ∧ (bits i 31 20 = numberTime ∨ bits i 31 20 = numberTimeh)

/-- An access to the clock is no memory access. -/
theorem dataTranslation_of_accessesTime {i : BitVec 32} (h : accessesTime i) :
    s.dataTranslation i = none := by
  rw [Cpu.dataTranslation, h.1]

/-- The address that decides on the trap flag of a data access: the physical address, but
the virtual address of an atomic access. -/
def Cpu.flagAddr (s : Cpu) (i pAddr : BitVec 32) : BitVec 32 :=
  if opcode i = some .lrw then s.dataVAddr i else pAddr

/-- The states differ in the trace only, and the trace names the registers of the
instruction. -/
structure Marked (s t : Cpu) : Prop where
  eq : t = { s with currentTrace := t.currentTrace }
  frame : Frame (registers s.instruction).rd (s.traceRegisters (registers s.instruction)) t

/-- **How an instruction ends**, by the translation of the address of its data access. -/
inductive Execution (s : Cpu) : Flow → Prop
  | quiet {u : Cpu} (hnone : s.dataTranslation s.instruction = none)
      (htime : ¬ accessesTime s.instruction)
      (hu : Quiet (registers s.instruction).rd (s.traceRegisters (registers s.instruction)) u) :
      Execution s (.next u)
  | illegal (htime : accessesTime s.instruction) :
      Execution s (.trap (s.traceRegisters (registers s.instruction)).raiseIllegal s.instruction)
  | fault {t : Cpu} (hfault : s.dataTranslation s.instruction = some none) (ht : Marked s t)
      (htrap : t.currentTrace.isTrap = true) :
      Execution s (.trap (t.raise (dataFault s.instruction)) (s.dataVAddr s.instruction))
  | access {pAddr : BitVec 32} {t u : Cpu}
      (haddr : s.dataTranslation s.instruction = some (some pAddr)) (ht : Marked s t)
      (htrap : t.currentTrace.isTrap = decide (s.flagAddr s.instruction pAddr < kRamBase))
      (hu : Quiet (registers s.instruction).rd t u) : Execution s (.next u)

/-- What is raised is kept in flags, besides the mark of the trace. -/
theorem Frame.raise (rd : Fin 32) (s : Cpu) (c : Raised) : Frame rd s (s.raise c) := by
  cases c <;> exact { Quiet.refl rd s with }

/-- What an executed instruction leaves alone, in one statement for all opcodes. -/
theorem Execution.frame {flow : Flow} (h : Execution s flow) :
    Frame (registers s.instruction).rd (s.traceRegisters (registers s.instruction)) flow.cpu := by
  cases h with
  | quiet hnone htime hu => exact hu.toFrame
  | illegal htime => exact .raise _ _ .illegal
  | fault hfault ht htrap => exact ht.frame.trans (.raise _ _ _)
  | access haddr ht htrap hu => exact ht.frame.trans hu.toFrame

/-! ### Marks in the trace -/

/-- Marking the trace and raising a flag do not depend on each other. -/
theorem raise_traceTrap (s : Cpu) (c : Raised) : (s.raise c).traceTrap = s.traceTrap.raise c := by
  cases c <;> rfl

/-- The mark is set for an address below RAM. -/
theorem traceIo_isTrap (h : s.currentTrace.isTrap = false) (p : BitVec 32) :
    (s.traceIo p).currentTrace.isTrap = decide (p < kRamBase) := by
  unfold Cpu.traceIo
  split_ifs with hp
  · exact (decide_eq_true hp).symm
  · rw [h, decide_eq_false hp]

/-- The mark for what traps. -/
theorem Marked.traceTrap (h : Marked s t) : Marked s t.traceTrap where
  eq := by
    have heq := h.eq
    generalize t.currentTrace = c at heq
    rw [heq]
    rfl
  frame := { h.frame with }

/-- The mark for a device access. -/
theorem Marked.traceIo (h : Marked s t) (p : BitVec 32) : Marked s (t.traceIo p) := by
  unfold Cpu.traceIo
  split_ifs
  · exact h.traceTrap
  · exact h

/-- A fault that is marked in the trace. -/
theorem Execution.fault_marked (hfault : s.dataTranslation s.instruction = some none)
    (ht : Marked s t) :
    Execution s
      (.trap (t.raise (dataFault s.instruction)).traceTrap (s.dataVAddr s.instruction)) := by
  rw [raise_traceTrap]
  exact .fault hfault ht.traceTrap rfl

namespace Execution

/-- CSR instructions end in a trap where they access the clock. -/
theorem rv32csr (hop : opcode s.instruction = some .ecall) : Execution s s.rv32csr := by
  have hregs : registers s.instruction = csrRegisters s.instruction := by
    rw [registers, hop]
  have hrd : (registers s.instruction).rd = regD s.instruction := by
    rw [hregs]
    rfl
  have hnone : s.dataTranslation s.instruction = none := by
    rw [Cpu.dataTranslation, hop]
  unfold Cpu.rv32csr
  dsimp only
  rw [← hregs]
  by_cases htime : bits s.instruction 31 20 = numberTime ∨ bits s.instruction 31 20 = numberTimeh
  · rw [if_pos htime]
    exact .illegal ⟨hop, htime⟩
  · rw [if_neg htime]
    rcases cvtNumberToCsr (bits s.instruction 31 20) with - | r
    · exact .quiet hnone (fun h => htime h.2) (.advance _)
    · refine .quiet hnone (fun h => htime h.2) (Quiet.trans ?_ (.advance _))
      rw [hrd]
      exact .csrAccess _ _ _

/-- Atomic instructions: mapped, or a store fault. -/
theorem rv32a {flow : Flow} (hop : opcode s.instruction = some .lrw) (h : s.rv32a = some flow) :
    Execution s flow := by
  have hregs : registers s.instruction = amoRegisters s.instruction := by
    rw [registers, hop]
  have hrd : (registers s.instruction).rd = regD s.instruction := by
    rw [hregs]
    rfl
  have htranslate : s.dataTranslation s.instruction = s.amoTranslation s.instruction := by
    rw [Cpu.dataTranslation, hop]
  have hvAddr : s.gpr (regA s.instruction) = s.dataVAddr s.instruction := by
    rw [Cpu.dataVAddr, hop]
  -- the record announces the access before its translation
  have hmarked : Marked s (s.traceAmo s.instruction (s.dataVAddr s.instruction)) :=
    ⟨rfl, by rw [hregs]; exact { Quiet.refl _ _ with }⟩
  rw [Cpu.rv32a_eq hop] at h
  dsimp only at h
  rw [hvAddr, ← htranslate] at h
  split_ifs at h
  obtain ⟨p, hp, h⟩ := Option.bind_eq_some_iff.mp h
  -- without a page it faults, as the operation has it
  rcases p with - | pAddr
  · obtain rfl := Option.some.inj h
    exact fault_marked hp hmarked
  · dsimp only at h
    split_ifs at h
    obtain ⟨u, hu, rfl⟩ := Option.map_eq_some_iff.mp h
    refine .access hp hmarked ?_ ?_
    · rw [Cpu.flagAddr, if_pos hop]
      rfl
    · rw [hrd]
      exact (Quiet.amoAccess hu).trans (.advance u)

/-- Loads: mapped, or a load fault. -/
theorem load {flow : Flow} (hop : opcode s.instruction = some .lb)
    (htrap : s.currentTrace.isTrap = false)
    (h : (s.traceRegisters (registers s.instruction)).load s.instruction
      (s.gpr (regA s.instruction)) = some flow) : Execution s flow := by
  have hrd : (registers s.instruction).rd = regD s.instruction := by
    rw [registers, hop, rv32imRegisters, hop]
  have hvAddr : s.gpr (regA s.instruction) + immI s.instruction = s.dataVAddr s.instruction := by
    rw [Cpu.dataVAddr, hop]
  have hfault : dataFault s.instruction = .loadFault := if_pos (.inl hop)
  have htranslate : s.dataTranslation s.instruction
      = s.translate (s.dataVAddr s.instruction) .load := by
    rw [Cpu.dataTranslation, hop]
  -- the record announces the load before the access
  have hmarked : Marked s ((s.traceRegisters (registers s.instruction)).trace
      fun t => { t with isLoad := true, memAddr := s.dataVAddr s.instruction }) :=
    ⟨rfl, { Quiet.refl _ _ with }⟩
  unfold Cpu.load at h
  dsimp only at h
  rw [hvAddr] at h
  split_ifs at h
  obtain ⟨p, hp, h⟩ := Option.bind_eq_some_iff.mp h
  have hp' : s.dataTranslation s.instruction = some p := htranslate.trans hp
  -- without a page the load faults
  rcases p with - | pAddr
  · obtain rfl := Option.some.inj h
    have hend := fault_marked hp' (hmarked.traceIo (s.dataVAddr s.instruction))
    rwa [hfault] at hend
  · dsimp only at h
    split_ifs at h
    obtain ⟨word, -, h⟩ := Option.bind_eq_some_iff.mp h
    obtain rfl := Option.some.inj h
    refine .access hp' (hmarked.traceIo pAddr) ?_ ?_
    · rw [Cpu.flagAddr, if_neg (by rw [hop]; decide)]
      exact traceIo_isTrap (by exact htrap) pAddr
    · rw [hrd]
      exact (Quiet.setGpr _ _).trans (.advance _)

/-- Stores: mapped, or a store fault. -/
theorem storeCase {flow : Flow} (hop : opcode s.instruction = some .sb)
    (htrap : s.currentTrace.isTrap = false)
    (h : (s.traceRegisters (registers s.instruction)).storeCase s.instruction
      (s.gpr (regA s.instruction)) (s.gpr (regB s.instruction)) = some flow) :
    Execution s flow := by
  have hvAddr : s.gpr (regA s.instruction) + immS s.instruction = s.dataVAddr s.instruction := by
    rw [Cpu.dataVAddr, hop]
  have hfault : dataFault s.instruction = .storeFault := by
    refine if_neg (not_or.mpr ⟨?_, fun hamo => ?_⟩)
    · rw [hop]
      decide
    · rw [hop] at hamo
      exact absurd hamo.1 (by decide)
  have htranslate : s.dataTranslation s.instruction
      = s.translate (s.dataVAddr s.instruction) .store := by
    rw [Cpu.dataTranslation, hop]
  -- the record announces the store before the access
  have hmarked : Marked s ((s.traceRegisters (registers s.instruction)).trace
      fun t => { t with isStore := true, memAddr := s.dataVAddr s.instruction }) :=
    ⟨rfl, { Quiet.refl _ _ with }⟩
  unfold Cpu.storeCase at h
  dsimp only at h
  rw [hvAddr] at h
  split_ifs at h
  obtain ⟨p, hp, h⟩ := Option.bind_eq_some_iff.mp h
  have hp' : s.dataTranslation s.instruction = some p := htranslate.trans hp
  -- without a page the store faults
  rcases p with - | pAddr
  · obtain rfl := Option.some.inj h
    have hend := fault_marked hp' hmarked
    rwa [hfault] at hend
  · dsimp only at h
    split_ifs at h
    obtain ⟨u, hu, rfl⟩ := Option.map_eq_some_iff.mp h
    refine .access hp' (hmarked.traceIo pAddr) ?_ ?_
    · rw [Cpu.flagAddr, if_neg (by rw [hop]; decide)]
      exact traceIo_isTrap (by exact htrap) pAddr
    · exact (Quiet.prepareStore _ _ _ _).trans
        ((Quiet.of_stored (.commitStoreData hu)).trans (.advance u))

/-- The group `RV32IM`; the opcodes without an access do nothing special. -/
theorem rv32im {flow : Flow} (hcsr : opcode s.instruction ≠ some .ecall)
    (hamo : opcode s.instruction ≠ some .lrw) (htrap : s.currentTrace.isTrap = false)
    (h : s.rv32im = some flow) : Execution s flow := by
  -- here the registers are those that the step announces
  have hregs : rv32imRegisters s.instruction = registers s.instruction := by
    unfold registers
    split
    · contradiction
    · contradiction
    · rfl
  -- an opcode that neither loads nor stores has no data address
  have hquiet {u : Cpu} (hload : opcode s.instruction ≠ some .lb)
      (hstore : opcode s.instruction ≠ some .sb)
      (hu : Quiet (registers s.instruction).rd (s.traceRegisters (registers s.instruction)) u) :
      Execution s (.next u) := by
    refine .quiet ?_ (fun h => hcsr h.1) hu
    unfold Cpu.dataTranslation
    split
    · contradiction
    · contradiction
    · contradiction
    · rfl
  unfold Cpu.rv32im at h
  dsimp only at h
  rw [hregs] at h
  -- an opcode outside the table only advances
  rcases hop : opcode s.instruction with - | op
  · rw [hop] at h
    obtain rfl := Option.some.inj h
    exact hquiet (by rw [hop]; decide) (by rw [hop]; decide) (.advance _)
  have hrd : (registers s.instruction).rd = (rv32imRegisters s.instruction).rd := by rw [hregs]
  rw [hop] at h
  rw [rv32imRegisters, hop] at hrd
  cases op with
  | lui =>
    obtain rfl := Option.some.inj h
    refine hquiet (by rw [hop]; decide) (by rw [hop]; decide) ?_
    rw [hrd]
    exact (Quiet.setGpr _ _).trans (.advance _)
  | auipc =>
    obtain rfl := Option.some.inj h
    refine hquiet (by rw [hop]; decide) (by rw [hop]; decide) ?_
    rw [hrd]
    exact (Quiet.setGpr _ _).trans (.advance _)
  | jal =>
    obtain rfl := Option.some.inj h
    refine hquiet (by rw [hop]; decide) (by rw [hop]; decide) ?_
    rw [hrd]
    exact .jump _ _
  | jalr =>
    obtain rfl := Option.some.inj h
    refine hquiet (by rw [hop]; decide) (by rw [hop]; decide) ?_
    rw [hrd]
    exact .jump _ _
  | beq =>
    obtain rfl := Option.some.inj h
    exact hquiet (by rw [hop]; decide) (by rw [hop]; decide) (.branch _ _ _ _)
  | lb => exact load hop htrap h
  | sb => exact storeCase hop htrap h
  | addi =>
    obtain rfl := Option.some.inj h
    refine hquiet (by rw [hop]; decide) (by rw [hop]; decide) ?_
    rw [hrd]
    exact (Quiet.writeBack _ _).trans (.advance _)
  | add =>
    obtain rfl := Option.some.inj h
    refine hquiet (by rw [hop]; decide) (by rw [hop]; decide) ?_
    rw [hrd]
    exact (Quiet.writeBack _ _).trans (.advance _)
  | fence =>
    obtain rfl := Option.some.inj h
    exact hquiet (by rw [hop]; decide) (by rw [hop]; decide) (.advance _)
  | ecall => exact absurd hop hcsr
  | lrw => exact absurd hop hamo

/-- **Every instruction ends in one of these ways.** -/
theorem of_execute {flow : Flow} (htrap : s.currentTrace.isTrap = false)
    (h : s.execute = some flow) : Execution s flow := by
  unfold Cpu.execute at h
  split at h
  · next hop =>
    obtain rfl := Option.some.inj h
    exact rv32csr hop
  · next hop => exact rv32a hop h
  · next hcsr hamo => exact rv32im hcsr hamo htrap h

end Execution

/-! ### Traps -/

/-- **What `exception` changes.** -/
theorem exception_frame (s : Cpu) (v : BitVec 32) :
    s.exception v = { s with
      csr := (s.exception v).csr, pc := (s.exception v).pc
      privilege := (s.exception v).privilege, isException := true } := by
  unfold Cpu.exception Cpu.handle
  split_ifs
  · rfl
  · rfl
  · rfl
  · rfl
  · rfl

/-- Where M mode traps it comes first. -/
theorem exception_of_mTrap (h : s.mTrap = true) (v : BitVec 32) :
    s.exception v = { s with isException := true }.enterM v :=
  if_pos h

/-- S mode comes next. -/
theorem exception_of_sTrap (hm : s.mTrap = false) (hs : s.sTrap = true) (v : BitVec 32) :
    s.exception v = { s with isException := true }.enterS v := by
  have hm' : ({ s with isException := true } : Cpu).mTrap = false := hm
  have hs' : ({ s with isException := true } : Cpu).sTrap = true := hs
  rw [Cpu.exception, Cpu.handle, hm', hs']
  rfl

/-- The registers and the trace at the end of an instruction are those from before a call
of `exception`. -/
theorem Flow.run_gpr (flow : Flow) : flow.run.gpr = flow.cpu.gpr := by
  cases flow with
  | next s => rfl
  | trap s v =>
    rw [Flow.run, exception_frame]
    rfl

/-- A trap leaves the trace as the instruction wrote it. -/
theorem Flow.run_currentTrace (flow : Flow) :
    flow.run.currentTrace = flow.cpu.currentTrace := by
  cases flow with
  | next s => rfl
  | trap s v =>
    rw [Flow.run, exception_frame]
    rfl

end TraceSim.Ref
