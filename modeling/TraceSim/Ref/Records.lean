/-
TraceSim/Ref/Records.lean

What the record of a step says of the instruction.

The timing model tells loads, stores and branches apart by the flags of the record and
picks the unit by its opcode.  Here both are read off the instruction: an executed
instruction sets each flag exactly when it is of that kind (`Recorded`), and the record
of a step that enters no trap names the pc the next step fetches from.
-/
import TraceSim.Ref.Frames
import TraceSim.Ref.Leftovers

namespace TraceSim.Ref

variable {s t u : Cpu}

/-! ### The kinds of instructions -/

/-- The instruction reads memory: `lr.w` is the only atomic one that counts as a load. -/
def loads (i : BitVec 32) : Bool :=
  opcode i = some .lb || (opcode i = some .lrw && funct5 i = 2)

/-- The opcodes that store: stores and atomics. -/
def stores (i : BitVec 32) : Bool :=
  opcode i = some .sb || (opcode i = some .lrw && funct5 i ≠ 2)

/-- The instruction is a branch or a jump. -/
def branches (i : BitVec 32) : Bool :=
  opcode i = some .jal || opcode i = some .jalr || opcode i = some .beq

/-- The unit of an instruction, by its opcode. -/
def unitOf : Option Opcode → FuType
  | some .lb | some .sb | some .lrw => .lsu
  | some .beq | some .jal | some .jalr => .bru
  | _ => .alu

/-- The timing model finds the unit from the opcode bits. -/
theorem getFuType_opcodeBits (i : BitVec 32) :
    getFuType (opcodeBits i) = unitOf (opcode i) := by
  unfold opcode
  generalize opcodeBits i = x
  have hx {n : ℕ} (h : x.toNat = n) : x = BitVec.ofNat 32 n := by
    rw [← h, BitVec.ofNat_toNat, BitVec.setWidth_eq]
  -- the opcodes by name, and then what is none of them
  split
  all_goals first
    | next h => rw [hx h]; decide
    | skip
  next hlui hauipc hjal hjalr hbeq hlb hsb haddi hadd hfence hecall hlrw =>
    have hne {n : ℕ} (h : x.toNat = n → False) (hn : n < 2 ^ 32) : x ≠ BitVec.ofNat 32 n := by
      rintro rfl
      exact h ((BitVec.toNat_ofNat _ _).trans (Nat.mod_eq_of_lt hn))
    have hlsu : ¬ (x = 0b0000011 ∨ x = 0b0100011 ∨ x = 0b0101111) := by
      rintro (h | h | h)
      · exact hne hlb (by decide) h
      · exact hne hsb (by decide) h
      · exact hne hlrw (by decide) h
    have hbru : ¬ (x = 0b1100011 ∨ x = 0b1101111 ∨ x = 0b1100111) := by
      rintro (h | h | h)
      · exact hne hbeq (by decide) h
      · exact hne hjal (by decide) h
      · exact hne hjalr (by decide) h
    rw [getFuType, if_neg hlsu, if_neg hbru]
    rfl

/-- The unit is chosen by what the opcode may access. -/
theorem unitOf_eq_lsu_iff (i : BitVec 32) :
    unitOf (opcode i) = .lsu ↔ loads i = true ∨ stores i = true := by
  rw [loads, stores]
  rcases opcode i with - | op
  · simp [unitOf]
  · cases op <;> simp [unitOf, em]

/-- Branches and jumps go to the branch unit. -/
theorem unitOf_eq_bru_iff (i : BitVec 32) :
    unitOf (opcode i) = .bru ↔ branches i = true := by
  rw [branches]
  rcases opcode i with - | op
  · decide
  · cases op <;> decide

/-- No opcode does both in the trace. -/
theorem loads_of_stores {i : BitVec 32} (h : stores i = true) : loads i = false := by
  rw [stores] at h
  rw [loads]
  rcases hop : opcode i with - | op
  · simp
  · cases op <;> simp_all

/-! ### Parts of an instruction that do not touch the record -/

/-- The states agree in the record, the branch flags and the pc. -/
structure SameRecord (s u : Cpu) : Prop where
  currentTrace : u.currentTrace = s.currentTrace
  isBr : u.isBr = s.isBr
  brTaken : u.brTaken = s.brTaken
  pc : u.pc = s.pc

namespace SameRecord

/-- Nothing is written. -/
theorem refl (s : Cpu) : SameRecord s s := ⟨rfl, rfl, rfl, rfl⟩

/-- One part after the other. -/
theorem trans (h : SameRecord s t) (h' : SameRecord t u) : SameRecord s u where
  currentTrace := h'.currentTrace.trans h.currentTrace
  isBr := h'.isBr.trans h.isBr
  brTaken := h'.brTaken.trans h.brTaken
  pc := h'.pc.trans h.pc

/-- A store does not write the trace. -/
theorem of_stored (h : Stored s u) : SameRecord s u := by
  rw [h.eq]
  exact ⟨rfl, rfl, rfl, rfl⟩

/-- Nor does a result. -/
theorem writeBack (s : Cpu) (rd : Fin 32) (v : Option (BitVec 32)) :
    SameRecord s (s.writeBack rd v) := by
  cases v with
  | none => exact refl s
  | some v => exact ⟨rfl, rfl, rfl, rfl⟩

/-- Nor a CSR write. -/
theorem writeCsr (s : Cpu) (r : Csr) (v : BitVec 32) : SameRecord s (s.writeCsr r v) := by
  cases r <;> exact ⟨rfl, rfl, rfl, rfl⟩

/-- Nor does a CSR instruction as a whole. -/
theorem csrAccess (s : Cpu) (i : BitVec 32) (r : Csr) : SameRecord s (s.csrAccess i r) := by
  have hset : SameRecord s (s.setGpr (regD i) (s.csr r)) := ⟨rfl, rfl, rfl, rfl⟩
  unfold Cpu.csrAccess
  dsimp only
  split_ifs
  · exact hset.trans (writeCsr _ _ _)
  · exact writeCsr _ _ _
  · exact hset
  · exact refl s

/-- The operation of an atomic access. -/
theorem amoExecute (s : Cpu) (rd : Fin 32) (f5 pAddr old b : BitVec 32) :
    SameRecord s (s.amoExecute rd f5 pAddr old b) := by
  unfold Cpu.amoExecute Cpu.storeConditional
  split_ifs
  · exact ⟨rfl, rfl, rfl, rfl⟩
  · exact ⟨rfl, rfl, rfl, rfl⟩
  · exact ⟨rfl, rfl, rfl, rfl⟩
  · rcases amoData f5.toNat old b with - | data
    · exact refl s
    · exact ⟨rfl, rfl, rfl, rfl⟩

/-- And its store. -/
theorem amoAccess {i pAddr b : BitVec 32} (h : s.amoAccess i pAddr b = some u) :
    SameRecord s u := by
  have hprepare : SameRecord s (s.prepareAmo (funct5 i) pAddr) := by
    unfold Cpu.prepareAmo
    split_ifs
    · exact ⟨rfl, rfl, rfl, rfl⟩
    · exact refl s
  unfold Cpu.amoAccess at h
  obtain ⟨old, -, h⟩ := Option.bind_eq_some_iff.mp h
  have hstored := Stored.doIf (fun _ _ => Stored.commitStoreData) h
  exact hprepare.trans ((amoExecute _ _ _ _ _ _).trans (of_stored hstored))

/-- The members of a store. -/
theorem prepareStore (s : Cpu) (f3 pAddr b : BitVec 32) :
    SameRecord s (s.prepareStore f3 pAddr b) := by
  unfold Cpu.prepareStore
  split_ifs <;> exact ⟨rfl, rfl, rfl, rfl⟩

/-- A flag for what is raised. -/
theorem raise (s : Cpu) (c : Raised) : SameRecord s (s.raise c) := by
  cases c <;> exact ⟨rfl, rfl, rfl, rfl⟩

end SameRecord

/-! ### What the record says -/

/-- The record of a step over `i`, from the header in `s`: it is marked as a load, a store
and a branch if `i` is one, and nothing else of what tells records apart has changed. -/
structure Recorded (i : BitVec 32) (s u : Cpu) : Prop where
  opcode : u.currentTrace.opcode = s.currentTrace.opcode
  pc : u.currentTrace.pc = s.currentTrace.pc
  isWfi : u.currentTrace.isWfi = s.currentTrace.isWfi
  isEbreak : u.currentTrace.isEbreak = s.currentTrace.isEbreak
  isLoad : u.currentTrace.isLoad = loads i
  isStore : u.currentTrace.isStore = stores i
  isBr : u.isBr = branches i
  taken : u.brTaken = true → branches i = true

/-- A step that goes on where the record says. -/
structure GoesOn (i : BitVec 32) (s u : Cpu) : Prop where
  pc : u.pc = if u.brTaken then u.currentTrace.target else s.pc + 4
  jumps : opcode i = some .jal ∨ opcode i = some .jalr → u.brTaken = true

/-- The state before the instruction, with the header of the record written. -/
structure Header (s : Cpu) : Prop where
  isLoad : s.currentTrace.isLoad = false
  isStore : s.currentTrace.isStore = false
  isBr : s.isBr = false
  brTaken : s.brTaken = false

/-- What is recorded stays recorded. -/
theorem Recorded.same {i : BitVec 32} (h : Recorded i s t) (h' : SameRecord t u) :
    Recorded i s u := by
  have htrace := h'.currentTrace
  exact ⟨htrace ▸ h.opcode, htrace ▸ h.pc, htrace ▸ h.isWfi, htrace ▸ h.isEbreak,
    htrace ▸ h.isLoad, htrace ▸ h.isStore, h'.isBr.trans h.isBr, h'.brTaken ▸ h.taken⟩

/-- Also with the mark of a trap. -/
theorem Recorded.traceTrap {i : BitVec 32} (h : Recorded i s u) : Recorded i s u.traceTrap :=
  { h with }

/-- And with that of a device access. -/
theorem Recorded.traceIo {i : BitVec 32} (h : Recorded i s u) (p : BitVec 32) :
    Recorded i s (u.traceIo p) := by
  unfold Cpu.traceIo
  split_ifs
  · exact h.traceTrap
  · exact h

/-- At the start of an instruction no branch has been taken. -/
theorem Header.not_taken (hs : Header s) {p : Prop} (h : s.brTaken = true) : p := by
  rw [hs.brTaken] at h
  exact absurd h Bool.false_ne_true

/-- The mark leaves the pc and the branch flag alone. -/
theorem traceIo_pc (s : Cpu) (p : BitVec 32) :
    (s.traceIo p).pc = s.pc ∧ (s.traceIo p).brTaken = s.brTaken := by
  unfold Cpu.traceIo
  split_ifs
  · exact ⟨rfl, rfl⟩
  · exact ⟨rfl, rfl⟩

/-- The step to the pc that follows. -/
theorem Recorded.advance {i : BitVec 32} (h : Recorded i s u) : Recorded i s u.advance :=
  { h with }

/-- An instruction that does not branch goes on behind itself. -/
theorem GoesOn.advance {i : BitVec 32} (hs : Header s) (hpc : u.pc = s.pc)
    (htaken : u.brTaken = s.brTaken) (hi : branches i = false) : GoesOn i s u.advance := by
  have hno : u.advance.brTaken = false := htaken.trans hs.brTaken
  have hnext : u.advance.pc = s.pc + 4 := congrArg (· + 4) hpc
  rw [branches, Bool.or_eq_false_iff, Bool.or_eq_false_iff] at hi
  obtain ⟨⟨hjal, hjalr⟩, -⟩ := hi
  refine ⟨?_, fun hjump => ?_⟩
  · rw [hno, if_neg Bool.false_ne_true, hnext]
  · rcases hjump with hop | hop
    · exact absurd hop (of_decide_eq_false hjal)
    · exact absurd hop (of_decide_eq_false hjalr)

/-! ### The record of an executed instruction -/

/-- The record of an instruction that ends in this way is right. -/
structure Tells (s : Cpu) (flow : Flow) : Prop where
  recorded : Recorded s.instruction s flow.cpu
  goesOn : ∀ u, flow = .next u → GoesOn s.instruction s u

namespace Tells

/-- An instruction that goes on where its record says. -/
theorem next (h : Recorded s.instruction s u) (hgo : GoesOn s.instruction s u) :
    Tells s (.next u) :=
  ⟨h, fun _ hv => Flow.next.inj hv ▸ hgo⟩

/-- A trap need not. -/
theorem trap {v : BitVec 32} (h : Recorded s.instruction s u) : Tells s (.trap u v) :=
  ⟨h, fun u hu => by cases hu⟩

/-- An instruction that has written its record in `t` and does not branch. -/
theorem advance (hs : Header s) (ht : Recorded s.instruction s t) (hpc : t.pc = s.pc)
    (htaken : t.brTaken = s.brTaken) (hbranch : branches s.instruction = false)
    (h : SameRecord t u) : Tells s (.next u.advance) :=
  next (ht.same h).advance
    (.advance hs (h.pc.trans hpc) (h.brTaken.trans htaken) hbranch)

end Tells

/-- The record of an instruction that is no access. -/
theorem Header.recorded (hs : Header s) {i : BitVec 32} (hmem : unitOf (opcode i) ≠ .lsu)
    (hbranch : branches i = false) (regs : Registers) :
    Recorded i s (s.traceRegisters regs) := by
  rw [Ne, unitOf_eq_lsu_iff, not_or, Bool.not_eq_true, Bool.not_eq_true] at hmem
  exact ⟨rfl, rfl, rfl, rfl, hs.isLoad.trans hmem.1.symm, hs.isStore.trans hmem.2.symm,
    hs.isBr.trans hbranch.symm, hs.not_taken⟩

namespace Tells

/-- CSR instructions go on at the next pc. -/
theorem rv32csr (hs : Header s) (hop : opcode s.instruction = some .ecall) :
    Tells s s.rv32csr := by
  have hmem : unitOf (opcode s.instruction) ≠ .lsu := by
    rw [hop]
    decide
  have hbranch : branches s.instruction = false := by
    rw [branches, hop]
    rfl
  have hrec := hs.recorded hmem hbranch (csrRegisters s.instruction)
  unfold Cpu.rv32csr
  dsimp only
  split_ifs
  · exact trap { hrec with }
  · rcases cvtNumberToCsr (bits s.instruction 31 20) with - | r
    · exact advance hs hrec rfl rfl hbranch (.refl _)
    · exact advance hs hrec rfl rfl hbranch (.csrAccess _ _ _)

/-- So do atomic accesses. -/
theorem rv32a (hs : Header s) (hop : opcode s.instruction = some .lrw) {flow : Flow}
    (h : s.rv32a = some flow) : Tells s flow := by
  have hbranch : branches s.instruction = false := by
    rw [branches, hop]
    rfl
  have hrec (v : BitVec 32) : Recorded s.instruction s (s.traceAmo s.instruction v) :=
    ⟨rfl, rfl, rfl, rfl, by simp [loads, hop, Cpu.traceAmo, Cpu.trace],
      by simp [stores, hop, Cpu.traceAmo, Cpu.trace], hs.isBr.trans hbranch.symm, hs.not_taken⟩
  rw [Cpu.rv32a_eq hop] at h
  dsimp only at h
  split_ifs at h
  obtain ⟨p, -, h⟩ := Option.bind_eq_some_iff.mp h
  rcases p with - | pAddr
  · obtain rfl := Option.some.inj h
    exact trap ((hrec _).same (.raise _ _)).traceTrap
  · dsimp only at h
    split_ifs at h
    obtain ⟨u, hu, rfl⟩ := Option.map_eq_some_iff.mp h
    exact advance hs (hrec _) rfl rfl hbranch (.amoAccess hu)

/-- So do loads. -/
theorem load (hs : Header s) (hop : opcode s.instruction = some .lb) {regs : Registers}
    {a : BitVec 32} {flow : Flow}
    (h : (s.traceRegisters regs).load s.instruction a = some flow) : Tells s flow := by
  have hbranch : branches s.instruction = false := by
    rw [branches, hop]
    rfl
  have hload : loads s.instruction = true := by simp [loads, hop]
  have hrec : Recorded s.instruction s ((s.traceRegisters regs).trace fun t =>
      { t with isLoad := true, memAddr := a + immI s.instruction }) :=
    ⟨rfl, rfl, rfl, rfl, hload.symm,
      hs.isStore.trans (by simp [stores, hop]), hs.isBr.trans hbranch.symm, hs.not_taken⟩
  unfold Cpu.load at h
  dsimp only at h
  split_ifs at h
  obtain ⟨p, -, h⟩ := Option.bind_eq_some_iff.mp h
  rcases p with - | pAddr
  · obtain rfl := Option.some.inj h
    exact trap ((hrec.traceIo _).same (.raise _ .loadFault)).traceTrap
  · dsimp only at h
    split_ifs at h
    obtain ⟨word, -, h⟩ := Option.bind_eq_some_iff.mp h
    obtain rfl := Option.some.inj h
    obtain ⟨hpc, htaken⟩ := traceIo_pc ((s.traceRegisters regs).trace _) pAddr
    exact advance hs (hrec.traceIo pAddr) hpc htaken hbranch ⟨rfl, rfl, rfl, rfl⟩

/-- So do stores. -/
theorem storeCase (hs : Header s) (hop : opcode s.instruction = some .sb) {regs : Registers}
    {a b : BitVec 32} {flow : Flow}
    (h : (s.traceRegisters regs).storeCase s.instruction a b = some flow) : Tells s flow := by
  have hbranch : branches s.instruction = false := by
    rw [branches, hop]
    rfl
  have hstore : stores s.instruction = true := by simp [stores, hop]
  have hrec : Recorded s.instruction s ((s.traceRegisters regs).trace fun t =>
      { t with isStore := true, memAddr := a + immS s.instruction }) :=
    ⟨rfl, rfl, rfl, rfl, hs.isLoad.trans (by simp [loads, hop]),
      hstore.symm, hs.isBr.trans hbranch.symm, hs.not_taken⟩
  unfold Cpu.storeCase at h
  dsimp only at h
  split_ifs at h
  obtain ⟨p, -, h⟩ := Option.bind_eq_some_iff.mp h
  rcases p with - | pAddr
  · obtain rfl := Option.some.inj h
    exact trap (hrec.same (.raise _ .storeFault)).traceTrap
  · dsimp only at h
    split_ifs at h
    obtain ⟨u, hu, rfl⟩ := Option.map_eq_some_iff.mp h
    obtain ⟨hpc, htaken⟩ := traceIo_pc ((s.traceRegisters regs).trace _) pAddr
    exact advance hs (hrec.traceIo pAddr) hpc htaken hbranch
      ((SameRecord.prepareStore _ _ _ _).trans (.of_stored (.commitStoreData hu)))

/-- A jump. -/
theorem jump (hs : Header s) (hop : opcode s.instruction = some .jal ∨
    opcode s.instruction = some .jalr) (regs : Registers) (rd : Fin 32) (target : BitVec 32) :
    Tells s (.next ((s.traceRegisters regs).jump rd target)) := by
  have hbranch : branches s.instruction = true := by
    rcases hop with hop | hop <;> rw [branches, hop] <;> rfl
  have hload : loads s.instruction = false := by
    rcases hop with hop | hop <;> simp [loads, hop]
  have hstore : stores s.instruction = false := by
    rcases hop with hop | hop <;> simp [stores, hop]
  refine next ⟨rfl, rfl, rfl, rfl, hs.isLoad.trans hload.symm, hs.isStore.trans hstore.symm,
    hbranch.symm, fun _ => hbranch⟩ ⟨rfl, fun _ => rfl⟩

/-- A branch goes on at its target if it is taken. -/
theorem branch (hs : Header s) (hop : opcode s.instruction = some .beq) (regs : Registers)
    (a b : BitVec 32) :
    Tells s (.next ((s.traceRegisters regs).branch s.instruction a b)) := by
  have hbranch : branches s.instruction = true := by
    rw [branches, hop]
    rfl
  have hload : loads s.instruction = false := by simp [loads, hop]
  have hstore : stores s.instruction = false := by simp [stores, hop]
  have hjumps : ¬ (opcode s.instruction = some .jal ∨ opcode s.instruction = some .jalr) := by
    rw [hop]
    decide
  unfold Cpu.branch
  dsimp only
  split_ifs
  · exact next ⟨rfl, rfl, rfl, rfl, hs.isLoad.trans hload.symm, hs.isStore.trans hstore.symm,
      hbranch.symm, fun _ => hbranch⟩ ⟨rfl, fun _ => rfl⟩
  · refine next ⟨rfl, rfl, rfl, rfl, hs.isLoad.trans hload.symm, hs.isStore.trans hstore.symm,
      hbranch.symm, fun _ => hbranch⟩ ⟨?_, fun h => absurd h hjumps⟩
    have hno : s.brTaken = false := hs.brTaken
    show s.pc + 4 = if s.brTaken = true then _ else s.pc + 4
    rw [hno, if_neg Bool.false_ne_true]

/-- The group `RV32IM`. -/
theorem rv32im (hs : Header s) (hamo : opcode s.instruction ≠ some .lrw) {flow : Flow}
    (h : s.rv32im = some flow) : Tells s flow := by
  -- what the ALU has in common: neither an access nor a branch
  have halu (hunit : unitOf (opcode s.instruction) = .alu) {u : Cpu}
      (h : SameRecord (s.traceRegisters (rv32imRegisters s.instruction)) u) :
      Tells s (.next u.advance) := by
    have hmem : unitOf (opcode s.instruction) ≠ .lsu := by
      rw [hunit]
      decide
    have hbranch : unitOf (opcode s.instruction) ≠ .bru := by
      rw [hunit]
      decide
    rw [Ne, unitOf_eq_bru_iff, Bool.not_eq_true] at hbranch
    exact advance hs (hs.recorded hmem hbranch _) rfl rfl hbranch h
  unfold Cpu.rv32im at h
  dsimp only at h
  rcases hop : opcode s.instruction with - | op
  · rw [hop] at h
    obtain rfl := Option.some.inj h
    exact halu (congrArg unitOf hop) (.refl _)
  rw [hop] at h
  cases op with
  | lui =>
    obtain rfl := Option.some.inj h
    exact halu (congrArg unitOf hop) ⟨rfl, rfl, rfl, rfl⟩
  | auipc =>
    obtain rfl := Option.some.inj h
    exact halu (congrArg unitOf hop) ⟨rfl, rfl, rfl, rfl⟩
  | jal =>
    obtain rfl := Option.some.inj h
    exact jump hs (.inl hop) _ _ _
  | jalr =>
    obtain rfl := Option.some.inj h
    exact jump hs (.inr hop) _ _ _
  | beq =>
    obtain rfl := Option.some.inj h
    exact branch hs hop _ _ _
  | lb => exact load hs hop h
  | sb => exact storeCase hs hop h
  | addi =>
    obtain rfl := Option.some.inj h
    exact halu (congrArg unitOf hop) (.writeBack _ _ _)
  | add =>
    obtain rfl := Option.some.inj h
    exact halu (congrArg unitOf hop) (.writeBack _ _ _)
  | fence =>
    obtain rfl := Option.some.inj h
    exact halu (congrArg unitOf hop) (.refl _)
  | ecall =>
    obtain rfl := Option.some.inj h
    exact halu (congrArg unitOf hop) (.refl _)
  | lrw => exact absurd hop hamo

/-- **Every instruction writes its record right.** -/
theorem of_execute (hs : Header s) {flow : Flow} (h : s.execute = some flow) :
    Tells s flow := by
  unfold Cpu.execute at h
  split at h
  · next hop =>
    obtain rfl := Option.some.inj h
    exact rv32csr hs hop
  · next hop => exact rv32a hs hop h
  · next _ hamo => exact rv32im hs hamo h

end Tells

/-! ### The record of a step -/

/-- The record `t` of a step over the instruction `i`, which ends in `s'`. -/
structure StepRecord (s : Cpu) (i : BitVec 32) (t : TraceInst) (s' : Cpu) : Prop where
  pc : t.pc = s.pc
  opcode : t.opcode = opcodeBits i
  isWfi : t.isWfi = false
  isEbreak : t.isEbreak = true ↔ i = instEbreak
  /-- The flags are those of the instruction, if it is executed. -/
  isLoad : t.isLoad = true ↔ s.Executes i ∧ loads i = true
  isStore : t.isStore = true ↔ s.Executes i ∧ stores i = true
  isBranch : t.isBranch = true ↔ s.Executes i ∧ branches i = true
  isTrap : ¬ s.Executes i → i ≠ instEbreak → t.isTrap = true ∧ s'.isException = true
  taken : t.branchTaken = true → t.isBranch = true
  jumps : s.Executes i → Ref.opcode i = some .jal ∨ Ref.opcode i = some .jalr →
    s'.isException = false → t.branchTaken = true
  next : s.Executes i → s'.isException = false →
    s'.pc = if t.branchTaken then t.target else s.pc + 4

/-- The header is all there is in the record of a step that executes nothing. -/
theorem StepRecord.idle {i : BitVec 32} {t : TraceInst} (hexec : ¬ s.Executes i)
    (hpc : t.pc = s.pc) (hopcode : t.opcode = opcodeBits i) (hwfi : t.isWfi = false)
    (hebreak : t.isEbreak = true ↔ i = instEbreak) (hload : t.isLoad = false)
    (hstore : t.isStore = false) (hbranch : t.isBranch = false) (htaken : t.branchTaken = false)
    (htrap : i ≠ instEbreak → t.isTrap = true ∧ u.isException = true) : StepRecord s i t u where
  pc := hpc
  opcode := hopcode
  isWfi := hwfi
  isEbreak := hebreak
  isLoad := by simp [hload, hexec]
  isStore := by simp [hstore, hexec]
  isBranch := by simp [hbranch, hexec]
  isTrap _ := htrap
  taken h := by simp [htaken] at h
  jumps h := absurd h hexec
  next h := absurd h hexec

/-- A call of `exception` keeps the branch flags. -/
theorem run_isBr (flow : Flow) :
    flow.run.isBr = flow.cpu.isBr ∧ flow.run.brTaken = flow.cpu.brTaken := by
  cases flow with
  | next u => exact ⟨rfl, rfl⟩
  | trap u v =>
    rw [Flow.run, exception_frame]
    exact ⟨rfl, rfl⟩

/-- The record of an instruction that is executed. -/
theorem StepRecord.executed {i : BitVec 32} {flow : Flow} (htrace : s.currentTrace = {})
    (hi : s.Executes i) (hflow : (s.decided i).execute = some flow) :
    StepRecord s i flow.run.finish.currentTrace flow.run.finish := by
  have htells := Tells.of_execute ⟨rfl, rfl, rfl, rfl⟩ hflow
  have hrec : Recorded i (s.decided i) flow.cpu := htells.recorded
  have hold : s.beginStep.currentTrace = {} := s.beginStep_currentTrace.trans htrace
  have hwfi : (s.decided i).currentTrace.isWfi = false := congrArg TraceInst.isWfi hold
  have hebreak : (s.decided i).currentTrace.isEbreak = false := congrArg TraceInst.isEbreak hold
  have hpc : (s.decided i).pc = s.pc := (s.agree_decided i).pc
  obtain ⟨hisBr, hbrTaken⟩ := run_isBr flow
  have hcurrent : flow.run.finish.currentTrace
      = { flow.cpu.currentTrace with
          isBranch := flow.cpu.isBr, branchTaken := flow.cpu.brTaken } := by
    rw [← flow.run_currentTrace, ← hisBr, ← hbrTaken]
    rfl
  -- a step that does not enter `exception` has ended in the state of the instruction
  have hnext : flow.run.finish.isException = false → GoesOn i (s.decided i) flow.run := by
    intro hexc
    cases flow with
    | next u => exact htells.goesOn u rfl
    | trap u v =>
      have hraised : (Flow.trap u v).run.finish.isException = true := by
        change (u.exception v).isException = true
        rw [exception_frame]
      rw [hraised] at hexc
      exact absurd hexc Bool.false_ne_true.symm
  have hiff (p : Prop) : s.Executes i ∧ p ↔ p := and_iff_right hi
  rw [hcurrent]
  refine ⟨hrec.pc.trans hpc, hrec.opcode, hrec.isWfi.trans hwfi, ?_, ?_, ?_, ?_,
    fun hnot => absurd hi hnot, fun htaken => ?_, fun _ hjump hexc => ?_, fun _ hexc => ?_⟩
  · show flow.cpu.currentTrace.isEbreak = true ↔ i = instEbreak
    rw [hrec.isEbreak, hebreak]
    exact iff_of_false Bool.false_ne_true hi.2.1
  · rw [hiff, ← hrec.isLoad]
  · rw [hiff, ← hrec.isStore]
  · rw [hiff, ← hrec.isBr]
  · exact hrec.isBr.trans (hrec.taken htaken)
  · exact hbrTaken.symm.trans ((hnext hexc).jumps hjump)
  · have hgo := (hnext hexc).pc
    rw [hbrTaken, flow.run_currentTrace, hpc] at hgo
    exact hgo

/-- **The record of a step**: it is empty for a fetch fault, and else it is right about the
instruction that was fetched. -/
theorem riscv_record (h : s.riscv = some u) (htrace : s.currentTrace = {}) :
    (s.fetch = some none ∧ u.currentTrace = {} ∧ u.isException = true) ∨
      ∃ i, s.fetch = some (some i) ∧ StepRecord s i u.currentTrace u := by
  have hold : s.beginStep.currentTrace = {} := s.beginStep_currentTrace.trans htrace
  have hwfi (i : BitVec 32) : (s.fetched i).currentTrace.isWfi = false :=
    congrArg TraceInst.isWfi hold
  have hebreak (i : BitVec 32) : (s.fetched i).currentTrace.isEbreak = false :=
    congrArg TraceInst.isEbreak hold
  rcases Cpu.riscv_cases h with ⟨hfault, rfl⟩ | ⟨hfetch, rfl⟩ | ⟨i, hfetch, hi, htrap, rfl⟩ |
    ⟨i, flow, hi, hflow, rfl⟩
  · refine .inl ⟨hfault, ?_, ?_⟩
    · rw [exception_frame]
      exact hold
    · rw [exception_frame]
  · refine .inr ⟨_, hfetch, StepRecord.idle (fun hexec => hexec.2.1 rfl) s.agree_beginStep.pc rfl
      (hwfi _) (iff_of_true rfl rfl) rfl rfl rfl rfl fun hne => absurd rfl hne⟩
  · have hexec : ¬ s.Executes i := fun hexec => hexec.2.2 htrap
    refine .inr ⟨i, hfetch, ?_⟩
    rw [Cpu.trapNow, exception_frame]
    exact StepRecord.idle hexec s.agree_beginStep.pc rfl (hwfi i)
      (iff_of_false (Bool.eq_false_iff.mp (hebreak i)) hi) rfl rfl rfl rfl fun _ => ⟨rfl, rfl⟩
  · exact .inr ⟨i, hi.1, .executed htrace hi hflow⟩

/-- What is said of a step does not depend on the record of the step before. -/
theorem step_record {t : TraceInst} (h : s.step = some (t, u)) :
    (s.fetch = some none ∧ t = {} ∧ u.isException = true) ∨
      ∃ i, s.fetch = some (some i) ∧ StepRecord s i t u := by
  have hagree := agree_currentTrace s {}
  unfold Cpu.step at h
  obtain ⟨v, hv, h⟩ := Option.bind_eq_some_iff.mp h
  obtain ⟨rfl, rfl⟩ := Prod.mk.inj (Option.some.inj h)
  rcases riscv_record hv rfl with ⟨hfetch, hempty, hexc⟩ | ⟨i, hfetch, hrec⟩
  · exact .inl ⟨hagree.fetch.symm.trans hfetch, hempty, hexc⟩
  · have hiff := hagree.executes i
    exact .inr ⟨i, hagree.fetch.symm.trans hfetch, { hrec with
      isLoad := by rw [hrec.isLoad, hiff]
      isStore := by rw [hrec.isStore, hiff]
      isBranch := by rw [hrec.isBranch, hiff]
      isTrap := fun hi => hrec.isTrap (hi ∘ hiff.mp)
      jumps := fun hi => hrec.jumps (hiff.mpr hi)
      next := fun hi => hrec.next (hiff.mpr hi) }⟩

end TraceSim.Ref
