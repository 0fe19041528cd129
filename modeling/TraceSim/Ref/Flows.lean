/-
TraceSim/Ref/Flows.lean

How an instruction ends, from the state it starts in.

An instruction with a data access ends the process, faults, or gets to its access.
Here these cases are told apart by the translation of its address alone
(`dataTranslation`), and the three groups of instructions are described by it: the
ways they trap (`trap_cases`) and what they leave of the state if they do not.
-/
import TraceSim.Ref.Memory
import TraceSim.Ref.Step

namespace TraceSim.Ref

/-- The registers the trace names for an instruction that is executed. -/
def registers (i : BitVec 32) : Registers :=
  match opcode i with
  | some .ecall => csrRegisters i
  | some .lrw => amoRegisters i
  | _ => rv32imRegisters i

/-- The exceptions an instruction raises. -/
inductive Raised
  | loadFault
  | storeFault
  | illegal
  deriving DecidableEq, Repr

/-- The fault of a data access. -/
def dataFault (i : BitVec 32) : Raised :=
  if opcode i = some .lb ∨ (opcode i = some .lrw ∧ funct5 i = 2) then .loadFault
  else .storeFault

/-- `RV32A` has an operation for the value of funct5. -/
def amoDefined (f5 : BitVec 32) : Bool := f5 = 2 || f5 = 3 || (amoData f5.toNat 0 0).isSome

namespace Cpu

variable (s : Cpu)

/-- The state with the flag of an exception raised. -/
def raise : Raised → Cpu
  | .loadFault => s.raiseLoadFault
  | .storeFault => s.raiseStoreFault
  | .illegal => s.raiseIllegal

/-! ### Data accesses -/

/-- The virtual address of a data access. -/
def dataVAddr (i : BitVec 32) : BitVec 32 :=
  match opcode i with
  | some .lb => s.gpr (regA i) + immI i
  | some .sb => s.gpr (regA i) + immS i
  | _ => s.gpr (regA i)

/-- The translation of an atomic access, from those as a load and as a store. -/
def amoTranslation (i : BitVec 32) : Option (Option (BitVec 32)) := do
  let (p1, p2) ← s.translateAmo (s.gpr (regA i))
  if (s.amoFault (funct5 i) p1 p2).isSome then some none
  else some (some (p2.getD (p1.getD (s.gpr (regA i)))))

/-- The translation of the address of a data access: it ends the process, or there is no
access (`none`); it faults (`some none`); or there is a physical address. -/
def dataTranslation (i : BitVec 32) : Option (Option (BitVec 32)) :=
  match opcode i with
  | some .lb => s.translate (s.dataVAddr i) .load
  | some .sb => s.translate (s.dataVAddr i) .store
  | some .lrw => s.amoTranslation i
  | _ => none

/-- An atomic instruction gets to its access, at the given physical address. -/
def ReachesAmo (i pAddr : BitVec 32) : Prop :=
  s.gpr (regA i) &&& 3 = 0 ∧ s.amoTranslation i = some (some pAddr) ∧
    checkMemRange pAddr 4 = true

variable {s}

/-! ### Atomic instructions -/

/-- Whether an atomic instruction faults does not depend on the state besides. -/
theorem amoFault_isSome (s s' : Cpu) (f5 : BitVec 32) (p1 p2 : Option (BitVec 32)) :
    (s.amoFault f5 p1 p2).isSome = (s'.amoFault f5 p1 p2).isSome := by
  unfold amoFault
  split_ifs <;> rfl

/-- The flag a faulting atomic instruction raises. -/
theorem amoFault_raise {i : BitVec 32} (hop : opcode i = some .lrw) {p1 p2 : Option (BitVec 32)}
    {u : Cpu} (h : s.amoFault (funct5 i) p1 p2 = some u) : u = s.raise (dataFault i) := by
  have hnotLoad : opcode i ≠ some .lb := by
    rw [hop]
    decide
  unfold amoFault at h
  unfold dataFault
  split_ifs at h with h2 h1 h3 h4 h5
  · rw [if_pos (.inr ⟨hop, h2⟩)]
    exact (Option.some.inj h).symm
  · rw [if_neg (not_or.mpr ⟨hnotLoad, fun h => h2 h.2⟩)]
    exact (Option.some.inj h).symm
  · rw [if_neg (not_or.mpr ⟨hnotLoad, fun h => h2 h.2⟩)]
    exact (Option.some.inj h).symm

/-- **The group `RV32A`**, by the translation of its address. -/
theorem rv32a_eq (hop : opcode s.instruction = some .lrw) :
    s.rv32a =
      let i := s.instruction
      let vAddr := s.gpr (regA i)
      if vAddr &&& 3 ≠ 0 then none
      else (s.amoTranslation i).bind fun
        | none => some (.trap ((s.traceAmo i vAddr).raise (dataFault i)).traceTrap vAddr)
        | some pAddr =>
          if checkMemRange pAddr 4 then
            ((s.traceAmo i vAddr).amoAccess i pAddr (s.gpr (regB i))).map fun u => .next u.advance
          else none := by
  unfold rv32a amoTranslation
  dsimp only
  generalize hv : s.gpr (regA s.instruction) = v
  have htranslate : (s.traceAmo s.instruction v).translateAmo v = s.translateAmo v := rfl
  rw [htranslate]
  split_ifs with halign
  · rfl
  -- translated as a load and as a store; the operation says which of the two can fault
  rcases s.translateAmo v with - | ⟨p1, p2⟩
  · rfl
  simp only [Option.bind_eq_bind, Option.bind_some]
  have hfault := amoFault_isSome s (s.traceAmo s.instruction v) (funct5 s.instruction) p1 p2
  rcases hf : (s.traceAmo s.instruction v).amoFault (funct5 s.instruction) p1 p2 with - | u
  · rw [hf] at hfault
    rw [hfault]
    rfl
  · rw [hf] at hfault
    rw [hfault, amoFault_raise hop hf]
    rfl

/-- An atomic instruction that gets to its access. -/
theorem rv32a_of_reaches {pAddr : BitVec 32} (hop : opcode s.instruction = some .lrw)
    (h : s.ReachesAmo s.instruction pAddr) :
    s.rv32a = ((s.traceAmo s.instruction (s.gpr (regA s.instruction))).amoAccess s.instruction
      pAddr (s.gpr (regB s.instruction))).map fun u => .next u.advance := by
  obtain ⟨halign, htranslate, hrange⟩ := h
  rw [rv32a_eq hop]
  dsimp only
  rw [if_neg (not_not.mpr halign), htranslate, Option.bind_some]
  dsimp only
  rw [if_pos hrange]

theorem translateAmo_page {v : BitVec 32} {p1 p2 : Option (BitVec 32)}
    (h : s.translateAmo v = some (p1, p2)) : p2.getD (p1.getD v) &&& 0xFFF = v &&& 0xFFF := by
  unfold translateAmo at h
  split_ifs at h
  · obtain ⟨q1, h1, h⟩ := Option.bind_eq_some_iff.mp h
    obtain ⟨q2, h2, h⟩ := Option.bind_eq_some_iff.mp h
    obtain ⟨rfl, rfl⟩ := Prod.mk.inj (Option.some.inj h)
    rcases q2 with - | q2
    · rcases q1 with - | q1
      · rfl
      · exact va2pa_page h1
    · exact va2pa_page h2
  · obtain ⟨rfl, rfl⟩ := Prod.mk.inj (Option.some.inj h)
    rfl

theorem ReachesAmo.aligned {i pAddr : BitVec 32} (h : s.ReachesAmo i pAddr) :
    pAddr &&& 3 = 0 := by
  obtain ⟨halign, htranslate, -⟩ := h
  unfold amoTranslation at htranslate
  obtain ⟨⟨p1, p2⟩, hp, htranslate⟩ := Option.bind_eq_some_iff.mp htranslate
  dsimp only at htranslate
  split_ifs at htranslate
  · cases htranslate
  · obtain rfl := Option.some.inj (Option.some.inj htranslate)
    exact aligned_of_page (translateAmo_page hp) halign

/-- An undefined atomic operation leaves the data of its store alone. -/
theorem amoAccess_undefined {i pAddr b : BitVec 32} (hundefined : amoDefined (funct5 i) = false)
    (ha : pAddr &&& 3 = 0) (hrange : checkMemRange pAddr 4 = true) :
    s.amoAccess i pAddr b
      = { s with store := true, storeAddr := pAddr, storeStrb := 0b1111 }.commitStoreData := by
  unfold amoDefined at hundefined
  rw [Bool.or_eq_false_iff, Bool.or_eq_false_iff, decide_eq_false_iff_not,
    decide_eq_false_iff_not] at hundefined
  obtain ⟨⟨h2, h3⟩, hnone⟩ := hundefined
  have hprepare : s.prepareAmo (funct5 i) pAddr
      = { s with store := true, storeAddr := pAddr, storeStrb := 0b1111 } := if_pos h2
  obtain ⟨old, hold⟩ := loadWord_aligned
    { s with store := true, storeAddr := pAddr, storeStrb := 0b1111 } ha hrange
  rw [amoData_isSome _ 0 0 old b, Option.isSome_eq_false_iff, Option.isNone_iff_eq_none] at hnone
  unfold amoAccess amoExecute
  rw [hprepare]
  dsimp only
  rw [hold, Option.bind_eq_bind, Option.bind_some, if_neg h2, if_neg h3, hnone]
  exact doIf_pos rfl _ _

end Cpu

end TraceSim.Ref
