/-
TraceSim/Ref/CsrAccess.lean

The CSR instructions.

An access reads the old value into `rd` and writes the new one, under the mask of the
register and together with its shadow.  The source enables the write if `funct3` is 1 or
the field `rs1` is not zero; so the immediate form of the plain write, with the immediate
zero, does not write.  It should: an access is right exactly if it is not of this kind,
or the register would not change (`csrInstruction_iff`).
-/
import TraceSim.Ref.Frames

namespace TraceSim.Ref

variable {s : Cpu} {r : Csr}

/-! ### What an access should do -/

/-- The value an access should write, if it should write one: a set or a clear with a zero
field `rs1` does not. -/
def csrWritten (i old src : BitVec 32) : Option (BitVec 32) :=
  match (funct3 i).toNat with
  | 1 | 5 => some src
  | 2 | 6 => if regA i ≠ 0 then some (old ||| src) else none
  | 3 | 7 => if regA i ≠ 0 then some (old &&& ~~~src) else none
  | _ => none

/-- A machine register and its shadow, with the bits that the shadow shows. -/
def csrPair : Csr → Option (Csr × Csr × BitVec 32)
  | .mie | .sie => some (.mie, .sie, sieMask)
  | .mip | .sip => some (.mip, .sip, sieMask)
  | .mstatus | .sstatus => some (.mstatus, .sstatus, sstatusMask)
  | _ => none

/-- What the machine register of a pair holds after a write of `v` to one of the two. -/
def csrMasked (r : Csr) (old v : BitVec 32) : BitVec 32 :=
  match r with
  | .mie | .mip => v &&& mieMask
  | .sie | .sip => maskWrite sieMask old v
  | .mstatus => maskWrite mstatusMask old v
  | .sstatus => maskWrite sstatusMask old v
  | _ => v

/-- The registers `c'` result from `c` by a write of `v` to `r`. -/
structure CsrWrite (r : Csr) (v : BitVec 32) (c c' : Csr → BitVec 32) : Prop where
  masked : ∀ machine shadow mask, csrPair r = some (machine, shadow, mask) →
    c' machine = csrMasked r (c machine) v ∧ c' shadow = c' machine &&& mask ∧
      ∀ q, q ≠ machine → q ≠ shadow → c' q = c q
  plain : csrPair r = none → c' r = v ∧ ∀ q, q ≠ r → c' q = c q

/-- The step from `s` to `u` is a right access to `r`. -/
structure CsrAccessRight (s : Cpu) (r : Csr) (u : Cpu) : Prop where
  gpr : ∀ x, x ≠ 0 → u.gpr x = if x = regD s.instruction then s.csr r else s.gpr x
  written : ∀ v, csrWritten s.instruction (s.csr r) (s.csrOperand s.instruction) = some v →
    CsrWrite r v s.csr u.csr
  kept : csrWritten s.instruction (s.csr r) (s.csrOperand s.instruction) = none →
    u.csr = s.csr
  memory : u.memory = s.memory
  ioWords : u.ioWords = s.ioWords
  pc : u.pc = s.pc + 4

/-! ### What an access does -/

theorem writeCsr_plain (s : Cpu) (v : BitVec 32) (h : csrPair r = none) :
    s.writeCsr r v = s.setCsr r v := by
  cases r <;> first | rfl | cases h

/-- The write of the source is the write under the masks. -/
theorem writeCsr_write (s : Cpu) (r : Csr) (v : BitVec 32) :
    CsrWrite r v s.csr (s.writeCsr r v).csr := by
  refine ⟨fun machine shadow mask h => ?_, fun h => ?_⟩
  · cases r <;> first
      | (simp only [csrPair, Option.some.injEq, Prod.mk.injEq] at h
         obtain ⟨rfl, rfl, rfl⟩ := h
         refine ⟨rfl, rfl, fun q hq hq' => ?_⟩
         cases q <;> first | rfl | exact absurd rfl hq | exact absurd rfl hq')
      | cases h
  · rw [writeCsr_plain s v h]
    exact ⟨Function.update_self .., fun q hq => Function.update_of_ne hq ..⟩

/-- What the source writes in an access, if its write is enabled. -/
def csrEnabled (i old src : BitVec 32) : Option (BitVec 32) :=
  if funct3 i = 1 ∨ regA i ≠ 0 then some (csrWdata (funct3 i &&& 3) old src) else none

/-- The plain write with the immediate zero. -/
def IsZeroCsrrwi (i : BitVec 32) : Prop := funct3 i = 5 ∧ regA i = 0

instance (i : BitVec 32) : Decidable (IsZeroCsrrwi i) :=
  inferInstanceAs (Decidable (_ ∧ _))

theorem csrAccess_csr (s : Cpu) (i : BitVec 32) (r : Csr) :
    (∀ v, csrEnabled i (s.csr r) (s.csrOperand i) = some v →
        CsrWrite r v s.csr (s.csrAccess i r).csr) ∧
      (csrEnabled i (s.csr r) (s.csrOperand i) = none → (s.csrAccess i r).csr = s.csr) := by
  unfold csrEnabled Cpu.csrAccess
  by_cases hwe : funct3 i = 1 ∨ regA i ≠ 0
  · simp only [if_pos hwe]
    refine ⟨fun v hv => ?_, nofun⟩
    cases hv
    split
    · exact writeCsr_write (s.setGpr _ _) r _
    · exact writeCsr_write s r _
  · simp only [if_neg hwe]
    refine ⟨nofun, fun _ => ?_⟩
    split <;> rfl

/-- The kinds of access. -/
theorem funct3_csr {i : BitVec 32} (h : funct3 i &&& 3 ≠ 0) :
    funct3 i = 1 ∨ funct3 i = 2 ∨ funct3 i = 3 ∨
      funct3 i = 5 ∨ funct3 i = 6 ∨ funct3 i = 7 := by
  have key : ∀ n : Fin 8, BitVec.ofNat 32 n &&& 3 ≠ 0 →
      BitVec.ofNat 32 n = 1 ∨ BitVec.ofNat 32 n = 2 ∨ BitVec.ofNat 32 n = 3 ∨
        BitVec.ofNat 32 n = 5 ∨ BitVec.ofNat 32 n = 6 ∨ BitVec.ofNat 32 n = 7 := by
    decide
  have hf : BitVec.ofNat 32 (funct3 i).toNat = funct3 i := by simp
  rw [← hf] at h ⊢
  exact key ⟨_, funct3_lt i⟩ h

/-- **The enable of the source** is right but for the plain write with the immediate
zero. -/
theorem csrEnabled_eq {i : BitVec 32} (hcsr : funct3 i &&& 3 ≠ 0) (h : ¬ IsZeroCsrrwi i)
    (old src : BitVec 32) : csrEnabled i old src = csrWritten i old src := by
  unfold csrEnabled csrWritten
  unfold IsZeroCsrrwi at h
  rcases funct3_csr hcsr with hf | hf | hf | hf | hf | hf <;> rw [hf] at h ⊢
  · rfl
  · by_cases ha : regA i = 0 <;> simp [ha, csrWdata]
  · by_cases ha : regA i = 0 <;> simp [ha, csrWdata]
  · have ha : regA i ≠ 0 := fun ha => h ⟨rfl, ha⟩
    simp [ha, csrWdata]
  · by_cases ha : regA i = 0 <;> simp [ha, csrWdata]
  · by_cases ha : regA i = 0 <;> simp [ha, csrWdata]

/-! ### The instruction -/

theorem rv32csr_csr (hcsr : cvtNumberToCsr (bits s.instruction 31 20) = some r) :
    s.rv32csr = .next (((s.traceRegisters (csrRegisters s.instruction)).csrAccess
      s.instruction r).advance) := by
  have htime : ¬ (bits s.instruction 31 20 = numberTime ∨
      bits s.instruction 31 20 = numberTimeh) := by
    rintro (h | h) <;> rw [h] at hcsr <;> cases hcsr
  unfold Cpu.rv32csr
  dsimp only
  rw [if_neg htime, hcsr]

/-- The old value goes to `rd`: the source leaves the read out only if `rd` is `x0`. -/
theorem csrAccess_gpr (s : Cpu) (i : BitVec 32) (r : Csr) {x : Fin 32} (hx : x ≠ 0) :
    (s.csrAccess i r).gpr x = if x = regD i then s.csr r else s.gpr x := by
  have hwrite (t : Cpu) (v : BitVec 32) : (t.writeCsr r v).gpr = t.gpr := by cases r <;> rfl
  have hread : (if funct3 i ≠ 1 ∨ regD i ≠ 0 then s.setGpr (regD i) (s.csr r) else s).gpr x
      = if x = regD i then s.csr r else s.gpr x := by
    by_cases hre : funct3 i ≠ 1 ∨ regD i ≠ 0
    · rw [if_pos hre, Cpu.setGpr]
      exact Function.update_apply ..
    · have hd : regD i = 0 := by
        by_contra hd
        exact hre (.inr hd)
      rw [if_neg hre, hd, if_neg hx]
  unfold Cpu.csrAccess
  dsimp only
  by_cases hwe : funct3 i = 1 ∨ regA i ≠ 0
  · rw [if_pos hwe, hwrite]
    exact hread
  · rw [if_neg hwe]
    exact hread

theorem csrAccess_frame (s : Cpu) (i : BitVec 32) (r : Csr) :
    (s.csrAccess i r).memory = s.memory ∧ (s.csrAccess i r).ioWords = s.ioWords ∧
      (s.csrAccess i r).pc = s.pc := by
  unfold Cpu.csrAccess
  dsimp only
  split_ifs
  · cases r <;> exact ⟨rfl, rfl, rfl⟩
  · cases r <;> exact ⟨rfl, rfl, rfl⟩
  · exact ⟨rfl, rfl, rfl⟩
  · exact ⟨rfl, rfl, rfl⟩

/-- With the immediate zero the plain write is to write zero, and the source writes
nothing. -/
theorem csrEnabled_zero {i : BitVec 32} (h : IsZeroCsrrwi i) (s : Cpu) (old : BitVec 32) :
    csrWritten i old (s.csrOperand i) = some 0 ∧ csrEnabled i old (s.csrOperand i) = none := by
  obtain ⟨hf, ha⟩ := h
  unfold csrWritten csrEnabled Cpu.csrOperand
  rw [hf, ha]
  exact ⟨rfl, rfl⟩

/-- **CSR instructions.** An access to an implemented register is right if and only if it
is no plain write of the immediate zero, or writing zero would change nothing. -/
theorem csrInstruction_iff (s : Cpu) (r : Csr)
    (hcsr : cvtNumberToCsr (bits s.instruction 31 20) = some r)
    (hf3 : funct3 s.instruction &&& 3 ≠ 0) :
    CsrAccessRight s r s.rv32csr.run.finish ↔
      ¬ IsZeroCsrrwi s.instruction ∨ CsrWrite r 0 s.csr s.csr := by
  rw [rv32csr_csr hcsr]
  let t := s.traceRegisters (csrRegisters s.instruction)
  obtain ⟨hwrite, hkeep⟩ := csrAccess_csr t s.instruction r
  constructor
  -- the code does not enable the plain write of the immediate zero
  · intro h
    by_contra hnot
    rw [not_or, not_not] at hnot
    obtain ⟨hzero, hnot⟩ := hnot
    obtain ⟨hwritten, hnone⟩ := csrEnabled_zero hzero s (s.csr r)
    have hw := h.written 0 hwritten
    have hk : (t.csrAccess s.instruction r).csr = s.csr := hkeep hnone
    change CsrWrite r 0 s.csr (t.csrAccess s.instruction r).csr at hw
    rw [hk] at hw
    exact hnot hw
  · intro h
    -- any other access writes what it should, and this one has nothing to change
    obtain ⟨hmemory, hio, hpc⟩ := csrAccess_frame t s.instruction r
    have hcsrs : (∀ v, csrWritten s.instruction (s.csr r) (s.csrOperand s.instruction) = some v →
          CsrWrite r v s.csr (t.csrAccess s.instruction r).csr) ∧
        (csrWritten s.instruction (s.csr r) (s.csrOperand s.instruction) = none →
          (t.csrAccess s.instruction r).csr = s.csr) := by
      by_cases hzero : IsZeroCsrrwi s.instruction
      · obtain ⟨hwritten, hnone⟩ := csrEnabled_zero hzero s (s.csr r)
        have hk : (t.csrAccess s.instruction r).csr = s.csr := hkeep hnone
        rw [hwritten, hk]
        refine ⟨fun v hv => ?_, nofun⟩
        cases hv
        exact h.resolve_left (not_not.mpr hzero)
      · rw [← csrEnabled_eq hf3 hzero]
        exact ⟨hwrite, hkeep⟩
    exact
      { gpr := fun x hx => (Function.update_of_ne hx _ _).trans
          (csrAccess_gpr t s.instruction r hx)
        written := hcsrs.1
        kept := hcsrs.2
        memory := hmemory
        ioWords := hio
        pc := congrArg (· + 4) hpc }

/-- `csrrw x1, mscratch, x2` -/
theorem csrInstruction_iff_csrrw :
    CsrAccessRight { Cpu.zero with instruction := 0x340110f3 } .mscratch
      (Cpu.rv32csr { Cpu.zero with instruction := 0x340110f3 }).run.finish :=
  (csrInstruction_iff _ _ (by decide) (by decide)).mpr (.inl (by decide))

/-- A CPU about to execute `csrrwi x0, mscratch, 0`, where `mscratch` holds 5. -/
def zeroingScratch : Cpu :=
  { (Cpu.zero.setCsr .mscratch 5) with instruction := 0x34005073 }

/-- The instruction should write zero, and `mscratch` still holds 5. -/
theorem csrInstruction_immediate_zero :
    ¬ CsrAccessRight zeroingScratch .mscratch zeroingScratch.rv32csr.run.finish := by
  intro h
  have hwrite := h.written 0 (by decide)
  have hzero : (zeroingScratch.rv32csr.run.finish).csr .mscratch = 0 := (hwrite.plain rfl).1
  have hfive : (zeroingScratch.rv32csr.run.finish).csr .mscratch = 5 := by decide
  rw [hfive] at hzero
  cases hzero

end TraceSim.Ref
