/-
TraceSim/Ref/Causes.lean

The target and the code of a synchronous exception.

What a trap should do is read off its own cause (`delegated`, `code`).  An exception of
an executed instruction always does it.  A fetch fault does it if the flags and the
instruction left of the step before are no reason for a trap, and an environment call
unless it comes from M mode while those from U mode are delegated.
-/
import TraceSim.Ref.Precise

namespace TraceSim.Ref

/-- The bit of `medeleg` for an exception at privilege `p`, if it can be delegated. -/
def SyncCause.delegBit (p : BitVec 8) : SyncCause → Option ℕ
  | .fetchFault => some medelegPageFaultInst
  | .ecall => if p = 0 then some medelegUEcall else if p = 1 then some medelegSEcall else none
  | .raised .loadFault => some medelegPageFaultLoad
  | .raised .storeFault => some medelegPageFaultStore
  | .raised .illegal => none

/-- The code of an exception at privilege `p`. -/
def SyncCause.code (p : BitVec 8) : SyncCause → BitVec 32
  | .fetchFault => 12
  | .ecall => if p = 0 then 8 else if p = 1 then 9 else 11
  | .raised .loadFault => 13
  | .raised .storeFault => 15
  | .raised .illegal => 2

namespace Cpu

variable (s : Cpu)

/-- The exception belongs to S mode. -/
def delegated (c : SyncCause) : Bool :=
  decide (s.privilege < 3) && (c.delegBit s.privilege).any s.medeleg

/-- The trap goes where its own cause belongs, and has its code without the interrupt bit. -/
def CauseRight (c : SyncCause) (s' : Cpu) : Prop :=
  if s.delegated c then s'.privilege = 1 ∧ s'.csr .scause = c.code s.privilege
  else s'.privilege = 3 ∧ s'.csr .mcause = c.code s.privilege

/-- The step takes an interrupt that it has polled. -/
def TakesInterrupt : Prop :=
  ∃ i, s.fetch = some (some i) ∧
    ((s.decided i).interrupts.anyM = true ∨
      ((s.decided i).interrupts.anyS = true ∧ (s.decided i).mTrap = false))

/-- Nothing disturbs the choice of the cause: after a fetch fault, a flag or an instruction
left of the step before; for an environment call from M mode, the delegation of those from U
mode. -/
def CauseUndisturbed : SyncCause → Prop
  | .fetchFault =>
      s.interrupts.anyM = false ∧ s.ecallM = false ∧
        (s.medeleg medelegPageFaultInst = true → s.interrupts.anyS = false ∧ s.ecallS = false)
  | .ecall => ¬ (s.privilege = 3 ∧ s.medeleg medelegUEcall = true)
  | .raised _ => True

end Cpu

variable {s s' u : Cpu}

/-! ### What a trap writes as its cause -/

theorem Interrupts.anyM_eq_false {irq : Interrupts} :
    irq.anyM = false ↔ irq.mSoftware = false ∧ irq.mTimer = false ∧ irq.mExternal = false := by
  rw [Interrupts.anyM, Bool.or_eq_false_iff, Bool.or_eq_false_iff, and_assoc]

theorem Interrupts.anyS_eq_false {irq : Interrupts} :
    irq.anyS = false ↔ irq.sSoftware = false ∧ irq.sTimer = false ∧ irq.sExternal = false := by
  rw [Interrupts.anyS, Bool.or_eq_false_iff, Bool.or_eq_false_iff, and_assoc]

theorem exception_mcause (h : u.mTrap = true) (v : BitVec 32) :
    (u.exception v).privilege = 3 ∧ (u.exception v).csr .mcause = u.mCause := by
  rw [exception_of_mTrap h]
  refine ⟨rfl, ?_⟩
  simp only [Cpu.enterM, Cpu.setCsr, ne_eq, reduceCtorEq, not_false_eq_true,
    Function.update_of_ne, Function.update_self]
  rfl

theorem exception_scause (hm : u.mTrap = false) (hs : u.sTrap = true) (v : BitVec 32) :
    (u.exception v).privilege = 1 ∧ (u.exception v).csr .scause = u.sCause := by
  rw [exception_of_sTrap hm hs]
  refine ⟨rfl, ?_⟩
  simp only [Cpu.enterS, Cpu.setCsr, ne_eq, reduceCtorEq, not_false_eq_true,
    Function.update_of_ne, Function.update_self]
  rfl

/-! ### Exceptions of executed instructions -/

/-- Only translated addresses fault. -/
theorem privilege_of_translate {v : BitVec 32} {type : AccessType}
    (h : s.translate v type = some none) : s.privilege ≠ 3 := by
  rintro hp
  rw [Cpu.translate, Cpu.paging, hp, if_neg (by simp)] at h
  cases h

theorem privilege_of_amoTranslation {i : BitVec 32} (h : s.amoTranslation i = some none) :
    s.privilege ≠ 3 := by
  rintro hp
  rw [Cpu.amoTranslation, Cpu.translateAmo, Cpu.paging, hp, if_neg (by simp)] at h
  simp [Cpu.amoFault] at h

theorem privilege_of_dataTranslation {i : BitVec 32} (h : s.dataTranslation i = some none) :
    s.privilege ≠ 3 := by
  unfold Cpu.dataTranslation at h
  split at h
  · exact privilege_of_translate h
  · exact privilege_of_translate h
  · exact privilege_of_amoTranslation h
  · cases h

theorem privilege_of_fetch (h : s.fetch = some none) : s.privilege ≠ 3 := by
  unfold Cpu.fetch at h
  obtain ⟨p, hp, h⟩ := Option.bind_eq_some_iff.mp h
  rcases p with - | pAddr
  · exact privilege_of_translate hp
  · dsimp only at h
    split_ifs at h
    obtain ⟨w, -, hw⟩ := Option.map_eq_some_iff.mp h
    cases hw

/-- A trap into M mode for a cause that is not delegated. -/
theorem causeRight_of_mTrap {c : SyncCause} (hd : s.delegated c = false) (hm : u.mTrap = true)
    (hcause : u.mCause = c.code s.privilege) (v : BitVec 32) :
    s.CauseRight c (u.exception v) := by
  obtain ⟨hp, hmcause⟩ := exception_mcause hm v
  rw [Cpu.CauseRight, hd, if_neg Bool.false_ne_true]
  exact ⟨hp, hmcause.trans hcause⟩

/-- A trap into S mode for a cause that is delegated. -/
theorem causeRight_of_sTrap {c : SyncCause} (hd : s.delegated c = true) (hm : u.mTrap = false)
    (hs : u.sTrap = true) (hcause : u.sCause = c.code s.privilege) (v : BitVec 32) :
    s.CauseRight c (u.exception v) := by
  obtain ⟨hp, hscause⟩ := exception_scause hm hs v
  rw [Cpu.CauseRight, hd, if_pos rfl]
  exact ⟨hp, hscause.trans hcause⟩

/-- The target of an exception of an instruction. -/
theorem Faulted.mTrap_eq {c : Raised} (h : Faulted s c u) :
    u.mTrap = !((SyncCause.raised c).delegBit s.privilege).any s.medeleg := by
  rw [Cpu.mTrap, Cpu.ecallM, h.isEcall, h.anyM, h.pageFaultInst, h.pageFaultLoad,
    h.pageFaultStore, h.illegalException, h.medeleg]
  cases c <;> simp [SyncCause.delegBit]

theorem Faulted.sTrap_eq {c : Raised} (h : Faulted s c u) :
    u.sTrap = ((SyncCause.raised c).delegBit s.privilege).any s.medeleg := by
  rw [Cpu.sTrap, Cpu.ecallS, h.isEcall, h.anyS, h.pageFaultInst, h.pageFaultLoad,
    h.pageFaultStore, h.medeleg]
  cases c <;> simp [SyncCause.delegBit]

/-- The cause of an exception of an instruction: no other reason is found before it. -/
theorem Faulted.mCause_eq {c : Raised} (h : Faulted s c u)
    (hd : ((SyncCause.raised c).delegBit s.privilege).any s.medeleg = false) :
    u.mCause = (SyncCause.raised c).code s.privilege := by
  obtain ⟨hsoftware, htimer, hexternal⟩ := Interrupts.anyM_eq_false.mp h.anyM
  rw [Cpu.mCause, Cpu.mCode, h.anyM, hsoftware, htimer, hexternal, h.isEcall, h.pageFaultInst,
    h.pageFaultLoad, h.pageFaultStore, h.illegalException, h.medeleg]
  cases c with
  | loadFault =>
    have hbit : s.medeleg medelegPageFaultLoad = false := hd
    simp [hbit, SyncCause.code]
  | storeFault =>
    have hbit : s.medeleg medelegPageFaultStore = false := hd
    simp [hbit, SyncCause.code]
  | illegal => simp [SyncCause.code]

theorem Faulted.sCause_eq {c : Raised} (h : Faulted s c u)
    (hd : ((SyncCause.raised c).delegBit s.privilege).any s.medeleg = true) :
    u.sCause = (SyncCause.raised c).code s.privilege := by
  obtain ⟨hsoftware, htimer, hexternal⟩ := Interrupts.anyS_eq_false.mp h.anyS
  rw [Cpu.sCause, Cpu.sCode, h.anyS, hsoftware, htimer, hexternal, h.isEcall, h.pageFaultInst,
    h.pageFaultLoad, h.pageFaultStore, h.medeleg]
  cases c with
  | loadFault =>
    have hbit : s.medeleg medelegPageFaultLoad = true := hd
    simp [hbit, SyncCause.code]
  | storeFault =>
    have hbit : s.medeleg medelegPageFaultStore = true := hd
    simp [hbit, SyncCause.code]
  | illegal => cases hd

/-- **An exception of an instruction** has the right target and cause. -/
theorem Faulted.causeRight {c : Raised} (h : Faulted s c u)
    (hp : c = .illegal ∨ s.privilege < 3) (v : BitVec 32) :
    s.CauseRight (.raised c) (u.exception v) := by
  have hdelegated : s.delegated (.raised c)
      = ((SyncCause.raised c).delegBit s.privilege).any s.medeleg := by
    rcases hp with rfl | hlt
    · exact Bool.and_false _
    · rw [Cpu.delegated, decide_eq_true hlt, Bool.true_and]
  have hm := h.mTrap_eq
  have hs := h.sTrap_eq
  cases hd : ((SyncCause.raised c).delegBit s.privilege).any s.medeleg
  · rw [hd] at hm
    exact causeRight_of_mTrap (hdelegated.trans hd) hm (h.mCause_eq hd) v
  · rw [hd] at hm hs
    exact causeRight_of_sTrap (hdelegated.trans hd) hm hs (h.sCause_eq hd) v

/-! ### Fetch faults -/

/-- An interrupt shows in the cause. -/
theorem interrupt_or_ne (code : BitVec 32) {c : BitVec 32} (hc : c.getLsbD 31 = false) :
    causeInterrupt ||| code ≠ c := by
  intro h
  have hbit := congrArg (fun x : BitVec 32 => x.getLsbD 31) h
  simp only [BitVec.getLsbD_or, hc] at hbit
  exact absurd hbit (by simp [causeInterrupt])

/-- The M-mode cause of a fetch fault that is not delegated. -/
theorem mCause_fetchFault (hp : u.privilege = 0 ∨ u.privilege = 1)
    (hd : u.medeleg medelegPageFaultInst = false) (hflag : u.pageFaultInst = true) :
    u.mCause = 12 ↔ u.interrupts.anyM = false ∧ u.ecallM = false := by
  rw [Cpu.mCause]
  cases hanyM : u.interrupts.anyM
  · obtain ⟨hm₁, hm₂, hm₃⟩ := Interrupts.anyM_eq_false.mp hanyM
    rw [Cpu.mCode, Cpu.ecallM, hm₁, hm₂, hm₃, hflag, hd]
    rcases hp with hp | hp
    · rw [hp]
      cases u.isEcall <;> cases u.medeleg medelegUEcall <;> simp
    · rw [hp]
      cases u.isEcall <;> cases u.medeleg medelegSEcall <;> simp
  · rw [if_pos rfl]
    exact iff_of_false (interrupt_or_ne _ (by decide)) fun h => Bool.noConfusion h.1

/-- The S-mode cause of a fetch fault that is delegated. -/
theorem sCause_fetchFault (hp : u.privilege = 0 ∨ u.privilege = 1)
    (hd : u.medeleg medelegPageFaultInst = true) (hflag : u.pageFaultInst = true) :
    u.sCause = 12 ↔ u.interrupts.anyS = false ∧ u.ecallS = false := by
  rw [Cpu.sCause]
  cases hanyS : u.interrupts.anyS
  · obtain ⟨hs₁, hs₂, hs₃⟩ := Interrupts.anyS_eq_false.mp hanyS
    rw [Cpu.sCode, Cpu.ecallS, hs₁, hs₂, hs₃, hflag, hd]
    rcases hp with hp | hp
    · rw [hp]
      cases u.isEcall <;> cases u.medeleg medelegUEcall <;> simp
    · rw [hp]
      cases u.isEcall <;> cases u.medeleg medelegSEcall <;> simp
  · rw [if_pos rfl]
    exact iff_of_false (interrupt_or_ne _ (by decide)) fun h => Bool.noConfusion h.1

/-- **A fetch fault** has the right target and cause if nothing left over is a reason for a
trap. -/
theorem causeRight_fetchFault (hp : s.privilege = 0 ∨ s.privilege = 1) :
    s.CauseRight .fetchFault (s.fetchFault.exception s.pc) ↔ s.CauseUndisturbed .fetchFault := by
  have hagree := s.agree_fetchFault
  have hmedeleg := hagree.medeleg
  have hirq : s.fetchFault.interrupts = s.interrupts := s.beginStep_interrupts
  have hecall : s.fetchFault.isEcall = s.isEcall := by
    rw [Cpu.isEcall, Cpu.isEcall]
    exact congrArg (fun i => decide (i = instEcall)) s.beginStep_instruction
  have hecallM : s.fetchFault.ecallM = s.ecallM := by
    rw [Cpu.ecallM, Cpu.ecallM, hecall, hmedeleg, hagree.privilege]
  have hecallS : s.fetchFault.ecallS = s.ecallS := by
    rw [Cpu.ecallS, Cpu.ecallS, hecall, hmedeleg, hagree.privilege]
  have hp' : s.fetchFault.privilege = 0 ∨ s.fetchFault.privilege = 1 := by
    rwa [hagree.privilege]
  have hlt : s.privilege < 3 := by
    rcases hp with hp | hp <;> rw [hp] <;> decide
  have hflag : s.fetchFault.pageFaultInst = true := rfl
  have hdelegated : s.delegated .fetchFault = s.medeleg medelegPageFaultInst := by
    rw [Cpu.delegated, decide_eq_true hlt]
    rfl
  have hmTrap : s.fetchFault.mTrap
      = (s.interrupts.anyM || s.ecallM || !s.medeleg medelegPageFaultInst) := by
    have hload : s.fetchFault.pageFaultLoad = false := rfl
    have hstore : s.fetchFault.pageFaultStore = false := rfl
    have hillegal : s.fetchFault.illegalException = false := rfl
    simp [Cpu.mTrap, hirq, hecallM, hmedeleg, hflag, hload, hstore, hillegal]
  rw [Cpu.CauseRight, Cpu.CauseUndisturbed, hdelegated]
  cases hd : s.medeleg medelegPageFaultInst
  -- the fault goes to M mode in any case: what is left over can change its code only
  · rw [hd, Bool.not_false, Bool.or_true] at hmTrap
    obtain ⟨hpriv, hcause⟩ := exception_mcause hmTrap s.pc
    rw [if_neg Bool.false_ne_true, and_iff_right hpriv, hcause]
    have hcode := mCause_fetchFault hp' (by rw [hmedeleg, hd]) hflag
    rw [hirq, hecallM] at hcode
    rw [SyncCause.code, hcode]
    simp
  -- the fault is delegated: what is left over can also take it to M mode
  · rw [hd, Bool.not_true, Bool.or_false] at hmTrap
    rw [if_pos rfl]
    cases hm : s.fetchFault.mTrap
    · have hs : s.fetchFault.sTrap = true := by
        simp [Cpu.sTrap, hflag, hmedeleg, hd]
      obtain ⟨hpriv, hcause⟩ := exception_scause hm hs s.pc
      rw [and_iff_right hpriv, hcause]
      have hcode := sCause_fetchFault hp' (by rw [hmedeleg, hd]) hflag
      rw [hirq, hecallS] at hcode
      rw [hm, eq_comm, Bool.or_eq_false_iff] at hmTrap
      rw [SyncCause.code, hcode, hmTrap.1, hmTrap.2]
      simp
    · obtain ⟨hpriv, -⟩ := exception_mcause hm s.pc
      rw [hm, eq_comm, Bool.or_eq_true] at hmTrap
      refine iff_of_false (fun h => ?_) (fun h => ?_)
      · rw [hpriv] at h
        exact absurd h.1 (by decide)
      · rw [h.1, h.2.1] at hmTrap
        exact absurd hmTrap (by decide)

/-! ### Environment calls -/

/-- What `exception` finds after an environment call in a step that takes no interrupt. -/
structure Called (s u : Cpu) : Prop extends Agree Set.univ s u where
  isEcall : u.isEcall = true
  anyM : u.interrupts.anyM = false
  anyS : u.interrupts.anyS = false ∨ u.mTrap = true
  pageFaultInst : u.pageFaultInst = false
  pageFaultLoad : u.pageFaultLoad = false
  pageFaultStore : u.pageFaultStore = false
  illegalException : u.illegalException = false

/-- A call that goes to M mode is the only reason to do so. -/
theorem Called.mTrap (h : Called s u) : u.mTrap = u.ecallM := by
  rw [Cpu.mTrap, h.anyM, h.pageFaultInst, h.pageFaultLoad, h.pageFaultStore,
    h.illegalException]
  simp

/-- An environment call from U or S mode. -/
theorem Called.causeRight_below (h : Called s u) (hp : s.privilege = 0 ∨ s.privilege = 1)
    (v : BitVec 32) : s.CauseRight .ecall (u.exception v) := by
  have hpriv := h.privilege
  have hecall := h.isEcall
  have hmedeleg := h.medeleg
  have hanyM := h.anyM
  obtain ⟨hm₁, hm₂, hm₃⟩ := Interrupts.anyM_eq_false.mp hanyM
  have hecallM : u.ecallM = !s.delegated .ecall := by
    rcases hp with hp | hp <;>
      simp [Cpu.ecallM, Cpu.delegated, SyncCause.delegBit, hecall, hmedeleg, hpriv, hp]
  have hecallS : u.ecallS = s.delegated .ecall := by
    rcases hp with hp | hp <;>
      simp [Cpu.ecallS, Cpu.delegated, SyncCause.delegBit, hecall, hmedeleg, hpriv, hp]
  -- the delegation decides the mode, and the mode of the caller the code
  cases hd : s.delegated .ecall
  · have hm : u.mTrap = true := by
      rw [h.mTrap, hecallM, hd]
      rfl
    refine causeRight_of_mTrap hd hm ?_ v
    rcases hp with hp | hp
    · have hbit : s.medeleg medelegUEcall = false := by
        simpa [Cpu.delegated, SyncCause.delegBit, hp] using hd
      simp [Cpu.mCause, Cpu.mCode, SyncCause.code, hanyM, hm₁, hm₂, hm₃, hecall, hpriv, hp,
        hmedeleg, hbit]
    · have hbit : s.medeleg medelegSEcall = false := by
        simpa [Cpu.delegated, SyncCause.delegBit, hp] using hd
      simp [Cpu.mCause, Cpu.mCode, SyncCause.code, hanyM, hm₁, hm₂, hm₃, hecall, hpriv, hp,
        hmedeleg, hbit]
  · have hm : u.mTrap = false := by
      rw [h.mTrap, hecallM, hd]
      rfl
    have hs : u.sTrap = true := by
      rw [Cpu.sTrap, hecallS, hd]
      simp
    have hanyS := h.anyS.resolve_right (by rw [hm]; exact Bool.false_ne_true)
    obtain ⟨hs₁, hs₂, hs₃⟩ := Interrupts.anyS_eq_false.mp hanyS
    refine causeRight_of_sTrap hd hm hs ?_ v
    rcases hp with hp | hp
    · have hbit : s.medeleg medelegUEcall = true := by
        simpa [Cpu.delegated, SyncCause.delegBit, hp] using hd
      simp [Cpu.sCause, Cpu.sCode, SyncCause.code, hanyS, hs₂, hs₃, hecall, hpriv, hp,
        hmedeleg, hbit]
    · have hbit : s.medeleg medelegSEcall = true := by
        simpa [Cpu.delegated, SyncCause.delegBit, hp] using hd
      simp [Cpu.sCause, Cpu.sCode, SyncCause.code, hanyS, hs₃, hecall, hpriv, hp,
        hmedeleg, hbit]

/-- **An environment call from M mode** has the right target, and the right code unless the
calls from U mode are delegated: their bit is the one `exception` looks at. -/
theorem Called.causeRight_machine (h : Called s u) (hp : s.privilege = 3) (v : BitVec 32) :
    s.CauseRight .ecall (u.exception v) ↔ s.medeleg medelegUEcall = false := by
  have hpriv := h.privilege
  have hecall := h.isEcall
  have hmedeleg := h.medeleg
  have hanyM := h.anyM
  obtain ⟨hm₁, hm₂, hm₃⟩ := Interrupts.anyM_eq_false.mp hanyM
  have hd : s.delegated .ecall = false := by
    simp [Cpu.delegated, hp]
  have hm : u.mTrap = true := by
    rw [h.mTrap]
    simp [Cpu.ecallM, hecall, hpriv, hp]
  obtain ⟨hmpriv, hmcause⟩ := exception_mcause hm v
  rw [Cpu.CauseRight, hd, if_neg Bool.false_ne_true, and_iff_right hmpriv, hmcause]
  cases hbit : s.medeleg medelegUEcall
  · refine iff_of_true ?_ rfl
    simp [Cpu.mCause, Cpu.mCode, SyncCause.code, hanyM, hm₁, hm₂, hecall, hpriv, hp, hmedeleg,
      hbit]
  -- no branch is left for the call: the code stays 0
  · have hcause : u.mCause = 0 := by
      simp [Cpu.mCause, Cpu.mCode, hanyM, hm₁, hm₂, hm₃, hpriv, hp, hmedeleg, hbit,
        h.pageFaultInst, h.pageFaultLoad, h.pageFaultStore, h.illegalException]
    rw [hcause, hp]
    exact iff_of_false (by decide) (by decide)

/-! ### All exceptions -/

/-- **The target and the cause of a synchronous exception**, in a step that takes no
interrupt. -/
theorem trap_cause_iff {c : SyncCause} (h : s.riscv = some s') (hc : s.SyncException c)
    (hp : s.privilege = 0 ∨ s.privilege = 1 ∨ s.privilege = 3) (hirq : ¬ s.TakesInterrupt) :
    s.CauseRight c s' ↔ s.CauseUndisturbed c := by
  cases c with
  | fetchFault =>
    rw [Cpu.riscv_of_fault hc] at h
    obtain rfl := Option.some.inj h
    -- a fetch fault needs paging, so it is not raised in M mode
    refine causeRight_fetchFault ?_
    rcases hp with hp | hp | hp
    · exact .inl hp
    · exact .inr hp
    · exact absurd hp (privilege_of_fetch hc)
  | ecall =>
    rw [riscv_of_ecall hc] at h
    obtain rfl := Option.some.inj h
    -- with no interrupt taken, none hides the call
    have hnone : ¬ ((s.decided instEcall).interrupts.anyM = true ∨
        (s.decided instEcall).interrupts.anyS = true ∧ (s.decided instEcall).mTrap = false) :=
      fun hany => hirq ⟨instEcall, hc, hany⟩
    obtain ⟨hanyM, hanyS⟩ := not_or.mp hnone
    have hcalled : Called s (s.decided instEcall).traceTrap :=
      { s.agree_decided instEcall with
        isEcall := rfl
        anyM := Bool.eq_false_iff.mpr hanyM
        anyS := by
          rw [not_and_or, Bool.not_eq_true, Bool.not_eq_false] at hanyS
          exact hanyS
        pageFaultInst := rfl
        pageFaultLoad := rfl
        pageFaultStore := rfl
        illegalException := rfl }
    rw [Cpu.CauseUndisturbed]
    -- only in M mode can the delegation of calls from U mode spoil the code
    rcases hp with hp | hp | hp
    · exact iff_of_true (hcalled.causeRight_below (.inl hp) 0)
        fun h => absurd (hp.symm.trans h.1) (by decide)
    · exact iff_of_true (hcalled.causeRight_below (.inr hp) 0)
        fun h => absurd (hp.symm.trans h.1) (by decide)
    · rw [Cpu.trapNow, hcalled.causeRight_machine hp 0, and_iff_right hp, Bool.not_eq_true]
  | raised c =>
    obtain ⟨u, v, hu, rfl⟩ := riscv_of_raises h hc
    refine iff_of_true (hu.causeRight ?_ v) trivial
    obtain ⟨i, -, ⟨-, rfl⟩ | ⟨hfault, -⟩⟩ := hc
    · exact .inl rfl
    · right
      rcases hp with hp | hp | hp
      · rw [hp]
        decide
      · rw [hp]
        decide
      · exact absurd hp (privilege_of_dataTranslation hfault)

theorem not_takesInterrupt {i : BitVec 32} (hfetch : s.fetch = some (some i))
    (hirq : (s.decided i).interrupts = {}) : ¬ s.TakesInterrupt := by
  rintro ⟨j, hj, hany⟩
  rw [hfetch] at hj
  obtain rfl := Option.some.inj (Option.some.inj hj)
  rw [hirq] at hany
  exact hany.elim (by decide) fun h => absurd h.1 (by decide)

/-- An environment call in M mode, with nothing delegated. -/
theorem trap_cause_iff_machine :
    ∃ s', (Cpu.machineOf instEcall).riscv = some s' ∧
      (Cpu.machineOf instEcall).CauseRight .ecall s' := by
  have hfetch : (Cpu.machineOf instEcall).fetch = some (some instEcall) := by decide +kernel
  have hirq : ((Cpu.machineOf instEcall).decided instEcall).interrupts = {} := by decide +kernel
  have hecall : (Cpu.machineOf instEcall).SyncException .ecall := hfetch
  have hstep := riscv_of_ecall hfetch
  have hcause := trap_cause_iff hstep hecall (.inr (.inr rfl)) (not_takesInterrupt hfetch hirq)
  exact ⟨_, hstep, hcause.mpr fun h => absurd h.2 (by decide)⟩

/-- An environment call in M mode, with the calls from U mode delegated. -/
def delegatingMachine : Cpu :=
  { Cpu.machineOf instEcall with csr := Function.update (fun _ => 0) .medeleg 0x100 }

/-- The call has the code 0. -/
theorem machine_ecall_code :
    ∃ s', delegatingMachine.riscv = some s' ∧ delegatingMachine.SyncException .ecall ∧
      ¬ delegatingMachine.TakesInterrupt ∧ ¬ delegatingMachine.CauseRight .ecall s' := by
  have hfetch : delegatingMachine.fetch = some (some instEcall) := by decide +kernel
  have hirq : (delegatingMachine.decided instEcall).interrupts = {} := by decide +kernel
  have hd : delegatingMachine.delegated .ecall = false := by decide +kernel
  have hcause : ((delegatingMachine.decided instEcall).trapNow 0).csr .mcause = 0 := by
    decide +kernel
  refine ⟨_, riscv_of_ecall hfetch, hfetch, not_takesInterrupt hfetch hirq, fun h => ?_⟩
  rw [Cpu.CauseRight, hd, if_neg Bool.false_ne_true, hcause] at h
  exact absurd h.2 (by decide)

end TraceSim.Ref
