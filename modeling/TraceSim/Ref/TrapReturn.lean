/-
TraceSim/Ref/TrapReturn.lean

A trap and the return from it.

A trap stacks the interrupt enable and the privilege in the status word, and `mret` and
`sret` take them back.  The composition is described bit by bit: what the return writes
is what the trap had read.
-/
import TraceSim.Ref.Shadows

namespace TraceSim.Ref

variable {s u w : Cpu}

/-! ### The machine status word -/

/-- The stacked interrupt enable. -/
theorem trapMstatus_mpie (m : BitVec 32) (p : BitVec 8) :
    (trapMstatus m p).getLsbD mstatusMpie = m.getLsbD mstatusMie := by
  rw [trapMstatus_eq, getLsbD_clearBit, getLsbD_copyBit _ (by decide), if_pos rfl,
    getLsbD_maskWrite, if_neg (by decide)]
  exact Bool.and_true _

/-- The field `MPP` as the part of the word under its mask. -/
theorem getMpp_eq (x : BitVec 32) : getMpp x = (x &&& mstatusMpp) >>> 11 := by
  rw [BitVec.ushiftRight_and_distrib]
  rfl

/-- The stacked privilege. -/
theorem trapMstatus_mpp (m : BitVec 32) (p : BitVec 8) :
    trapMstatus m p &&& mstatusMpp = (p &&& 3).setWidth 32 <<< 11 := by
  rw [trapMstatus_eq, clearBit_and_of_not (by decide), copyBit_and_of_not (by decide),
    maskWrite_and, mppField_and]

/-- **A trap into M mode and `mret`**, on the status word. -/
theorem mret_trapMstatus (m : BitVec 32) {p : BitVec 8} (hp : p = 0 ∨ p = 1 ∨ p = 3)
    (hw : w.csr .mstatus = trapMstatus m p) :
    w.mret.privilege = p ∧ (w.mret.csr .mstatus).getLsbD mstatusMie = m.getLsbD mstatusMie := by
  constructor
  · change (getMpp (copyBit (w.csr .mstatus) mstatusMie mstatusMpie)).setWidth 8 = p
    -- `MIE` is restored first, which is not under the mask of `MPP`
    rw [getMpp_eq, copyBit_and_of_not (by decide), hw, trapMstatus_mpp]
    rcases hp with rfl | rfl | rfl <;> decide
  · change (setBit (copyBit (w.csr .mstatus) mstatusMie mstatusMpie) mstatusMpie
      &&& ~~~mstatusMpp).getLsbD mstatusMie = m.getLsbD mstatusMie
    rw [BitVec.getLsbD_and, getLsbD_setBit, getLsbD_copyBit _ (by decide), if_pos rfl, hw,
      trapMstatus_mpie]
    simp [mstatusMie, mstatusMpie, mstatusMpp]

/-! ### The supervisor status word -/

theorem getLsbD_trapSstatus (x : BitVec 32) (p : BitVec 8) (k : ℕ) :
    (trapSstatus x p).getLsbD k =
      if k = mstatusSie then false
      else if k = mstatusSpie then x.getLsbD mstatusSie
      else if k = mstatusSpp then decide (p = 1)
      else x.getLsbD k := by
  -- the bit `SPP` tells S mode from U mode
  have hspp : ∀ j, (if p = 1 then setBit x mstatusSpp else clearBit x mstatusSpp).getLsbD j
      = if j = mstatusSpp then decide (p = 1) else x.getLsbD j := by
    intro j
    by_cases hp : p = 1
    · rw [if_pos hp, getLsbD_setBit, decide_eq_true hp]
      by_cases hj : j = mstatusSpp
      · rw [if_pos hj, hj]
        simp [mstatusSpp]
      · rw [if_neg hj, decide_eq_false (Ne.symm hj), Bool.and_false, Bool.or_false]
    · rw [if_neg hp, getLsbD_clearBit, decide_eq_false hp]
      by_cases hj : j = mstatusSpp
      · rw [if_pos hj, hj]
        simp
      · rw [if_neg hj, decide_eq_true (Ne.symm hj), Bool.and_true]
  unfold trapSstatus
  dsimp only
  rw [getLsbD_clearBit, getLsbD_copyBit _ (by decide), hspp, hspp,
    if_neg (show mstatusSie ≠ mstatusSpp by decide)]
  by_cases hsie : k = mstatusSie
  · rw [if_pos hsie, decide_eq_false (not_not.mpr hsie.symm), Bool.and_false]
  · rw [if_neg hsie, decide_eq_true (Ne.symm hsie), Bool.and_true]
    exact if_congr eq_comm rfl rfl

/-- What `sret` reads from the status word that a trap into S mode wrote. -/
theorem getLsbD_restored (x : BitVec 32) (p : BitVec 8) {k : ℕ} (hspie : k ≠ mstatusSpie)
    (hspp : k ≠ mstatusSpp) :
    (copyBit (trapSstatus x p) mstatusSie mstatusSpie).getLsbD k = x.getLsbD k := by
  rw [getLsbD_copyBit _ (by decide), getLsbD_trapSstatus, getLsbD_trapSstatus]
  by_cases hsie : k = mstatusSie
  · rw [if_pos hsie.symm, hsie]
    rfl
  · rw [if_neg (Ne.symm hsie), if_neg hsie, if_neg hspie, if_neg hspp]

/-- The field `SPP` as a bit. -/
theorem getSpp_eq (x : BitVec 32) : getSpp x = if x.getLsbD mstatusSpp then 1 else 0 := by
  apply BitVec.eq_of_getLsbD_eq
  intro k _
  rw [getSpp, BitVec.getLsbD_and, BitVec.getLsbD_ushiftRight]
  by_cases hk : k = 0
  · rw [hk]
    cases hspp : x.getLsbD mstatusSpp <;> simpa [mstatusSpp] using hspp
  · have hone : (1#32).getLsbD k = false := by simp [hk]
    rw [show (1 : BitVec 32) = 1#32 from rfl, hone, Bool.and_false]
    split_ifs
    · exact hone.symm
    · simp

/-- **A trap into S mode and `sret`**, on the status words. -/
theorem sret_trapSstatus (x m : BitVec 32) {p : BitVec 8} (hp : p = 0 ∨ p = 1)
    (hshadow : x = m &&& sstatusMask) (hs : w.csr .sstatus = trapSstatus x p)
    (hm : w.csr .mstatus = maskWrite sstatusMask m (trapSstatus x p)) :
    w.sret.privilege = p ∧ ∀ k, k ≠ mstatusSpie → k ≠ mstatusSpp →
      (w.sret.csr .mstatus).getLsbD k = m.getLsbD k := by
  constructor
  · change (getSpp (copyBit (w.csr .sstatus) mstatusSie mstatusSpie)).setWidth 8 = p
    have hne : mstatusSie ≠ mstatusSpp := by decide
    rw [getSpp_eq, hs, getLsbD_copyBit _ (by decide), if_neg hne, getLsbD_trapSstatus]
    rcases hp with rfl | rfl <;> rfl
  · intro k hspie hspp
    change (maskWrite sstatusMask (w.csr .mstatus) (clearBit (setBit
      (copyBit (w.csr .sstatus) mstatusSie mstatusSpie) mstatusSpie) mstatusSpp)).getLsbD k
        = m.getLsbD k
    rw [hs, hm, getLsbD_maskWrite, getLsbD_maskWrite]
    cases hmask : sstatusMask.getLsbD k with
    | false =>
      -- the bit is not in the copy: neither the trap nor the return writes it
      rfl
    | true =>
      rw [if_pos rfl, getLsbD_clearBit, getLsbD_setBit, getLsbD_restored x p hspie hspp,
        decide_eq_false (Ne.symm hspie), decide_eq_true (Ne.symm hspp), Bool.and_false,
        Bool.or_false, Bool.and_true, hshadow, BitVec.getLsbD_and, hmask, Bool.and_true]

/-! ### Returns -/

/-- The next call of `exception` executes the instruction `i`: no trap is pending. -/
structure Returning (i : BitVec 32) (w : Cpu) : Prop where
  mTrap : w.mTrap = false
  sTrap : w.sTrap = false
  instruction : w.instruction = i

theorem exception_untouched (s : Cpu) (v : BitVec 32) : Untouched s (s.exception v) := by
  rw [exception_frame]
  exact ⟨rfl, rfl, rfl, rfl, rfl⟩

theorem exception_of_mret (h : Returning instMret w) (v : BitVec 32) :
    w.exception v = { w with isException := true }.mret := by
  have hm : ({ w with isException := true } : Cpu).mTrap = false := h.mTrap
  have hs : ({ w with isException := true } : Cpu).sTrap = false := h.sTrap
  rw [Cpu.exception, Cpu.handle, hm, hs]
  exact if_pos h.instruction

theorem exception_of_sret (h : Returning instSret w) (v : BitVec 32) :
    w.exception v = { w with isException := true }.sret := by
  have hm : ({ w with isException := true } : Cpu).mTrap = false := h.mTrap
  have hs : ({ w with isException := true } : Cpu).sTrap = false := h.sTrap
  have hmret : w.instruction ≠ instMret := by
    rw [h.instruction]
    decide
  rw [Cpu.exception, Cpu.handle, hm, hs]
  exact (if_neg hmret).trans (if_pos h.instruction)

/-- The return resumes the interrupted context: its pc and privilege. -/
structure Resumes (s w : Cpu) : Prop where
  pc : w.pc = s.pc
  privilege : w.privilege = s.privilege

/-- A trap into M mode and the return from it. -/
theorem mTrap_return (hp : s.privilege = 0 ∨ s.privilege = 1 ∨ s.privilege = 3)
    (hm : s.mTrap = true) {v : BitVec 32} (hw : Returning instMret w)
    (hmstatus : w.csr .mstatus = (s.exception v).csr .mstatus)
    (hmepc : w.csr .mepc = (s.exception v).csr .mepc) (v' : BitVec 32) :
    Resumes s (w.exception v') ∧
      ((w.exception v').csr .mstatus).getLsbD mstatusMie
        = (s.csr .mstatus).getLsbD mstatusMie := by
  rw [exception_of_mTrap hm] at hmstatus hmepc
  rw [exception_of_mret hw]
  obtain ⟨hprivilege, hmie⟩ := mret_trapMstatus (s.csr .mstatus) hp hmstatus
  exact ⟨⟨hmepc, hprivilege⟩, hmie⟩

/-- A trap into S mode and the return from it. -/
theorem sTrap_return (hp : s.privilege = 0 ∨ s.privilege = 1)
    (hshadow : s.csr .sstatus = s.csr .mstatus &&& sstatusMask) (hm : s.mTrap = false)
    (hs : s.sTrap = true) {v : BitVec 32} (hw : Returning instSret w)
    (hmstatus : w.csr .mstatus = (s.exception v).csr .mstatus)
    (hsstatus : w.csr .sstatus = (s.exception v).csr .sstatus)
    (hsepc : w.csr .sepc = (s.exception v).csr .sepc) (v' : BitVec 32) :
    Resumes s (w.exception v') ∧ ∀ k, k ≠ mstatusSpie → k ≠ mstatusSpp →
      ((w.exception v').csr .mstatus).getLsbD k = (s.csr .mstatus).getLsbD k := by
  rw [exception_of_sTrap hm hs] at hmstatus hsstatus hsepc
  rw [exception_of_sret hw]
  obtain ⟨hprivilege, hbits⟩ := sret_trapSstatus _ _ hp hshadow hsstatus hmstatus
  exact ⟨⟨hsepc, hprivilege⟩, hbits⟩

/-- **A trap and the return from it are the identity on the interrupted context.** -/
theorem trap_return (s : Cpu) (v : BitVec 32)
    (hp : s.privilege = 0 ∨ s.privilege = 1 ∨ s.privilege = 3)
    (hshadow : s.csr .sstatus = s.csr .mstatus &&& sstatusMask) :
    (s.mTrap = true → Untouched s (s.exception v) ∧
      ∀ w v', Returning instMret w → w.csr .mstatus = (s.exception v).csr .mstatus →
        w.csr .mepc = (s.exception v).csr .mepc →
        Untouched w (w.exception v') ∧ Resumes s (w.exception v') ∧
          ((w.exception v').csr .mstatus).getLsbD mstatusMie
            = (s.csr .mstatus).getLsbD mstatusMie) ∧
    (s.mTrap = false → s.sTrap = true → s.privilege ≠ 3 → Untouched s (s.exception v) ∧
      ∀ w v', Returning instSret w → w.csr .mstatus = (s.exception v).csr .mstatus →
        w.csr .sstatus = (s.exception v).csr .sstatus →
        w.csr .sepc = (s.exception v).csr .sepc →
        Untouched w (w.exception v') ∧ Resumes s (w.exception v') ∧
          ∀ k, k ≠ mstatusSpie → k ≠ mstatusSpp →
            ((w.exception v').csr .mstatus).getLsbD k = (s.csr .mstatus).getLsbD k) := by
  constructor
  · intro hm
    refine ⟨exception_untouched s v, fun w v' hw hmstatus hmepc => ?_⟩
    exact ⟨exception_untouched w v', mTrap_return hp hm hw hmstatus hmepc v'⟩
  · intro hm hs hthree
    -- an S trap comes from U or S mode
    have hsupervisor : s.privilege = 0 ∨ s.privilege = 1 := by
      rcases hp with h | h | h
      · exact .inl h
      · exact .inr h
      · exact absurd h hthree
    refine ⟨exception_untouched s v, fun w v' hw hmstatus hsstatus hsepc => ?_⟩
    exact ⟨exception_untouched w v',
      sTrap_return hsupervisor hshadow hm hs hw hmstatus hsstatus hsepc v'⟩

/-- A CPU that calls the environment: from M mode, or from U mode where the call is
delegated. -/
def callerAt (privilege : BitVec 8) : Cpu :=
  { Cpu.machineOf instEcall with
    instruction := instEcall, privilege := privilege
    csr := Function.update (fun _ => 0) .medeleg 0x100 }

/-- The caller is resumed, from M mode and from S mode. -/
theorem trap_return_ecall :
    Resumes (callerAt 3)
      ({ (callerAt 3).exception 0 with instruction := instMret }.exception 0) ∧
    Resumes (callerAt 0)
      ({ (callerAt 0).exception 0 with instruction := instSret }.exception 0) := by
  have hmret : Returning instMret { (callerAt 3).exception 0 with instruction := instMret } :=
    ⟨by decide, by decide, rfl⟩
  have hsret : Returning instSret { (callerAt 0).exception 0 with instruction := instSret } :=
    ⟨by decide, by decide, rfl⟩
  constructor
  · have hreturn := (trap_return (callerAt 3) 0 (.inr (.inr rfl)) (by decide)).1 (by decide)
    exact (hreturn.2 _ 0 hmret rfl rfl).2.1
  · have hreturn := (trap_return (callerAt 0) 0 (.inl rfl) (by decide)).2 (by decide) (by decide)
      (by decide)
    exact (hreturn.2 _ 0 hsret rfl rfl rfl).2.1

end TraceSim.Ref
