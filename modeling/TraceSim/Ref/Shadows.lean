/-
TraceSim/Ref/Shadows.lean

The supervisor views of `mie`, `mip` and `mstatus`.

They are stored copies, and each of the places that write a machine register writes the
copy too.  All of them keep the copies right except a trap into M mode, which copies the
status under another mask: the two masks differ in bits that no write can set, and in
the bits 0 and 4.
-/
import TraceSim.Ref.Causes

namespace TraceSim.Ref

/-- The supervisor registers are the machine registers under their masks. -/
structure Shadowed (c : Csr → BitVec 32) : Prop where
  sie : c .sie = c .mie &&& sieMask
  sip : c .sip = c .mip &&& sieMask
  sstatus : c .sstatus = c .mstatus &&& sstatusMask

/-- The bits of `mstatus` that a trap into M mode copies and `sstatus` does not show. -/
def copiedBits : BitVec 32 := 0x640

/-- The bits of `mstatus` that `sstatus` shows and a trap into M mode does not copy. -/
def droppedBits : BitVec 32 := 0x11

/-- The bits that only a trap into M mode copies are clear. -/
def CopiedClear (c : Csr → BitVec 32) : Prop := c .mstatus &&& copiedBits = 0

/-- The step traps into M mode: on a fetch fault, before it executes its instruction, or with
an exception of its instruction that is not delegated. -/
def Cpu.TrapsToM (s : Cpu) : Prop :=
  (s.fetch = some none ∧ s.fetchFault.mTrap = true) ∨
    (∃ i, s.fetch = some (some i) ∧ i ≠ instEbreak ∧ s.trapsAtDecode i = true ∧
      (s.decided i).mTrap = true) ∨
    ∃ c, s.Raises c ∧ ((SyncCause.raised c).delegBit s.privilege).any s.medeleg = false

variable {s s' u : Cpu} {c c' : Csr → BitVec 32}

/-! ### Instructions -/

theorem shadowed_write (s : Cpu) (h : Shadowed s.csr) (r : Csr) (v : BitVec 32) :
    Shadowed (s.writeCsr r v).csr := by
  cases r with
  | sie => exact ⟨rfl, h.sip, h.sstatus⟩
  | mie => exact ⟨rfl, h.sip, h.sstatus⟩
  | sip => exact ⟨h.sie, rfl, h.sstatus⟩
  | mip => exact ⟨h.sie, rfl, h.sstatus⟩
  | sstatus => exact ⟨h.sie, h.sip, rfl⟩
  | mstatus => exact ⟨h.sie, h.sip, rfl⟩
  | _ => exact ⟨h.sie, h.sip, h.sstatus⟩

/-- **An instruction** keeps the copies right. -/
theorem CsrStep.shadowed (hstep : CsrStep c c') (h : Shadowed c) : Shadowed c' := by
  induction hstep with
  | refl c => exact h
  | write s r v => exact shadowed_write s h r v
  | raise s =>
    have hsip : setBit (s.csr .sip) seip = setBit (s.csr .mip) seip &&& sieMask := by
      rw [h.sip, setBit_and (by decide)]
    exact ⟨h.sie, hsip, h.sstatus⟩
  | complete s =>
    have hsip : clearBit (s.csr .sip) seip = clearBit (s.csr .mip) seip &&& sieMask := by
      rw [h.sip, clearBit_and]
    exact ⟨h.sie, hsip, h.sstatus⟩
  | trans _ _ ih ih' => exact ih' (ih h)

/-- An instruction does not set the bits that only a trap into M mode copies. -/
theorem CsrStep.copiedClear (hstep : CsrStep c c') (h : CopiedClear c) : CopiedClear c' := by
  induction hstep with
  | refl c => exact h
  | write s r v =>
    cases r with
    | sstatus => exact (maskWrite_and_of_disjoint (by decide) _ _).trans h
    | mstatus => exact (maskWrite_and_of_disjoint (by decide) _ _).trans h
    | _ => exact h
  | raise s => exact h
  | complete s => exact h
  | trans _ _ ih ih' => exact ih' (ih h)

/-! ### Status words -/

/-- The privilege of a trap fits into the field `MPP`. -/
theorem mppField_and (p : BitVec 8) :
    ((p &&& 3).setWidth 32 <<< 11) &&& mstatusMpp = (p &&& 3).setWidth 32 <<< 11 := by
  revert p
  decide +kernel

/-- The status word with `MPP` written and the other changes of a trap into M mode. -/
theorem trapMstatus_eq (m : BitVec 32) (p : BitVec 8) :
    trapMstatus m p = clearBit (copyBit (maskWrite mstatusMpp m ((p &&& 3).setWidth 32 <<< 11))
      mstatusMpie mstatusMie) mstatusMie := by
  rw [maskWrite, mppField_and]
  rfl

/-- A trap into M mode keeps the bits of the status word beside `MPP`, `MPIE` and `MIE`. -/
theorem trapMstatus_and {r : BitVec 32} (hmpp : mstatusMpp &&& r = 0)
    (hmpie : r.getLsbD mstatusMpie = false) (hmie : r.getLsbD mstatusMie = false)
    (m : BitVec 32) (p : BitVec 8) : trapMstatus m p &&& r = m &&& r := by
  rw [trapMstatus_eq, clearBit_and_of_not hmie, copyBit_and_of_not hmpie,
    maskWrite_and_of_disjoint hmpp]

theorem trapSstatus_and (x : BitVec 32) (p : BitVec 8) :
    trapSstatus x p &&& sstatusMask = trapSstatus (x &&& sstatusMask) p := by
  unfold trapSstatus
  dsimp only
  rw [clearBit_and, copyBit_and (by decide) (by decide)]
  split_ifs
  · rw [setBit_and (by decide)]
  · rw [clearBit_and]

/-- The two masks agree on a status word with the copied bits clear, exactly if the dropped
bits are clear too. -/
theorem trapStatusMask_iff {x : BitVec 32} (h : x &&& copiedBits = 0) :
    x &&& trapStatusMask = x &&& sstatusMask ↔ x &&& droppedBits = 0 := by
  have hcopied : trapStatusMask = 0x800DE122 ||| copiedBits := by decide
  have hdropped : sstatusMask = 0x800DE122 ||| droppedBits := by decide
  rw [hcopied, hdropped, BitVec.and_or_distrib_left, BitVec.and_or_distrib_left, h]
  constructor
  · intro heq
    apply BitVec.eq_of_getLsbD_eq
    intro k _
    have hbit := congrArg (fun m : BitVec 32 => m.getLsbD k) heq
    -- a dropped bit is none of those that both masks have
    have hdisjoint : (0x800DE122#32 &&& droppedBits).getLsbD k = (0#32).getLsbD k := by
      rw [show 0x800DE122#32 &&& droppedBits = 0#32 by decide]
    simp only [BitVec.getLsbD_or, BitVec.getLsbD_and, BitVec.getLsbD_zero, BitVec.ofNat_eq_ofNat]
      at hbit hdisjoint ⊢
    cases hd : droppedBits.getLsbD k
    · rw [Bool.and_false]
    · rw [hd, Bool.and_true] at hdisjoint
      rw [hd, hdisjoint] at hbit
      simpa using hbit.symm
  · intro hzero
    rw [hzero]

/-! ### Traps and returns -/

/-- **A trap into M mode** keeps the copies right exactly if it drops no bit. -/
theorem enterM_shadowed (h : Shadowed u.csr) (hclear : CopiedClear u.csr) (v : BitVec 32) :
    Shadowed (u.enterM v).csr ↔ u.csr .mstatus &&& droppedBits = 0 := by
  have hcopied : trapMstatus (u.csr .mstatus) u.privilege &&& copiedBits = 0 :=
    (trapMstatus_and (by decide) (by decide) (by decide) _ _).trans hclear
  have hdropped : trapMstatus (u.csr .mstatus) u.privilege &&& droppedBits
      = u.csr .mstatus &&& droppedBits :=
    trapMstatus_and (by decide) (by decide) (by decide) _ _
  rw [← hdropped, ← trapStatusMask_iff hcopied]
  exact ⟨fun hs => hs.sstatus, fun hs => ⟨h.sie, h.sip, hs⟩⟩

theorem enterM_copiedClear (hclear : CopiedClear u.csr) (v : BitVec 32) :
    CopiedClear (u.enterM v).csr :=
  (trapMstatus_and (by decide) (by decide) (by decide) _ _).trans hclear

/-- The supervisor status word has no bits outside its mask. -/
theorem Shadowed.sstatus_and (h : Shadowed c) : c .sstatus &&& sstatusMask = c .sstatus := by
  rw [h.sstatus, BitVec.and_assoc, BitVec.and_self]

theorem enterS_shadowed (h : Shadowed u.csr) (v : BitVec 32) : Shadowed (u.enterS v).csr := by
  have hsstatus : trapSstatus (u.csr .sstatus) u.privilege
      = maskWrite sstatusMask (u.csr .mstatus) (trapSstatus (u.csr .sstatus) u.privilege)
        &&& sstatusMask := by
    rw [maskWrite_and, trapSstatus_and, h.sstatus_and]
  exact ⟨h.sie, h.sip, hsstatus⟩

theorem enterS_copiedClear (hclear : CopiedClear u.csr) (v : BitVec 32) :
    CopiedClear (u.enterS v).csr :=
  (maskWrite_and_of_disjoint (by decide) _ _).trans hclear

theorem mret_shadowed (h : Shadowed u.csr) : Shadowed u.mret.csr := ⟨h.sie, h.sip, rfl⟩

theorem mret_copiedClear (hclear : CopiedClear u.csr) : CopiedClear u.mret.csr := by
  change (setBit (copyBit (u.csr .mstatus) mstatusMie mstatusMpie) mstatusMpie &&& ~~~mstatusMpp)
    &&& copiedBits = 0
  have hmask : ~~~mstatusMpp &&& copiedBits = copiedBits := by decide
  rw [BitVec.and_assoc, hmask, setBit_and_of_not (by decide), copyBit_and_of_not (by decide)]
  exact hclear

theorem sret_shadowed (h : Shadowed u.csr) : Shadowed u.sret.csr := by
  have hsstatus : clearBit (setBit (copyBit (u.csr .sstatus) mstatusSie mstatusSpie) mstatusSpie)
        mstatusSpp &&& sstatusMask
      = clearBit (setBit (copyBit (u.csr .sstatus) mstatusSie mstatusSpie) mstatusSpie)
        mstatusSpp := by
    rw [clearBit_and, setBit_and (by decide), copyBit_and (by decide) (by decide), h.sstatus_and]
  exact ⟨h.sie, h.sip, hsstatus.symm.trans (maskWrite_and _ _ _).symm⟩

theorem sret_copiedClear (hclear : CopiedClear u.csr) : CopiedClear u.sret.csr :=
  (maskWrite_and_of_disjoint (by decide) _ _).trans hclear

/-- **A call of `exception`** keeps the copies right, unless it traps into M mode with one of
the dropped bits set. -/
theorem handle_shadowed (h : Shadowed u.csr) (hclear : CopiedClear u.csr) (v : BitVec 32) :
    Shadowed (u.handle v).csr ↔
      (u.mTrap = true → u.csr .mstatus &&& droppedBits = 0) := by
  unfold Cpu.handle
  split_ifs with hmTrap
  · rw [enterM_shadowed h hclear]
    exact (imp_iff_right hmTrap).symm
  · exact iff_of_true (enterS_shadowed h v) fun h => absurd h hmTrap
  · exact iff_of_true (mret_shadowed h) fun h => absurd h hmTrap
  · exact iff_of_true (sret_shadowed h) fun h => absurd h hmTrap
  · exact iff_of_true h fun h => absurd h hmTrap

theorem handle_copiedClear (hclear : CopiedClear u.csr) (v : BitVec 32) :
    CopiedClear (u.handle v).csr := by
  unfold Cpu.handle
  split_ifs
  · exact enterM_copiedClear hclear v
  · exact enterS_copiedClear hclear v
  · exact mret_copiedClear hclear
  · exact sret_copiedClear hclear
  · exact hclear

/-! ### Steps -/

/-- The CSRs at the end of an instruction, before a call of `exception`. -/
theorem Execution.csr {flow : Flow} (h : Execution s flow) : CsrStep s.csr flow.cpu.csr := by
  cases h with
  | quiet hnone htime hu => exact hu.csr
  | illegal htime => exact .refl _
  | fault hfault ht htrap =>
    rw [ht.eq]
    cases dataFault s.instruction <;> exact .refl _
  | access haddr ht htrap hu =>
    have hcsr := hu.csr
    rw [ht.eq] at hcsr
    exact hcsr

/-- A step that calls `exception` in the state `u`. -/
theorem shadowed_of_exception (hagree : Agree Set.univ s u) (h : Shadowed s.csr)
    (hclear : CopiedClear s.csr) (htraps : s.TrapsToM ↔ u.mTrap = true) (v : BitVec 32) :
    (Shadowed (u.exception v).csr ↔ (s.TrapsToM → s.csr .mstatus &&& droppedBits = 0)) ∧
      CopiedClear (u.exception v).csr := by
  rw [← hagree.csr] at h hclear ⊢
  rw [htraps]
  exact ⟨handle_shadowed (u := { u with isException := true }) h hclear v,
    handle_copiedClear (u := { u with isException := true }) hclear v⟩

/-- A step that does not call it. -/
theorem shadowed_of_next (hstep : CsrStep s.csr u.csr) (h : Shadowed s.csr)
    (hclear : CopiedClear s.csr) (htraps : ¬ s.TrapsToM) :
    (Shadowed u.csr ↔ (s.TrapsToM → s.csr .mstatus &&& droppedBits = 0)) ∧
      CopiedClear u.csr :=
  ⟨iff_of_true (hstep.shadowed h) fun h => absurd h htraps, hstep.copiedClear hclear⟩

theorem trapsToM_of_fault (hfetch : s.fetch = some none) :
    s.TrapsToM ↔ s.fetchFault.mTrap = true := by
  constructor
  · rintro (⟨-, hm⟩ | ⟨i, hi, -⟩ | ⟨c, ⟨i, hi, -⟩, -⟩)
    · exact hm
    · rw [hfetch] at hi
      cases hi
    · have hi' := hi.1
      rw [hfetch] at hi'
      cases hi'
  · exact fun hm => .inl ⟨hfetch, hm⟩

theorem trapsToM_of_fetch {i : BitVec 32} (hfetch : s.fetch = some (some i)) :
    s.TrapsToM ↔
      (i ≠ instEbreak ∧ s.trapsAtDecode i = true ∧ (s.decided i).mTrap = true) ∨
        ∃ c, s.Raises c ∧ ((SyncCause.raised c).delegBit s.privilege).any s.medeleg = false := by
  rw [Cpu.TrapsToM, hfetch]
  simp

/-- **One step**, from a state with the copies right. -/
theorem riscv_shadowed (hstep : s.riscv = some s') (h : Shadowed s.csr)
    (hclear : CopiedClear s.csr) :
    (Shadowed s'.csr ↔ (s.TrapsToM → s.csr .mstatus &&& droppedBits = 0)) ∧
      CopiedClear s'.csr := by
  rcases Cpu.riscv_cases hstep with ⟨hfault, rfl⟩ | ⟨hfetch, rfl⟩ |
    ⟨i, hfetch, hi, hdecode, rfl⟩ | ⟨i, flow, hi, hflow, rfl⟩
  · exact shadowed_of_exception s.agree_fetchFault h hclear (trapsToM_of_fault hfault) _
  -- `ebreak` ends the run and writes nothing
  · have hcsr : CsrStep s.csr (s.fetched instEbreak).csr := by
      rw [(s.agree_fetched instEbreak).csr]
      exact .refl _
    refine shadowed_of_next hcsr h hclear ?_
    rw [trapsToM_of_fetch hfetch]
    rintro (⟨hnot, -⟩ | ⟨c, ⟨j, ⟨hj, hnot, -⟩, -⟩, -⟩)
    · exact hnot rfl
    · rw [hfetch] at hj
      exact hnot (Option.some.inj (Option.some.inj hj)).symm
  -- a trap or a return before anything is executed
  · have hagree : Agree Set.univ s (s.decided i).traceTrap := { s.agree_decided i with }
    refine shadowed_of_exception hagree h hclear ?_ 0
    rw [trapsToM_of_fetch hfetch]
    constructor
    · rintro (⟨-, -, hm⟩ | ⟨c, ⟨j, ⟨hj, -, hnot⟩, -⟩, -⟩)
      · exact hm
      · rw [hfetch] at hj
        obtain rfl := Option.some.inj (Option.some.inj hj)
        exact absurd hdecode hnot
    · exact fun hm => .inl ⟨hi, hdecode, hm⟩
  -- an instruction, which can raise an exception of its own
  · have htraps : s.TrapsToM ↔
        ∃ c, s.Raises c ∧ ((SyncCause.raised c).delegBit s.privilege).any s.medeleg = false := by
      rw [trapsToM_of_fetch hi.1]
      exact or_iff_right fun hdecode => hi.2.2 hdecode.2.1
    rcases executed_cases hi hflow with ⟨u, rfl, hnone⟩ | ⟨c, u, v, rfl, hc, hu⟩
    · have hcsr := (Execution.of_execute rfl hflow).csr
      rw [(s.agree_decided i).csr] at hcsr
      refine shadowed_of_next hcsr h hclear ?_
      rw [htraps]
      exact fun ⟨c, hc, _⟩ => hnone c hc
    · refine shadowed_of_exception hu.toAgree h hclear ?_ v
      rw [htraps, hu.mTrap_eq, Bool.not_eq_true']
      constructor
      · rintro ⟨c', hc', hbit⟩
        rwa [hc.unique hc']
      · exact fun hbit => ⟨c, hc, hbit⟩

/-! ### Runs -/

/-- What `init` sets of the fields that a run depends on. -/
theorem init_fields {prior : Cpu} {resetPc : BitVec 32} {image : BitVec 28 → BitVec 32}
    (hinit : prior.init resetPc image = some s) :
    s.csr = Function.update (fun _ => 0) .misa 0x40141103 ∧ s.privilege = 3 ∧
      s.reserveValid = false := by
  unfold Cpu.init at hinit
  obtain ⟨t₁, -, hinit⟩ := Option.bind_eq_some_iff.mp hinit
  obtain ⟨t₂, -, hinit⟩ := Option.bind_eq_some_iff.mp hinit
  obtain ⟨t₃, -, hinit⟩ := Option.bind_eq_some_iff.mp hinit
  obtain ⟨t₄, -, hinit⟩ := Option.bind_eq_some_iff.mp hinit
  obtain ⟨t₅, -, hinit⟩ := Option.bind_eq_some_iff.mp hinit
  obtain rfl := Option.some.inj hinit
  exact ⟨rfl, rfl, rfl⟩

/-- A run goes on with a step of its last state. -/
theorem riscvs_next {t : Cpu} {clock : ℕ → BitVec 64} {n : ℕ} (ht : s.riscvs clock n = some t)
    (hstep : t.riscv = some u) :
    s.riscvs clock (n + 1) = some { u with simTime := clock n } := by
  rw [Cpu.riscvs, ht, Option.bind_eq_bind, Option.bind_some, hstep]
  rfl

/-- The last step of a run. -/
theorem riscvs_succ {clock : ℕ → BitVec 64} {n : ℕ} (hu : s.riscvs clock (n + 1) = some u) :
    ∃ t t', s.riscvs clock n = some t ∧ t.riscv = some t' ∧ u = { t' with simTime := clock n } := by
  obtain ⟨t, ht, hu⟩ := Option.bind_eq_some_iff.mp hu
  obtain ⟨t', hstep, hu⟩ := Option.bind_eq_some_iff.mp hu
  exact ⟨t, t', ht, hstep, (Option.some.inj hu).symm⟩

/-- A run whose earlier states have the copies right keeps the copied bits clear. -/
theorem riscvs_copiedClear (hclear : CopiedClear s.csr) {clock : ℕ → BitVec 64} {n : ℕ}
    (hs : ∀ k < n, ∀ u, s.riscvs clock k = some u → Shadowed u.csr)
    (hu : s.riscvs clock n = some u) : CopiedClear u.csr := by
  induction n generalizing u with
  | zero =>
    obtain rfl := Option.some.inj hu
    exact hclear
  | succ n ih =>
    obtain ⟨t, t', ht, hstep, rfl⟩ := riscvs_succ hu
    have hprev := ih (fun k hk => hs k (by omega)) ht
    exact (riscv_shadowed hstep (hs n (by omega) t ht) hprev).2

/-- **The supervisor views along a run from reset**: they are right in all of its states
exactly if no step of it traps into M mode with `UIE` or `UPIE` set in `mstatus`. -/
theorem shadows_iff {prior : Cpu} {resetPc : BitVec 32} {image : BitVec 28 → BitVec 32}
    (hinit : prior.init resetPc image = some s) (clock : ℕ → BitVec 64) (n : ℕ) :
    (∀ k ≤ n, ∀ u, s.riscvs clock k = some u → Shadowed u.csr) ↔
      ∀ k < n, ∀ u, s.riscvs clock k = some u → u.riscv.isSome = true → u.TrapsToM →
        u.csr .mstatus &&& droppedBits = 0 := by
  have hcsr := (init_fields hinit).1
  have hclear : CopiedClear s.csr := by
    rw [hcsr]
    rfl
  have hstart : Shadowed s.csr := by
    rw [hcsr]
    exact ⟨rfl, rfl, rfl⟩
  constructor
  -- a step that traps into M mode keeps the views only without the dropped bits
  · intro hs k hk u hu hsome htraps
    obtain ⟨u', hstep⟩ := Option.isSome_iff_exists.mp hsome
    have hnext := riscvs_next hu hstep
    have hprev := riscvs_copiedClear hclear (fun j hj => hs j (by omega)) hu
    have hshadowed := riscv_shadowed hstep (hs k (by omega) u hu) hprev
    have hafter : Shadowed u'.csr := hs (k + 1) hk { u' with simTime := clock k } hnext
    exact hshadowed.1.mp hafter htraps
  -- from reset, by strong induction: a step also needs the states before it
  · intro htraps k
    induction k using Nat.strongRecOn with
    | ind k ih =>
      intro hk u hu
      cases k with
      | zero =>
        obtain rfl := Option.some.inj hu
        exact hstart
      | succ k =>
        obtain ⟨t, t', ht, hstep, rfl⟩ := riscvs_succ hu
        have hprev := riscvs_copiedClear hclear
          (fun j hj => ih j (by omega) (by omega)) ht
        have hshadowed := riscv_shadowed hstep (ih k (by omega) (by omega) t ht) hprev
        refine hshadowed.1.mpr fun hm => ?_
        exact htraps k hk t ht (by rw [hstep]; rfl) hm

/-- A program that sets `SIE` and makes an environment call, in M mode. -/
def sieProgram (i : BitVec 28) : BitVec 32 := if i = 0 then 0x30016073 else instEcall

/-- The call finds no bit in `mstatus` that `sstatus` would not show. -/
theorem shadows_iff_sie :
    ∃ s, Cpu.zero.init kRamBase sieProgram = some s ∧
      ∀ k ≤ 2, ∀ u, s.riscvs (fun _ => 0) k = some u → Shadowed u.csr := by
  have hinit : (Cpu.zero.init kRamBase sieProgram).isSome = true := by decide +kernel
  have hclear : ∀ k < 2, (((Cpu.zero.init kRamBase sieProgram).bind
      (Cpu.riscvs · (fun _ => 0) k)).all fun u => u.csr .mstatus &&& droppedBits == 0) = true := by
    decide +kernel
  obtain ⟨s, hs⟩ := Option.isSome_iff_exists.mp hinit
  refine ⟨s, hs, (shadows_iff hs _ 2).mpr fun k hk u hu _ _ => ?_⟩
  have htest := hclear k hk
  rwa [hs, Option.bind_some, hu, Option.all_some, beq_iff_eq] at htest

/-- A program that sets `UIE` and makes an environment call, in M mode. -/
def uieProgram (i : BitVec 28) : BitVec 32 := if i = 0 then 0x3000E073 else instEcall

/-- After the call `mstatus` has a bit that `sstatus` does not show. -/
theorem sstatus_drifts :
    ∃ s u, Cpu.zero.init kRamBase uieProgram = some s ∧ s.riscvs (fun _ => 0) 2 = some u ∧
      ¬ Shadowed u.csr := by
  have hrun : ((Cpu.zero.init kRamBase uieProgram).bind (Cpu.riscvs · (fun _ => 0) 2)).map
      (fun u => (u.csr .sstatus, u.csr .mstatus)) = some (0, 0x1801) := by
    decide +kernel
  obtain ⟨u, hu, hstatus⟩ := Option.map_eq_some_iff.mp hrun
  obtain ⟨s, hs, hu⟩ := Option.bind_eq_some_iff.mp hu
  obtain ⟨hsstatus, hmstatus⟩ := Prod.mk.inj hstatus
  refine ⟨s, u, hs, hu, fun h => ?_⟩
  have hshadow := h.sstatus
  rw [hsstatus, hmstatus] at hshadow
  exact absurd hshadow (by decide)

end TraceSim.Ref
