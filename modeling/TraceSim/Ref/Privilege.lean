/-
TraceSim/Ref/Privilege.lean

The privilege along a run.

A step keeps the privilege, enters a trap, or returns from one.  The returns take the
privilege from a field of a status word, whatever software has written there, and in
any mode: `mret` can lead to the reserved privilege 2, and it can raise the privilege.
-/
import TraceSim.Ref.TrapReturn

namespace TraceSim.Ref

namespace Cpu

variable (s s' : Cpu)

/-- The step entered M mode by a trap. -/
structure EntersM : Prop where
  privilege : s'.privilege = 3
  mepc : s'.csr .mepc = s.pc
  pc : s'.pc = trapPc (s'.csr .mtvec) (s'.csr .mcause)

/-- The step entered S mode by a trap. -/
structure EntersS : Prop where
  privilege : s'.privilege = 1
  sepc : s'.csr .sepc = s.pc
  pc : s'.pc = trapPc (s'.csr .stvec) (s'.csr .scause)

/-- The step fetches the instruction and takes no trap. -/
def Returns (i : BitVec 32) : Prop :=
  s.fetch = some (some i) ∧ (s.decided i).mTrap = false ∧ (s.decided i).sTrap = false

/-- The step executed `mret`. -/
structure ReturnsM : Prop where
  returns : s.Returns instMret
  privilege : s'.privilege = (getMpp (s.csr .mstatus)).setWidth 8
  pc : s'.pc = s.csr .mepc

/-- The step executed `sret`. -/
structure ReturnsS : Prop where
  returns : s.Returns instSret
  privilege : s'.privilege = (getSpp (s.csr .sstatus)).setWidth 8
  pc : s'.pc = s.csr .sepc

/-- What a step can do to the privilege. -/
inductive PrivilegeStep : Prop
  | keeps (h : s'.privilege = s.privilege)
  | entersM (h : s.EntersM s')
  | entersS (h : s.EntersS s')
  | returnsM (h : s.ReturnsM s')
  | returnsS (h : s.ReturnsS s')

/-- The privileges of U, S and M mode. -/
def LegalPrivilege : Prop := s.privilege = 0 ∨ s.privilege = 1 ∨ s.privilege = 3

/-- The step executes `mret` with the reserved value 2 in `MPP`. -/
def ReturnsReserved : Prop := s.Returns instMret ∧ getMpp (s.csr .mstatus) = 2

end Cpu

variable {s s' u : Cpu}

/-! ### Calls of `exception` -/

theorem entersM_of_mTrap (h : Agree Set.univ s u) (hm : u.mTrap = true) (v : BitVec 32) :
    s.EntersM (u.exception v) := by
  rw [exception_of_mTrap hm]
  refine ⟨rfl, ?_, ?_⟩
  · rw [← h.pc]
    simp only [Cpu.enterM, Cpu.setCsr, ne_eq, reduceCtorEq, not_false_eq_true,
      Function.update_of_ne, Function.update_self]
  · simp only [Cpu.enterM, Cpu.setCsr, ne_eq, reduceCtorEq, not_false_eq_true,
      Function.update_of_ne, Function.update_self]

theorem entersS_of_sTrap (h : Agree Set.univ s u) (hm : u.mTrap = false) (hs : u.sTrap = true)
    (v : BitVec 32) : s.EntersS (u.exception v) := by
  rw [exception_of_sTrap hm hs]
  refine ⟨rfl, ?_, ?_⟩
  · rw [← h.pc]
    simp only [Cpu.enterS, Cpu.setCsr, ne_eq, reduceCtorEq, not_false_eq_true,
      Function.update_of_ne, Function.update_self]
  · simp only [Cpu.enterS, Cpu.setCsr, ne_eq, reduceCtorEq, not_false_eq_true,
      Function.update_of_ne, Function.update_self]

/-- A call with a reason for a trap enters it. -/
theorem privilegeStep_of_trap (h : Agree Set.univ s u) (htrap : u.mTrap = true ∨ u.sTrap = true)
    (v : BitVec 32) : s.PrivilegeStep (u.exception v) := by
  cases hm : u.mTrap with
  | true => exact .entersM (entersM_of_mTrap h hm v)
  | false =>
    rw [hm] at htrap
    exact .entersS (entersS_of_sTrap h hm (htrap.resolve_left Bool.false_ne_true) v)

/-- `mret` takes the field `MPP`, which the restored interrupt enable is no part of. -/
theorem mret_privilege (u : Cpu) :
    u.mret.privilege = (getMpp (u.csr .mstatus)).setWidth 8 := by
  change (getMpp (copyBit (u.csr .mstatus) mstatusMie mstatusMpie)).setWidth 8 = _
  rw [getMpp_eq, getMpp_eq, copyBit_and_of_not (by decide)]

/-- `sret` takes the field `SPP`. -/
theorem sret_privilege (u : Cpu) :
    u.sret.privilege = (getSpp (u.csr .sstatus)).setWidth 8 := by
  change (getSpp (copyBit (u.csr .sstatus) mstatusSie mstatusSpie)).setWidth 8 = _
  have hne : mstatusSie ≠ mstatusSpp := by decide
  rw [getSpp_eq, getSpp_eq, getLsbD_copyBit _ (by decide), if_neg hne]

/-- A call with nothing to do moves on. -/
theorem exception_of_no_trap (hm : u.mTrap = false) (hs : u.sTrap = false)
    (hmret : u.instruction ≠ instMret) (hsret : u.instruction ≠ instSret) (v : BitVec 32) :
    u.exception v = { u with isException := true, pc := u.pc + 4 } := by
  have hm' : ({ u with isException := true } : Cpu).mTrap = false := hm
  have hs' : ({ u with isException := true } : Cpu).sTrap = false := hs
  rw [Cpu.exception, Cpu.handle, hm', hs']
  exact (if_neg hmret).trans (if_neg hsret)

/-- A call before the instruction is executed: a trap, a return, or an environment call that
no mode takes. -/
theorem privilegeStep_of_decode {i : BitVec 32} (hfetch : s.fetch = some (some i)) :
    s.PrivilegeStep ((s.decided i).trapNow 0) := by
  have hagree : Agree Set.univ s (s.decided i).traceTrap := { s.agree_decided i with }
  by_cases htrap : (s.decided i).traceTrap.mTrap = true ∨ (s.decided i).traceTrap.sTrap = true
  · exact privilegeStep_of_trap hagree htrap 0
  · rw [not_or, Bool.not_eq_true, Bool.not_eq_true] at htrap
    obtain ⟨hm, hs⟩ := htrap
    by_cases hmret : i = instMret
    · subst hmret
      have hreturn := exception_of_mret ⟨hm, hs, rfl⟩ 0
      refine .returnsM ⟨⟨hfetch, hm, hs⟩, ?_, ?_⟩
      · rw [Cpu.trapNow, hreturn, mret_privilege, ← hagree.csr]
      · rw [Cpu.trapNow, hreturn, ← hagree.csr]
        rfl
    · by_cases hsret : i = instSret
      · subst hsret
        have hreturn := exception_of_sret ⟨hm, hs, rfl⟩ 0
        refine .returnsS ⟨⟨hfetch, hm, hs⟩, ?_, ?_⟩
        · rw [Cpu.trapNow, hreturn, sret_privilege, ← hagree.csr]
        · rw [Cpu.trapNow, hreturn, ← hagree.csr]
          rfl
      · have hmove := exception_of_no_trap hm hs hmret hsret 0
        apply Cpu.PrivilegeStep.keeps
        rw [Cpu.trapNow, hmove]
        exact hagree.privilege

/-! ### Steps -/

/-- **The privilege in one step.** -/
theorem riscv_privilegeStep (h : s.riscv = some s') : s.PrivilegeStep s' := by
  rcases Cpu.riscv_cases h with ⟨hfault, rfl⟩ | ⟨hfetch, rfl⟩ | ⟨i, hfetch, -, hdecode, rfl⟩ |
    ⟨i, flow, hi, hflow, rfl⟩
  -- the flag of the fetch fault is a reason for a trap, delegated or not
  · exact privilegeStep_of_trap s.agree_fetchFault (fetchFault_trap s) _
  · exact .keeps (s.agree_fetched instEbreak).privilege
  · exact privilegeStep_of_decode hfetch
  · rcases executed_cases hi hflow with ⟨u, rfl, -⟩ | ⟨c, u, v, rfl, -, hu⟩
    · have hpriv := (Execution.of_execute rfl hflow).frame.privilege
      exact .keeps (hpriv.trans (s.agree_decided i).privilege)
    -- what `finish` does to the registers and the trace is not looked at
    · cases privilegeStep_of_trap hu.toAgree hu.trap v with
      | keeps h => exact .keeps h
      | entersM h => exact .entersM ⟨h.privilege, h.mepc, h.pc⟩
      | entersS h => exact .entersS ⟨h.privilege, h.sepc, h.pc⟩
      | returnsM h => exact .returnsM ⟨h.returns, h.privilege, h.pc⟩
      | returnsS h => exact .returnsS ⟨h.returns, h.privilege, h.pc⟩

/-- A step that fetches `mret` and takes no trap executes it. -/
theorem riscv_of_mret (h : s.Returns instMret) :
    ∃ s', s.riscv = some s' ∧ s'.privilege = (getMpp (s.csr .mstatus)).setWidth 8 := by
  obtain ⟨hfetch, hm, hs⟩ := h
  have hasy : (s.decided instMret).asy = true := by
    change (s.decided instMret).decodeAsy = true
    rw [Cpu.decodeAsy, show (s.decided instMret).instruction = instMret from rfl]
    simp
  have hdecode : s.trapsAtDecode instMret = true := by
    rw [Cpu.trapsAtDecode, hasy, Bool.true_or]
  have hagree : Agree Set.univ s (s.decided instMret).traceTrap :=
    { s.agree_decided instMret with }
  refine ⟨(s.decided instMret).trapNow 0, ?_, ?_⟩
  · rw [Cpu.riscv_of_fetch hfetch, Cpu.decode_decided (by decide), if_neg (by rw [hasy]; decide),
      if_pos hdecode]
  · have hreturn := exception_of_mret (w := (s.decided instMret).traceTrap) ⟨hm, hs, rfl⟩ 0
    rw [Cpu.trapNow, hreturn, mret_privilege, ← hagree.csr]

/-- The values of the two fields as privileges. -/
theorem getSpp_privilege (x : BitVec 32) :
    (getSpp x).setWidth 8 = 0 ∨ (getSpp x).setWidth 8 = 1 := by
  rw [getSpp_eq]
  split_ifs
  · exact .inr rfl
  · exact .inl rfl

theorem getMpp_privilege (x : BitVec 32) :
    ((getMpp x).setWidth 8 = 0#8 ∨ (getMpp x).setWidth 8 = 1#8 ∨ (getMpp x).setWidth 8 = 3#8)
      ↔ getMpp x ≠ 2 := by
  have hcases : getMpp x = 0 ∨ getMpp x = 1 ∨ getMpp x = 2 ∨ getMpp x = 3 := by
    have hle : (getMpp x).toNat ≤ 3 := by
      rw [getMpp, BitVec.toNat_and]
      exact Nat.and_le_right
    bv_omega
  rcases hcases with h | h | h | h <;> rw [h] <;> decide

/-- A step from a legal privilege leads to one, unless it returns to the reserved one. -/
theorem legalPrivilege_step (hs : s.LegalPrivilege) (h : s.riscv = some s')
    (hreturn : ¬ s.ReturnsReserved) : s'.LegalPrivilege := by
  cases riscv_privilegeStep h with
  | keeps h => rwa [Cpu.LegalPrivilege, h]
  | entersM h => exact .inr (.inr h.privilege)
  | entersS h => exact .inr (.inl h.privilege)
  | returnsM h =>
    rw [Cpu.LegalPrivilege, h.privilege]
    exact (getMpp_privilege _).mpr fun hmpp => hreturn ⟨h.returns, hmpp⟩
  | returnsS h =>
    rw [Cpu.LegalPrivilege, h.privilege]
    exact (getSpp_privilege _).imp_right .inl

/-- A step that raises the privilege. -/
theorem raises_privilege (h : s.riscv = some s') (hraise : s.privilege < s'.privilege) :
    s.EntersM s' ∨ s.EntersS s' ∨ s.ReturnsM s' ∨ s.ReturnsS s' := by
  cases riscv_privilegeStep h with
  | keeps h =>
    rw [h] at hraise
    exact absurd hraise (BitVec.lt_irrefl _)
  | entersM h => exact .inl h
  | entersS h => exact .inr (.inl h)
  | returnsM h => exact .inr (.inr (.inl h))
  | returnsS h => exact .inr (.inr (.inr h))

/-! ### Runs -/

/-- **The privilege along a run from reset**: it is that of U, S or M mode in all of its
states exactly if no step of it executes `mret` with the reserved value in `MPP`, and it is
raised by traps and returns only. -/
theorem privilege_run {prior : Cpu} {resetPc : BitVec 32} {image : BitVec 28 → BitVec 32}
    (hinit : prior.init resetPc image = some s) (clock : ℕ → BitVec 64) (n : ℕ) :
    ((∀ k ≤ n, ∀ u, s.riscvs clock k = some u → u.LegalPrivilege) ↔
        ∀ k < n, ∀ u, s.riscvs clock k = some u → ¬ u.ReturnsReserved) ∧
      ∀ u u', s.riscvs clock n = some u → u.riscv = some u' → u.privilege < u'.privilege →
        u.EntersM u' ∨ u.EntersS u' ∨ u.ReturnsM u' ∨ u.ReturnsS u' := by
  refine ⟨⟨fun hlegal k hk u hu hreturn => ?_, fun hreturn k => ?_⟩,
    fun u u' _ hstep hraise => raises_privilege hstep hraise⟩
  · obtain ⟨u', hstep, hpriv⟩ := riscv_of_mret hreturn.1
    have hafter : u'.LegalPrivilege :=
      hlegal (k + 1) hk { u' with simTime := clock k } (riscvs_next hu hstep)
    rw [Cpu.LegalPrivilege, hpriv] at hafter
    exact (getMpp_privilege _).mp hafter hreturn.2
  · induction k with
    | zero =>
      intro _ u hu
      obtain rfl := Option.some.inj hu
      exact .inr (.inr (init_fields hinit).2.1)
    | succ k ih =>
      intro hk u hu
      obtain ⟨t, t', ht, hstep, rfl⟩ := riscvs_succ hu
      have hlegal : t'.LegalPrivilege :=
        legalPrivilege_step (ih (by omega) t ht) hstep (hreturn k hk t ht)
      exact hlegal

/-- A program that returns to U mode and calls the environment: `auipc x1, 0`,
`addi x1, x1, 16`, `csrrw x0, mepc, x1`, `mret` and `ecall`. -/
def callProgram (i : BitVec 28) : BitVec 32 :=
  if i = 0 then 0x00000097 else if i = 1 then 0x01008093 else if i = 2 then 0x34109073
  else if i = 3 then instMret else instEcall

/-- The call raises the privilege, and nothing before it leads to a reserved one. -/
theorem privilege_run_call :
    ∃ s u u', Cpu.zero.init kRamBase callProgram = some s ∧
      s.riscvs (fun _ => 0) 4 = some u ∧ u.riscv = some u' ∧ u.privilege < u'.privilege ∧
      (∀ k ≤ 4, ∀ u, s.riscvs (fun _ => 0) k = some u → u.LegalPrivilege) ∧
      (u.EntersM u' ∨ u.EntersS u' ∨ u.ReturnsM u' ∨ u.ReturnsS u') := by
  have hrun : ((Cpu.zero.init kRamBase callProgram).bind fun s =>
      (s.riscvs (fun _ => 0) 4).bind fun u => u.riscv.map fun u' => (u.privilege, u'.privilege))
        = some (0, 3) := by
    decide +kernel
  have hmpp : ∀ k < 4, (((Cpu.zero.init kRamBase callProgram).bind
      (Cpu.riscvs · (fun _ => 0) k)).all fun u => getMpp (u.csr .mstatus) != 2) = true := by
    decide +kernel
  obtain ⟨s, hs, hrun⟩ := Option.bind_eq_some_iff.mp hrun
  obtain ⟨u, hu, hrun⟩ := Option.bind_eq_some_iff.mp hrun
  obtain ⟨u', hu', hpriv⟩ := Option.map_eq_some_iff.mp hrun
  obtain ⟨hpriv, hpriv'⟩ := Prod.mk.inj hpriv
  have hraise : u.privilege < u'.privilege := by
    rw [hpriv, hpriv']
    decide
  obtain ⟨hlegal, hraises⟩ := privilege_run hs (fun _ => 0) 4
  refine ⟨s, u, u', hs, hu, hu', hraise, hlegal.mpr fun k hk v hv hreturn => ?_,
    hraises u u' hu hu' hraise⟩
  have htest := hmpp k hk
  rw [hs, Option.bind_some, hv, Option.all_some, bne_iff_ne] at htest
  exact htest hreturn.2

/-- A program that writes 2 to `MPP` and returns: `lui x1, 1`, `csrrw x0, mstatus, x1` and
`mret`. -/
def reservedProgram (i : BitVec 28) : BitVec 32 :=
  if i = 0 then 0x000010B7 else if i = 1 then 0x30009073 else instMret

/-- A program that goes to U mode, writes 3 to `MPP` and returns: `auipc x2, 0`,
`addi x2, x2, 16`, `csrrw x0, mepc, x2` and `mret`, and then `lui x1, 2`,
`addi x1, x1, -2048`, `csrrw x0, mstatus, x1` and `mret`. -/
def raisingProgram (i : BitVec 28) : BitVec 32 :=
  let code : List (BitVec 32) :=
    [0x00000117, 0x01010113, 0x34111073, instMret, 0x000020B7, 0x80008093, 0x30009073]
  code.getD i.toNat instMret

/-- A run that gets to the privilege 2, and one in which U mode gets to M mode with no
trap. -/
theorem privilege_unguarded :
    (∃ s u, Cpu.zero.init kRamBase reservedProgram = some s ∧
      s.riscvs (fun _ => 0) 3 = some u ∧ ¬ u.LegalPrivilege) ∧
    ∃ s u u', Cpu.zero.init kRamBase raisingProgram = some s ∧
      s.riscvs (fun _ => 0) 7 = some u ∧ u.riscv = some u' ∧ u.privilege < u'.privilege ∧
      ¬ u.EntersM u' ∧ ¬ u.EntersS u' := by
  constructor
  · have hrun : ((Cpu.zero.init kRamBase reservedProgram).bind
        (Cpu.riscvs · (fun _ => 0) 3)).map (fun u => u.privilege) = some 2 := by
      decide +kernel
    obtain ⟨u, hu, hpriv⟩ := Option.map_eq_some_iff.mp hrun
    obtain ⟨s, hs, hu⟩ := Option.bind_eq_some_iff.mp hu
    refine ⟨s, u, hs, hu, ?_⟩
    rw [Cpu.LegalPrivilege, hpriv]
    decide
  · have hrun : ((Cpu.zero.init kRamBase raisingProgram).bind fun s =>
        (s.riscvs (fun _ => 0) 7).bind fun u => u.riscv.map fun u' =>
          (u.privilege, u.pc, u'.privilege, u'.csr .mepc))
          = some (0, 0x8000001C, 3, 0x80000010) := by
      decide +kernel
    obtain ⟨s, hs, hrun⟩ := Option.bind_eq_some_iff.mp hrun
    obtain ⟨u, hu, hrun⟩ := Option.bind_eq_some_iff.mp hrun
    obtain ⟨u', hu', hfields⟩ := Option.map_eq_some_iff.mp hrun
    simp only [Prod.mk.injEq] at hfields
    obtain ⟨hpriv, hpc, hpriv', hmepc⟩ := hfields
    refine ⟨s, u, u', hs, hu, hu', ?_, fun h => ?_, fun h => ?_⟩
    · rw [hpriv, hpriv']
      decide
    -- `mepc` still holds the target of the first return
    · have hentry := h.mepc
      rw [hmepc, hpc] at hentry
      exact absurd hentry (by decide)
    · have hentry := h.privilege
      rw [hpriv'] at hentry
      exact absurd hentry (by decide)

end TraceSim.Ref
