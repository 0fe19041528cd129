/-
TraceSim/Ref/Precise.lean

Synchronous exceptions are precise.

An exception is decided on from the state before the step: by the fetch, the
instruction and the translation of the address of its data access (`SyncException`).
Whatever raises it, `exception` is called with the architectural state of the start of
the step, and writes the pc, the privilege and the CSRs of the trap only.
-/
import TraceSim.Ref.Leftovers

namespace TraceSim.Ref

/-- The synchronous exceptions. -/
inductive SyncCause
  | fetchFault
  | ecall
  | raised (c : Raised)
  deriving DecidableEq, Repr

namespace Cpu

variable (s : Cpu)

/-- The step executes an instruction that raises the exception. -/
def Raises (c : Raised) : Prop :=
  ∃ i, s.Executes i ∧
    (accessesTime i ∧ c = .illegal ∨ s.dataTranslation i = some none ∧ c = dataFault i)

/-- The step has the synchronous exception. -/
def SyncException : SyncCause → Prop
  | .fetchFault => s.fetch = some none
  | .ecall => s.fetch = some (some instEcall)
  | .raised c => s.Raises c

end Cpu

variable {s s' u : Cpu}

/-! ### What `exception` finds -/

/-- An instruction has raised an exception: the architectural state is that of the start of
the step, and the flag of the exception is the only reason for a trap. -/
structure Faulted (s : Cpu) (c : Raised) (u : Cpu) : Prop extends Agree Set.univ s u where
  anyM : u.interrupts.anyM = false
  anyS : u.interrupts.anyS = false
  isEcall : u.isEcall = false
  pageFaultInst : u.pageFaultInst = false
  pageFaultLoad : u.pageFaultLoad = decide (c = .loadFault)
  pageFaultStore : u.pageFaultStore = decide (c = .storeFault)
  illegalException : u.illegalException = decide (c = .illegal)

/-- A step that executes its instruction has no interrupt to take. -/
theorem Cpu.Executes.no_interrupt {i : BitVec 32} (h : s.Executes i) :
    (s.decided i).interrupts.anyM = false ∧ (s.decided i).interrupts.anyS = false ∧
      (s.decided i).isEcall = false := by
  obtain ⟨-, -, htrap⟩ := h
  rw [Cpu.trapsAtDecode, Bool.or_eq_true, not_or, decide_eq_true_eq] at htrap
  obtain ⟨hasy, hecall⟩ := htrap
  have hasy' : (s.decided i).decodeAsy = false := Bool.eq_false_iff.mpr hasy
  simp only [Cpu.decodeAsy, Cpu.decodeMTrap, Cpu.decodeSTrap, Bool.or_eq_false_iff] at hasy'
  exact ⟨hasy'.1.1.1.1.1.1, hasy'.1.1.2.1.1, decide_eq_false hecall⟩

/-- The state with its flag raised, if nothing else is a reason for a trap. -/
theorem faulted_raise {i : BitVec 32} (hi : s.Executes i) (t : TraceInst) (c : Raised) :
    Faulted s c ({ s.decided i with currentTrace := t }.raise c) := by
  obtain ⟨hanyM, hanyS, hecall⟩ := hi.no_interrupt
  have hagree := s.agree_decided i
  cases c with
  | loadFault =>
    exact { hagree with
      anyM := hanyM, anyS := hanyS, isEcall := hecall
      pageFaultInst := rfl, pageFaultLoad := rfl, pageFaultStore := rfl
      illegalException := rfl }
  | storeFault =>
    exact { hagree with
      anyM := hanyM, anyS := hanyS, isEcall := hecall
      pageFaultInst := rfl, pageFaultLoad := rfl, pageFaultStore := rfl
      illegalException := rfl }
  | illegal =>
    exact { hagree with
      anyM := hanyM, anyS := hanyS, isEcall := hecall
      pageFaultInst := rfl, pageFaultLoad := rfl, pageFaultStore := rfl
      illegalException := rfl }

theorem Cpu.Raises.unique {c c' : Raised} (h : s.Raises c) (h' : s.Raises c') : c = c' := by
  obtain ⟨i, hi, hcause⟩ := h
  obtain ⟨j, hj, hcause'⟩ := h'
  obtain rfl := hi.unique hj
  rcases hcause with ⟨htime, rfl⟩ | ⟨hfault, rfl⟩
  · rcases hcause' with ⟨-, rfl⟩ | ⟨hfault', -⟩
    · rfl
    · rw [dataTranslation_of_accessesTime htime] at hfault'
      cases hfault'
  · rcases hcause' with ⟨htime', -⟩ | ⟨-, rfl⟩
    · rw [dataTranslation_of_accessesTime htime'] at hfault
      cases hfault
    · rfl

/-- **An executed instruction** raises no exception, or it calls `exception` with nothing
done. -/
theorem executed_cases {i : BitVec 32} {flow : Flow} (hi : s.Executes i)
    (hflow : (s.decided i).execute = some flow) :
    (∃ u, flow = .next u ∧ ∀ c, ¬ s.Raises c) ∨
      ∃ c u v, flow = .trap u v ∧ s.Raises c ∧ Faulted s c u := by
  have htranslate : (s.decided i).dataTranslation (s.decided i).instruction
      = s.dataTranslation i := (s.agree_decided i).dataTranslation i
  -- the four ways an instruction can end
  cases Execution.of_execute rfl hflow with
  | @quiet u hnone htime hu =>
    refine .inl ⟨u, rfl, fun c ⟨j, hj, hcause⟩ => ?_⟩
    obtain rfl := hi.unique hj
    rcases hcause with ⟨htime', -⟩ | ⟨hfault, -⟩
    · exact htime htime'
    · rw [htranslate, hfault] at hnone
      cases hnone
  | illegal htime =>
    exact .inr ⟨_, _, _, rfl, ⟨i, hi, .inl ⟨htime, rfl⟩⟩, faulted_raise hi _ .illegal⟩
  | fault hfault ht hmark =>
    rw [htranslate] at hfault
    rw [ht.eq]
    exact .inr ⟨_, _, _, rfl, ⟨i, hi, .inr ⟨hfault, rfl⟩⟩, faulted_raise hi _ (dataFault i)⟩
  | @access pAddr t u haddr ht hmark hu =>
    rw [htranslate] at haddr
    refine .inl ⟨u, rfl, fun c ⟨j, hj, hcause⟩ => ?_⟩
    obtain rfl := hi.unique hj
    rcases hcause with ⟨htime, -⟩ | ⟨hfault, -⟩
    · rw [dataTranslation_of_accessesTime htime] at haddr
      cases haddr
    · rw [hfault] at haddr
      cases haddr

theorem riscv_of_raises {c : Raised} (h : s.riscv = some s') (hc : s.Raises c) :
    ∃ u v, Faulted s c u ∧ s' = (u.exception v).finish := by
  obtain ⟨i, hi, -⟩ := id hc
  obtain ⟨flow, hflow, rfl⟩ := Cpu.riscv_executed h hi
  rcases executed_cases hi hflow with ⟨u, -, hnone⟩ | ⟨c', u, v, rfl, hc', hu⟩
  · exact absurd hc (hnone c)
  · obtain rfl := hc.unique hc'
    exact ⟨u, v, hu, rfl⟩

/-- The flag that is raised is a reason for a trap. -/
theorem Faulted.trap {c : Raised} (h : Faulted s c u) : u.mTrap = true ∨ u.sTrap = true := by
  rw [Cpu.mTrap, Cpu.sTrap, h.pageFaultLoad, h.pageFaultStore, h.illegalException]
  cases c with
  | loadFault => cases u.medeleg medelegPageFaultLoad <;> simp
  | storeFault => cases u.medeleg medelegPageFaultStore <;> simp
  | illegal => simp

/-! ### What a trap writes -/

/-- The registers that a trap into M mode writes. -/
def mTrapCsrs : List Csr := [.mstatus, .sstatus, .mepc, .mcause, .mtval]

/-- The registers that a trap into S mode writes. -/
def sTrapCsrs : List Csr := [.mstatus, .sstatus, .sepc, .scause, .stval]

/-- A trap with the pc `pc`: it goes to M or to S mode, and keeps the other CSRs. -/
def TrapsWith (s s' : Cpu) : Prop :=
  (s'.privilege = 3 ∧ s'.csr .mepc = s.pc ∧ ∀ r, r ∉ mTrapCsrs → s'.csr r = s.csr r) ∨
    (s'.privilege = 1 ∧ s'.csr .sepc = s.pc ∧ ∀ r, r ∉ sTrapCsrs → s'.csr r = s.csr r)

/-- **A trap is precise**, and changes no register and no memory. -/
theorem exception_trapsWith (h : s.mTrap = true ∨ s.sTrap = true) (v : BitVec 32) :
    TrapsWith s (s.exception v) := by
  by_cases hm : s.mTrap = true
  · rw [exception_of_mTrap hm]
    refine .inl ⟨rfl, ?_, fun r hr => ?_⟩
    · simp [Cpu.enterM, Cpu.setCsr]
    · simp only [mTrapCsrs, List.mem_cons, List.not_mem_nil, or_false, not_or] at hr
      simp [Cpu.enterM, Cpu.setCsr, hr]
  · rw [exception_of_sTrap (Bool.eq_false_iff.mpr hm) (h.resolve_left hm)]
    refine .inr ⟨rfl, ?_, fun r hr => ?_⟩
    · simp [Cpu.enterS, Cpu.setCsr]
    · simp only [sTrapCsrs, List.mem_cons, List.not_mem_nil, or_false, not_or] at hr
      simp [Cpu.enterS, Cpu.setCsr, hr]

/-! ### All exceptions -/

/-- The states agree on what an exception may not change. -/
structure Untouched (s s' : Cpu) : Prop where
  gpr : s'.gpr = s.gpr
  memory : s'.memory = s.memory
  ioWords : s'.ioWords = s.ioWords
  reserveValid : s'.reserveValid = s.reserveValid
  reserveAddr : s'.reserveAddr = s.reserveAddr

/-- A call of `exception` in the architectural state of the start of the step. -/
theorem precise_exception (hagree : Agree Set.univ s u)
    (htrap : u.mTrap = true ∨ u.sTrap = true) (v : BitVec 32) :
    Untouched s (u.exception v) ∧ TrapsWith s (u.exception v) := by
  have hwith := exception_trapsWith htrap v
  rw [TrapsWith, hagree.pc, hagree.csr] at hwith
  refine ⟨?_, hwith⟩
  rw [exception_frame]
  exact
    { gpr := funext fun r => hagree.gpr r (Set.mem_univ r)
      memory := hagree.memory
      ioWords := hagree.ioWords
      reserveValid := hagree.reserveValid
      reserveAddr := hagree.reserveAddr }

theorem fetchFault_trap (s : Cpu) : s.fetchFault.mTrap = true ∨ s.fetchFault.sTrap = true := by
  have hflag : s.fetchFault.pageFaultInst = true := rfl
  rw [Cpu.mTrap, Cpu.sTrap, hflag]
  cases s.fetchFault.medeleg medelegPageFaultInst <;> simp

/-- An environment call is a reason for a trap at each privilege. -/
theorem ecall_trap (hecall : u.isEcall = true)
    (hp : u.privilege = 0 ∨ u.privilege = 1 ∨ u.privilege = 3) :
    u.mTrap = true ∨ u.sTrap = true := by
  have hreason : u.ecallM = true ∨ u.ecallS = true := by
    rw [Cpu.ecallM, Cpu.ecallS, hecall]
    rcases hp with hp | hp | hp
    · rw [hp]
      cases u.medeleg medelegUEcall <;> simp
    · rw [hp]
      cases u.medeleg medelegSEcall <;> simp
    · rw [hp]
      simp
  rw [Cpu.mTrap, Cpu.sTrap]
  rcases hreason with hm | hs
  · simp [hm]
  · simp [hs]

theorem riscv_of_ecall (h : s.fetch = some (some instEcall)) :
    s.riscv = some ((s.decided instEcall).trapNow 0) := by
  have htrap : s.trapsAtDecode instEcall = true := by
    rw [Cpu.trapsAtDecode, Bool.or_eq_true]
    exact .inr rfl
  rw [Cpu.riscv_of_fetch h, Cpu.decode_decided (by decide), if_neg ?_, if_pos htrap]
  rw [Bool.and_eq_true, not_and]
  exact fun hwfi => absurd (of_decide_eq_true hwfi) (by decide)

/-- **Synchronous exceptions are precise.** -/
theorem sync_exception_precise {c : SyncCause} (h : s.riscv = some s') (hc : s.SyncException c)
    (hp : s.privilege = 0 ∨ s.privilege = 1 ∨ s.privilege = 3) (h0 : s.gpr 0 = 0) :
    Untouched s s' ∧ TrapsWith s s' := by
  cases c with
  | fetchFault =>
    rw [Cpu.riscv_of_fault hc] at h
    obtain rfl := Option.some.inj h
    exact precise_exception s.agree_fetchFault (fetchFault_trap s) _
  | ecall =>
    rw [riscv_of_ecall hc] at h
    obtain rfl := Option.some.inj h
    have hagree : Agree Set.univ s (s.decided instEcall).traceTrap :=
      { s.agree_decided instEcall with }
    exact precise_exception hagree (ecall_trap rfl (by rwa [hagree.privilege])) 0
  | raised c =>
    obtain ⟨u, v, hu, rfl⟩ := riscv_of_raises h hc
    obtain ⟨huntouched, hwith⟩ := precise_exception hu.toAgree hu.trap v
    -- the step ends with register 0 cleared, which it was before
    refine ⟨{ huntouched with gpr := ?_ }, hwith⟩
    change Function.update (u.exception v).gpr 0 0 = s.gpr
    rw [huntouched.gpr, ← h0, Function.update_eq_self]

/-- An environment call in M mode. -/
theorem sync_exception_precise_ecall :
    ∃ s', (Cpu.machineOf instEcall).riscv = some s' ∧
      Untouched (Cpu.machineOf instEcall) s' ∧ TrapsWith (Cpu.machineOf instEcall) s' := by
  have hfetch : (Cpu.machineOf instEcall).fetch = some (some instEcall) := by decide +kernel
  have hecall : (Cpu.machineOf instEcall).SyncException .ecall := hfetch
  have hstep := riscv_of_ecall hfetch
  exact ⟨_, hstep, sync_exception_precise hstep hecall (.inr (.inr rfl)) rfl⟩

end TraceSim.Ref
