/-
TraceSim/Ref/Delegation.lean

Where an interrupt is taken.

An interrupt that is pending and enabled waits for S mode if it is delegated and for M
mode if it is not.  A step polls the six sources in three classes, each with a machine
and a supervisor source.  It asks whether the machine source is delegated and takes the
supervisor source into S mode unasked.  A step that faults on its fetch polls nothing
and goes by the flags of the step before.
-/
import TraceSim.Ref.Causes

namespace TraceSim.Ref

/-! ### Classes of interrupts -/

/-- The classes the six sources are folded into. -/
inductive InterruptClass
  | software
  | timer
  | external
  deriving DecidableEq, Repr

namespace InterruptClass

/-- The machine source of the class. -/
def mBit : InterruptClass → ℕ
  | software => mipMsip
  | timer => mipMtip
  | external => mipMeip

/-- The supervisor source of the class. -/
def sBit : InterruptClass → ℕ
  | software => mipSsip
  | timer => mipStip
  | external => mipSeip

end InterruptClass

namespace Interrupts

variable (irq : Interrupts)

/-- The flag for M mode of a class. -/
def machine : InterruptClass → Bool
  | .software => irq.mSoftware
  | .timer => irq.mTimer
  | .external => irq.mExternal

/-- The flag for S mode of a class. -/
def supervisor : InterruptClass → Bool
  | .software => irq.sSoftware
  | .timer => irq.sTimer
  | .external => irq.sExternal

variable {irq}

theorem anyM_of_machine {c : InterruptClass} (h : irq.machine c = true) : irq.anyM = true := by
  cases hany : irq.anyM with
  | true => rfl
  | false =>
    obtain ⟨hsoftware, htimer, hexternal⟩ := Interrupts.anyM_eq_false.mp hany
    cases c with
    | software => exact absurd (hsoftware.symm.trans h) Bool.false_ne_true
    | timer => exact absurd (htimer.symm.trans h) Bool.false_ne_true
    | external => exact absurd (hexternal.symm.trans h) Bool.false_ne_true

theorem anyS_of_supervisor {c : InterruptClass} (h : irq.supervisor c = true) :
    irq.anyS = true := by
  cases hany : irq.anyS with
  | true => rfl
  | false =>
    obtain ⟨hsoftware, htimer, hexternal⟩ := Interrupts.anyS_eq_false.mp hany
    cases c with
    | software => exact absurd (hsoftware.symm.trans h) Bool.false_ne_true
    | timer => exact absurd (htimer.symm.trans h) Bool.false_ne_true
    | external => exact absurd (hexternal.symm.trans h) Bool.false_ne_true

end Interrupts

namespace Cpu

variable (s : Cpu)

def mideleg (bit : ℕ) : Bool := (s.csr .mideleg).getLsbD bit

/-- Interrupts that go to M mode are taken. -/
def enabledM : Bool := decide (s.privilege < 3) || (s.csr .mstatus).getLsbD mstatusMie

/-- Interrupts that go to S mode are taken: in U mode, and in S mode with `SIE` set. -/
def enabledS : Bool :=
  decide (s.privilege = 0)
    || (decide (s.privilege = 1) && (s.csr .mstatus).getLsbD mstatusSie)

/-- The interrupt is pending, enabled and not delegated, where M mode takes it. -/
def waitsForM (bit : ℕ) : Bool := s.pending bit && !s.mideleg bit && s.enabledM

/-- The interrupt is pending, enabled and delegated, where S mode takes it. -/
def waitsForS (bit : ℕ) : Bool := s.pending bit && s.mideleg bit && s.enabledS

/-- The step that ended here trapped into M mode with the flag of the class raised. -/
def TookM (c : InterruptClass) : Prop :=
  s.isException = true ∧ s.interrupts.machine c = true ∧ s.privilege = 3

/-- The step that ended here trapped with the flag of the class for S mode raised, and not
into M mode. -/
def TookS (c : InterruptClass) : Prop :=
  s.isException = true ∧ s.interrupts.supervisor c = true ∧ s.privilege ≠ 3

/-- What the delegation asks of a step from `s` to `s'`. -/
structure InterruptsRight (s s' : Cpu) : Prop where
  supervisor : ∀ c, s'.TookS c → s.waitsForS c.mBit = true ∨ s.waitsForS c.sBit = true
  machine : ∀ c, s.waitsForM c.mBit = true ∨ s.waitsForM c.sBit = true → s'.TookM c

/-- The delegation is respected.  Where the step polls, a supervisor source that waits for M
mode needs a machine source of its class that does too.  `ebreak` comes before the polling,
and a fetch fault in place of it. -/
def DelegatesRight : Prop :=
  match s.fetch with
  | some (some i) =>
      if i = instEbreak then ∀ c : InterruptClass,
        s.waitsForM c.mBit = false ∧ s.waitsForM c.sBit = false
      else ∀ c : InterruptClass, s.waitsForM c.sBit = true → s.waitsForM c.mBit = true
  | _ =>
      (∀ c, s.interrupts.supervisor c = true → s.fetchFault.mTrap = true ∨
          s.waitsForS c.mBit = true ∨ s.waitsForS c.sBit = true) ∧
        ∀ c : InterruptClass, s.waitsForM c.mBit = true ∨ s.waitsForM c.sBit = true →
          s.interrupts.machine c = true

end Cpu

variable {s s' u : Cpu}

/-! ### What a call of `exception` takes -/

theorem mTrap_of_machine {c : InterruptClass} (h : u.interrupts.machine c = true) :
    u.mTrap = true := by
  rw [Cpu.mTrap, Interrupts.anyM_of_machine h]
  rfl

theorem sTrap_of_supervisor {c : InterruptClass} (h : u.interrupts.supervisor c = true) :
    u.sTrap = true := by
  rw [Cpu.sTrap, Interrupts.anyS_of_supervisor h]
  rfl

theorem exception_interrupts (u : Cpu) (v : BitVec 32) :
    (u.exception v).interrupts = u.interrupts := by
  rw [exception_frame]

theorem tookM_exception (u : Cpu) (v : BitVec 32) (c : InterruptClass) :
    (u.exception v).TookM c ↔ u.interrupts.machine c = true := by
  rw [Cpu.TookM, exception_interrupts]
  constructor
  · exact fun h => h.2.1
  · intro h
    have hexc : (u.exception v).isException = true := by
      rw [exception_frame]
    exact ⟨hexc, h, (exception_mcause (mTrap_of_machine h) v).1⟩

theorem tookS_exception (u : Cpu) (v : BitVec 32) (c : InterruptClass) :
    (u.exception v).TookS c ↔ u.interrupts.supervisor c = true ∧ u.mTrap = false := by
  rw [Cpu.TookS, exception_interrupts]
  have hexc : (u.exception v).isException = true := by
    rw [exception_frame]
  constructor
  · rintro ⟨-, hflag, hpriv⟩
    refine ⟨hflag, Bool.eq_false_iff.mpr fun hm => ?_⟩
    exact hpriv (exception_mcause hm v).1
  · rintro ⟨hflag, hm⟩
    refine ⟨hexc, hflag, ?_⟩
    rw [(exception_scause hm (sTrap_of_supervisor hflag) v).1]
    decide

/-! ### What a step polls -/

/-- The polled flag for M mode: the machine source waits for it. -/
theorem decided_machine (s : Cpu) (i : BitVec 32) (c : InterruptClass) :
    (s.decided i).interrupts.machine c = s.waitsForM c.mBit := by
  have hagree := s.agree_fetched i
  have hflag (bit : ℕ) : (s.fetched i).mInterrupt bit = s.waitsForM bit := by
    rw [Cpu.mInterrupt, Cpu.waitsForM, Cpu.pending, Cpu.pending, Cpu.mideleg, Cpu.enabledM,
      hagree.csr, hagree.privilege]
  cases c with
  | software => exact hflag mipMsip
  | timer => exact hflag mipMtip
  | external => exact hflag mipMeip

/-- The comparisons of the privilege in the flags for S mode. -/
theorem supervisor_modes (p : BitVec 8) (sie : Bool) :
    (decide (p < 2) && (decide (p < 1) || (decide (p = 1) && sie)))
      = (decide (p = 0) || (decide (p = 1) && sie)) := by
  by_cases h0 : p = 0
  · rw [h0]
    rfl
  · by_cases h1 : p = 1
    · rw [h1]
      cases sie <;> rfl
    · have hlt : ¬ p < 1 := by
        bv_omega
      rw [decide_eq_false h0, decide_eq_false h1, decide_eq_false hlt, Bool.false_and,
        Bool.false_or, Bool.and_false]

/-- The polled flag for S mode: the machine source waits for it, or the supervisor source
would if it were delegated. -/
theorem decided_supervisor (s : Cpu) (i : BitVec 32) (c : InterruptClass) :
    (s.decided i).interrupts.supervisor c
      = (s.waitsForS c.mBit || (s.pending c.sBit && s.enabledS)) := by
  have hagree := s.agree_fetched i
  have hflag (bit bit' : ℕ) : (s.fetched i).sInterrupt bit bit'
      = (s.waitsForS bit || (s.pending bit' && s.enabledS)) := by
    rw [Cpu.sInterrupt, Cpu.waitsForS, Cpu.pending, Cpu.pending, Cpu.pending, Cpu.pending,
      Cpu.mideleg, Cpu.enabledS, hagree.csr, hagree.privilege, supervisor_modes,
      ← Bool.and_or_distrib_right]
  cases c with
  | software => exact hflag mipMsip mipSsip
  | timer => exact hflag mipMtip mipStip
  | external => exact hflag mipMeip mipSeip

/-- S mode takes interrupts in modes only in which M mode takes them. -/
theorem enabledM_of_enabledS (h : s.enabledS = true) : s.enabledM = true := by
  have hlt : s.privilege < 3 := by
    rw [Cpu.enabledS, Bool.or_eq_true, Bool.and_eq_true, decide_eq_true_eq,
      decide_eq_true_eq] at h
    rcases h with h | ⟨h, -⟩ <;> rw [h] <;> decide
  rw [Cpu.enabledM, decide_eq_true hlt, Bool.true_or]

/-- **What a step takes that polls the interrupts**: the flags it has polled. -/
theorem took_of_fetch {i : BitVec 32} (hstep : s.riscv = some s')
    (hfetch : s.fetch = some (some i)) (hi : i ≠ instEbreak) (c : InterruptClass) :
    (s'.TookM c ↔ (s.decided i).interrupts.machine c = true) ∧
      (s'.TookS c ↔ (s.decided i).interrupts.supervisor c = true ∧
        (s.decided i).mTrap = false) := by
  by_cases hdecode : s.trapsAtDecode i = true
  · have hs' : s' = (s.decided i).trapNow 0 := by
      have hwfi : ¬ (i = instWfi && !(s.decided i).asy) = true := by
        intro h
        rw [Bool.and_eq_true, decide_eq_true_eq, Bool.not_eq_true'] at h
        rw [Cpu.trapsAtDecode, h.2, h.1] at hdecode
        exact absurd hdecode (by decide)
      rw [Cpu.riscv_of_fetch hfetch, Cpu.decode_decided hi, if_neg hwfi, if_pos hdecode] at hstep
      exact (Option.some.inj hstep).symm
    rw [hs']
    exact ⟨tookM_exception _ 0 c, tookS_exception _ 0 c⟩
  -- the instruction is executed: none of the flags is raised
  · have hexec : s.Executes i := ⟨hfetch, hi, hdecode⟩
    obtain ⟨hanyM, hanyS, -⟩ := hexec.no_interrupt
    have hm : (s.decided i).interrupts.machine c ≠ true := fun h => by
      rw [Interrupts.anyM_of_machine h] at hanyM
      cases hanyM
    have hs : (s.decided i).interrupts.supervisor c ≠ true := fun h => by
      rw [Interrupts.anyS_of_supervisor h] at hanyS
      cases hanyS
    obtain ⟨flow, hflow, rfl⟩ := Cpu.riscv_executed hstep hexec
    have hnone : ¬ flow.run.finish.TookM c ∧ ¬ flow.run.finish.TookS c := by
      rcases executed_cases hexec hflow with ⟨u, rfl, -⟩ | ⟨cause, u, v, rfl, -, hu⟩
      · have hexc : u.isException = false := (Execution.of_execute rfl hflow).frame.isException
        constructor
        · exact fun h => Bool.false_ne_true (hexc.symm.trans h.1)
        · exact fun h => Bool.false_ne_true (hexc.symm.trans h.1)
      · constructor
        · intro h
          have hflag := (tookM_exception u v c).mp h
          exact Bool.false_ne_true (hu.anyM.symm.trans (Interrupts.anyM_of_machine hflag))
        · intro h
          have hflag := ((tookS_exception u v c).mp h).1
          exact Bool.false_ne_true (hu.anyS.symm.trans (Interrupts.anyS_of_supervisor hflag))
    exact ⟨iff_of_false hnone.1 hm, iff_of_false hnone.2 fun h => hs h.1⟩

/-! ### Steps -/

/-- A step that polls. -/
theorem interruptsRight_of_fetch {i : BitVec 32} (hstep : s.riscv = some s')
    (hfetch : s.fetch = some (some i)) (hi : i ≠ instEbreak) :
    s.InterruptsRight s' ↔
      ∀ c : InterruptClass, s.waitsForM c.sBit = true → s.waitsForM c.mBit = true := by
  have htook := took_of_fetch hstep hfetch hi
  constructor
  · intro h c hwaits
    have hflag := (htook c).1.mp (h.machine c (.inr hwaits))
    rwa [decided_machine] at hflag
  · intro hcond
    constructor
    · intro c hS
      obtain ⟨hflag, hm⟩ := (htook c).2.mp hS
      rw [decided_supervisor, Bool.or_eq_true, Bool.and_eq_true] at hflag
      rcases hflag with hwaits | ⟨hpending, henabled⟩
      · exact .inl hwaits
      -- the supervisor source is delegated, or else the step had gone to M mode
      · cases hdeleg : s.mideleg c.sBit with
        | true =>
          right
          rw [Cpu.waitsForS, hpending, hdeleg, henabled]
          rfl
        | false =>
          have hwaits : s.waitsForM c.sBit = true := by
            rw [Cpu.waitsForM, hpending, hdeleg, enabledM_of_enabledS henabled]
            rfl
          have hmachine := hcond c hwaits
          rw [← decided_machine s i c] at hmachine
          rw [mTrap_of_machine hmachine] at hm
          cases hm
    · intro c hwaits
      rw [(htook c).1, decided_machine]
      rcases hwaits with hwaits | hwaits
      · exact hwaits
      · exact hcond c hwaits

/-- A step that stops at `ebreak`. -/
theorem interruptsRight_of_ebreak (hs' : s'.isException = false) :
    s.InterruptsRight s' ↔
      ∀ c : InterruptClass, s.waitsForM c.mBit = false ∧ s.waitsForM c.sBit = false := by
  have hM : ∀ c, ¬ s'.TookM c := fun c h => Bool.false_ne_true (hs'.symm.trans h.1)
  have hS : ∀ c, ¬ s'.TookS c := fun c h => Bool.false_ne_true (hs'.symm.trans h.1)
  constructor
  · intro h c
    constructor
    · exact Bool.eq_false_iff.mpr fun hwaits => hM c (h.machine c (.inl hwaits))
    · exact Bool.eq_false_iff.mpr fun hwaits => hM c (h.machine c (.inr hwaits))
  · intro hcond
    refine ⟨fun c h => absurd h (hS c), fun c h => ?_⟩
    rw [(hcond c).1, (hcond c).2] at h
    exact absurd h (by decide)

/-- A step that faults on its fetch. -/
theorem interruptsRight_of_fault :
    s.InterruptsRight (s.fetchFault.exception s.pc) ↔
      (∀ c, s.interrupts.supervisor c = true → s.fetchFault.mTrap = true ∨
          s.waitsForS c.mBit = true ∨ s.waitsForS c.sBit = true) ∧
        ∀ c : InterruptClass, s.waitsForM c.mBit = true ∨ s.waitsForM c.sBit = true →
          s.interrupts.machine c = true := by
  -- a fetch fault is taken with the flags that the last step left
  have hirq : s.fetchFault.interrupts = s.interrupts := s.beginStep_interrupts
  constructor
  · intro h
    refine ⟨fun c hflag => ?_, fun c hwaits => ?_⟩
    · cases hm : s.fetchFault.mTrap with
      | true => exact .inl rfl
      | false =>
        rw [← hirq] at hflag
        exact .inr (h.supervisor c ((tookS_exception _ _ c).mpr ⟨hflag, hm⟩))
    · have hflag := (tookM_exception _ _ c).mp (h.machine c hwaits)
      rwa [hirq] at hflag
  · rintro ⟨hS, hM⟩
    refine ⟨fun c htook => ?_, fun c hwaits => ?_⟩
    · obtain ⟨hflag, hm⟩ := (tookS_exception _ _ c).mp htook
      rw [hirq] at hflag
      refine (hS c hflag).resolve_left ?_
      rw [hm]
      exact Bool.false_ne_true
    · rw [tookM_exception, hirq]
      exact hM c hwaits

/-- **Interrupts and their delegation**, for every step. -/
theorem interruptsRight_iff (h : s.riscv = some s') :
    s.InterruptsRight s' ↔ s.DelegatesRight := by
  rw [Cpu.DelegatesRight]
  rcases hfetch : s.fetch with - | - | i
  · rw [Cpu.riscv_eq, hfetch] at h
    cases h
  · rw [Cpu.riscv_of_fault hfetch] at h
    obtain rfl := Option.some.inj h
    exact interruptsRight_of_fault
  · dsimp only
    split_ifs with hi
    · subst hi
      rw [Cpu.riscv_of_fetch hfetch, Cpu.decode_ebreak] at h
      obtain rfl := Option.some.inj h
      exact interruptsRight_of_ebreak rfl
    · exact interruptsRight_of_fetch h hfetch hi

/-- A program in U mode with the supervisor software interrupt pending and enabled. -/
def userInterrupted (mideleg : BitVec 32) : Cpu :=
  { Cpu.machineOf 0x13 with
    privilege := 0
    csr := fun r => if r = .mip ∨ r = .mie then 2 else if r = .mideleg then mideleg else 0 }

/-- The interrupt is delegated. -/
theorem interruptsRight_iff_delegated :
    ∃ s', (userInterrupted 2).riscv = some s' ∧ s'.privilege = 1 ∧
      (userInterrupted 2).InterruptsRight s' := by
  have hrun : (userInterrupted 2).riscv.map (fun s' => s'.privilege) = some 1 := by
    decide +kernel
  have hfetch : (userInterrupted 2).fetch = some (some 0x13) := by decide +kernel
  obtain ⟨s', hstep, hpriv⟩ := Option.map_eq_some_iff.mp hrun
  refine ⟨s', hstep, hpriv, (interruptsRight_iff hstep).mpr ?_⟩
  rw [Cpu.DelegatesRight, hfetch]
  dsimp only
  rw [if_neg (by decide)]
  -- no supervisor source waits for M mode
  intro c hwaits
  cases c with
  | software => exact absurd hwaits (by decide +kernel)
  | timer => exact absurd hwaits (by decide +kernel)
  | external => exact absurd hwaits (by decide +kernel)

/-- The interrupt is not delegated, and goes to S mode all the same. -/
theorem undelegated_to_supervisor :
    ∃ s', (userInterrupted 0).riscv = some s' ∧ s'.privilege = 1 ∧
      ¬ (userInterrupted 0).InterruptsRight s' := by
  have hrun : (userInterrupted 0).riscv.map
      (fun s' => (s'.privilege, s'.isException, s'.interrupts.sSoftware))
        = some (1, true, true) := by
    decide +kernel
  obtain ⟨s', hstep, hs'⟩ := Option.map_eq_some_iff.mp hrun
  obtain ⟨hpriv, hrest⟩ := Prod.mk.inj hs'
  obtain ⟨hexc, hflag⟩ := Prod.mk.inj hrest
  refine ⟨s', hstep, hpriv, fun h => ?_⟩
  have hne : s'.privilege ≠ 3 := by
    rw [hpriv]
    decide
  have hwaits := h.supervisor .software ⟨hexc, hflag, hne⟩
  exact absurd hwaits (by decide +kernel)

end TraceSim.Ref
