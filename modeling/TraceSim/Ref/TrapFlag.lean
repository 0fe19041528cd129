/-
TraceSim/Ref/TrapFlag.lean

The trap flag of the trace.

The flag is meant to mark the steps that enter `exception` and the accesses outside
RAM, because the pipeline serializes on it.  Three kinds of steps have it wrong: a
fetch fault leaves no trace at all, an access to `time` enters `exception` without a
mark, and an atomic access is marked by its virtual address.
-/
import TraceSim.Ref.Registers

namespace TraceSim.Ref

namespace Cpu

variable (s : Cpu)

/-- The step performs a load, a store or an atomic access below RAM. -/
def AccessesIo : Prop :=
  ∃ i pAddr, s.Executes i ∧ s.dataTranslation i = some (some pAddr) ∧ pAddr < kRamBase

/-- The step executes an access to `time` or `timeh`. -/
def TrapsOnTime : Prop := ∃ i, s.Executes i ∧ accessesTime i

/-- The step performs an atomic access, with one of its addresses below RAM and the other
not. -/
def AmoCrosses : Prop :=
  ∃ i pAddr, s.Executes i ∧ opcode i = some .lrw ∧ s.dataTranslation i = some (some pAddr) ∧
    ¬ (s.dataVAddr i < kRamBase ↔ pAddr < kRamBase)

/-- The pc and the trap flag in the trace of a step that ends in `s'`. -/
def TraceRight (s' : Cpu) : Prop :=
  s'.currentTrace.pc = s.pc ∧
    (s'.currentTrace.isTrap = true ↔ s'.isException = true ∨ s.AccessesIo)

end Cpu

variable {s s' : Cpu} {t : TraceInst}

/-! ### Steps that execute an instruction -/

theorem accessesIo_iff {i : BitVec 32} (hi : s.Executes i) :
    s.AccessesIo ↔ ∃ pAddr, s.dataTranslation i = some (some pAddr) ∧ pAddr < kRamBase := by
  simp only [Cpu.AccessesIo, exists_and_left]
  exact hi.exists_iff

theorem trapsOnTime_iff {i : BitVec 32} (hi : s.Executes i) :
    s.TrapsOnTime ↔ accessesTime i :=
  hi.exists_iff

theorem amoCrosses_iff {i : BitVec 32} (hi : s.Executes i) :
    s.AmoCrosses ↔ opcode i = some .lrw ∧ ∃ pAddr, s.dataTranslation i = some (some pAddr) ∧
      ¬ (s.dataVAddr i < kRamBase ↔ pAddr < kRamBase) := by
  simp only [Cpu.AmoCrosses, exists_and_left]
  exact hi.exists_iff

theorem flow_trace_pc {i : BitVec 32} {flow : Flow} (hflow : (s.decided i).execute = some flow) :
    flow.run.finish.currentTrace.pc = s.pc := by
  have hframe := (Execution.of_execute rfl hflow).frame
  have htrace := flow.run_currentTrace
  exact ((congrArg TraceInst.pc htrace).trans hframe.tracePc).trans (s.agree_beginStep.pc)

/-- The flag of a step that executes an instruction. -/
theorem traceRight_executed {i : BitVec 32} {flow : Flow} (hi : s.Executes i)
    (hflow : (s.decided i).execute = some flow) :
    s.TraceRight flow.run.finish ↔ ¬ s.TrapsOnTime ∧ ¬ s.AmoCrosses := by
  have htrap : flow.run.finish.currentTrace.isTrap = flow.cpu.currentTrace.isTrap := by
    change flow.run.currentTrace.isTrap = flow.cpu.currentTrace.isTrap
    rw [flow.run_currentTrace]
  have htranslate : (s.decided i).dataTranslation (s.decided i).instruction
      = s.dataTranslation i := (s.agree_decided i).dataTranslation i
  have hvAddr : (s.decided i).dataVAddr (s.decided i).instruction = s.dataVAddr i :=
    (s.agree_decided i).dataVAddr i
  have hexc (c : Cpu) (v : BitVec 32) : (Flow.trap c v).run.finish.isException = true := by
    change (Cpu.exception _ _).isException = true
    rw [exception_frame]
  rw [Cpu.TraceRight, accessesIo_iff hi, trapsOnTime_iff hi, amoCrosses_iff hi, htrap,
    and_iff_right (flow_trace_pc hflow)]
  cases Execution.of_execute rfl hflow with
  | @quiet u hnone htime hu =>
    have hflag : u.currentTrace.isTrap = false := hu.traceTrap
    have hexc : (Flow.next u).run.finish.isException = false := hu.isException
    have htime' : ¬ accessesTime i := htime
    rw [htranslate] at hnone
    -- no access and no call of `exception`: the flag of the header stays
    simp [Flow.cpu, hflag, hexc, hnone, htime']
  | illegal htime =>
    have htime' : accessesTime i := htime
    have hflag : ((s.decided i).traceRegisters
        (registers (s.decided i).instruction)).raiseIllegal.currentTrace.isTrap = false := rfl
    -- the call that does not mark the trace
    simp [Flow.cpu, hflag, hexc, htime']
  | @fault u hfault ht hmark =>
    have hflag : (u.raise (dataFault (s.decided i).instruction)).currentTrace.isTrap = true := by
      rw [← hmark]
      cases dataFault (s.decided i).instruction <;> rfl
    have htime : ¬ accessesTime i := fun h => by
      rw [htranslate, dataTranslation_of_accessesTime h] at hfault
      cases hfault
    rw [htranslate] at hfault
    simp [Flow.cpu, hflag, hexc, htime, hfault]
  | @access pAddr t u haddr ht hmark hu =>
    rw [htranslate] at haddr
    have hflag : u.currentTrace.isTrap
        = decide ((s.decided i).flagAddr i pAddr < kRamBase) := hu.traceTrap.trans hmark
    have hexc : (Flow.next u).run.finish.isException = false :=
      hu.isException.trans ht.frame.isException
    have htime : ¬ accessesTime i := fun h => by
      rw [dataTranslation_of_accessesTime h] at haddr
      cases haddr
    -- an atomic access is marked by its virtual address, any other by the physical one
    by_cases hop : opcode i = some .lrw
    · have haddr' : (s.decided i).flagAddr i pAddr = s.dataVAddr i := by
        rw [Cpu.flagAddr, if_pos hop]
        exact hvAddr
      simp [Flow.cpu, hflag, hexc, haddr, htime, hop, haddr']
    · have haddr' : (s.decided i).flagAddr i pAddr = pAddr := if_neg hop
      simp [Flow.cpu, hflag, hexc, haddr, htime, hop, haddr']

/-! ### All steps -/

theorem Agree.accessesIo (h : Agree Set.univ s s') : s'.AccessesIo ↔ s.AccessesIo := by
  simp only [Cpu.AccessesIo, h.executes, h.dataTranslation]

theorem Agree.trapsOnTime (h : Agree Set.univ s s') : s'.TrapsOnTime ↔ s.TrapsOnTime := by
  simp only [Cpu.TrapsOnTime, h.executes]

theorem Agree.amoCrosses (h : Agree Set.univ s s') : s'.AmoCrosses ↔ s.AmoCrosses := by
  simp only [Cpu.AmoCrosses, h.executes, h.dataTranslation, h.dataVAddr]

/-- A step that executes nothing makes no access, and is no exception to the rule. -/
theorem traceRight_of_not_executes (hexec : ∀ i, ¬ s.Executes i)
    (hpc : s'.currentTrace.pc = s.pc) (htrap : s'.currentTrace.isTrap = s'.isException) :
    s.TraceRight s' ∧ ¬ s.TrapsOnTime ∧ ¬ s.AmoCrosses := by
  refine ⟨⟨hpc, ?_⟩, fun ⟨i, hi, _⟩ => hexec i hi, fun ⟨i, _, hi, _⟩ => hexec i hi⟩
  rw [htrap]
  exact (or_iff_left fun ⟨i, _, hi, _⟩ => hexec i hi).symm

/-- A fetch fault leaves no trace. -/
theorem not_traceRight_of_fault (htrace : s.currentTrace = {}) :
    ¬ s.TraceRight (s.fetchFault.exception s.pc) := by
  intro h
  have hexc : (s.fetchFault.exception s.pc).isException = true := by
    rw [exception_frame]
  have htrap : (s.fetchFault.exception s.pc).currentTrace.isTrap = false := by
    rw [exception_frame]
    exact congrArg TraceInst.isTrap (s.beginStep_currentTrace.trans htrace)
  have hflag := h.2.mpr (.inl hexc)
  rw [htrap] at hflag
  cases hflag

/-- **The pc and the trap flag in the trace** are right, except for a fetch fault, an
access to `time` and an atomic access on the border of RAM. -/
theorem riscv_traceRight_iff (h : s.riscv = some s') (htrace : s.currentTrace = {}) :
    s.TraceRight s' ↔ s.fetch ≠ some none ∧ ¬ s.TrapsOnTime ∧ ¬ s.AmoCrosses := by
  -- a fetch fault, an ebreak, a trap at the decode, or an instruction that executes
  rcases Cpu.riscv_cases h with ⟨hfault, rfl⟩ | ⟨hfetch, rfl⟩ | ⟨i, hfetch, -, hdecode, rfl⟩ |
    ⟨i, flow, hi, hflow, rfl⟩
  · exact iff_of_false (not_traceRight_of_fault htrace) fun h => h.1 hfault
  · have hexec : ∀ i, ¬ s.Executes i := by
      rintro i ⟨hi, hnot, -⟩
      rw [hfetch] at hi
      exact hnot (Option.some.inj (Option.some.inj hi)).symm
    have htrap : (s.fetched instEbreak).currentTrace.isTrap
        = (s.fetched instEbreak).isException := rfl
    obtain ⟨hright, hrest⟩ := traceRight_of_not_executes hexec s.agree_beginStep.pc htrap
    exact iff_of_true hright ⟨by rw [hfetch]; simp, hrest⟩
  · have hexec : ∀ i, ¬ s.Executes i := by
      rintro j ⟨hj, -, hnot⟩
      rw [hfetch] at hj
      obtain rfl := Option.some.inj (Option.some.inj hj)
      exact hnot hdecode
    have hpc : ((s.decided i).trapNow 0).currentTrace.pc = s.pc := by
      rw [Cpu.trapNow, exception_frame]
      exact s.agree_beginStep.pc
    have htrap : ((s.decided i).trapNow 0).currentTrace.isTrap
        = ((s.decided i).trapNow 0).isException := by
      rw [Cpu.trapNow, exception_frame]
      rfl
    obtain ⟨hright, hrest⟩ := traceRight_of_not_executes hexec hpc htrap
    exact iff_of_true hright ⟨by rw [hfetch]; simp, hrest⟩
  · rw [traceRight_executed hi hflow]
    exact (and_iff_right (by rw [hi.1]; simp)).symm

/-- **The trap flag**, for the method `step`. -/
theorem traceRight_iff (h : s.step = some (t, s')) :
    (t.pc = s.pc ∧ (t.isTrap = true ↔ s'.isException = true ∨ s.AccessesIo)) ↔
      s.fetch ≠ some none ∧ ¬ s.TrapsOnTime ∧ ¬ s.AmoCrosses := by
  have hagree := agree_currentTrace s {}
  unfold Cpu.step at h
  obtain ⟨u, hu, h⟩ := Option.bind_eq_some_iff.mp h
  obtain ⟨rfl, rfl⟩ := Prod.mk.inj (Option.some.inj h)
  have hright := riscv_traceRight_iff hu rfl
  rwa [Cpu.TraceRight, hagree.fetch, hagree.accessesIo, hagree.trapsOnTime,
    hagree.amoCrosses] at hright

/-- A load below RAM, `lw x1, 0(x0)`: it is marked and enters no exception. -/
theorem traceRight_iff_lw :
    ∃ t s', (Cpu.machineOf 0x00002083).step = some (t, s') ∧ t.pc = kRamBase ∧
      t.isTrap = true ∧ s'.isException = false ∧ (Cpu.machineOf 0x00002083).AccessesIo := by
  have hrun : (Cpu.machineOf 0x00002083).step.map (fun p => (p.1.isTrap, p.2.isException))
      = some (true, false) := by
    decide +kernel
  have hfetch : (Cpu.machineOf 0x00002083).fetch = some (some 0x00002083) := by decide +kernel
  have hword {i : BitVec 32} (hi : (Cpu.machineOf 0x00002083).Executes i) : i = 0x00002083 :=
    Option.some.inj (Option.some.inj (hi.1.symm.trans hfetch))
  obtain ⟨⟨t, s'⟩, hstep, hflags⟩ := Option.map_eq_some_iff.mp hrun
  obtain ⟨htrap, hexc⟩ := Prod.mk.inj hflags
  have htime : ¬ (Cpu.machineOf 0x00002083).TrapsOnTime := by
    rintro ⟨i, hi, htime⟩
    rw [hword hi] at htime
    exact absurd htime.1 (by decide)
  have hamo : ¬ (Cpu.machineOf 0x00002083).AmoCrosses := by
    rintro ⟨i, -, hi, hop, -⟩
    rw [hword hi] at hop
    exact absurd hop (by decide)
  obtain ⟨hpc, hmark⟩ := (traceRight_iff hstep).mpr ⟨by rw [hfetch]; simp, htime, hamo⟩
  refine ⟨t, s', hstep, hpc, htrap, hexc, (hmark.mp htrap).resolve_left ?_⟩
  rw [hexc]
  exact Bool.false_ne_true

/-- A step over `csrrs x1, time, x0` enters `exception` and is not marked. -/
theorem unmarked_time_access :
    ∃ t s', (Cpu.machineOf 0xc01020f3).step = some (t, s') ∧
      ¬ (t.pc = kRamBase ∧
        (t.isTrap = true ↔ s'.isException = true ∨ (Cpu.machineOf 0xc01020f3).AccessesIo)) := by
  have hrun : (Cpu.machineOf 0xc01020f3).step.map (fun p => (p.1.isTrap, p.2.isException))
      = some (false, true) := by
    decide +kernel
  obtain ⟨⟨t, s'⟩, hstep, hflags⟩ := Option.map_eq_some_iff.mp hrun
  obtain ⟨htrap, hexc⟩ := Prod.mk.inj hflags
  refine ⟨t, s', hstep, fun h => ?_⟩
  have hmarked := h.2.mpr (.inl hexc)
  rw [htrap] at hmarked
  cases hmarked

end TraceSim.Ref
