/-
TraceSim/Ref/Registers.lean

The registers the trace names.

A step changes no register but the destination in its trace, and what it does depends
on no registers but the two sources.  So the timing model, which sees the trace only,
knows every dependence between instructions.
-/
import TraceSim.Ref.Leftovers

namespace TraceSim.Ref

variable {s s' : Cpu} {t : TraceInst}

/-- The path of a step that executes an instruction names its registers. -/
theorem executed_registers {i : BitVec 32} {flow : Flow}
    (h : (s.decided i).execute = some flow) :
    flow.run.finish.currentTrace.rd = (registers i).rd ∧
      flow.run.finish.currentTrace.rs1 = (registers i).rs1 ∧
      flow.run.finish.currentTrace.rs2 = (registers i).rs2 := by
  have hframe := (Execution.of_execute rfl h).frame
  have htrace := flow.run_currentTrace
  refine ⟨?_, ?_, ?_⟩
  · exact (congrArg TraceInst.rd htrace).trans hframe.traceRd
  · exact (congrArg TraceInst.rs1 htrace).trans hframe.traceRs1
  · exact (congrArg TraceInst.rs2 htrace).trans hframe.traceRs2

/-- A step keeps the registers, or writes its destination and then clears register 0. -/
theorem riscv_gpr_cases (h : s.riscv = some s') :
    s'.gpr = s.gpr ∨ ∃ gpr, s'.gpr = Function.update gpr 0 0 ∧
      ∀ r, r ≠ s'.currentTrace.rd → gpr r = s.gpr r := by
  rcases Cpu.riscv_cases h with ⟨-, rfl⟩ | ⟨-, rfl⟩ | ⟨i, -, -, -, rfl⟩ |
    ⟨i, flow, -, hflow, rfl⟩
  · left
    rw [exception_frame]
    exact funext fun r => s.agree_fetchFault.gpr r (Set.mem_univ r)
  · left
    exact funext fun r => (s.agree_fetched instEbreak).gpr r (Set.mem_univ r)
  · left
    rw [Cpu.trapNow, exception_frame]
    exact funext fun r => (s.agree_decided i).gpr r (Set.mem_univ r)
  · refine .inr ⟨flow.run.gpr, rfl, fun r hr => ?_⟩
    rw [(executed_registers hflow).1] at hr
    rw [flow.run_gpr, (Execution.of_execute rfl hflow).frame.gpr r hr]
    exact (s.agree_decided i).gpr r (Set.mem_univ r)

/-- **The destination**: a step changes no other register. -/
theorem riscv_gpr (h : s.riscv = some s') (h0 : s.gpr 0 = 0) {r : Fin 32}
    (hr : r ≠ s'.currentTrace.rd) : s'.gpr r = s.gpr r := by
  rcases riscv_gpr_cases h with heq | ⟨gpr, heq, hkept⟩
  · rw [heq]
  · rw [heq]
    by_cases hr0 : r = 0
    · rw [hr0, Function.update_self, h0]
    · rw [Function.update_of_ne hr0, hkept r hr]

theorem riscv_gpr_zero (h : s.riscv = some s') (h0 : s.gpr 0 = 0) : s'.gpr 0 = 0 := by
  rcases riscv_gpr_cases h with heq | ⟨gpr, heq, -⟩
  · rw [heq, h0]
  · rw [heq, Function.update_self]

/-- **The sources**: two states that differ in other registers only step to such
states. -/
theorem riscv_sources (h : s.riscv = some s') {g : Fin 32 → BitVec 32}
    (h1 : g s'.currentTrace.rs1 = s.gpr s'.currentTrace.rs1)
    (h2 : g s'.currentTrace.rs2 = s.gpr s'.currentTrace.rs2) :
    ∃ u, ({ s with gpr := g } : Cpu).riscv = some u ∧ Agree {r | g r = s.gpr r} s' u := by
  have hagree : Agree {r | g r = s.gpr r} s { s with gpr := g } :=
    ⟨fun _ hr => hr, rfl, rfl, rfl, rfl, rfl, rfl, rfl, rfl⟩
  refine rel_some (hagree.riscv (fun _ => ⟨rfl, rfl⟩) ?_ (.inl rfl)) h
  intro i hi
  obtain ⟨flow, hflow, rfl⟩ := Cpu.riscv_executed h hi
  obtain ⟨-, hrs1, hrs2⟩ := executed_registers hflow
  rw [hrs1] at h1
  rw [hrs2] at h2
  exact ⟨h1, h2⟩

/-- **The trace names every register a step uses.** -/
theorem trace_names_registers (h : s.step = some (t, s')) (h0 : s.gpr 0 = 0) :
    (∀ r, r ≠ t.rd → s'.gpr r = s.gpr r) ∧ s'.gpr 0 = 0 ∧
      ∀ g : Fin 32 → BitVec 32, g t.rs1 = s.gpr t.rs1 → g t.rs2 = s.gpr t.rs2 →
        ∃ t' u, ({ s with gpr := g } : Cpu).step = some (t', u) ∧
          Agree {r | g r = s.gpr r} s' u := by
  unfold Cpu.step at h
  obtain ⟨u, hu, h⟩ := Option.bind_eq_some_iff.mp h
  obtain ⟨rfl, rfl⟩ := Prod.mk.inj (Option.some.inj h)
  have hzero := riscv_gpr_zero hu h0
  refine ⟨fun r hr => riscv_gpr hu h0 hr, hzero, fun g h1 h2 => ?_⟩
  obtain ⟨v, hv, hagree⟩ := riscv_sources hu (g := g) h1 h2
  refine ⟨v.currentTrace, { v with simTime := v.simTime + 1 }, ?_, ?_⟩
  · unfold Cpu.step
    exact Option.bind_eq_some_iff.mpr ⟨v, hv, rfl⟩
  · exact { hagree with simTime := by rw [hagree.simTime] }

/-- A step over `addi x1, x0, 10`. -/
theorem trace_names_registers_addi :
    ∃ t s', (Cpu.machineOf 0x00a00093).step = some (t, s') ∧ t.rd = 1 ∧
      ∀ r, r ≠ t.rd → s'.gpr r = 0 := by
  have hrun : (Cpu.machineOf 0x00a00093).step.map (fun p => p.1.rd) = some 1 := by
    decide +kernel
  obtain ⟨⟨t, s'⟩, hstep, hrd⟩ := Option.map_eq_some_iff.mp hrun
  exact ⟨t, s', hstep, hrd, (trace_names_registers hstep rfl).1⟩

end TraceSim.Ref
