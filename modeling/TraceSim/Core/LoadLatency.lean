/-
TraceSim/Core/LoadLatency.lean

The latency of demand accesses, and of the loads that make them.

The memory subsystem keeps the ready time of every access between the latency of a hit
and that of the first miss of both levels.  The load/store unit takes the difference to
the current cycle and casts it to 32 bits: within these bounds that loses nothing.
-/
import TraceSim.Core.LoadProfile
import TraceSim.Mem.LatencyBounds

namespace TraceSim

namespace Sim

variable {P B : Type} [CachePrefetcher P] {cfg : Config P B}

/-- A load that is served adds its latency, as cast to `uint32_t`, to the profile. -/
theorem executeLoadMemoryAccess_totalLatency
    (hprofile : cfg.enableDependentLoadProfiling = true) {s : Sim P B} {i : ℕ}
    (hserved : (s.mem.accessDcacheLoad (s.rob i).inst.memAddr s.totalCycles).1.blocked
      = false) :
    (s.executeLoadMemoryAccess cfg i).2.loadProfileStats.totalLatency
      = s.loadProfileStats.totalLatency
        + ((s.mem.accessDcacheLoad (s.rob i).inst.memAddr s.totalCycles).1.readyCycle
          - s.totalCycles) % 2 ^ 32 := by
  unfold executeLoadMemoryAccess finishLoadAccess finalizeLoadProfile
  dsimp only
  rw [hserved, if_neg Bool.false_ne_true, if_pos hprofile, markLoadExecuted_eq]
  rfl

/-- **The latency of demand accesses.**  In a reachable subsystem, an access of cycle `t`
that is not blocked is served no sooner than a hit and no later than the first miss of
both levels; where it asks the last level, `llc_ready - cycle` does not wrap; and the
32-bit latency that a load records is the exact one. -/
theorem latency_bounds {t : ℕ} {m : MemSubsystem P}
    (hm : MemSubsystem.Reachable cfg.mem (some t) m) (x : L1) (addr : BitVec 32)
    (hserved : (m.access x addr t).1.blocked = false) :
    t + x.hitLatency ≤ (m.access x addr t).1.readyCycle ∧
    (m.access x addr t).1.readyCycle
      ≤ t + x.hitLatency + llcHitLatency + memoryMissPenalty ∧
    ((m.access x addr t).1.l1Status = .missNew →
      t ≤ llcReady (m.llc.request addr t false).1 t ∧
        (m.access x addr t).1.readyCycle
          = t + x.hitLatency + (llcReady (m.llc.request addr t false).1 t - t)) ∧
    ∀ (s : Sim P B) (i : ℕ), x = .dcache → s.mem = m → s.totalCycles = t →
      (s.rob i).inst.memAddr = addr → cfg.enableDependentLoadProfiling = true →
      (s.executeLoadMemoryAccess cfg i).2.loadProfileStats.totalLatency
        = s.loadProfileStats.totalLatency + ((m.access x addr t).1.readyCycle - t) := by
  obtain ⟨hlower, hupper⟩ := hm.readyCycle_bounds x addr hserved
  refine ⟨hlower, hupper, fun hmiss => hm.le_llcReady x addr hmiss hserved, ?_⟩
  rintro s i rfl rfl rfl rfl hprofile
  have hexact : ((s.mem.access .dcache (s.rob i).inst.memAddr s.totalCycles).1.readyCycle
        - s.totalCycles) % 2 ^ 32
      = (s.mem.access .dcache (s.rob i).inst.memAddr s.totalCycles).1.readyCycle
        - s.totalCycles := by
    refine Nat.mod_eq_of_lt ?_
    simp only [L1.hitLatency, lduLatency, llcHitLatency, memoryMissPenalty] at hupper
    omega
  rw [← hexact]
  exact executeLoadMemoryAccess_totalLatency hprofile hserved

/-- A D-cache load joins an I-cache miss of 50 cycles ago; its latency is the rest of the
132 cycles and its own 3. -/
theorem latency_bounds_joined :
    ∃ (s : Sim BuiltinPrefetcher BuiltinPredictor) (i : ℕ),
      MemSubsystem.Reachable shippedConfig.mem (some s.totalCycles) s.mem ∧
      (s.mem.access .dcache (s.rob i).inst.memAddr s.totalCycles).1.llcStatus = .missMerged ∧
      (s.mem.access .dcache (s.rob i).inst.memAddr s.totalCycles).1.readyCycle
        = s.totalCycles + 3 + 82 ∧
      (s.executeLoadMemoryAccess shippedConfig i).2.loadProfileStats.totalLatency
        = s.loadProfileStats.totalLatency + 85 := by
  let s : Sim BuiltinPrefetcher BuiltinPredictor :=
    { Sim.new shippedConfig with
      mem := (MemSubsystem.new shippedMemConfig).execs shippedMemConfig MemSubsystem.earlyMissRun
      totalCycles := 50
      rob := fun _ => { inst := { memAddr := 0x1000 } } }
  have hm : MemSubsystem.Reachable shippedConfig.mem (some 50) s.mem :=
    MemSubsystem.earlyMissRun_reachable
  obtain ⟨hlower, hupper, hllc, hlatency⟩ := latency_bounds hm .dcache 0x1000 (by decide +kernel)
  have hready : (s.mem.access .dcache 0x1000 50).1.readyCycle = 135 := by
    rw [(hllc (by decide +kernel)).2]
    decide +kernel
  have hrecorded := hlatency s 0 rfl rfl rfl rfl rfl
  rw [hready] at hrecorded
  exact ⟨s, 0, hm, by decide +kernel, hready, hrecorded⟩

end Sim

end TraceSim
