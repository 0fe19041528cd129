/-
TraceSim/Mem/Latency.lean

How soon a miss of a first level is served.

A miss that goes on to the last level should not be served sooner than a hit
there would be.  A hit and a new miss of the last level keep to this.  A merge
takes over the ready time of the request it joins, and nothing raises it to the
latency of a lookup, as the first level does when it merges: so a request that
joins another less than `LLC_HIT_LATENCY` before it returns is served too soon,
and these are the only ones (`latencyKept_iff`).
-/
import TraceSim.Mem.Runs

namespace TraceSim

variable {P : Type}

namespace Cache

variable {l1 llc l1' llc' : Cache P} {addr : BitVec 32} {t lat f : ℕ}

/-- The last level has the block of `addr` in flight, to return sooner than a hit
issued at cycle `t` would be served. -/
def ReturnsSoon (llc : Cache P) (addr : BitVec 32) (t : ℕ) : Prop :=
  llc.contains addr = false ∧
    ∃ f, llc.ready (llc.getBlockAddr addr) = some f ∧ f < t + llcHitLatency

/-- The last level answers as soon as a hit, exactly if the block does not return
sooner. -/
theorem LlcOutcome.le_iff {pf : Bool} {s : AccessStatus}
    (h : llc.LlcOutcome addr t pf s f llc') :
    t + llcHitLatency ≤ f ↔ ¬ llc.ReturnsSoon addr t := by
  cases h with
  | hit resident =>
    refine iff_of_true le_rfl fun hsoon => ?_
    rw [hsoon.1] at resident
    cases resident
  | merged f absent pending =>
    constructor
    · rintro hle ⟨-, g, hg, hlt⟩
      rw [pending, Option.some.injEq] at hg
      omega
    · intro hsoon
      rw [← not_lt]
      exact fun hlt => hsoon ⟨absent, f, pending, hlt⟩
  | new absent idle room =>
    refine iff_of_true (Nat.le_add_right _ _) ?_
    rintro ⟨-, g, hg, -⟩
    cases idle.symm.trans hg

end Cache

namespace MemSubsystem

/-- The access, if it is a new miss that is not blocked, is served no sooner than
a hit of the last level would be. -/
def LatencyKept (m : MemSubsystem P) (x : L1) (addr : BitVec 32) (t : ℕ) : Prop :=
  (m.access x addr t).1.l1Status = .missNew → (m.access x addr t).1.blocked = false →
    t + x.hitLatency + llcHitLatency ≤ (m.access x addr t).1.readyCycle

/-- A demand access through `x` goes on to the last level and joins a request
there that returns soon. -/
def JoinsSoon (m : MemSubsystem P) (x : L1) (addr : BitVec 32) (t : ℕ) : Prop :=
  (m.l1 x).Accepts addr ∧ m.llc.ReturnsSoon addr t

/-- **The latency hierarchy**: in a reachable subsystem a demand access keeps to
it exactly if it does not join a request of the last level that returns sooner
than a hit would be served. -/
theorem latencyKept_iff [CachePrefetcher P] {cfg : MemConfig P} {t : ℕ}
    {m : MemSubsystem P} (hm : Reachable cfg (some t) m) (x : L1) (addr : BitVec 32) :
    m.LatencyKept x addr t ↔ ¬ m.JoinsSoon x addr t := by
  have hbounded := hm.invariant bounded_runInvariant (bounded_new cfg)
  obtain ⟨r, l1', llc', heq, hout⟩ := m.access_spec x addr t
  unfold LatencyKept JoinsSoon
  rw [heq]
  cases hout with
  | hit resident status =>
    refine iff_of_true (by simp) fun h => ?_
    rw [h.1.absent] at resident
    cases resident
  | merged f absent pending status =>
    exact iff_of_true (by simp) fun h => by cases pending.symm.trans h.1.idle
  | l1Full refuses status =>
    exact iff_of_true (by simp) fun h => h.1.not_refuses refuses
  | llcFull accepts refuses status llcStatus =>
    refine iff_of_true (by simp) ?_
    rintro ⟨-, -, g, hg, -⟩
    cases refuses.idle.symm.trans hg
  -- only an answer of the last level can come too soon
  | fill accepts status s f llc' llcStatus answer =>
    have hle := answer.le_iff
    constructor
    · rintro hkept ⟨-, hsoon⟩
      have hbound := hkept rfl rfl
      refine hle.mp ?_ hsoon
      dsimp only at hbound
      omega
    · intro hnot _ _
      have hbound := hle.mpr fun hsoon => hnot ⟨accepts, hsoon⟩
      dsimp only
      omega

/-- An I-cache miss, and fifty cycles later. -/
def earlyMissRun : List MemOp :=
  [.processReturns 0 default default default, .access .icache 0x1000 0,
    .processReturns 50 default default default]

theorem earlyMissRun_reachable :
    Reachable shippedMemConfig (some 50)
      ((new shippedMemConfig).execs shippedMemConfig earlyMissRun) :=
  ⟨earlyMissRun, by simp [earlyMissRun, Disciplined, MemOp.Allowed, MemOp.latest], rfl, rfl⟩

/-- A D-cache miss joins an I-cache miss of 50 cycles ago, which returns in 82 cycles. -/
theorem latencyKept_joined :
    ∃ m, Reachable shippedMemConfig (some 50) m ∧
      (m.access .dcache 0x1000 50).1.llcStatus = .missMerged ∧
      m.LatencyKept .dcache 0x1000 50 := by
  refine ⟨_, earlyMissRun_reachable, by decide +kernel, ?_⟩
  rw [latencyKept_iff earlyMissRun_reachable]
  rintro ⟨-, -, f, hf, hsoon⟩
  have hready : ((new shippedMemConfig).execs shippedMemConfig earlyMissRun).llc.ready
      (((new shippedMemConfig).execs shippedMemConfig earlyMissRun).llc.getBlockAddr 0x1000)
        = some 132 := by decide +kernel
  obtain rfl := Option.some.inj (hready.symm.trans hf)
  exact absurd hsoon (by decide)

/-- A D-cache miss joins an I-cache miss of 131 cycles ago: it is served in 4
cycles, where a hit of the last level would take 15. -/
theorem served_before_llc_hit :
    ∃ m, Reachable shippedMemConfig (some 131) m ∧
      (m.access .dcache 0x1000 131).1.l1Status = .missNew ∧
      (m.access .dcache 0x1000 131).1.blocked = false ∧
      ¬ (131 + L1.dcache.hitLatency + llcHitLatency
          ≤ (m.access .dcache 0x1000 131).1.readyCycle) :=
  ⟨(new shippedMemConfig).execs shippedMemConfig
      [.processReturns 0 default default default, .access .icache 0x1000 0,
        .processReturns 131 default default default],
    ⟨[.processReturns 0 default default default, .access .icache 0x1000 0,
        .processReturns 131 default default default],
      by simp [Disciplined, MemOp.Allowed, MemOp.latest], rfl, rfl⟩,
    by decide +kernel, by decide +kernel, by decide +kernel⟩

end MemSubsystem

end TraceSim
