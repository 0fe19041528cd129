/-
TraceSim/Mem/LatencyBounds.lean

How late an access can be served.

A request in flight was issued at some earlier cycle, for which it was allowed the
latency of the last level and of memory; so at every later cycle its ready time is
within the same allowance (`Timely`), and an access that joins it is served no later
than one that is the first to miss.  Ready times are to come (`Bounded`), so the
difference `llc_ready - cycle` does not wrap.
-/
import TraceSim.Mem.Latency

namespace TraceSim

variable {P : Type}

namespace Cache

variable {c c' l1 llc l1' llc' : Cache P} {addr : BitVec 32} {t n lat f : ℕ}

/-! ### Ready times that are not too late -/

/-- What is in flight is ready by cycle `n`. -/
def Within (c : Cache P) (n : ℕ) : Prop := ∀ b f, c.ready b = some f → f ≤ n

/-- No request changes what is in flight. -/
theorem Within.of_same (h : c.Within n) (hs : Same c c') : c'.Within n := by
  intro b f hf
  rw [hs.ready] at hf
  exact h b f hf

/-- A later deadline is kept too. -/
theorem Within.mono {n' : ℕ} (h : c.Within n) (hle : n ≤ n') : c.Within n' :=
  fun b f hf => (h b f hf).trans hle

/-- A new miss comes with its own ready time. -/
theorem Within.request_scheduleFill (h : c.Within n) (accepts : c.Accepts addr)
    (hle : f ≤ n) (pf : Bool) :
    ((c.request addr t pf).2.scheduleFill addr f pf).Within n := by
  intro b g hg
  rw [accepts.ready] at hg
  split_ifs at hg
  · rwa [← Option.some.inj hg]
  · exact h b g hg

/-- A return only takes entries out. -/
theorem Within.processReturns (h : c.Within n) (t : ℕ) (table : TableOrder) :
    (c.processReturns t table).Within n := by
  intro b f hf
  rw [processReturns_ready] at hf
  exact h b f (Option.filter_eq_some_iff.mp hf).1

/-! ### Accesses and prefetches -/

/-- The last level answers in time, and leaves nothing that is late. -/
theorem LlcOutcome.within {pf : Bool} {s : AccessStatus}
    (h : llc.LlcOutcome addr t pf s f llc')
    (hllc : llc.Within (t + llcHitLatency + memoryMissPenalty)) :
    f ≤ t + llcHitLatency + memoryMissPenalty ∧
      llc'.Within (t + llcHitLatency + memoryMissPenalty) := by
  have hreq := hllc.of_same (request_spec llc addr t pf).1
  cases h with
  | hit resident => exact ⟨Nat.le_add_right _ _, hreq⟩
  | merged f absent pending => exact ⟨hllc _ f pending, hreq⟩
  | new absent idle room =>
    exact ⟨le_rfl, hllc.request_scheduleFill ⟨absent, idle, room⟩ le_rfl pf⟩

/-- A demand access leaves both levels within their deadlines. -/
theorem AccessOutcome.within {r : HierarchyAccessResult}
    (h : AccessOutcome l1 llc addr t lat r l1' llc')
    (h1 : l1.Within (t + lat + llcHitLatency + memoryMissPenalty))
    (h2 : llc.Within (t + llcHitLatency + memoryMissPenalty)) :
    l1'.Within (t + lat + llcHitLatency + memoryMissPenalty) ∧
      llc'.Within (t + llcHitLatency + memoryMissPenalty) := by
  have hl1 := h1.of_same (request_spec l1 addr t false).1
  have hllc := h2.of_same (request_spec llc addr t false).1
  apply h.rule
  · exact ⟨hl1, h2⟩
  · intro _ _
    exact ⟨hl1, hllc⟩
  · intro accepts _ s f c' _ answer
    obtain ⟨hf, hwithin⟩ := answer.within h2
    refine ⟨h1.request_scheduleFill accepts ?_ false, hwithin⟩
    omega

/-- So does a prefetch, whose fill has the ready time of the last level. -/
theorem PrefetchOutcome.within (h : PrefetchOutcome l1 llc addr t l1' llc') (lat : ℕ)
    (h1 : l1.Within (t + lat + llcHitLatency + memoryMissPenalty))
    (h2 : llc.Within (t + llcHitLatency + memoryMissPenalty)) :
    l1'.Within (t + lat + llcHitLatency + memoryMissPenalty) ∧
      llc'.Within (t + llcHitLatency + memoryMissPenalty) := by
  have hl1 := h1.of_same (request_spec l1 addr t true).1
  have hllc := h2.of_same (request_spec llc addr t true).1
  apply h.rule
  · intro _
    exact ⟨hl1, h2⟩
  · intro _ _
    exact ⟨hl1, hllc⟩
  · intro accepts _ s f c' _ answer
    obtain ⟨hf, hwithin⟩ := answer.within h2
    exact ⟨h1.request_scheduleFill accepts (by omega) true, hwithin⟩

end Cache

/-- The local `llc_ready` of `access_l1_hierarchy`, from the answer of the last level to
a miss of the first. -/
def llcReady (llcRes : AccessResult) (cycle : ℕ) : ℕ :=
  if llcRes.status = .missMerged then llcRes.readyCycle
  else if llcRes.status = .missNew then cycle + llcHitLatency + memoryMissPenalty
  else cycle + llcHitLatency

/-- The local variable is the ready time of the outcome. -/
theorem llcReady_eq {llc llc' : Cache P} {addr : BitVec 32} {t f : ℕ} {s : AccessStatus}
    (hstatus : (llc.request addr t false).1.status = s)
    (h : llc.LlcOutcome addr t false s f llc') :
    llcReady (llc.request addr t false).1 t = f := by
  have hreq := (Cache.request_spec llc addr t false).2
  unfold llcReady
  rw [hstatus]
  cases h with
  | hit resident => rfl
  | new absent idle room => rfl
  | merged f absent pending =>
    rw [if_pos rfl]
    generalize llc.request addr t false = answer at hstatus hreq
    cases hreq with
    | hit hres _ => cases hres.symm.trans hstatus
    | full hres _ _ _ => cases hres.symm.trans hstatus
    | new hres _ _ _ => cases hres.symm.trans hstatus
    | merged _ _ hready => exact Option.some.inj (hready.symm.trans pending)

namespace MemSubsystem

/-! ### Runs -/

/-- What is in flight at the latest returns is ready within the longest latency. -/
structure Timely (last : Option ℕ) (m : MemSubsystem P) : Prop where
  bounded : m.Bounded last
  l1 : ∀ x : L1, (m.l1 x).Within
    (last.getD 0 + x.hitLatency + llcHitLatency + memoryMissPenalty)
  llc : m.llc.Within (last.getD 0 + llcHitLatency + memoryMissPenalty)

/-- The two caches of an access are put back, and the third is kept. -/
theorem Timely.putCaches {m : MemSubsystem P} {last : Option ℕ} (h : m.Timely last)
    (x : L1) {l1' llc' : Cache P} (hbounded : (m.putCaches x l1' llc').Bounded last)
    (hc : l1'.Within (last.getD 0 + x.hitLatency + llcHitLatency + memoryMissPenalty) ∧
      llc'.Within (last.getD 0 + llcHitLatency + memoryMissPenalty)) :
    (m.putCaches x l1' llc').Timely last where
  bounded := hbounded
  l1 := forall_putCaches (J := fun y c => c.Within
    (last.getD 0 + y.hitLatency + llcHitLatency + memoryMissPenalty)) h.l1 hc.1 llc'
  llc := by
    rw [putCaches_llc]
    exact hc.2

/-- An access is allowed its latency from now on, so at every later cycle it is still in
time. -/
theorem timely_runInvariant : RunInvariant (P := P) fun last m => m.Timely last where
  quiet {last m m'} hs h :=
    ⟨bounded_runInvariant.quiet hs h.bounded, fun x => (h.l1 x).of_same (hs.same x),
      hs.llc ▸ h.llc⟩
  access {t m} x addr r l1' llc' hout h :=
    h.putCaches x (bounded_runInvariant.access x addr r l1' llc' hout h.bounded)
      (hout.within (h.l1 x) h.llc)
  prefetch {t m} x addr l1' llc' hout h :=
    h.putCaches x (bounded_runInvariant.prefetch x addr l1' llc' hout h.bounded)
      (hout.within x.hitLatency (h.l1 x) h.llc)
  returns {last m} t i d l hlast h := by
    have hle : last.getD 0 ≤ t := by
      cases last with
      | none => exact Nat.zero_le t
      | some p => exact hlast p rfl
    refine ⟨bounded_runInvariant.returns t i d l hlast h.bounded, fun x => ?_, ?_⟩
    · rw [processReturns_l1]
      refine ((h.l1 x).processReturns t _).mono ?_
      rw [Option.getD_some]
      omega
    · refine (h.llc.processReturns t l).mono ?_
      rw [Option.getD_some]
      omega

/-- Nothing is in flight at the start. -/
theorem timely_new (cfg : MemConfig P) : (new cfg).Timely none where
  bounded := bounded_new cfg
  l1 x b f hf := by
    cases x <;> cases hf
  llc b f hf := by cases hf

/-- An access that is not blocked is served no sooner than a hit, and no later than the
first miss of both levels. -/
theorem Timely.readyCycle_bounds {t : ℕ} {m : MemSubsystem P} (htimely : m.Timely (some t))
    (x : L1) (addr : BitVec 32) (hserved : (m.access x addr t).1.blocked = false) :
    t + x.hitLatency ≤ (m.access x addr t).1.readyCycle ∧
      (m.access x addr t).1.readyCycle
        ≤ t + x.hitLatency + llcHitLatency + memoryMissPenalty := by
  have hl1 := htimely.l1 x
  have hllc := htimely.llc
  obtain ⟨r, l1', llc', heq, hout⟩ := m.access_spec x addr t
  rw [heq] at hserved ⊢
  cases hout with
  | hit resident status => exact ⟨le_rfl, by dsimp only; omega⟩
  | merged f absent pending status =>
    have hf := hl1 _ f pending
    rw [Option.getD_some] at hf
    exact ⟨le_max_left _ _, by dsimp only; omega⟩
  | l1Full refuses status => cases hserved
  | llcFull accepts refuses status llcStatus => cases hserved
  | fill accepts status s f llc' llcStatus answer =>
    have hf := (answer.within hllc).1
    have hlater := htimely.bounded.llc.later answer
    dsimp only
    omega

variable [CachePrefetcher P] {cfg : MemConfig P} {t : ℕ} {m : MemSubsystem P}

/-- In every run. -/
theorem Reachable.readyCycle_bounds (hm : Reachable cfg (some t) m) (x : L1)
    (addr : BitVec 32) (hserved : (m.access x addr t).1.blocked = false) :
    t + x.hitLatency ≤ (m.access x addr t).1.readyCycle ∧
      (m.access x addr t).1.readyCycle
        ≤ t + x.hitLatency + llcHitLatency + memoryMissPenalty :=
  (hm.invariant timely_runInvariant (timely_new cfg)).readyCycle_bounds x addr hserved

/-- Where the first level asks the last, the difference `llc_ready - cycle` is that of
the numbers. -/
theorem Reachable.le_llcReady (hm : Reachable cfg (some t) m) (x : L1) (addr : BitVec 32)
    (hmiss : (m.access x addr t).1.l1Status = .missNew)
    (hserved : (m.access x addr t).1.blocked = false) :
    t ≤ llcReady (m.llc.request addr t false).1 t ∧
      (m.access x addr t).1.readyCycle
        = t + x.hitLatency + (llcReady (m.llc.request addr t false).1 t - t) := by
  have hbounded := hm.invariant bounded_runInvariant (bounded_new cfg)
  obtain ⟨r, l1', llc', heq, hout⟩ := m.access_spec x addr t
  rw [heq] at hmiss hserved ⊢
  cases hout with
  | hit resident status => cases hmiss
  | merged f absent pending status => cases hmiss
  | l1Full refuses status => cases hserved
  | llcFull accepts refuses status llcStatus => cases hserved
  | fill accepts status s f llc' llcStatus answer =>
    have hlater := hbounded.llc.later answer
    rw [llcReady_eq llcStatus answer]
    refine ⟨hlater.le, ?_⟩
    dsimp only
    omega

end MemSubsystem

end TraceSim
