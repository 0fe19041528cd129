/-
TraceSim/Mem/Demands.lean

The counters of demand accesses.

Every demand access a first level serves is counted there once: as a hit, as a new
miss or as a miss that met one in flight.  Prefetches, returns and accesses through
the other first level leave these three counters alone, and so does an access the
first level itself refuses.
-/
import TraceSim.Mem.Owners

namespace TraceSim

variable {P : Type}

namespace Cache

/-- The three counters of served demand accesses. -/
structure SameDemands (c c' : Cache P) : Prop where
  hit : c'.counters.hit = c.counters.hit
  missNew : c'.counters.missNew = c.counters.missNew
  missMerged : c'.counters.missMerged = c.counters.missMerged

/-- The demand accesses served so far. -/
def demands (c : Cache P) : ℕ := c.counters.hit + c.counters.missNew + c.counters.missMerged

variable {c c' c'' : Cache P} {addr : BitVec 32} {t : ℕ}

theorem SameDemands.refl (c : Cache P) : SameDemands c c := ⟨rfl, rfl, rfl⟩

theorem SameDemands.trans (h : SameDemands c c') (h' : SameDemands c' c'') :
    SameDemands c c'' :=
  ⟨h'.hit.trans h.hit, h'.missNew.trans h.missNew, h'.missMerged.trans h.missMerged⟩

theorem SameDemands.demands (h : SameDemands c c') : c'.demands = c.demands := by
  rw [Cache.demands, Cache.demands, h.hit, h.missNew, h.missMerged]

/-- A prefetch is no demand. -/
theorem request_sameDemands_prefetch (c : Cache P) (addr : BitVec 32) (t : ℕ) :
    SameDemands c (c.request addr t true).2 := by
  obtain ⟨u, d, l, hk⟩ := request_counters c addr t true
  refine ⟨?_, ?_, ?_⟩ <;> rw [hk] <;> cases (c.request addr t true).1.status <;> rfl

/-- Nor is an access that finds no entry. -/
theorem request_sameDemands_blocked
    (hblocked : (c.request addr t false).1.status = .missBlocked) :
    SameDemands c (c.request addr t false).2 := by
  obtain ⟨u, d, l, hk⟩ := request_counters c addr t false
  rw [hblocked] at hk
  refine ⟨?_, ?_, ?_⟩ <;> rw [hk] <;> rfl

theorem scheduleFill_sameDemands (c : Cache P) (addr : BitVec 32) (t : ℕ) (pf : Bool) :
    SameDemands c (c.scheduleFill addr t pf) := by
  have hk := scheduleFill_counters c addr t pf
  refine ⟨?_, ?_, ?_⟩ <;> rw [hk]

theorem processReturns_sameDemands (c : Cache P) (t : ℕ) (table : TableOrder) :
    SameDemands c (c.processReturns t table) := by
  obtain ⟨u, p, hk⟩ := processReturns_counters c t table
  refine ⟨?_, ?_, ?_⟩ <;> rw [hk]

/-- A served request is counted once, and as a hit if it is one. -/
theorem request_demands (hserved : (c.request addr t false).1.status ≠ .missBlocked) :
    (c.request addr t false).2.demands = c.demands + 1 ∧
      (c.request addr t false).2.counters.hit
        = c.counters.hit
          + if (c.request addr t false).1.status = .hit then 1 else 0 := by
  obtain ⟨u, d, l, hk⟩ := request_counters c addr t false
  have hdemand := demand_status c addr t
  unfold demands
  rw [hk]
  cases hstatus : (c.request addr t false).1.status with
  | hit =>
    refine ⟨?_, rfl⟩
    change c.counters.hit + 1 + c.counters.missNew + c.counters.missMerged = _
    omega
  | missNew =>
    refine ⟨?_, rfl⟩
    change c.counters.hit + (c.counters.missNew + 1) + c.counters.missMerged = _
    omega
  | missMerged =>
    refine ⟨?_, rfl⟩
    change c.counters.hit + c.counters.missNew + (c.counters.missMerged + 1) = _
    omega
  | missBlocked => exact absurd hstatus hserved
  | prefetchDropped => exact absurd hstatus hdemand

variable {l1 llc l1' llc' : Cache P} {lat : ℕ}

theorem PrefetchOutcome.sameDemands (h : PrefetchOutcome l1 llc addr t l1' llc') :
    SameDemands l1 l1' := by
  have hrequest := request_sameDemands_prefetch l1 addr t
  cases h with
  | skipped status => exact hrequest
  | llcFull accepts refuses status llcStatus => exact hrequest
  | fill accepts status s f llc' llcStatus answer =>
    exact hrequest.trans (scheduleFill_sameDemands _ addr f true)

/-- **A demand access**, if the last level does not refuse it: it is counted once if
it is served, and not at all if the first level refuses it. -/
theorem AccessOutcome.demands {r : HierarchyAccessResult}
    (h : AccessOutcome l1 llc addr t lat r l1' llc')
    (hllc : l1.Accepts addr → ¬ llc.Refuses addr) :
    if r.blocked then SameDemands l1 l1'
    else l1'.demands = l1.demands + 1 ∧
      l1'.counters.hit = l1.counters.hit + if r.l1Hit then 1 else 0 := by
  cases h with
  | hit resident status =>
    have hrequest := request_demands (by rw [status]; decide)
    rw [status] at hrequest
    exact hrequest
  | merged f absent pending status =>
    have hrequest := request_demands (by rw [status]; decide)
    rw [status] at hrequest
    exact hrequest
  | l1Full refuses status => exact request_sameDemands_blocked status
  | llcFull accepts refuses status llcStatus => exact absurd refuses (hllc accepts)
  | fill accepts status s f llc' llcStatus answer =>
    have hrequest := request_demands (by rw [status]; decide)
    rw [status] at hrequest
    have hfill := scheduleFill_sameDemands (l1.request addr t false).2 addr (f + lat) false
    exact ⟨hfill.demands.trans hrequest.1, hfill.hit.trans hrequest.2⟩

end Cache

namespace MemSubsystem

/-- The service of the prefetch queues makes no demand. -/
theorem sameDemands_serviceInvariant (m₀ : MemSubsystem P) :
    ServiceInvariant fun _ m => m₀.dcache.SameDemands m.dcache where
  quiet {last m m'} hs h := by
    obtain ⟨p, hp⟩ := hs.l1 .dcache
    have hdcache : m'.dcache = { m.dcache with prefetcher := p } := hp
    rw [hdcache]
    exact ⟨h.hit, h.missNew, h.missMerged⟩
  prefetch {t m} x addr l1' llc' hout h := by
    cases x with
    | icache => exact h
    | dcache => exact h.trans hout.sameDemands

theorem servicePrefetchQueues_sameDemands (cfg : MemConfig P) (m : MemSubsystem P) (t : ℕ) :
    m.dcache.SameDemands (m.servicePrefetchQueues cfg t).dcache :=
  (sameDemands_serviceInvariant m).servicePrefetchQueues cfg (.refl _)

theorem enqueuePrefetch_sameDemands [CachePrefetcher P] (cfg : MemConfig P)
    (m : MemSubsystem P) (isData : Bool) (pc addr : BitVec 32) (hit : Bool) :
    m.dcache.SameDemands (m.enqueuePrefetch cfg isData pc addr hit).dcache :=
  @(sameDemands_serviceInvariant m).quiet none _ _
    (m.enqueuePrefetch_same cfg isData pc addr hit) (.refl _)

/-- A load access of a subsystem whose last level refuses nothing. -/
theorem accessDcacheLoad_demands {m m' : MemSubsystem P} {last : Option ℕ}
    (h : m.Roomy last) {addr : BitVec 32} {t : ℕ} {r : HierarchyAccessResult}
    (haccess : m.accessDcacheLoad addr t = (r, m')) :
    if r.blocked then m.dcache.SameDemands m'.dcache
    else m'.dcache.demands = m.dcache.demands + 1 ∧
      m'.dcache.counters.hit = m.dcache.counters.hit + if r.l1Hit then 1 else 0 := by
  obtain ⟨r₁, l1', llc', heq, hout⟩ := m.access_spec .dcache addr t
  have hm : (r₁, m.putCaches .dcache l1' llc') = (r, m') := heq.symm.trans haccess
  rw [Prod.mk.injEq] at hm
  obtain ⟨rfl, rfl⟩ := hm
  exact hout.demands fun accepts => h.not_refuses (x := .dcache) accepts

end MemSubsystem

end TraceSim
