/-
TraceSim/Mem/Mshrs.lean

The table of the last level is never the bottleneck when it is as large as the
tables of both first levels.

Every block in flight in the last level is in flight in some first level, until
no earlier a cycle (`Covered`); so a first level that has a free entry leaves one
free in the last level (`Backed.not_refuses`).  The event counters then show that
no access is refused and no prefetch is lost there
(`llc_never_refuses`).
-/
import TraceSim.Mem.Returns

namespace TraceSim

variable {P : Type}

/-! ### Counting calls of `schedule_fill` -/

/-- The event is a call of `schedule_fill` for a prefetch, or for a demand. -/
def FillEvent.isSchedule (isPrefetch : Bool) : FillEvent → Bool
  | .scheduled _ _ pf _ => pf == isPrefetch
  | .filled _ _ _ _ => false

namespace Cache

/-- The number of demand or prefetch fills scheduled so far. -/
def scheduled (c : Cache P) (isPrefetch : Bool) : ℕ :=
  c.history.countP (FillEvent.isSchedule isPrefetch)

theorem Accepts.scheduled {c : Cache P} {addr : BitVec 32} (h : c.Accepts addr)
    (t f : ℕ) (pf pf' : Bool) :
    ((c.request addr t pf).2.scheduleFill addr f pf).scheduled pf'
      = c.scheduled pf' + if pf = pf' then 1 else 0 := by
  rw [Cache.scheduled, h.history, List.countP_append, Cache.scheduled]
  cases pf <;> cases pf' <;> rfl

theorem request_scheduled (c : Cache P) (addr : BitVec 32) (t : ℕ) (pf pf' : Bool) :
    (c.request addr t pf).2.scheduled pf' = c.scheduled pf' := by
  rw [scheduled, scheduled, (request_spec c addr t pf).1.history]

/-! ### What returns do to the counters -/

theorem returnBlock_counters (t : ℕ) (c : Cache P) (b : BitVec 32) :
    ∃ u p, (returnBlock t c b).counters
      = { c.counters with uselessPrefetch := u, prefetchFill := p } := by
  unfold returnBlock
  split
  · exact ⟨_, _, rfl⟩
  · exact ⟨_, _, rfl⟩

theorem returnBlock_scheduled (t : ℕ) (c : Cache P) (b : BitVec 32) (pf : Bool) :
    (returnBlock t c b).scheduled pf = c.scheduled pf := by
  by_cases hb : b ∈ c.inflight
  · obtain ⟨pf', dw, hhist⟩ := returnBlock_history (t := t) hb
    rw [scheduled, hhist, List.countP_append, scheduled]
    rfl
  · rw [returnBlock_of_notMem hb]

theorem processReturns_counters (c : Cache P) (t : ℕ) (table : TableOrder) :
    ∃ u p, (c.processReturns t table).counters
      = { c.counters with uselessPrefetch := u, prefetchFill := p } := by
  rw [processReturns]
  generalize table.order (c.completedBlocks t) = blocks
  induction blocks generalizing c with
  | nil => exact ⟨_, _, rfl⟩
  | cons b blocks ih =>
    obtain ⟨u, p, h⟩ := ih (returnBlock t c b)
    obtain ⟨u', p', h'⟩ := returnBlock_counters t c b
    exact ⟨u, p, by rw [List.foldl_cons, h, h']⟩

theorem processReturns_scheduled (c : Cache P) (t : ℕ) (table : TableOrder) (pf : Bool) :
    (c.processReturns t table).scheduled pf = c.scheduled pf := by
  rw [processReturns]
  generalize table.order (c.completedBlocks t) = blocks
  induction blocks generalizing c with
  | nil => rfl
  | cons b blocks ih => rw [List.foldl_cons, ih, returnBlock_scheduled]

/-! ### Prefetches of a first level -/

/-- Every prefetch that reached the cache hit, met a miss in flight, was dropped
for want of an entry, or had a fill scheduled. -/
def PrefetchesKept (c : Cache P) : Prop :=
  c.counters.prefetch
    = c.counters.prefetchHit + c.counters.prefetchFilteredInflight
      + c.counters.prefetchDropped + c.scheduled true

variable {l1 llc l1' llc' : Cache P} {addr : BitVec 32} {t lat f : ℕ}

/-- The status of a demand request is not that of a dropped prefetch. -/
theorem demand_status (c : Cache P) (addr : BitVec 32) (t : ℕ) :
    (c.request addr t false).1.status ≠ .prefetchDropped := by
  cases (request_spec c addr t false).2 with
  | hit hres resident => simp [hres]
  | merged hres absent pending => simp [hres]
  | full hres absent idle noRoom => simp [hres, fullStatus]
  | new hres absent idle room => simp [hres]

/-- The status of a prefetch is not that of a blocked access. -/
theorem prefetch_status (c : Cache P) (addr : BitVec 32) (t : ℕ) :
    (c.request addr t true).1.status ≠ .missBlocked := by
  cases (request_spec c addr t true).2 with
  | hit hres resident => simp [hres]
  | merged hres absent pending => simp [hres]
  | full hres absent idle noRoom => simp [hres, fullStatus]
  | new hres absent idle room => simp [hres]

theorem PrefetchesKept.demand {c : Cache P} (h : c.PrefetchesKept) (addr : BitVec 32)
    (t : ℕ) : (c.request addr t false).2.PrefetchesKept := by
  obtain ⟨u, d, l, hk⟩ := request_counters c addr t false
  have hstatus := demand_status c addr t
  unfold PrefetchesKept at h ⊢
  rw [request_scheduled, hk]
  generalize (c.request addr t false).1.status = s at hstatus ⊢
  cases s <;> first | exact h | exact absurd rfl hstatus

/-- A prefetch that the cache does not pass on. -/
theorem PrefetchesKept.prefetch {c : Cache P} (h : c.PrefetchesKept) (addr : BitVec 32)
    (t : ℕ) (hnew : (c.request addr t true).1.status ≠ .missNew) :
    (c.request addr t true).2.PrefetchesKept := by
  obtain ⟨u, d, l, hk⟩ := request_counters c addr t true
  have hstatus := prefetch_status c addr t
  unfold PrefetchesKept at h ⊢
  rw [request_scheduled, hk]
  generalize (c.request addr t true).1.status = s at hnew hstatus ⊢
  cases s with
  | hit => simp only [CacheCounters.count, if_true]; omega
  | missMerged => simp only [CacheCounters.count, if_true]; omega
  | prefetchDropped => simp only [CacheCounters.count]; omega
  | missNew => exact absurd rfl hnew
  | missBlocked => exact absurd rfl hstatus

/-- A prefetch that the cache passes on, and its fill. -/
theorem PrefetchesKept.fill {c : Cache P} (h : c.PrefetchesKept) (hacc : c.Accepts addr)
    (hnew : (c.request addr t true).1.status = .missNew) (f : ℕ) :
    ((c.request addr t true).2.scheduleFill addr f true).PrefetchesKept := by
  obtain ⟨u, d, l, hk⟩ := request_counters c addr t true
  unfold PrefetchesKept at h ⊢
  rw [hacc.scheduled, scheduleFill_counters, hk, hnew]
  simp only [CacheCounters.count, if_true]
  omega

theorem PrefetchesKept.scheduleDemand {c : Cache P} (h : c.PrefetchesKept)
    (hacc : c.Accepts addr) (t f : ℕ) :
    ((c.request addr t false).2.scheduleFill addr f false).PrefetchesKept := by
  have hdemand := h.demand addr t
  unfold PrefetchesKept at hdemand ⊢
  rw [hacc.scheduled, scheduleFill_counters]
  rwa [request_scheduled] at hdemand

theorem PrefetchesKept.processReturns {c : Cache P} (h : c.PrefetchesKept) (t : ℕ)
    (table : TableOrder) : (c.processReturns t table).PrefetchesKept := by
  obtain ⟨u, p, hk⟩ := processReturns_counters c t table
  unfold PrefetchesKept at h ⊢
  rw [hk, processReturns_scheduled]
  exact h

/-! ### Refusals of the last level -/

/-- The cache has neither blocked an access nor dropped a prefetch. -/
def NeverFull (c : Cache P) : Prop :=
  c.counters.missBlocked = 0 ∧ c.counters.prefetchDropped = 0

theorem NeverFull.request {c : Cache P} (h : c.NeverFull) {pf : Bool}
    (hblocked : (c.request addr t pf).1.status ≠ .missBlocked)
    (hdropped : (c.request addr t pf).1.status ≠ .prefetchDropped) :
    (c.request addr t pf).2.NeverFull := by
  obtain ⟨u, d, l, hk⟩ := request_counters c addr t pf
  unfold NeverFull at h ⊢
  rw [hk]
  generalize (c.request addr t pf).1.status = s at hblocked hdropped ⊢
  cases s with
  | hit => cases pf <;> exact h
  | missMerged => cases pf <;> exact h
  | missNew => cases pf <;> exact h
  | missBlocked => exact absurd rfl hblocked
  | prefetchDropped => exact absurd rfl hdropped

theorem LlcOutcome.neverFull {pf : Bool} {s : AccessStatus}
    (h : llc.LlcOutcome addr t pf s f llc')
    (hs : (llc.request addr t pf).1.status = s) (hnever : llc.NeverFull) :
    llc'.NeverFull := by
  have hreq : s ≠ .missBlocked → s ≠ .prefetchDropped →
      (llc.request addr t pf).2.NeverFull := by
    rw [← hs]
    exact hnever.request
  cases h with
  | hit resident => exact hreq (by decide) (by decide)
  | merged f absent pending => exact hreq (by decide) (by decide)
  | new absent idle room =>
    rw [NeverFull, scheduleFill_counters]
    exact hreq (by decide) (by decide)

/-- What is in flight in the last level after its answer. -/
theorem LlcOutcome.ready {pf : Bool} {s : AccessStatus}
    (h : llc.LlcOutcome addr t pf s f llc') {b : BitVec 32} {g : ℕ}
    (hg : llc'.ready b = some g) :
    llc.ready b = some g ∨ b = llc.getBlockAddr addr ∧ g = f := by
  have hreq := (request_spec llc addr t pf).1
  cases h with
  | hit resident => exact Or.inl ((hreq.ready b).symm.trans hg)
  | merged f absent pending => exact Or.inl ((hreq.ready b).symm.trans hg)
  | new absent idle room =>
    rw [Accepts.ready ⟨absent, idle, room⟩] at hg
    split_ifs at hg with hb
    · exact Or.inr ⟨hb, (Option.some.inj hg).symm⟩
    · exact Or.inl hg

end Cache

/-! ### Every miss of the last level belongs to a first level -/

namespace MemSubsystem

/-- Each block in flight in the last level is in flight in some first level,
until no earlier a cycle. -/
def Covered (m : MemSubsystem P) : Prop :=
  ∀ b f, m.llc.ready b = some f → ∃ x f', (m.l1 x).ready b = some f' ∧ f ≤ f'

/-- The last level has one line size with the first levels, and as many entries
as they have together. -/
structure Backed (m : MemSubsystem P) : Prop where
  lineSize : ∀ x, (m.l1 x).lineSize = m.llc.lineSize
  entries : (m.l1 .icache).maxInflight + (m.l1 .dcache).maxInflight ≤ m.llc.maxInflight

theorem Backed.of_shape {m m' : MemSubsystem P} (h : m.Backed) (hs : m.SameShape m') :
    m'.Backed where
  lineSize x := by rw [(hs.l1 x).lineSize, hs.llc.lineSize, h.lineSize]
  entries := by
    rw [(hs.l1 .icache).maxInflight, (hs.l1 .dcache).maxInflight, hs.llc.maxInflight]
    exact h.entries

/-- **A counting argument**: while some first level has a free entry, the last
level has one. -/
theorem Backed.not_refuses {m : MemSubsystem P} (hm : m.Backed) (hcov : m.Covered)
    (hcap : ∀ x, (m.l1 x).inflight.entries.length ≤ (m.l1 x).maxInflight) {x : L1}
    {addr : BitVec 32} (hacc : (m.l1 x).Accepts addr) : ¬ m.llc.Refuses addr := by
  intro href
  have hle : m.llc.inflight.entries.length
      ≤ (m.l1 .icache).inflight.entries.length
        + (m.l1 .dcache).inflight.entries.length := by
    refine length_le_add_of_mem_or fun b hb => ?_
    obtain ⟨f, hf⟩ := Cache.mem_inflight_iff.mp hb
    -- each block in flight below is in flight in a first level
    obtain ⟨y, f', hf', -⟩ := hcov b f hf
    cases y with
    | icache => exact Or.inl (Cache.mem_inflight_iff.mpr ⟨f', hf'⟩)
    | dcache => exact Or.inr (Cache.mem_inflight_iff.mpr ⟨f', hf'⟩)
  have hentries := hm.entries
  have hroom := hacc.room
  have hnoRoom := href.noRoom
  have hi := hcap .icache
  have hd := hcap .dcache
  cases x <;> omega

/-- A step of one first level and the last level keeps the cover, if what is new
in the last level is in the first level too. -/
theorem Covered.putCaches {m : MemSubsystem P} (h : m.Covered) (x : L1)
    {l1' llc' : Cache P}
    (hold : ∀ b f, (m.l1 x).ready b = some f → l1'.ready b = some f)
    (hnew : ∀ b g, llc'.ready b = some g →
      m.llc.ready b = some g ∨ ∃ f', l1'.ready b = some f' ∧ g ≤ f') :
    (m.putCaches x l1' llc').Covered := by
  intro b g hg
  rw [putCaches_llc] at hg
  rcases hnew b g hg with hg | ⟨f', hf', hle⟩
  · obtain ⟨y, f', hf', hle⟩ := h b g hg
    refine ⟨y, f', ?_, hle⟩
    rw [putCaches_l1]
    -- `y` is the first level that took the step, or it is untouched
    split_ifs with hy
    · exact hold b f' (hy ▸ hf')
    · exact hf'
  · exact ⟨x, f', by rwa [putCaches_l1, if_pos rfl], hle⟩

theorem Covered.processReturns {m : MemSubsystem P} (h : m.Covered) (t : ℕ)
    (i d l : TableOrder) : (m.processReturns t i d l).Covered := by
  intro b g hg
  have hg' : (m.llc.processReturns t l).ready b = some g := hg
  rw [Cache.processReturns_ready] at hg'
  obtain ⟨hready, hlt⟩ := Option.filter_eq_some_iff.mp hg'
  obtain ⟨x, f', hf', hle⟩ := h b g hready
  refine ⟨x, f', ?_, hle⟩
  -- what the last level still waits for, the first level waits for too
  have hlt' : t < f' := (of_decide_eq_true hlt).trans_le hle
  simp [Cache.processReturns_ready, hf', hlt']

/-- The invariant under which the last level refuses nothing. -/
structure Unrefused (last : Option ℕ) (m : MemSubsystem P) : Prop where
  bounded : m.Bounded last
  backed : m.Backed
  covered : m.Covered
  neverFull : m.llc.NeverFull
  kept : ∀ x, (m.l1 x).PrefetchesKept

theorem Unrefused.not_refuses {m : MemSubsystem P} {last : Option ℕ}
    (h : m.Unrefused last) {x : L1} {addr : BitVec 32} (hacc : (m.l1 x).Accepts addr) :
    ¬ m.llc.Refuses addr :=
  h.backed.not_refuses h.covered (fun y => (h.bounded.l1 y).capacity) hacc

/-- A step of one first level and the last level. -/
theorem Unrefused.putCaches {m : MemSubsystem P} {last : Option ℕ}
    (h : m.Unrefused last) (x : L1) {l1' llc' : Cache P}
    (hc : l1'.Bounded last ∧ llc'.Bounded last)
    (hs : Cache.SameShape (m.l1 x) l1' ∧ Cache.SameShape m.llc llc')
    (hcov : (m.putCaches x l1' llc').Covered) (hnever : llc'.NeverFull)
    (hkept : l1'.PrefetchesKept) : (m.putCaches x l1' llc').Unrefused last where
  bounded := h.bounded.putCaches x hc
  backed := h.backed.of_shape ((SameShape.refl m).putCaches x hs)
  covered := hcov
  neverFull := by rwa [putCaches_llc]
  kept := forall_putCaches (J := fun _ c => c.PrefetchesKept) h.kept hkept llc'

/-- The block of an address in the last level is that in a first level. -/
theorem Backed.blockAddr {m : MemSubsystem P} (h : m.Backed) (x : L1)
    (addr : BitVec 32) : m.llc.getBlockAddr addr = (m.l1 x).getBlockAddr addr := by
  rw [Cache.getBlockAddr, Cache.getBlockAddr, h.lineSize x]

/-- An answer of the last level and the fill behind it keep the cover. -/
theorem Unrefused.covered_fill {m : MemSubsystem P} {last : Option ℕ}
    (h : m.Unrefused last) {x : L1} {addr : BitVec 32} (hacc : (m.l1 x).Accepts addr)
    {t f f' : ℕ} {pf : Bool} {s : AccessStatus} {llc' : Cache P}
    (answer : m.llc.LlcOutcome addr t pf s f llc') (hle : f ≤ f') :
    (m.putCaches x (((m.l1 x).request addr t pf).2.scheduleFill addr f' pf) llc').Covered := by
  refine h.covered.putCaches x (fun b g hg => (hacc.frame hg t f' pf).1) fun b g hg => ?_
  rcases answer.ready hg with hg | ⟨rfl, rfl⟩
  · exact Or.inl hg
  · exact Or.inr ⟨f', by rw [hacc.ready, if_pos (h.backed.blockAddr x addr)], hle⟩

/-- A step in which the last level gets nothing new keeps the cover. -/
theorem Unrefused.covered_request {m : MemSubsystem P} {last : Option ℕ}
    (h : m.Unrefused last) (x : L1) (addr : BitVec 32) (t : ℕ) (pf : Bool) :
    (m.putCaches x ((m.l1 x).request addr t pf).2 m.llc).Covered :=
  h.covered.putCaches x (fun _ _ hg => (Cache.request_frame hg addr t pf).1)
    fun _ _ hg => Or.inl hg

/-- **A demand access** keeps the invariant. -/
theorem Unrefused.access {m : MemSubsystem P} {t : ℕ} (h : m.Unrefused (some t)) (x : L1)
    {addr : BitVec 32} {r : HierarchyAccessResult} {l1' llc' : Cache P}
    (hout : (m.l1 x).AccessOutcome m.llc addr t x.hitLatency r l1' llc') :
    (m.putCaches x l1' llc').Unrefused (some t) := by
  have hc := hout.bounded (h.bounded.l1 x) h.bounded.llc
  have hdemand := (h.kept x).demand addr t
  have hcov := h.covered_request x addr t false
  -- the entries of the last level, its refusals, and what the first levels keep
  refine h.putCaches x hc hout.shape ?_ ?_ ?_
  · cases hout with
    | hit resident status => exact hcov
    | merged f absent pending status => exact hcov
    | l1Full refuses status => exact hcov
    | llcFull accepts refuses status llcStatus => exact absurd refuses (h.not_refuses accepts)
    | fill accepts status s f llc' llcStatus answer =>
      exact h.covered_fill accepts answer (Nat.le_add_right _ _)
  · cases hout with
    | hit resident status => exact h.neverFull
    | merged f absent pending status => exact h.neverFull
    | l1Full refuses status => exact h.neverFull
    | llcFull accepts refuses status llcStatus => exact absurd refuses (h.not_refuses accepts)
    | fill accepts status s f llc' llcStatus answer =>
      exact answer.neverFull llcStatus h.neverFull
  · cases hout with
    | hit resident status => exact hdemand
    | merged f absent pending status => exact hdemand
    | l1Full refuses status => exact hdemand
    | llcFull accepts refuses status llcStatus => exact hdemand
    | fill accepts status s f llc' llcStatus answer =>
      exact (h.kept x).scheduleDemand accepts t _

/-- **A prefetch** keeps the invariant. -/
theorem Unrefused.prefetch {m : MemSubsystem P} {t : ℕ} (h : m.Unrefused (some t)) (x : L1)
    {addr : BitVec 32} {l1' llc' : Cache P}
    (hout : (m.l1 x).PrefetchOutcome m.llc addr t l1' llc') :
    (m.putCaches x l1' llc').Unrefused (some t) := by
  have hc := hout.bounded (h.bounded.l1 x) h.bounded.llc
  refine h.putCaches x hc hout.shape ?_ ?_ ?_
  · cases hout with
    | skipped status => exact h.covered_request x addr t true
    | llcFull accepts refuses status llcStatus => exact absurd refuses (h.not_refuses accepts)
    | fill accepts status s f llc' llcStatus answer => exact h.covered_fill accepts answer le_rfl
  · cases hout with
    | skipped status => exact h.neverFull
    | llcFull accepts refuses status llcStatus => exact absurd refuses (h.not_refuses accepts)
    | fill accepts status s f llc' llcStatus answer =>
      exact answer.neverFull llcStatus h.neverFull
  · cases hout with
    | skipped status => exact (h.kept x).prefetch addr t status
    | llcFull accepts refuses status llcStatus => exact absurd refuses (h.not_refuses accepts)
    | fill accepts status s f llc' llcStatus answer => exact (h.kept x).fill accepts status f

theorem unrefused_runInvariant : RunInvariant (P := P) fun last m => m.Unrefused last where
  quiet {last m m'} hs h :=
    { bounded := bounded_runInvariant.quiet hs h.bounded
      backed := h.backed.of_shape
        (@(sameShape_runInvariant m).quiet last _ _ hs (SameShape.refl m))
      covered := fun b f hf => by
        obtain ⟨x, f', hf', hle⟩ := h.covered b f (by rwa [hs.llc] at hf)
        exact ⟨x, f', ((hs.same x).ready b).trans hf', hle⟩
      neverFull := hs.llc ▸ h.neverFull
      kept := fun x => by
        obtain ⟨p, hp⟩ := hs.l1 x
        rw [hp]
        exact h.kept x }
  access {t m} x addr r l1' llc' hout h := h.access x hout
  prefetch {t m} x addr l1' llc' hout h := h.prefetch x hout
  returns {last m} t i d l hle h :=
    { bounded := bounded_runInvariant.returns t i d l hle h.bounded
      backed := h.backed.of_shape
        ((sameShape_runInvariant m).returns t i d l hle (SameShape.refl m))
      covered := h.covered.processReturns t i d l
      neverFull := by
        obtain ⟨u, p, hk⟩ := Cache.processReturns_counters m.llc t l
        have hnever := h.neverFull
        unfold Cache.NeverFull at hnever ⊢
        rwa [show (m.processReturns t i d l).llc = m.llc.processReturns t l from rfl, hk]
      kept := fun x => by
        rw [processReturns_l1]
        exact (h.kept x).processReturns t _ }

end MemSubsystem

/-- The caches share one line size, and the last level has as many entries as
both first levels together. -/
structure MemConfig.Backed (cfg : MemConfig P) : Prop where
  icacheLine : cfg.icache.lineSize = cfg.llc.lineSize
  dcacheLine : cfg.dcache.lineSize = cfg.llc.lineSize
  mshrs : cfg.icache.mshrSize.toNat + cfg.dcache.mshrSize.toNat ≤ cfg.llc.mshrSize.toNat

theorem backed_shipped : shippedMemConfig.Backed := ⟨rfl, rfl, by decide⟩

namespace MemSubsystem

theorem unrefused_new {cfg : MemConfig P} (hb : cfg.Backed) :
    (new cfg).Unrefused none where
  bounded := bounded_new cfg
  backed :=
    { lineSize := fun x => by
        cases x
        · exact hb.icacheLine
        · exact hb.dcacheLine
      entries := hb.mshrs }
  covered b f hf := by simp [new, CacheConfig.build, Cache.new, Cache.ready] at hf
  neverFull := ⟨rfl, rfl⟩
  kept x := by cases x <;> rfl

variable [CachePrefetcher P]

/-- **The last level never refuses**, when its MSHRs cover those of the first
levels: it counts no blocked access and no dropped prefetch, an access can be
blocked by its own first level only, and a prefetch that a first level passes on
has its fill scheduled there. -/
theorem llc_never_refuses {cfg : MemConfig P} (hb : cfg.Backed) {last : Option ℕ}
    {m : MemSubsystem P} (h : Reachable cfg last m) :
    m.llc.counters.missBlocked = 0 ∧ m.llc.counters.prefetchDropped = 0 ∧
    (∀ x, (m.l1 x).counters.prefetch
      = (m.l1 x).counters.prefetchHit + (m.l1 x).counters.prefetchFilteredInflight
        + (m.l1 x).counters.prefetchDropped + (m.l1 x).scheduled true) ∧
    (∀ x addr t, (m.access x addr t).1.llcStatus ≠ .missBlocked ∧
      ((m.access x addr t).1.blocked = true →
        (m.access x addr t).1.l1Status = .missBlocked)) ∧
    ∀ x addr t, ((m.l1 x).request addr t true).1.status = .missNew →
      ∃ f, (issuePrefetchToL1 (m.l1 x) m.llc addr t).1.ready ((m.l1 x).getBlockAddr addr)
        = some f := by
  have hinv := h.invariant unrefused_runInvariant (unrefused_new hb)
  refine ⟨hinv.neverFull.1, hinv.neverFull.2, hinv.kept, fun x addr t => ?_,
    fun x addr t hnew => ?_⟩
  · obtain ⟨r, l1', llc', heq, hout⟩ := m.access_spec x addr t
    rw [heq]
    cases hout with
    | hit resident status => simp
    | merged f absent pending status => simp
    | l1Full refuses status => simp
    -- the last level has room whenever a first level takes a miss
    | llcFull accepts refuses status llcStatus =>
      exact absurd refuses (hinv.not_refuses accepts)
    | fill accepts status s f llc' llcStatus answer => cases answer <;> simp
  · obtain ⟨l1', llc', heq, hout⟩ := issuePrefetchToL1_spec (m.l1 x) m.llc addr t
    rw [heq]
    cases hout with
    | skipped status => exact absurd hnew status
    | llcFull accepts refuses status llcStatus =>
      exact absurd refuses (hinv.not_refuses accepts)
    | fill accepts status s f llc' llcStatus answer =>
      exact ⟨f, by rw [accepts.ready, if_pos rfl]⟩

theorem llc_never_refuses_twoMissRun :
    ((new shippedMemConfig).execs shippedMemConfig twoMissRun).llc.counters.missBlocked = 0 :=
  (llc_never_refuses backed_shipped
    ⟨twoMissRun, twoMissRun_disciplined, rfl, rfl⟩).1

end MemSubsystem

end TraceSim
