/-
TraceSim/Mem/Late.lean

Late prefetches are counted by the merge, not by the prefetch.

A demand access that merges into a prefetch in flight makes it late.  `request`
counts every such merge, although the entry records in `has_demand_waiter` that
an earlier access has already been counted (`Cache.remeets`).  The prefetches
that were ever met are known from the tables and the fills (`Cache.met`); the
late count is ahead of them by the repeated merges (`Cache.excess`).  So each
prefetch is counted once exactly in the runs in which no access merges into a
prefetch that already has a demand waiter (`late_once_iff`).
-/
import TraceSim.Mem.Blocked
import TraceSim.Mem.Ledger

namespace TraceSim

variable {P : Type}

/-- A prefetch in flight that a demand access is waiting for. -/
def InflightRequest.isMet (r : InflightRequest) : Bool := r.isPrefetch && r.hasDemandWaiter

namespace Cache

/-- The number of prefetches that a demand access has met in flight so far. -/
def met (c : Cache P) : ℕ := countValues InflightRequest.isMet c.inflight + c.waitedFills

/-- How far the late count is ahead of the prefetches that were met. -/
def excess (c : Cache P) : ℤ := (c.counters.latePrefetch : ℤ) - c.met

/-- A demand request for `addr` would merge into a prefetch that already has a
demand waiter. -/
def remeets (c : Cache P) (addr : BitVec 32) : Bool :=
  !c.contains addr && (c.inflight.lookup (c.getBlockAddr addr)).any InflightRequest.isMet

theorem remeets_of_idle {c : Cache P} {addr : BitVec 32}
    (h : c.ready (c.getBlockAddr addr) = none) : c.remeets addr = false := by
  rw [ready, Option.map_eq_none_iff] at h
  simp [remeets, h]

theorem remeets_of_contains {c : Cache P} {addr : BitVec 32} (h : c.contains addr = true) :
    c.remeets addr = false := by
  simp [remeets, h]

/-! ### What the operations do to the excess -/

theorem hitWay_excess (c : Cache P) (addr : BitVec 32) (way t : ℕ) (pf : Bool) :
    (c.hitWay addr way t pf).excess = c.excess := by
  unfold hitWay
  dsimp only
  split_ifs <;> rfl

theorem missUnknown_excess (c : Cache P) (pf : Bool) :
    (c.missUnknown pf).2.excess = c.excess := by
  unfold missUnknown
  split_ifs <;> rfl

/-- A merge is one late count too many if the prefetch has already been met. -/
theorem mergeInflight_excess {c : Cache P} {b : BitVec 32} {req : InflightRequest}
    (hreq : c.inflight.lookup b = some req) (pf : Bool) :
    (c.mergeInflight b req pf).excess
      = c.excess + if pf = false ∧ req.isMet = true then 1 else 0 := by
  cases pf with
  | true => simp [mergeInflight, excess, met, waitedFills]
  | false =>
    have hrep := countValues_replace InflightRequest.isMet
      { req with hasDemandWaiter := true } hreq
    have hmet : (c.mergeInflight b req false).met
        = countValues InflightRequest.isMet
            (c.inflight.replace b { req with hasDemandWaiter := true }) + c.waitedFills := rfl
    have hlate : (c.mergeInflight b req false).counters.latePrefetch
        = if req.isPrefetch then c.counters.latePrefetch + 1 else c.counters.latePrefetch := rfl
    rw [excess, hmet, hlate, excess, met]
    cases hp : req.isPrefetch <;> cases hd : req.hasDemandWaiter <;>
      simp [InflightRequest.isMet, hp, hd] at hrep ⊢ <;> omega

/-- **The excess grows** by the demand requests that meet a prefetch again. -/
theorem request_excess (c : Cache P) (addr : BitVec 32) (t : ℕ) (pf : Bool) :
    (c.request addr t pf).2.excess
      = c.excess + if pf = false ∧ c.remeets addr = true then 1 else 0 := by
  have hcount : (c.countRequest pf).excess = c.excess := by
    cases pf <;> rfl
  have hremeets : (c.countRequest pf).remeets addr = c.remeets addr := by
    cases pf <;> rfl
  rw [← hcount, ← hremeets]
  unfold request
  dsimp only
  generalize c.countRequest pf = c'
  have hfind := findWay_eq_none (c := c') (a := addr)
  rcases e : findWay (buildLineViews (c'.sets (c'.index addr))) (c'.tag addr) with - | way
  · have habsent := hfind.mp e
    dsimp only
    rcases er : c'.inflight.lookup (c'.getBlockAddr addr) with - | req
    · have hnot : c'.remeets addr = false := by simp [remeets, er]
      simp [missUnknown_excess, hnot]
    · have hmet : c'.remeets addr = req.isMet := by simp [remeets, er, habsent]
      rw [hmet]
      exact mergeInflight_excess er pf
  · have hres : c'.contains addr = true := by
      rw [← Bool.not_eq_false, ← hfind, e]
      simp
    simp [hitWay_excess, remeets_of_contains hres]

variable {l1 llc l1' llc' : Cache P} {addr : BitVec 32} {t lat f : ℕ}

/-- A request is not met when it is scheduled. -/
theorem Accepts.excess {c : Cache P} (h : c.Accepts addr) (t f : ℕ) (pf : Bool) :
    ((c.request addr t pf).2.scheduleFill addr f pf).excess = c.excess := by
  have hidle := (h.request t pf).idle
  have hreq := request_excess c addr t pf
  rw [remeets_of_idle h.idle] at hreq
  have hmet : ((c.request addr t pf).2.scheduleFill addr f pf).met
      = (c.request addr t pf).2.met := by
    have hwaited : (c.request addr t pf).2.waitedFills = c.waitedFills := by
      rw [Cache.waitedFills, (request_spec c addr t pf).1.history, Cache.waitedFills]
    rw [met, met, h.waitedFills, hwaited, scheduleFill_new hidle,
      countValues_insert _ (ready_eq_none_iff.mp hidle)]
    cases pf <;> simp [InflightRequest.isMet]
  have hsame : ((c.request addr t pf).2.scheduleFill addr f pf).excess
      = (c.request addr t pf).2.excess := by
    rw [Cache.excess, hmet, scheduleFill_counters, Cache.excess]
  rw [hsame, hreq]
  simp

/-- A prefetch that was met returns as a prefetch that was waited for. -/
theorem returnBlock_excess (t : ℕ) (c : Cache P) (b : BitVec 32) :
    (returnBlock t c b).excess = c.excess := by
  rcases e : c.inflight.lookup b with - | req
  · rw [returnBlock_of_notMem (AList.lookup_eq_none.mp e)]
  have hwaited := fillBlock_waitedFills c b t req.isPrefetch req.hasDemandWaiter
  have herase := countValues_erase InflightRequest.isMet e
  have hmet : (returnBlock t c b).met
      = countValues InflightRequest.isMet (c.inflight.erase b)
        + (c.fillBlock b t req.isPrefetch req.hasDemandWaiter).waitedFills := by
    rw [returnBlock_of_lookup e]
    rfl
  have hlate : (returnBlock t c b).counters.latePrefetch = c.counters.latePrefetch := by
    obtain ⟨u, p, hk⟩ := returnBlock_counters t c b
    rw [hk]
  have hkind : req.isMet = (req.isPrefetch && req.hasDemandWaiter) := rfl
  rw [hkind] at herase
  rw [excess, excess, hmet, hwaited, hlate, met, herase]
  omega

theorem processReturns_excess (c : Cache P) (t : ℕ) (table : TableOrder) :
    (c.processReturns t table).excess = c.excess := by
  rw [processReturns]
  generalize table.order (c.completedBlocks t) = blocks
  induction blocks generalizing c with
  | nil => rfl
  | cons b blocks ih => rw [List.foldl_cons, ih, returnBlock_excess]

theorem LlcOutcome.excess {pf : Bool} {s : AccessStatus}
    (h : llc.LlcOutcome addr t pf s f llc') :
    llc'.excess = llc.excess + if pf = false ∧ llc.remeets addr = true then 1 else 0 := by
  have hreq := request_excess llc addr t pf
  cases h with
  | hit resident => exact hreq
  | merged f absent pending => exact hreq
  | new absent idle room =>
    rw [Accepts.excess ⟨absent, idle, room⟩, remeets_of_idle idle]
    simp

instance (c : Cache P) (addr : BitVec 32) : Decidable (c.Accepts addr) :=
  decidable_of_iff
    (c.contains addr = false ∧ c.ready (c.getBlockAddr addr) = none ∧
      c.inflight.entries.length < c.maxInflight)
    ⟨fun h => ⟨h.1, h.2.1, h.2.2⟩, fun h => ⟨h.absent, h.idle, h.room⟩⟩

/-- **A demand access** adds to the excess of its first level, or of the last
level if it gets there, when it meets a prefetch again. -/
theorem AccessOutcome.excess {r : HierarchyAccessResult}
    (h : AccessOutcome l1 llc addr t lat r l1' llc') :
    l1'.excess = l1.excess + (if l1.remeets addr then 1 else 0) ∧
      llc'.excess
        = llc.excess + if l1.Accepts addr ∧ llc.remeets addr = true then 1 else 0 := by
  have hl1 : (l1.request addr t false).2.excess
      = l1.excess + if l1.remeets addr then 1 else 0 := by
    simpa using request_excess l1 addr t false
  have hllc := request_excess llc addr t false
  -- only a fill reaches the last level with its request
  cases h with
  | hit resident status =>
    have hnot : ¬ l1.Accepts addr := fun h => by
      rw [h.absent] at resident
      cases resident
    exact ⟨hl1, by simp [hnot]⟩
  | merged f absent pending status =>
    have hnot : ¬ l1.Accepts addr := fun h => by cases pending.symm.trans h.idle
    exact ⟨hl1, by simp [hnot]⟩
  | l1Full refuses status =>
    have hnot : ¬ l1.Accepts addr := fun h => h.not_refuses refuses
    exact ⟨hl1, by simp [hnot]⟩
  | llcFull accepts refuses status llcStatus =>
    refine ⟨hl1, ?_⟩
    rw [hllc, remeets_of_idle refuses.idle]
    simp
  | fill accepts status s f llc' llcStatus answer =>
    refine ⟨?_, ?_⟩
    · rw [accepts.excess, remeets_of_idle accepts.idle]
      simp
    · rw [answer.excess]
      simp [accepts]

/-- A prefetch meets nothing. -/
theorem PrefetchOutcome.excess (h : PrefetchOutcome l1 llc addr t l1' llc') :
    l1'.excess = l1.excess ∧ llc'.excess = llc.excess := by
  have hl1 := request_excess l1 addr t true
  have hllc := request_excess llc addr t true
  cases h with
  | skipped status => exact ⟨by simpa using hl1, rfl⟩
  | llcFull accepts refuses status llcStatus => exact ⟨by simpa using hl1, by simpa using hllc⟩
  | fill accepts status s f llc' llcStatus answer =>
    exact ⟨accepts.excess t f true, by simpa using answer.excess⟩

/-! ### What holds of every run -/

/-- The late count is not behind the prefetches that were met, and those that
returned are among the prefetch fills. -/
structure Ahead (c : Cache P) : Prop where
  excess : 0 ≤ c.excess
  waited : c.waitedFills ≤ c.counters.prefetchFill

theorem Ahead.request {c : Cache P} (h : c.Ahead) (addr : BitVec 32) (t : ℕ) (pf : Bool) :
    (c.request addr t pf).2.Ahead where
  excess := by
    have hstart := h.excess
    rw [request_excess]
    split_ifs <;> omega
  waited := by
    rw [(request_fills c addr t pf).1, waitedFills, (request_spec c addr t pf).1.history]
    exact h.waited

theorem Ahead.fill {c : Cache P} (h : c.Ahead) (hacc : c.Accepts addr) (t f : ℕ)
    (pf : Bool) : ((c.request addr t pf).2.scheduleFill addr f pf).Ahead where
  excess := by
    rw [hacc.excess]
    exact h.excess
  waited := by
    rw [hacc.waitedFills, scheduleFill_counters, (request_fills c addr t pf).1]
    exact h.waited

theorem Ahead.returnBlock {c : Cache P} (h : c.Ahead) (t : ℕ) (b : BitVec 32) :
    (returnBlock t c b).Ahead where
  excess := by
    rw [returnBlock_excess]
    exact h.excess
  waited := by
    rcases e : c.inflight.lookup b with - | req
    · rw [returnBlock_of_notMem (AList.lookup_eq_none.mp e)]
      exact h.waited
    have hstart := h.waited
    rw [returnBlock_of_lookup e]
    show (c.fillBlock b t req.isPrefetch req.hasDemandWaiter).waitedFills
      ≤ (c.fillBlock b t req.isPrefetch req.hasDemandWaiter).counters.prefetchFill
    rw [fillBlock_waitedFills, fillBlock_prefetchFill]
    cases req.isPrefetch <;> cases req.hasDemandWaiter <;> simp <;> omega

theorem Ahead.processReturns {c : Cache P} (h : c.Ahead) (t : ℕ) (table : TableOrder) :
    (c.processReturns t table).Ahead := by
  rw [Cache.processReturns]
  generalize table.order (c.completedBlocks t) = blocks
  induction blocks generalizing c with
  | nil => exact h
  | cons b blocks ih => exact ih (h.returnBlock t b)

theorem LlcOutcome.ahead {pf : Bool} {s : AccessStatus}
    (h : llc.LlcOutcome addr t pf s f llc') (ha : llc.Ahead) : llc'.Ahead := by
  cases h with
  | hit resident => exact ha.request addr t pf
  | merged f absent pending => exact ha.request addr t pf
  | new absent idle room => exact ha.fill ⟨absent, idle, room⟩ t _ pf

theorem AccessOutcome.ahead {r : HierarchyAccessResult}
    (h : AccessOutcome l1 llc addr t lat r l1' llc') (h1 : l1.Ahead) (h2 : llc.Ahead) :
    l1'.Ahead ∧ llc'.Ahead := by
  have hl1 := h1.request addr t false
  apply h.rule
  · exact ⟨hl1, h2⟩
  · intro _ _
    exact ⟨hl1, h2.request addr t false⟩
  · intro accepts _ s f c' _ answer
    exact ⟨h1.fill accepts t _ false, answer.ahead h2⟩

theorem PrefetchOutcome.ahead (h : PrefetchOutcome l1 llc addr t l1' llc') (h1 : l1.Ahead)
    (h2 : llc.Ahead) : l1'.Ahead ∧ llc'.Ahead := by
  have hl1 := h1.request addr t true
  apply h.rule
  · intro _
    exact ⟨hl1, h2⟩
  · intro _ _
    exact ⟨hl1, h2.request addr t true⟩
  · intro accepts _ s f c' _ answer
    exact ⟨h1.fill accepts t f true, answer.ahead h2⟩

/-! ### Each prefetch counted once -/

/-- Each prefetch is counted late at most once: the late count is within the
prefetches that were met, and so within those filled or in flight. -/
structure LateOnce (c : Cache P) : Prop where
  met : c.counters.latePrefetch ≤ c.met
  population : c.counters.latePrefetch ≤ c.counters.prefetchFill + c.inflightPrefetches

theorem Ahead.lateOnce_iff {c : Cache P} (h : c.Ahead) : c.LateOnce ↔ c.excess = 0 := by
  have hwaited := h.waited
  have hstart := h.excess
  -- a prefetch that was met is one in flight, or a filled one
  have hmet : countValues InflightRequest.isMet c.inflight ≤ c.inflightPrefetches :=
    countValues_mono (fun r hr => (Bool.and_eq_true_iff.mp hr).1) _
  constructor
  · intro hlate
    have hle := hlate.met
    simp only [Cache.excess] at hstart ⊢
    omega
  · intro hzero
    simp only [Cache.excess, Cache.met] at hzero
    exact ⟨by rw [Cache.met]; omega, by omega⟩

end Cache

namespace MemSubsystem

/-- A demand access through `x` merges, there or in the last level, into a
prefetch that already has a demand waiter. -/
def Remeets (m : MemSubsystem P) (x : L1) (addr : BitVec 32) : Prop :=
  (m.l1 x).remeets addr = true ∨ (m.l1 x).Accepts addr ∧ m.llc.remeets addr = true

/-- Every cache is ahead. -/
def Ahead (m : MemSubsystem P) : Prop := (∀ x, (m.l1 x).Ahead) ∧ m.llc.Ahead

theorem Ahead.putCaches {m : MemSubsystem P} (h : m.Ahead) (x : L1) {l1' llc' : Cache P}
    (hc : l1'.Ahead ∧ llc'.Ahead) : (m.putCaches x l1' llc').Ahead := by
  refine ⟨forall_putCaches (J := fun _ c => c.Ahead) h.1 hc.1 llc', ?_⟩
  rw [putCaches_llc]
  exact hc.2

theorem ahead_runInvariant : RunInvariant (P := P) fun _ m => m.Ahead where
  quiet {last m m'} hs h := by
    refine ⟨fun x => ?_, hs.llc ▸ h.2⟩
    obtain ⟨p, hp⟩ := hs.l1 x
    rw [hp]
    exact ⟨(h.1 x).excess, (h.1 x).waited⟩
  access {t m} x addr r l1' llc' hout h := h.putCaches x (hout.ahead (h.1 x) h.2)
  prefetch {t m} x addr l1' llc' hout h := h.putCaches x (hout.ahead (h.1 x) h.2)
  returns {last m} t i d l hle h :=
    ⟨fun x => by rw [processReturns_l1]; exact (h.1 x).processReturns t _,
      h.2.processReturns t l⟩

/-- No cache is ahead of the prefetches that were met. -/
def Exact (m : MemSubsystem P) : Prop := (∀ x, (m.l1 x).excess = 0) ∧ m.llc.excess = 0

theorem Exact.putCaches {m : MemSubsystem P} (h : m.Exact) (x : L1) {l1' llc' : Cache P}
    (h1 : l1'.excess = (m.l1 x).excess) (h2 : llc'.excess = m.llc.excess) :
    (m.putCaches x l1' llc').Exact := by
  refine ⟨forall_putCaches (J := fun _ c => c.excess = 0) h.1 (h1.trans (h.1 x)) llc', ?_⟩
  rw [putCaches_llc, h2, h.2]

theorem exact_serviceInvariant : ServiceInvariant (P := P) fun _ m => m.Exact where
  quiet {last m m'} hs h := by
    refine ⟨fun x => ?_, hs.llc ▸ h.2⟩
    obtain ⟨p, hp⟩ := hs.l1 x
    rw [hp]
    exact h.1 x
  prefetch {t m} x addr l1' llc' hout h := h.putCaches x hout.excess.1 hout.excess.2

section Run

variable [CachePrefetcher P] {cfg : MemConfig P}

/-- One call keeps the count exact, if it does not meet a prefetch again. -/
theorem Exact.exec {m : MemSubsystem P} (h : m.Exact) (op : MemOp)
    (hop : ∀ x addr t, op = .access x addr t → ¬ m.Remeets x addr) :
    (m.exec cfg op).Exact := by
  cases op with
  | access x addr t =>
    obtain ⟨r, l1', llc', heq, hout⟩ := m.access_spec x addr t
    obtain ⟨h1, h2⟩ := hout.excess
    have hnot := hop x addr t rfl
    rw [Remeets, not_or] at hnot
    rw [if_neg hnot.1, add_zero] at h1
    rw [if_neg hnot.2, add_zero] at h2
    have hstep : (m.putCaches x l1' llc').Exact := h.putCaches x h1 h2
    simpa [MemSubsystem.exec, heq] using hstep
  | enqueuePrefetch isData pc addr hit =>
    exact @exact_serviceInvariant.quiet none _ _
      (m.enqueuePrefetch_same cfg isData pc addr hit) h
  | servicePrefetchQueues t => exact exact_serviceInvariant.servicePrefetchQueues cfg h
  | processReturns t i d l =>
    refine ⟨fun x => ?_, (Cache.processReturns_excess _ t l).trans h.2⟩
    exact (processReturns_l1 m t i d l x).symm ▸
      (Cache.processReturns_excess _ t _).trans (h.1 x)

/-- A run without such an access keeps the count exact. -/
theorem exact_passes {ops : List MemOp}
    (hops : ∀ m x addr t, Performs cfg ops m (.access x addr t) → ¬ m.Remeets x addr)
    {m : MemSubsystem P} (hm : Passes cfg ops m) : m.Exact := by
  obtain ⟨before, after, rfl, rfl⟩ := hm
  induction before using List.reverseRecOn generalizing after with
  | nil => exact ⟨fun x => by cases x <;> rfl, rfl⟩
  | append_singleton before op ih =>
    rw [execs_append]
    refine Exact.exec (ih (op :: after) ?_) op fun x addr t hop => ?_
    · rwa [List.append_assoc] at hops
    · exact hops _ x addr t ⟨before, after, by rw [hop, List.append_assoc]; rfl, rfl⟩

theorem ahead_passes {ops : List MemOp} {m : MemSubsystem P} (hm : Passes cfg ops m) :
    m.Ahead := by
  obtain ⟨before, after, -, rfl⟩ := hm
  have hnew : (new cfg).Ahead :=
    ⟨fun x => by cases x <;> exact ⟨le_rfl, le_rfl⟩, ⟨le_rfl, le_rfl⟩⟩
  exact ahead_runInvariant.execs_undisciplined cfg hnew before

/-- **Late prefetches over a run**: in every state each cache has counted each
prefetch late at most once, exactly if no access of the run merges into a
prefetch that already has a demand waiter. -/
theorem late_once_iff (ops : List MemOp) :
    (∀ m, Passes cfg ops m → (∀ x, (m.l1 x).LateOnce) ∧ m.llc.LateOnce) ↔
    ∀ m x addr t, Performs cfg ops m (.access x addr t) → ¬ m.Remeets x addr := by
  constructor
  · rintro hlate m x addr t ⟨before, after, rfl, hm⟩ hmeets
    -- after the call one cache is ahead of the prefetches that were met
    have hbefore : m.Ahead := ahead_passes ⟨before, .access x addr t :: after, rfl, hm⟩
    have hpass : Passes cfg (before ++ .access x addr t :: after) (m.access x addr t).2 :=
      ⟨before ++ [.access x addr t], after, by simp, by rw [execs_append, hm]; rfl⟩
    obtain ⟨hl1, hllc⟩ := hlate _ hpass
    have hafter := ahead_passes hpass
    obtain ⟨r, l1', llc', heq, hout⟩ := m.access_spec x addr t
    obtain ⟨h1, h2⟩ := hout.excess
    rw [heq] at hl1 hllc hafter
    have hzero := (hafter.1 x).lateOnce_iff.mp (hl1 x)
    have hzero' := hafter.2.lateOnce_iff.mp hllc
    rw [putCaches_l1, if_pos rfl, h1] at hzero
    rw [putCaches_llc, h2] at hzero'
    have hpos := (hbefore.1 x).excess
    have hpos' := hbefore.2.excess
    rcases hmeets with hmeets | hmeets
    · rw [if_pos hmeets] at hzero
      omega
    · rw [if_pos hmeets] at hzero'
      omega
  · intro hrun m hm
    have hexact := exact_passes hrun hm
    have hahead := ahead_passes hm
    exact ⟨fun x => (hahead.1 x).lateOnce_iff.mpr (hexact.1 x),
      hahead.2.lateOnce_iff.mpr hexact.2⟩

end Run

/-- A load starts the prefetch of the next line, and two more loads want that
line while it is in flight. -/
def twoLateLoads : List MemOp :=
  [.processReturns 0 default default default, .access .dcache 0x1000 0,
    .enqueuePrefetch true 0x80000000 0x1000 false, .servicePrefetchQueues 0,
    .access .dcache 0x1040 0, .access .dcache 0x1044 0]

/-- Both loads are counted as a late prefetch, but only one prefetch is in
flight and none was filled. -/
theorem late_twice :
    ∃ m, Reachable nextLineConfig (some 0) m ∧
      ¬ (m.dcache.counters.latePrefetch
          ≤ m.dcache.counters.prefetchFill + m.dcache.inflightPrefetches) :=
  ⟨(new nextLineConfig).execs nextLineConfig twoLateLoads,
    ⟨twoLateLoads, by simp [twoLateLoads, Disciplined, MemOp.Allowed, MemOp.latest], rfl, rfl⟩,
    by decide +kernel⟩

end MemSubsystem

end TraceSim
