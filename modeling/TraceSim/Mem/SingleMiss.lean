/-
TraceSim/Mem/SingleMiss.lean

One miss at a time.

A first level that prefetches nothing, and is asked again only when its miss has
returned, has at most one request in flight: it is idle, or it awaits one block.  An
access to an idle cache hits or makes it await the block; the returns of the cycle
that was promised install the block, and the cache is idle again.
-/
import TraceSim.Mem.Ledger
import TraceSim.Mem.Owners

namespace TraceSim

variable {P : Type}

/-! ### No prefetches -/

/-- The prefetcher asks for nothing and stays as it is. -/
def Silent [CachePrefetcher P] (p : P) : Prop :=
  ∀ info, CachePrefetcher.onAccess p info = ([], p)

/-- The prefetcher `none` is silent. -/
theorem silent_none : Silent (makePrefetcher .none) := fun _ => rfl

theorem MemSubsystem.enqueuePrefetch_silent [CachePrefetcher P] {cfg : MemConfig P}
    {m : MemSubsystem P} (h : Silent m.icache.prefetcher) (pc addr : BitVec 32) (hit : Bool) :
    m.enqueuePrefetch cfg false pc addr hit = m := by
  unfold enqueuePrefetch
  rw [if_neg Bool.false_ne_true, h]
  rfl

/-- With nothing queued for the I-cache, the service of the queues leaves it alone. -/
theorem MemSubsystem.servicePrefetchQueues_icache (cfg : MemConfig P) {m : MemSubsystem P}
    (h : m.icachePrefetch.queue = []) (t : ℕ) :
    (m.servicePrefetchQueues cfg t).icache = m.icache ∧
      (m.servicePrefetchQueues cfg t).icachePrefetch = m.icachePrefetch := by
  have hempty (n) (l1 llc : Cache P) :
      servicePrefetchQueue t n [] l1 llc = ([], l1, llc) := by
    cases n <;> rfl
  unfold servicePrefetchQueues
  rw [h, hempty]
  refine ⟨rfl, ?_⟩
  change { m.icachePrefetch with queue := [] } = m.icachePrefetch
  rw [← h]

namespace Cache

/-- What a cache that never prefetches is like at any time: it can split an address,
fill a set and take a miss. -/
structure Plain [CachePrefetcher P] (c : Cache P) : Prop where
  geometry : c.PowerOfTwo
  ways : ∀ i, c.sets i ≠ []
  mshrs : 0 < c.maxInflight
  silent : Silent c.prefetcher

section Plain

variable [CachePrefetcher P] {c : Cache P}

theorem plain_build {cfg : CacheConfig P} (hgeometry : cfg.PowerOfTwo)
    (hmshrs : 0 < cfg.mshrSize.toNat) (hsilent : Silent cfg.prefetcher) : cfg.build.Plain where
  geometry := powerOfTwo_build hgeometry
  ways := (consistent_build hgeometry).ways
  mshrs := hmshrs
  silent := hsilent

theorem Plain.of_keys {c' : Cache P} (h : c.Plain) (hs : SameShape c c')
    (hkeys : ∀ i, c'.keys i = c.keys i) (hprefetcher : c'.prefetcher = c.prefetcher) :
    c'.Plain where
  geometry := h.geometry.of_shape hs
  ways := ways_of_keys hkeys h.ways
  mshrs := hs.maxInflight ▸ h.mshrs
  silent := hprefetcher ▸ h.silent

theorem Plain.request (h : c.Plain) (addr : BitVec 32) (t : ℕ) (pf : Bool) :
    (c.request addr t pf).2.Plain :=
  h.of_keys (request_spec c addr t pf).1.toSameShape (request_spec c addr t pf).1.keys
    (request_hooks c addr t pf).2

theorem Plain.scheduleFill (h : c.Plain) (addr : BitVec 32) (t : ℕ) (pf : Bool) :
    (c.scheduleFill addr t pf).Plain :=
  h.of_keys (scheduleFill_shape c addr t pf) (scheduleFill_keys c addr t pf)
    (scheduleFill_hooks c addr t pf).2

theorem Plain.returnBlock (h : c.Plain) (t : ℕ) (b : BitVec 32) :
    (returnBlock t c b).Plain where
  geometry := h.geometry.of_shape (returnBlock_shape t c b)
  ways := returnBlock_ways h.ways
  mshrs := (returnBlock_shape t c b).maxInflight ▸ h.mshrs
  silent := (returnBlock_hooks t c b).2 ▸ h.silent

theorem Plain.processReturns (h : c.Plain) (t : ℕ) (table : TableOrder) :
    (c.processReturns t table).Plain := by
  rw [Cache.processReturns]
  generalize table.order (c.completedBlocks t) = blocks
  induction blocks generalizing c with
  | nil => exact h
  | cons b blocks ih => exact ih (h.returnBlock t b)

theorem Plain.access {l1 llc l1' llc' : Cache P} {addr : BitVec 32} {t lat : ℕ}
    {r : HierarchyAccessResult} (h : l1.Plain)
    (hout : AccessOutcome l1 llc addr t lat r l1' llc') : l1'.Plain := by
  have hreq := h.request addr t false
  apply hout.rule
  · exact hreq
  · intro _ _
    exact hreq
  · intro accepts _ s f c' _ answer
    exact hreq.scheduleFill addr _ false

end Plain

/-! ### At most one request in flight -/

/-- Nothing is in flight. -/
def Idle (c : Cache P) : Prop := ∀ b, c.ready b = none

/-- The block `b`, ready in cycle `f`, is all that is in flight. -/
def Awaits (c : Cache P) (b : BitVec 32) (f : ℕ) : Prop :=
  ∀ b', c.ready b' = if b' = b then some f else none

variable {c l1 llc l1' llc' : Cache P} {addr b : BitVec 32} {t lat f : ℕ}

theorem Idle.length_eq (h : c.Idle) : c.inflight.entries.length = 0 := by
  have hnil : c.inflight.keys = [] := List.eq_nil_iff_forall_not_mem.mpr fun b hb =>
    ready_eq_none_iff.mp (h b) (AList.mem_keys.mpr hb)
  rw [← length_keys, hnil, List.length_nil]

/-- The awaited block is the only one in flight. -/
theorem Awaits.ready_iff (h : c.Awaits b f) {b' : BitVec 32} {g : ℕ} :
    c.ready b' = some g ↔ b' = b ∧ g = f := by
  rw [h b']
  split_ifs with hb
  · rw [Option.some.injEq, eq_comm, and_iff_right hb]
  · exact iff_of_false nofun fun h => hb h.1

theorem Awaits.length_le (h : c.Awaits b f) : c.inflight.entries.length ≤ 1 := by
  have hsub : c.inflight.keys ⊆ [b] := by
    intro b' hb'
    obtain ⟨g, hg⟩ := mem_inflight_iff.mp (AList.mem_keys.mpr hb')
    exact List.mem_singleton.mpr (h.ready_iff.mp hg).1
  rw [← length_keys]
  exact (List.subperm_of_subset c.inflight.keys_nodup hsub).length_le

/-- **An access to an idle cache** with a free MSHR, and a last level that does not
refuse it, is not blocked: it hits, or the cache awaits the block from then on. -/
theorem AccessOutcome.idle {r : HierarchyAccessResult}
    (h : AccessOutcome l1 llc addr t lat r l1' llc') (hidle : l1.Idle)
    (hmshrs : 0 < l1.maxInflight) (hllc : l1.Accepts addr → ¬ llc.Refuses addr)
    (hbounded : llc.Bounded (some t)) :
    r.blocked = false ∧
      ((r.l1Hit = true ∧ l1'.Idle) ∨
        (r.l1Hit = false ∧ t < r.readyCycle ∧
          l1'.Awaits (l1.getBlockAddr addr) r.readyCycle)) := by
  have hsame := (request_spec l1 addr t false).1
  cases h with
  | hit resident status =>
    exact ⟨rfl, Or.inl ⟨rfl, fun b => (hsame.ready b).trans (hidle b)⟩⟩
  | merged f absent pending status => cases (hidle _).symm.trans pending
  | l1Full refuses status =>
    have hnoRoom := refuses.noRoom
    rw [hidle.length_eq] at hnoRoom
    omega
  | llcFull accepts refuses status llcStatus => exact absurd refuses (hllc accepts)
  | fill accepts status s f llc' llcStatus answer =>
    refine ⟨rfl, Or.inr ⟨rfl, hbounded.later_add answer lat, fun b => ?_⟩⟩
    rw [accepts.ready, hidle b]

/-- Nothing returns to an idle cache. -/
theorem Idle.processReturns (h : c.Idle) (t : ℕ) (table : TableOrder) :
    c.processReturns t table = c := by
  have hnone : table.order (c.completedBlocks t) = [] := by
    refine List.eq_nil_iff_forall_not_mem.mpr fun b hb => ?_
    obtain ⟨f, hf, -⟩ := (mem_order table).mp hb
    cases (h b).symm.trans hf
  rw [Cache.processReturns, hnone, List.foldl_nil]

/-- Nothing returns before its time. -/
theorem Awaits.processReturns (h : c.Awaits b f) (hlt : t < f) (table : TableOrder) :
    (c.processReturns t table).Awaits b f := by
  intro b'
  rw [processReturns_ready, h b']
  split_ifs
  · rw [Option.filter_some, if_pos (decide_eq_true hlt)]
  · rfl

/-- **The returns of the promised cycle** install the block. -/
theorem Awaits.returned (h : c.Awaits b f) (hle : f ≤ t) (hways : ∀ i, c.sets i ≠ [])
    (table : TableOrder) :
    (c.processReturns t table).Idle ∧ (c.processReturns t table).contains b = true := by
  have hmem {b' : BitVec 32} : b' ∈ table.order (c.completedBlocks t) ↔ b' ∈ [b] := by
    rw [mem_order, List.mem_singleton]
    constructor
    · rintro ⟨g, hg, -⟩
      exact (h.ready_iff.mp hg).1
    · rintro rfl
      exact ⟨f, h.ready_iff.mpr ⟨rfl, rfl⟩, hle⟩
  have horder : table.order (c.completedBlocks t) = [b] :=
    List.perm_singleton.mp ((List.perm_ext_iff_of_nodup (nodup_order c t table)
      (List.nodup_singleton b)).mpr fun _ => hmem)
  constructor
  · intro b'
    rw [processReturns_ready, h b']
    split_ifs
    · rw [Option.filter_some, if_neg]
      simpa using hle
    · rfl
  · rw [Cache.processReturns, horder]
    exact returnBlock_contains (mem_inflight_iff.mpr ⟨f, h.ready_iff.mpr ⟨rfl, rfl⟩⟩) (hways _)

end Cache

end TraceSim
