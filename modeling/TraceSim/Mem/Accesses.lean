/-
TraceSim/Mem/Accesses.lean

What a demand access and a prefetch do across the two cache levels.

`request` only classifies; the caller schedules the fill.  `AccessOutcome` and
`PrefetchOutcome` list how a whole access can go: with what the tables of both
levels said before it, what it answers and both caches after it.  Every
invariant of the hierarchy is proved by cases on them.
-/
import TraceSim.Mem.CacheTables
import TraceSim.Mem.MemSubsystem

namespace TraceSim

variable {P : Type}

/-! ### The counters of a request -/

/-- The counters after a request with the given answer, up to the three that
tell how prefetches were used. -/
def CacheCounters.count (k : CacheCounters) (isPrefetch : Bool) :
    AccessStatus → CacheCounters
  | .hit =>
      if isPrefetch then
        { k with prefetch := k.prefetch + 1, prefetchHit := k.prefetchHit + 1 }
      else { k with access := k.access + 1, hit := k.hit + 1 }
  | .missMerged =>
      if isPrefetch then
        { k with
          prefetch := k.prefetch + 1
          prefetchFilteredInflight := k.prefetchFilteredInflight + 1 }
      else { k with access := k.access + 1, missMerged := k.missMerged + 1 }
  | .missNew =>
      if isPrefetch then { k with prefetch := k.prefetch + 1 }
      else { k with access := k.access + 1, missNew := k.missNew + 1 }
  | .missBlocked =>
      { k with access := k.access + 1, missBlocked := k.missBlocked + 1 }
  | .prefetchDropped =>
      { k with prefetch := k.prefetch + 1, prefetchDropped := k.prefetchDropped + 1 }

namespace Cache

theorem missUnknown_counters (c : Cache P) (isPrefetch : Bool) :
    ((c.countRequest isPrefetch).missUnknown isPrefetch).2.counters
      = c.counters.count isPrefetch
          ((c.countRequest isPrefetch).missUnknown isPrefetch).1.status := by
  cases isPrefetch <;> unfold missUnknown <;> split <;> rfl

/-- **The counters of a request** follow its answer. -/
theorem request_counters (c : Cache P) (addr : BitVec 32) (t : ℕ) (isPrefetch : Bool) :
    ∃ u d l, (c.request addr t isPrefetch).2.counters
      = { c.counters.count isPrefetch (c.request addr t isPrefetch).1.status with
          usefulPrefetch := u, demandMergedWithPrefetch := d, latePrefetch := l } := by
  unfold request
  dsimp only
  split
  · -- a hit
    unfold hitWay
    cases isPrefetch
    · simp only [Bool.false_eq_true, if_false]
      split_ifs <;> exact ⟨_, _, _, rfl⟩
    · exact ⟨_, _, _, rfl⟩
  · split
    · -- a merge
      cases isPrefetch <;> exact ⟨_, _, _, rfl⟩
    · exact ⟨_, _, _, missUnknown_counters c isPrefetch⟩

/-- A request for a block that is neither resident nor in flight changes the
counters only. -/
theorem request_unknown {c : Cache P} {addr : BitVec 32}
    (absent : c.contains addr = false) (idle : c.ready (c.getBlockAddr addr) = none)
    (t : ℕ) (isPrefetch : Bool) :
    ∃ k, (c.request addr t isPrefetch).2 = { c with counters := k } := by
  have hcount := countRequest_same c isPrefetch
  have hfind := findWay_eq_none (c := c.countRequest isPrefetch) (a := addr)
  rw [hcount.contains] at hfind
  have hlookup : (c.countRequest isPrefetch).inflight.lookup
      ((c.countRequest isPrefetch).getBlockAddr addr) = none := by
    rw [hcount.getBlockAddr]
    rwa [← hcount.ready, ready, Option.map_eq_none_iff] at idle
  unfold request
  dsimp only
  rw [hfind.mpr absent]
  dsimp only
  rw [hlookup]
  unfold missUnknown countRequest
  cases isPrefetch <;> dsimp only <;> split_ifs <;> exact ⟨_, rfl⟩

/-! ### Access outcomes -/

/-- The answer of the last level to a new miss of a first level that it does not
refuse: its status, when the block arrives, and the last level afterwards. -/
inductive LlcOutcome (llc : Cache P) (addr : BitVec 32) (t : ℕ) (isPrefetch : Bool) :
    AccessStatus → ℕ → Cache P → Prop
  | hit (resident : llc.contains addr = true) :
      LlcOutcome llc addr t isPrefetch .hit (t + llcHitLatency)
        (llc.request addr t isPrefetch).2
  | merged (f : ℕ) (absent : llc.contains addr = false)
      (pending : llc.ready (llc.getBlockAddr addr) = some f) :
      LlcOutcome llc addr t isPrefetch .missMerged f (llc.request addr t isPrefetch).2
  | new (absent : llc.contains addr = false)
      (idle : llc.ready (llc.getBlockAddr addr) = none)
      (room : llc.inflight.entries.length < llc.maxInflight) :
      LlcOutcome llc addr t isPrefetch .missNew (t + llcHitLatency + memoryMissPenalty)
        ((llc.request addr t isPrefetch).2.scheduleFill addr
          (t + llcHitLatency + memoryMissPenalty) isPrefetch)

/-- The cache neither holds nor awaits the block of `addr`, and has a free entry
for it. -/
structure Accepts (c : Cache P) (addr : BitVec 32) : Prop where
  absent : c.contains addr = false
  idle : c.ready (c.getBlockAddr addr) = none
  room : c.inflight.entries.length < c.maxInflight

/-- The cache neither holds nor awaits the block of `addr`, and has no free
entry for it. -/
structure Refuses (c : Cache P) (addr : BitVec 32) : Prop where
  absent : c.contains addr = false
  idle : c.ready (c.getBlockAddr addr) = none
  noRoom : c.maxInflight ≤ c.inflight.entries.length

theorem Accepts.not_refuses {c : Cache P} {addr : BitVec 32} (h : c.Accepts addr) :
    ¬ c.Refuses addr := fun h' => absurd h.room (by have := h'.noRoom; omega)

/-- A last level that answers does not refuse. -/
theorem LlcOutcome.not_refuses {llc llc' : Cache P} {addr : BitVec 32} {t f : ℕ}
    {isPrefetch : Bool} {s : AccessStatus}
    (h : llc.LlcOutcome addr t isPrefetch s f llc') : ¬ llc.Refuses addr := by
  intro href
  cases h with
  | hit resident => cases resident.symm.trans href.absent
  | merged f absent pending => cases pending.symm.trans href.idle
  | new absent idle room => exact Accepts.not_refuses ⟨absent, idle, room⟩ href

/-- How a demand access can go. -/
inductive AccessOutcome (l1 llc : Cache P) (addr : BitVec 32) (t lat : ℕ) :
    HierarchyAccessResult → Cache P → Cache P → Prop
  | hit (resident : l1.contains addr = true)
      (status : (l1.request addr t false).1.status = .hit) :
      AccessOutcome l1 llc addr t lat
        { l1Status := .hit, l1Hit := true, readyCycle := t + lat }
        (l1.request addr t false).2 llc
  | merged (f : ℕ) (absent : l1.contains addr = false)
      (pending : l1.ready (l1.getBlockAddr addr) = some f)
      (status : (l1.request addr t false).1.status = .missMerged) :
      AccessOutcome l1 llc addr t lat
        { l1Status := .missMerged, readyCycle := max (t + lat) f }
        (l1.request addr t false).2 llc
  | l1Full (refuses : l1.Refuses addr)
      (status : (l1.request addr t false).1.status = .missBlocked) :
      AccessOutcome l1 llc addr t lat
        { l1Status := .missBlocked, blocked := true, readyCycle := t + lat }
        (l1.request addr t false).2 llc
  | llcFull (accepts : l1.Accepts addr) (refuses : llc.Refuses addr)
      (status : (l1.request addr t false).1.status = .missNew)
      (llcStatus : (llc.request addr t false).1.status = .missBlocked) :
      AccessOutcome l1 llc addr t lat
        { l1Status := .missNew, llcStatus := .missBlocked, blocked := true,
          readyCycle := t + lat }
        (l1.request addr t false).2 (llc.request addr t false).2
  | fill (accepts : l1.Accepts addr)
      (status : (l1.request addr t false).1.status = .missNew)
      (s : AccessStatus) (f : ℕ) (llc' : Cache P)
      (llcStatus : (llc.request addr t false).1.status = s)
      (answer : llc.LlcOutcome addr t false s f llc') :
      AccessOutcome l1 llc addr t lat
        { l1Status := .missNew, llcStatus := s,
          llcHit := decide (s = AccessStatus.hit),
          dramMiss := decide (s = AccessStatus.missNew),
          readyCycle := f + lat }
        ((l1.request addr t false).2.scheduleFill addr (f + lat) false) llc'

/-- How a prefetch can go. -/
inductive PrefetchOutcome (l1 llc : Cache P) (addr : BitVec 32) (t : ℕ) :
    Cache P → Cache P → Prop
  | skipped (status : (l1.request addr t true).1.status ≠ .missNew) :
      PrefetchOutcome l1 llc addr t (l1.request addr t true).2 llc
  | llcFull (accepts : l1.Accepts addr) (refuses : llc.Refuses addr)
      (status : (l1.request addr t true).1.status = .missNew)
      (llcStatus : (llc.request addr t true).1.status = .prefetchDropped) :
      PrefetchOutcome l1 llc addr t (l1.request addr t true).2
        (llc.request addr t true).2
  | fill (accepts : l1.Accepts addr)
      (status : (l1.request addr t true).1.status = .missNew)
      (s : AccessStatus) (f : ℕ) (llc' : Cache P)
      (llcStatus : (llc.request addr t true).1.status = s)
      (answer : llc.LlcOutcome addr t true s f llc') :
      PrefetchOutcome l1 llc addr t
        ((l1.request addr t true).2.scheduleFill addr f true) llc'

section Rules

variable {l1 llc l1' llc' : Cache P} {addr : BitVec 32} {t lat : ℕ}
  {I : Cache P → Cache P → Prop}

/-- What holds of both levels after a demand access: it is shown for a request to the first
level alone, for requests that the last level refuses, and for a fill of the first level. -/
theorem AccessOutcome.rule {r : HierarchyAccessResult}
    (h : AccessOutcome l1 llc addr t lat r l1' llc') (hl1 : I (l1.request addr t false).2 llc)
    (hllc : l1.Accepts addr → llc.Refuses addr →
      I (l1.request addr t false).2 (llc.request addr t false).2)
    (hfill : l1.Accepts addr → (l1.request addr t false).1.status = .missNew →
      ∀ s f c', (llc.request addr t false).1.status = s → llc.LlcOutcome addr t false s f c' →
        I ((l1.request addr t false).2.scheduleFill addr (f + lat) false) c') :
    I l1' llc' := by
  cases h with
  | hit resident status => exact hl1
  | merged f absent pending status => exact hl1
  | l1Full refuses status => exact hl1
  | llcFull accepts refuses status llcStatus => exact hllc accepts refuses
  | fill accepts status s f llc' llcStatus answer =>
    exact hfill accepts status s f llc' llcStatus answer

/-- The same for a prefetch. -/
theorem PrefetchOutcome.rule (h : PrefetchOutcome l1 llc addr t l1' llc')
    (hl1 : (l1.request addr t true).1.status ≠ .missNew → I (l1.request addr t true).2 llc)
    (hllc : l1.Accepts addr → llc.Refuses addr →
      I (l1.request addr t true).2 (llc.request addr t true).2)
    (hfill : l1.Accepts addr → (l1.request addr t true).1.status = .missNew →
      ∀ s f c', (llc.request addr t true).1.status = s → llc.LlcOutcome addr t true s f c' →
        I ((l1.request addr t true).2.scheduleFill addr f true) c') :
    I l1' llc' := by
  cases h with
  | skipped status => exact hl1 status
  | llcFull accepts refuses status llcStatus => exact hllc accepts refuses
  | fill accepts status s f llc' llcStatus answer =>
    exact hfill accepts status s f llc' llcStatus answer

end Rules

end Cache

open Cache

/-- The last level's part of a demand access. -/
theorem accessLlc_spec (l1 llc : Cache P) (addr : BitVec 32) (t lat : ℕ)
    (accepts : l1.Accepts addr) (status : (l1.request addr t false).1.status = .missNew) :
    ∃ r l1' llc',
      accessLlc (l1.request addr t false).2 llc addr t lat
        { l1Status := .missNew, readyCycle := t + lat } = (r, l1', llc') ∧
      AccessOutcome l1 llc addr t lat r l1' llc' := by
  have hreq := (request_spec llc addr t false).2
  unfold accessLlc
  dsimp only
  cases hreq with
  | hit hres resident =>
    -- resident below: no fill is scheduled there
    simp only [hres, reduceCtorEq, if_false]
    exact ⟨_, _, _, rfl, .fill accepts status .hit _ _ hres (.hit resident)⟩
  | merged hres absent pending =>
    simp only [hres, reduceCtorEq, if_false, if_true]
    exact ⟨_, _, _, rfl, .fill accepts status .missMerged _ _ hres (.merged _ absent pending)⟩
  | full hres absent idle noRoom =>
    -- refused below, after the first level has counted its miss
    have hblocked : (llc.request addr t false).1.status = .missBlocked := hres
    simp only [hblocked, if_true]
    exact ⟨_, _, _, rfl, .llcFull accepts ⟨absent, idle, noRoom⟩ status hblocked⟩
  | new hres absent idle room =>
    simp only [hres, reduceCtorEq, if_false, if_true]
    exact ⟨_, _, _, rfl, .fill accepts status .missNew _ _ hres (.new absent idle room)⟩

/-- **A demand access** has one of the five outcomes. -/
theorem accessL1Hierarchy_spec (l1 llc : Cache P) (addr : BitVec 32) (t lat : ℕ) :
    ∃ r l1' llc', accessL1Hierarchy l1 llc addr t lat = (r, l1', llc') ∧
      AccessOutcome l1 llc addr t lat r l1' llc' := by
  have hreq := (request_spec l1 addr t false).2
  unfold accessL1Hierarchy
  dsimp only
  cases hreq with
  | hit hres resident =>
    simp only [hres]
    exact ⟨_, _, _, rfl, .hit resident hres⟩
  | merged hres absent pending =>
    simp only [hres]
    exact ⟨_, _, _, rfl, .merged _ absent pending hres⟩
  | full hres absent idle noRoom =>
    have hblocked : (l1.request addr t false).1.status = .missBlocked := hres
    simp only [hblocked]
    exact ⟨_, _, _, rfl, .l1Full ⟨absent, idle, noRoom⟩ hblocked⟩
  | new hres absent idle room =>
    simp only [hres]
    exact accessLlc_spec l1 llc addr t lat ⟨absent, idle, room⟩ hres

/-- An access hits exactly if the first level holds the block. -/
theorem Cache.AccessOutcome.l1Hit_iff {l1 llc l1' llc' : Cache P} {addr : BitVec 32}
    {t lat : ℕ} {r : HierarchyAccessResult}
    (h : AccessOutcome l1 llc addr t lat r l1' llc') :
    r.l1Hit = true ↔ l1.contains addr = true := by
  cases h with
  | hit resident status => exact iff_of_true rfl resident
  | merged f absent pending status =>
    exact iff_of_false Bool.false_ne_true (absent ▸ Bool.false_ne_true)
  | l1Full refuses status =>
    exact iff_of_false Bool.false_ne_true (refuses.absent ▸ Bool.false_ne_true)
  | llcFull accepts refuses status llcStatus =>
    exact iff_of_false Bool.false_ne_true (accepts.absent ▸ Bool.false_ne_true)
  | fill accepts status s f llc' llcStatus answer =>
    exact iff_of_false Bool.false_ne_true (accepts.absent ▸ Bool.false_ne_true)

/-- A hit is never refused. -/
theorem Cache.AccessOutcome.served_of_hit {l1 llc l1' llc' : Cache P} {addr : BitVec 32}
    {t lat : ℕ} {r : HierarchyAccessResult}
    (h : AccessOutcome l1 llc addr t lat r l1' llc') (hit : r.l1Hit = true) :
    r.blocked = false := by
  cases h with
  | hit resident status => rfl
  | merged f absent pending status => cases hit
  | l1Full refuses status => cases hit
  | llcFull accepts refuses status llcStatus => cases hit
  | fill accepts status s f llc' llcStatus answer => cases hit

/-- An instruction fetch, as an access of the two levels. -/
theorem MemSubsystem.accessIcache_spec (m : MemSubsystem P) (addr : BitVec 32) (t : ℕ) :
    ∃ r l1' llc', m.accessIcache addr t = (r, { m with icache := l1', llc := llc' }) ∧
      AccessOutcome m.icache m.llc addr t icacheHitLatency r l1' llc' := by
  obtain ⟨r, l1', llc', heq, hspec⟩ :=
    accessL1Hierarchy_spec m.icache m.llc addr t icacheHitLatency
  refine ⟨r, l1', llc', ?_, hspec⟩
  unfold accessIcache
  rw [heq]

/-- **A prefetch** has one of the three outcomes. -/
theorem issuePrefetchToL1_spec (l1 llc : Cache P) (addr : BitVec 32) (t : ℕ) :
    ∃ l1' llc', issuePrefetchToL1 l1 llc addr t = (l1', llc') ∧
      PrefetchOutcome l1 llc addr t l1' llc' := by
  have hreq := (request_spec l1 addr t true).2
  have hllc := (request_spec llc addr t true).2
  unfold issuePrefetchToL1
  dsimp only
  -- the first level answers by itself but for a new miss, which it passes on
  cases hreq with
  | hit hres resident =>
    simp only [hres]
    exact ⟨_, _, rfl, .skipped (by simp [hres])⟩
  | merged hres absent pending =>
    simp only [hres]
    exact ⟨_, _, rfl, .skipped (by simp [hres])⟩
  | full hres absent idle noRoom =>
    have hdropped : (l1.request addr t true).1.status = .prefetchDropped := hres
    simp only [hdropped]
    exact ⟨_, _, rfl, .skipped (by simp [hdropped])⟩
  | new hres absent idle room =>
    simp only [hres]
    cases hllc with
    | hit hres' resident' =>
      simp only [hres']
      exact ⟨_, _, rfl, .fill ⟨absent, idle, room⟩ hres .hit _ _ hres' (.hit resident')⟩
    | merged hres' absent' pending' =>
      simp only [hres']
      exact ⟨_, _, rfl,
        .fill ⟨absent, idle, room⟩ hres .missMerged _ _ hres' (.merged _ absent' pending')⟩
    | full hres' absent' idle' noRoom' =>
      have hdropped : (llc.request addr t true).1.status = .prefetchDropped := hres'
      simp only [hdropped]
      exact ⟨_, _, rfl,
        .llcFull ⟨absent, idle, room⟩ ⟨absent', idle', noRoom'⟩ hres hdropped⟩
    | new hres' absent' idle' room' =>
      simp only [hres']
      exact ⟨_, _, rfl,
        .fill ⟨absent, idle, room⟩ hres .missNew _ _ hres' (.new absent' idle' room')⟩

end TraceSim
