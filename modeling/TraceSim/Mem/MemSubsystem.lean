/-
TraceSim/Mem/MemSubsystem.lean

The memory subsystem (`trace_sim/mem/MemSubsystem.cpp`): two first-level caches
over a shared last level, and a prefetch queue for each first level.

A method that takes a `Cache &l1` is a function of that cache and the last
level; the public methods put the results back into the subsystem.  What the
constants of `SimConfig.h` fix (geometries, policies, MSHR and queue sizes,
issue rates) is a `MemConfig`.
-/
import TraceSim.Mem.Cache

namespace TraceSim

/-! ### Configuration -/

/-- The arguments of a cache's constructor. -/
structure CacheConfig (P : Type) where
  size : BitVec 32
  assoc : BitVec 32
  lineSize : BitVec 32
  mshrSize : BitVec 32
  replacement : CacheReplacementPolicy
  prefetcher : P

/-- Three caches, and the limits of the two prefetch queues. -/
structure MemConfig (P : Type) where
  icache : CacheConfig P
  dcache : CacheConfig P
  llc : CacheConfig P
  icachePrefetchQueueSize : ℕ := 16
  icachePrefetchIssuePerCycle : ℕ := 1
  dcachePrefetchQueueSize : ℕ := 16
  dcachePrefetchIssuePerCycle : ℕ := 1

/-- The values of `SimConfig.h`. -/
def shippedMemConfig : MemConfig BuiltinPrefetcher where
  icache :=
    ⟨32768, 8, 64, 16, makeReplacementPolicy .lru, makePrefetcher .none⟩
  dcache :=
    ⟨32768, 8, 64, 16, makeReplacementPolicy .lru, makePrefetcher .none⟩
  llc :=
    ⟨524288, 8, 64, 32, makeReplacementPolicy .lru, makePrefetcher .none⟩

/-- The cache that is built from them. -/
def CacheConfig.build {P : Type} (cfg : CacheConfig P) : Cache P :=
  Cache.new cfg.size cfg.assoc cfg.lineSize cfg.replacement cfg.prefetcher
    cfg.mshrSize

/-! ### Data -/

/-- The answer to a demand access. -/
structure HierarchyAccessResult where
  l1Status : AccessStatus := .hit
  llcStatus : AccessStatus := .hit
  blocked : Bool := false
  l1Hit : Bool := false
  llcHit : Bool := false
  dramMiss : Bool := false
  readyCycle : ℕ := 0
  deriving DecidableEq, Repr

/-- The counters of a prefetch queue. -/
structure QueueCounterSnapshot where
  filteredHit : ℕ := 0
  duplicate : ℕ := 0
  drop : ℕ := 0
  deriving DecidableEq, Repr

/-- A prefetch queue with its counters. -/
structure PrefetchQueue where
  queue : List (BitVec 32) := []
  stats : QueueCounterSnapshot := {}
  deriving DecidableEq, Repr

/-- The counters at the end of the warm-up; the report prints the differences. -/
structure MemBaselines where
  icache : CacheCounters := {}
  dcache : CacheCounters := {}
  llc : CacheCounters := {}
  icacheQueue : QueueCounterSnapshot := {}
  dcacheQueue : QueueCounterSnapshot := {}
  deriving DecidableEq, Repr

/-- Three caches, two queues and the baselines. -/
structure MemSubsystem (P : Type) where
  icache : Cache P
  dcache : Cache P
  llc : Cache P
  icachePrefetch : PrefetchQueue := {}
  dcachePrefetch : PrefetchQueue := {}
  baselines : MemBaselines := {}

/-! ### Accesses -/

/-- The part of `access_l1_hierarchy` after a new miss in the first level. -/
def accessLlc {P : Type} (l1 llc : Cache P) (addr : BitVec 32) (cycle : ℕ)
    (l1HitLatency : ℕ) (result : HierarchyAccessResult) :
    HierarchyAccessResult × Cache P × Cache P :=
  let (llcRes, llc) := llc.request addr cycle false
  let result := { result with llcStatus := llcRes.status }
  if llcRes.status = .missBlocked then
    -- the first level has already counted a new miss
    ({ result with blocked := true }, l1, llc)
  else
    let result :=
      { result with
        llcHit := decide (llcRes.status = AccessStatus.hit)
        dramMiss := decide (llcRes.status = AccessStatus.missNew) }
    let llcReady :=
      -- a merged miss is ready with the request it joins
      if llcRes.status = .missMerged then llcRes.readyCycle
      else if llcRes.status = .missNew then
        cycle + llcHitLatency + memoryMissPenalty
      else cycle + llcHitLatency
    let llc :=
      if llcRes.status = .missNew then llc.scheduleFill addr llcReady false else llc
    -- `cycle + l1HitLatency + (llcReady - cycle)`: the sum with `cycle` gives back what
    -- the unsigned difference borrows when an overdue request is joined
    let readyCycle := llcReady + l1HitLatency
    ({ result with readyCycle := readyCycle },
     l1.scheduleFill addr readyCycle false, llc)

/-- A demand access: the first level answers, or asks the last level for the block. -/
def accessL1Hierarchy {P : Type} (l1 llc : Cache P) (addr : BitVec 32) (cycle : ℕ)
    (l1HitLatency : ℕ) : HierarchyAccessResult × Cache P × Cache P :=
  let (l1Res, l1) := l1.request addr cycle false
  let result : HierarchyAccessResult :=
    { l1Status := l1Res.status, l1Hit := decide (l1Res.status = .hit),
      readyCycle := cycle + l1HitLatency }
  match l1Res.status with
  | .missBlocked => ({ result with blocked := true }, l1, llc)
  | .hit => (result, l1, llc)
  | .missMerged =>
      ({ result with readyCycle := max (cycle + l1HitLatency) l1Res.readyCycle },
       l1, llc)
  | _ => accessLlc l1 llc addr cycle l1HitLatency result

/-- The method `issue_prefetch_to_l1`; its result is discarded by the caller. -/
def issuePrefetchToL1 {P : Type} (l1 llc : Cache P) (addr : BitVec 32)
    (cycle : ℕ) : Cache P × Cache P :=
  let (l1Res, l1) := l1.request addr cycle true
  match l1Res.status with
  -- only a miss that found an MSHR goes on to the next level
  | .missNew =>
      let (llcRes, llc) := llc.request addr cycle true
      match llcRes.status with
      | .hit => (l1.scheduleFill addr (cycle + llcHitLatency) true, llc)
      | .missMerged => (l1.scheduleFill addr llcRes.readyCycle true, llc)
      | .missNew =>
          let readyCycle := cycle + llcHitLatency + memoryMissPenalty
          (l1.scheduleFill addr readyCycle true, llc.scheduleFill addr readyCycle true)
      | _ => (l1, llc)
  | _ => (l1, llc)

/-- One candidate in the loop of `enqueue_prefetch`. -/
def PrefetchQueue.offer {P : Type} (l1 : Cache P) (limit : ℕ) (q : PrefetchQueue)
    (request : PrefetchRequest) : PrefetchQueue :=
  -- the probe leaves the counters and the replacement state alone
  if l1.contains request.addr then
    { q with stats := { q.stats with filteredHit := q.stats.filteredHit + 1 } }
  else if q.queue.any fun queued =>
      l1.getBlockAddr queued == l1.getBlockAddr request.addr then
    { q with stats := { q.stats with duplicate := q.stats.duplicate + 1 } }
  else if q.queue.length ≥ limit then
    { q with stats := { q.stats with drop := q.stats.drop + 1 } }
  else { q with queue := q.queue ++ [request.addr] }

/-- The description `enqueue_prefetch` gives to the prefetcher. -/
def accessInfo (lineSize : BitVec 32) (isData : Bool) (pc addr : BitVec 32)
    (hit : Bool) : PrefetcherAccessInfo :=
  { pc := pc, addr := addr, lineSize := lineSize, isInstruction := !isData,
    isLoad := isData, hit := hit, miss := !hit }

/-- One loop of `service_prefetch_queues`: issue at most `n` queued prefetches. -/
def servicePrefetchQueue {P : Type} (cycle : ℕ) :
    ℕ → List (BitVec 32) → Cache P → Cache P → List (BitVec 32) × Cache P × Cache P
  | 0, queue, l1, llc => (queue, l1, llc)
  | _ + 1, [], l1, llc => ([], l1, llc)
  | n + 1, addr :: queue, l1, llc =>
      let (l1, llc) := issuePrefetchToL1 l1 llc addr cycle
      servicePrefetchQueue cycle n queue l1 llc

namespace MemSubsystem

variable {P : Type}

/-! ### The public methods -/

/-- The state after construction: all caches and queues are empty. -/
def new (cfg : MemConfig P) : MemSubsystem P where
  icache := cfg.icache.build
  dcache := cfg.dcache.build
  llc := cfg.llc.build

def icacheLineSize (m : MemSubsystem P) : BitVec 32 := m.icache.lineSize

/-- A fetch asks for its line. -/
def accessIcache (m : MemSubsystem P) (addr : BitVec 32) (cycle : ℕ) :
    HierarchyAccessResult × MemSubsystem P :=
  let (result, l1, llc) := accessL1Hierarchy m.icache m.llc addr cycle icacheHitLatency
  (result, { m with icache := l1, llc := llc })

/-- A load asks for its word; stores never come here. -/
def accessDcacheLoad (m : MemSubsystem P) (addr : BitVec 32) (cycle : ℕ) :
    HierarchyAccessResult × MemSubsystem P :=
  let (result, l1, llc) := accessL1Hierarchy m.dcache m.llc addr cycle lduLatency
  (result, { m with dcache := l1, llc := llc })

/-- The prefetcher is told of an access; what it requests is queued, unless it is resident
or queued already, or there is no room. -/
def enqueuePrefetch [CachePrefetcher P] (cfg : MemConfig P) (m : MemSubsystem P)
    (isData : Bool) (pc addr : BitVec 32) (hit : Bool) : MemSubsystem P :=
  if isData then
    let (requests, prefetcher) :=
      CachePrefetcher.onAccess m.dcache.prefetcher
        (accessInfo m.dcache.lineSize true pc addr hit)
    -- the candidates are checked against the first level that was accessed
    let l1 := { m.dcache with prefetcher := prefetcher }
    { m with
      dcache := l1
      dcachePrefetch :=
        requests.foldl (PrefetchQueue.offer l1 cfg.dcachePrefetchQueueSize)
          m.dcachePrefetch }
  else
    let (requests, prefetcher) :=
      CachePrefetcher.onAccess m.icache.prefetcher
        (accessInfo m.icache.lineSize false pc addr hit)
    let l1 := { m.icache with prefetcher := prefetcher }
    { m with
      icache := l1
      icachePrefetch :=
        requests.foldl (PrefetchQueue.offer l1 cfg.icachePrefetchQueueSize)
          m.icachePrefetch }

/-- A few of the queued prefetches go to the caches in each cycle. -/
def servicePrefetchQueues (cfg : MemConfig P) (m : MemSubsystem P) (cycle : ℕ) :
    MemSubsystem P :=
  -- the I-cache comes first and leaves its last level to the D-cache
  let (iqueue, icache, llc) :=
    servicePrefetchQueue cycle cfg.icachePrefetchIssuePerCycle
      m.icachePrefetch.queue m.icache m.llc
  let (dqueue, dcache, llc) :=
    servicePrefetchQueue cycle cfg.dcachePrefetchIssuePerCycle
      m.dcachePrefetch.queue m.dcache llc
  { m with
    icache := icache, dcache := dcache, llc := llc
    icachePrefetch := { m.icachePrefetch with queue := iqueue }
    dcachePrefetch := { m.dcachePrefetch with queue := dqueue } }

/-- The method `process_returns`, given the order in which each cache iterates
over its table. -/
def processReturns (m : MemSubsystem P) (cycle : ℕ)
    (itable dtable ltable : TableOrder) : MemSubsystem P :=
  { m with
    icache := m.icache.processReturns cycle itable
    dcache := m.dcache.processReturns cycle dtable
    llc := m.llc.processReturns cycle ltable }

/-- Something is in flight or queued. -/
def hasPendingWork (m : MemSubsystem P) : Bool :=
  !m.icachePrefetch.queue.isEmpty || !m.dcachePrefetch.queue.isEmpty

/-- The end of the warm-up. -/
def resetBaselines (m : MemSubsystem P) : MemSubsystem P :=
  { m with
    baselines :=
      { icache := m.icache.counters
        dcache := m.dcache.counters
        llc := m.llc.counters
        icacheQueue := m.icachePrefetch.stats
        dcacheQueue := m.dcachePrefetch.stats } }

end MemSubsystem

end TraceSim
