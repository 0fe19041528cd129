/-
TraceSim/Mem/Cache.lean

One cache level (`trace_sim/mem/Cache.h`): a set-associative array of lines and
a table of misses in flight.

* Addresses are 32-bit words and cycles are natural numbers.
* `sets` maps a set index to the ways of that set.
* `inflight` is the hash table, as an association list without duplicate keys.
  Its order stands for the iteration order of the table; `processReturns` takes
  the order in which it meets the entries as an argument.
* `history` is a history variable: `scheduleFill` and `fillBlock` record their
  calls in it and no operation reads it.
-/
import TraceSim.Mem.ReplacementPolicy
import TraceSim.Mem.Prefetcher
import Mathlib.Data.List.AList

namespace TraceSim

/-! ### Data -/

structure Line where
  tag : BitVec 32 := 0
  valid : Bool := false
  prefetched : Bool := false
  usedByDemand : Bool := false
  lastAccess : ℕ := 0
  insertionTime : ℕ := 0
  fillCycle : ℕ := 0
  deriving DecidableEq, Repr

inductive AccessStatus
  | hit
  | missNew
  | missMerged
  | missBlocked
  | prefetchDropped
  deriving DecidableEq, Repr

structure AccessResult where
  status : AccessStatus := .hit
  readyCycle : ℕ := 0
  mergedWithPrefetch : Bool := false
  deriving DecidableEq, Repr

structure InflightRequest where
  blockAddr : BitVec 32 := 0
  readyCycle : ℕ := 0
  isPrefetch : Bool := false
  hasDemandWaiter : Bool := false
  deriving DecidableEq, Repr

/-- The event counters of a cache, in the order of `CacheCounterSnapshot`. -/
structure CacheCounters where
  access : ℕ := 0
  hit : ℕ := 0
  missNew : ℕ := 0
  missMerged : ℕ := 0
  missBlocked : ℕ := 0
  prefetch : ℕ := 0
  prefetchHit : ℕ := 0
  prefetchFill : ℕ := 0
  prefetchDropped : ℕ := 0
  prefetchFilteredInflight : ℕ := 0
  usefulPrefetch : ℕ := 0
  uselessPrefetch : ℕ := 0
  demandMergedWithPrefetch : ℕ := 0
  latePrefetch : ℕ := 0
  deriving DecidableEq, Repr

/-- What the history variable records. -/
inductive FillEvent
  /-- A call of `schedule_fill`; `inserted` is the flag `emplace` returned. -/
  | scheduled (block : BitVec 32) (readyCycle : ℕ) (isPrefetch inserted : Bool)
  /-- A call of `fill_block`. -/
  | filled (block : BitVec 32) (cycle : ℕ) (isPrefetch hasDemandWaiter : Bool)
  deriving DecidableEq, Repr

structure Cache (P : Type) where
  assoc : BitVec 32
  lineSize : BitVec 32
  offsetBits : ℕ
  indexBits : ℕ
  indexMask : BitVec 32
  sets : BitVec 32 → List Line
  inflight : AList fun _ : BitVec 32 => InflightRequest
  counters : CacheCounters
  maxInflight : ℕ
  replacementPolicy : CacheReplacementPolicy
  prefetcher : P
  history : List FillEvent

/-- The order in which an iteration over a hash table meets given keys: any
rearrangement of them. -/
structure TableOrder where
  order : List (BitVec 32) → List (BitVec 32)
  perm : ∀ keys, (order keys).Perm keys

instance : Inhabited TableOrder := ⟨⟨id, fun _ => List.Perm.refl _⟩⟩

namespace Cache

variable {P : Type}

/-! ### Construction and address split -/

/-- The number of halvings that bring `n` down to 1. -/
def getBits (n : BitVec 32) : ℕ := Nat.log2 n.toNat

/-- The constructor: `s`, `a` and `l` are size, associativity and line size. -/
def new (s a l : BitVec 32) (repl : CacheReplacementPolicy) (pref : P)
    (maxMshrs : BitVec 32) : Cache P :=
  let numSets := s / (a * l)
  { assoc := a
    lineSize := l
    offsetBits := getBits l
    indexBits := getBits numSets
    indexMask := numSets - 1
    sets := fun _ => List.replicate a.toNat {}
    inflight := ∅
    counters := {}
    maxInflight := maxMshrs.toNat
    replacementPolicy := repl
    prefetcher := pref
    history := [] }

def getBlockAddr (c : Cache P) (addr : BitVec 32) : BitVec 32 :=
  lineAddr addr c.lineSize

/-- The set an address maps to. -/
def index (c : Cache P) (addr : BitVec 32) : BitVec 32 :=
  (addr >>> c.offsetBits) &&& c.indexMask

/-- The tag of an address. -/
def tag (c : Cache P) (addr : BitVec 32) : BitVec 32 :=
  addr >>> (c.offsetBits + c.indexBits)

def contains (c : Cache P) (addr : BitVec 32) : Bool :=
  (c.sets (c.index addr)).any fun line => line.valid && line.tag == c.tag addr

/-! ### Views -/

def buildLineViews (set : List Line) : List LineView :=
  set.map fun line =>
    { valid := line.valid, tag := line.tag,
      lastAccess := line.lastAccess, insertionTime := line.insertionTime }

def applyLineViews (set : List Line) (views : List LineView) : List Line :=
  List.zipWith
    (fun line view =>
      { line with
        valid := view.valid, tag := view.tag,
        lastAccess := view.lastAccess, insertionTime := view.insertionTime })
    set views

/-! ### Requests -/

/-- The way of a set that holds a valid line with the given tag. -/
def findWay (views : List LineView) (tag : BitVec 32) : Option ℕ :=
  views.findIdx? fun view => view.valid && view.tag == tag

/-- The hit branch of `request`, in way `way` of the set of `addr`. -/
def hitWay (c : Cache P) (addr : BitVec 32) (way currentCycle : ℕ)
    (isPrefetch : Bool) : Cache P :=
  let index := c.index addr
  let set := c.sets index
  let views :=
    c.replacementPolicy.onCacheHit index way currentCycle (buildLineViews set)
  let set := applyLineViews set views
  if isPrefetch then
    { c with
      sets := Function.update c.sets index set
      counters := { c.counters with prefetchHit := c.counters.prefetchHit + 1 } }
  else
    -- only the first demand hit makes a prefetched line useful
    let line := set.getD way {}
    if line.prefetched && !line.usedByDemand then
      { c with
        sets := Function.update c.sets index
          (set.set way { line with usedByDemand := true })
        counters :=
          { c.counters with
            hit := c.counters.hit + 1
            usefulPrefetch := c.counters.usefulPrefetch + 1 } }
    else
      { c with
        sets := Function.update c.sets index set
        counters := { c.counters with hit := c.counters.hit + 1 } }

/-- The branch of `request` that finds its block in flight as `req`. -/
def mergeInflight (c : Cache P) (blockAddr : BitVec 32) (req : InflightRequest)
    (isPrefetch : Bool) : Cache P :=
  if isPrefetch then
    { c with
      counters :=
        { c.counters with
          prefetchFilteredInflight := c.counters.prefetchFilteredInflight + 1 } }
  else
    { c with
      inflight := c.inflight.replace blockAddr { req with hasDemandWaiter := true }
      counters :=
        { c.counters with
          missMerged := c.counters.missMerged + 1
          demandMergedWithPrefetch :=
            if req.isPrefetch then c.counters.demandMergedWithPrefetch + 1
            else c.counters.demandMergedWithPrefetch
          latePrefetch :=
            if req.isPrefetch then c.counters.latePrefetch + 1
            else c.counters.latePrefetch } }

/-- The last two branches of `request`: the block is neither resident nor in
flight. -/
def missUnknown (c : Cache P) (isPrefetch : Bool) : AccessResult × Cache P :=
  -- no MSHR is free
  if c.inflight.entries.length ≥ c.maxInflight then
    if isPrefetch then
      ({ status := .prefetchDropped },
       { c with
         counters :=
           { c.counters with prefetchDropped := c.counters.prefetchDropped + 1 } })
    else
      ({ status := .missBlocked },
       { c with
         counters := { c.counters with missBlocked := c.counters.missBlocked + 1 } })
  else if isPrefetch then ({ status := .missNew }, c)
  else
    ({ status := .missNew },
     { c with counters := { c.counters with missNew := c.counters.missNew + 1 } })

/-- The count every request starts with. -/
def countRequest (c : Cache P) (isPrefetch : Bool) : Cache P :=
  if isPrefetch then
    { c with counters := { c.counters with prefetch := c.counters.prefetch + 1 } }
  else { c with counters := { c.counters with access := c.counters.access + 1 } }

def request (c : Cache P) (addr : BitVec 32) (currentCycle : ℕ)
    (isPrefetch : Bool) : AccessResult × Cache P :=
  let c := c.countRequest isPrefetch
  match findWay (buildLineViews (c.sets (c.index addr))) (c.tag addr) with
  | some way =>
      ({ status := .hit, readyCycle := currentCycle },
       c.hitWay addr way currentCycle isPrefetch)
  | none =>
      let blockAddr := c.getBlockAddr addr
      match c.inflight.lookup blockAddr with
      | some req =>
          ({ status := .missMerged, readyCycle := req.readyCycle,
             mergedWithPrefetch := req.isPrefetch },
           c.mergeInflight blockAddr req isPrefetch)
      | none => c.missUnknown isPrefetch

/-! ### Fills -/

def scheduleFill (c : Cache P) (addr : BitVec 32) (readyCycle : ℕ)
    (isPrefetch : Bool) : Cache P :=
  let blockAddr := c.getBlockAddr addr
  match c.inflight.lookup blockAddr with
  | none =>
      { c with
        inflight := c.inflight.insert blockAddr
          ⟨blockAddr, readyCycle, isPrefetch, !isPrefetch⟩
        history := c.history ++ [.scheduled blockAddr readyCycle isPrefetch true] }
  | some req =>
      { c with
        inflight := c.inflight.replace blockAddr
          { req with
            readyCycle :=
              if readyCycle > req.readyCycle then readyCycle else req.readyCycle
            -- a demand request turns the entry into a demand one, never back
            isPrefetch := req.isPrefetch && isPrefetch
            hasDemandWaiter := req.hasDemandWaiter || !isPrefetch }
        history := c.history ++ [.scheduled blockAddr readyCycle isPrefetch false] }

def fillBlock (c : Cache P) (blockAddr : BitVec 32) (currentCycle : ℕ)
    (isPrefetchFill hasDemandWaiter : Bool) : Cache P :=
  let index := c.index blockAddr
  let set := c.sets index
  let views := buildLineViews set
  let victim := c.replacementPolicy.chooseVictim index views
  let old := set.getD victim {}
  -- the line is evicted before any demand access touched it
  let useless := old.valid && old.prefetched && !old.usedByDemand
  let views :=
    views.modify victim fun view =>
      { view with valid := true, tag := c.tag blockAddr }
  let views := c.replacementPolicy.onCacheFill index victim currentCycle views
  let set := applyLineViews set views
  let set :=
    set.modify victim fun line =>
      { line with
        prefetched := isPrefetchFill
        usedByDemand := hasDemandWaiter || !isPrefetchFill
        fillCycle := currentCycle }
  { c with
    sets := Function.update c.sets index set
    counters :=
      { c.counters with
        uselessPrefetch :=
          if useless then c.counters.uselessPrefetch + 1
          else c.counters.uselessPrefetch
        prefetchFill :=
          if isPrefetchFill then c.counters.prefetchFill + 1
          else c.counters.prefetchFill }
    history :=
      c.history ++ [.filled blockAddr currentCycle isPrefetchFill hasDemandWaiter] }

/-- The blocks whose requests are ready, in the order of the table. -/
def completedBlocks (c : Cache P) (currentCycle : ℕ) : List (BitVec 32) :=
  (c.inflight.entries.filter fun e => e.2.readyCycle ≤ currentCycle).map Sigma.fst

/-- One turn of the second loop of `process_returns`. -/
def returnBlock (currentCycle : ℕ) (c : Cache P) (blockAddr : BitVec 32) : Cache P :=
  match c.inflight.lookup blockAddr with
  | none => c
  | some request =>
      -- the fill comes first; the entry is erased after it
      let c :=
        c.fillBlock blockAddr currentCycle request.isPrefetch request.hasDemandWaiter
      { c with inflight := c.inflight.erase blockAddr }

def processReturns (c : Cache P) (currentCycle : ℕ) (table : TableOrder) : Cache P :=
  (table.order (c.completedBlocks currentCycle)).foldl (returnBlock currentCycle) c

end Cache

end TraceSim
