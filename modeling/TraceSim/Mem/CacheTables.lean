/-
TraceSim/Mem/CacheTables.lean

What the operations of one cache do to its two tables.

A lookup sees of a set only the valid bit and the tag of each way
(`Cache.keys`), and of the table of misses only who is in it and when each
request is ready (`Cache.ready`).  A request changes neither (`Cache.Same`); its
answer is one of four cases (`RequestOutcome`).  A fill overwrites one key of
one set.
-/
import TraceSim.Lib.AddressSplit
import TraceSim.Lib.Table
import TraceSim.Mem.Cache

namespace TraceSim

/-- The part of a line that decides a lookup. -/
def Line.key (l : Line) : Bool × BitVec 32 := (l.valid, l.tag)

namespace Cache

variable {P : Type}

/-- The keys of the ways of a set. -/
def keys (c : Cache P) (i : BitVec 32) : List (Bool × BitVec 32) :=
  (c.sets i).map Line.key

/-- When the request for a block is ready, if it is in flight. -/
def ready (c : Cache P) (b : BitVec 32) : Option ℕ :=
  (c.inflight.lookup b).map InflightRequest.readyCycle

/-- A block has a ready time if and only if it is in flight. -/
theorem ready_eq_none_iff {c : Cache P} {b : BitVec 32} :
    c.ready b = none ↔ b ∉ c.inflight := by
  rw [ready, Option.map_eq_none_iff, AList.lookup_eq_none]

/-- And that is the cycle it returns in. -/
theorem mem_inflight_iff {c : Cache P} {b : BitVec 32} :
    b ∈ c.inflight ↔ ∃ f, c.ready b = some f := by
  rw [← AList.lookup_isSome, ready]
  cases c.inflight.lookup b <;> simp

/-- A set that keeps its keys keeps its ways. -/
theorem ways_of_keys {c c' : Cache P} (h : ∀ i, c'.keys i = c.keys i)
    (hways : ∀ i, c.sets i ≠ []) (i : BitVec 32) : c'.sets i ≠ [] := by
  intro hi
  have hk : (c'.sets i).map Line.key = (c.sets i).map Line.key := h i
  rw [hi, List.map_nil, eq_comm, List.map_eq_nil_iff] at hk
  exact hways i hk

/-! ### Views -/

/-- The view of a set shows its keys. -/
theorem buildLineViews_key (set : List Line) :
    (buildLineViews set).map LineView.key = set.map Line.key := by
  simp [buildLineViews, Function.comp_def, LineView.key, Line.key]

@[simp] theorem buildLineViews_length (set : List Line) :
    (buildLineViews set).length = set.length := by
  simp [buildLineViews]

/-- A set takes over the keys of its views. -/
theorem applyLineViews_key (set : List Line) (views : List LineView)
    (h : views.length = set.length) :
    (applyLineViews set views).map Line.key = views.map LineView.key := by
  induction set generalizing views with
  | nil =>
    have hv : views = [] := List.length_eq_zero_iff.mp h
    simp [hv, applyLineViews]
  | cons l set ih =>
    cases views with
    | nil => simp at h
    | cons v views =>
      have hrec := ih views (by simpa using h)
      simp only [applyLineViews] at hrec
      simp only [applyLineViews, List.zipWith_cons_cons, List.map_cons, hrec]
      rfl

/-- Hooks that keep the keys keep the number of ways. -/
theorem length_eq_of_key {views views' : List LineView}
    (h : views'.map LineView.key = views.map LineView.key) :
    views'.length = views.length := by
  simpa using congrArg List.length h

/-! ### Lookups -/

/-- A hit is a key with the valid bit set. -/
theorem contains_iff {c : Cache P} {a : BitVec 32} :
    c.contains a = true ↔ (true, c.tag a) ∈ c.keys (c.index a) := by
  simp only [contains, List.any_eq_true, Bool.and_eq_true, beq_iff_eq, keys, List.mem_map,
    Line.key, Prod.mk.injEq]

/-- The search finds nothing if there is no such key. -/
theorem findWay_eq_none_iff {views : List LineView} {t : BitVec 32} :
    findWay views t = none ↔ (true, t) ∉ views.map LineView.key := by
  simp only [findWay, List.findIdx?_eq_none_iff, List.mem_map, LineView.key,
    Prod.mk.injEq]
  constructor
  · rintro h ⟨v, hv, hvalid, htag⟩
    simpa [hvalid, htag] using h v hv
  · intro h v hv
    rw [← Bool.not_eq_true, Bool.and_eq_true, beq_iff_eq]
    exact fun ⟨hvalid, htag⟩ => h ⟨v, hv, hvalid, htag⟩

/-- And else a way that has it. -/
theorem findWay_eq_some {views : List LineView} {t : BitVec 32} {way : ℕ}
    (h : findWay views t = some way) : (views.map LineView.key)[way]? = some (true, t) := by
  obtain ⟨hlt, hway, -⟩ := List.findIdx?_eq_some_iff_getElem.mp h
  rw [Bool.and_eq_true, beq_iff_eq] at hway
  rw [List.getElem?_map, List.getElem?_eq_getElem hlt, Option.map_some, LineView.key, hway.1,
    hway.2]

/-- The scan of `request` misses exactly when the block is not resident. -/
theorem findWay_eq_none {c : Cache P} {a : BitVec 32} :
    findWay (buildLineViews (c.sets (c.index a))) (c.tag a) = none ↔
      c.contains a = false := by
  rw [findWay_eq_none_iff, buildLineViews_key, ← Bool.not_eq_true, contains_iff]
  rfl

/-! ### Requests change no key and no ready time -/

/-- The caches `c` and `c'` have the same geometry and capacity. -/
structure SameShape (c c' : Cache P) : Prop where
  lineSize : c'.lineSize = c.lineSize
  assoc : c'.assoc = c.assoc
  offsetBits : c'.offsetBits = c.offsetBits
  indexBits : c'.indexBits = c.indexBits
  indexMask : c'.indexMask = c.indexMask
  maxInflight : c'.maxInflight = c.maxInflight

namespace SameShape

/-- A cache has its own shape. -/
theorem refl (c : Cache P) : SameShape c c := ⟨rfl, rfl, rfl, rfl, rfl, rfl⟩

/-- Steps that keep the shape can be chained. -/
theorem trans {c c' c'' : Cache P} (h : SameShape c c') (h' : SameShape c' c'') :
    SameShape c c'' where
  lineSize := h'.lineSize.trans h.lineSize
  assoc := h'.assoc.trans h.assoc
  offsetBits := h'.offsetBits.trans h.offsetBits
  indexBits := h'.indexBits.trans h.indexBits
  indexMask := h'.indexMask.trans h.indexMask
  maxInflight := h'.maxInflight.trans h.maxInflight

variable {c c' : Cache P}

/-- The geometry gives the block of an address. -/
theorem getBlockAddr (h : SameShape c c') (a : BitVec 32) :
    c'.getBlockAddr a = c.getBlockAddr a := by
  simp [Cache.getBlockAddr, h.lineSize]

/-- The geometry gives the set of an address. -/
theorem index (h : SameShape c c') (a : BitVec 32) : c'.index a = c.index a := by
  simp [Cache.index, h.offsetBits, h.indexMask]

/-- And its tag. -/
theorem tag (h : SameShape c c') (a : BitVec 32) : c'.tag a = c.tag a := by
  simp [Cache.tag, h.offsetBits, h.indexBits]

end SameShape

/-- The caches `c` and `c'` agree on everything a lookup can see. -/
structure Same (c c' : Cache P) : Prop extends SameShape c c' where
  keys : ∀ i, c'.keys i = c.keys i
  inflightKeys : c'.inflight.keys = c.inflight.keys
  ready : ∀ b, c'.ready b = c.ready b
  history : c'.history = c.history

namespace Same

/-- A cache holds what it holds. -/
theorem refl (c : Cache P) : Same c c :=
  ⟨SameShape.refl c, fun _ => rfl, rfl, fun _ => rfl, rfl⟩

/-- Steps that keep lines and requests can be chained. -/
theorem trans {c c' c'' : Cache P} (h : Same c c') (h' : Same c' c'') : Same c c'' where
  toSameShape := h.toSameShape.trans h'.toSameShape
  keys i := (h'.keys i).trans (h.keys i)
  inflightKeys := h'.inflightKeys.trans h.inflightKeys
  ready b := (h'.ready b).trans (h.ready b)
  history := h'.history.trans h.history

variable {c c' : Cache P}

/-- The same blocks hit. -/
theorem contains (h : Same c c') (a : BitVec 32) : c'.contains a = c.contains a := by
  rw [Bool.eq_iff_iff, contains_iff, contains_iff, h.keys, h.index, h.tag]

/-- Equally many MSHRs are taken. -/
theorem size (h : Same c c') :
    c'.inflight.entries.length = c.inflight.entries.length := by
  rw [← length_keys, ← length_keys, h.inflightKeys]

/-- The same blocks are in flight. -/
theorem mem_inflight (h : Same c c') (b : BitVec 32) :
    b ∈ c'.inflight ↔ b ∈ c.inflight := by
  rw [AList.mem_keys, AList.mem_keys, h.inflightKeys]

end Same

/-- Changing only sets with the same keys and the counters. -/
theorem same_of_sets {c : Cache P} {i : BitVec 32} {set : List Line}
    (h : set.map Line.key = c.keys i) (k : CacheCounters) :
    Same c { c with sets := Function.update c.sets i set, counters := k } where
  toSameShape := ⟨rfl, rfl, rfl, rfl, rfl, rfl⟩
  keys j := by
    by_cases hj : j = i
    · subst hj
      simpa [Cache.keys] using h
    · simp [Cache.keys, hj]
  inflightKeys := rfl
  ready _ := rfl
  history := rfl

/-- Changing only the counters. -/
theorem same_of_counters (c : Cache P) (k : CacheCounters) :
    Same c { c with counters := k } :=
  ⟨⟨rfl, rfl, rfl, rfl, rfl, rfl⟩, fun _ => rfl, rfl, fun _ => rfl, rfl⟩

/-- The first thing a request does is to count itself. -/
theorem countRequest_eq (c : Cache P) (isPrefetch : Bool) :
    ∃ k, c.countRequest isPrefetch = { c with counters := k } := by
  unfold countRequest
  split
  · exact ⟨_, rfl⟩
  · exact ⟨_, rfl⟩

/-- Counting touches no line and no MSHR. -/
theorem countRequest_same (c : Cache P) (isPrefetch : Bool) :
    Same c (c.countRequest isPrefetch) := by
  obtain ⟨k, hk⟩ := countRequest_eq c isPrefetch
  rw [hk]
  exact same_of_counters c k

/-- Setting the demand bit of a line changes no key. -/
theorem map_key_set_usedByDemand (set : List Line) (way : ℕ) :
    (set.set way { set.getD way {} with usedByDemand := true }).map Line.key
      = set.map Line.key := by
  induction set generalizing way with
  | nil => simp
  | cons l set ih =>
    cases way with
    | zero => rfl
    | succ n => simpa using ih n

/-- A hit writes the replacement data and the flags of its line. -/
theorem hitWay_same (c : Cache P) (addr : BitVec 32) (way t : ℕ) (isPrefetch : Bool) :
    Same c (c.hitWay addr way t isPrefetch) := by
  have hviews := c.replacementPolicy.onCacheHit_key (c.index addr) way t
    (buildLineViews (c.sets (c.index addr)))
  have hlen := length_eq_of_key hviews
  have hset : (applyLineViews (c.sets (c.index addr))
      (c.replacementPolicy.onCacheHit (c.index addr) way t
        (buildLineViews (c.sets (c.index addr))))).map Line.key
      = c.keys (c.index addr) := by
    rw [applyLineViews_key _ _ (by simpa using hlen), hviews, buildLineViews_key]
    rfl
  unfold hitWay
  dsimp only
  split_ifs
  · exact same_of_sets hset _
  · exact same_of_sets ((map_key_set_usedByDemand _ way).trans hset) _
  · exact same_of_sets hset _

/-- A merge marks the entry that it joins. -/
theorem mergeInflight_same {c : Cache P} {b : BitVec 32} {req : InflightRequest}
    (hreq : c.inflight.lookup b = some req) (isPrefetch : Bool) :
    Same c (c.mergeInflight b req isPrefetch) := by
  unfold mergeInflight
  split
  · exact same_of_counters c _
  · refine ⟨⟨rfl, rfl, rfl, rfl, rfl, rfl⟩, fun _ => rfl, ?_, fun b' => ?_, rfl⟩
    · exact AList.keys_replace _ _ _
    · by_cases hb : b' = b
      -- the merged entry keeps its ready time
      · subst hb
        have hmem : b' ∈ c.inflight := AList.lookup_isSome.mp (by rw [hreq]; rfl)
        simp [Cache.ready, lookup_replace, hmem, hreq]
      · simp [Cache.ready, lookup_replace, hb]

/-- A miss is counted, and takes its MSHR later, with its fill. -/
theorem missUnknown_same (c : Cache P) (isPrefetch : Bool) :
    Same c (c.missUnknown isPrefetch).2 := by
  unfold missUnknown
  split_ifs
  · exact same_of_counters c _
  · exact same_of_counters c _
  · exact Same.refl c
  · exact same_of_counters c _

/-! ### The answers of a request -/

/-- The status of a request that finds no room. -/
def fullStatus (isPrefetch : Bool) : AccessStatus :=
  if isPrefetch then .prefetchDropped else .missBlocked

/-- What a request can answer, and what that says about the tables. -/
inductive RequestOutcome (c : Cache P) (addr : BitVec 32) (isPrefetch : Bool) :
    AccessResult → Prop
  | hit (res : AccessResult) (hres : res.status = .hit)
      (resident : c.contains addr = true) : RequestOutcome c addr isPrefetch res
  | merged (res : AccessResult) (hres : res.status = .missMerged)
      (absent : c.contains addr = false)
      (pending : c.ready (c.getBlockAddr addr) = some res.readyCycle) :
      RequestOutcome c addr isPrefetch res
  | full (res : AccessResult) (hres : res.status = fullStatus isPrefetch)
      (absent : c.contains addr = false)
      (idle : c.ready (c.getBlockAddr addr) = none)
      (noRoom : c.maxInflight ≤ c.inflight.entries.length) :
      RequestOutcome c addr isPrefetch res
  | new (res : AccessResult) (hres : res.status = .missNew)
      (absent : c.contains addr = false)
      (idle : c.ready (c.getBlockAddr addr) = none)
      (room : c.inflight.entries.length < c.maxInflight) :
      RequestOutcome c addr isPrefetch res

/-- **What a request does.**  It leaves every key and ready time as it was, and
its answer is one of the four outcomes. -/
theorem request_spec (c : Cache P) (addr : BitVec 32) (t : ℕ) (isPrefetch : Bool) :
    Same c (c.request addr t isPrefetch).2 ∧
      RequestOutcome c addr isPrefetch (c.request addr t isPrefetch).1 := by
  have hcount := countRequest_same c isPrefetch
  have hfind := findWay_eq_none (c := c.countRequest isPrefetch) (a := addr)
  rw [hcount.contains] at hfind
  unfold request
  dsimp only
  rcases e : findWay (buildLineViews ((c.countRequest isPrefetch).sets
      ((c.countRequest isPrefetch).index addr))) ((c.countRequest isPrefetch).tag addr)
    with - | way
  -- not resident: the table of misses decides
  · have habsent := hfind.mp e
    have hready := hcount.ready (c.getBlockAddr addr)
    rw [hcount.getBlockAddr]
    dsimp only
    rcases er : (c.countRequest isPrefetch).inflight.lookup (c.getBlockAddr addr)
      with - | req
    · have hidle : c.ready (c.getBlockAddr addr) = none := by
        rw [← hready, Cache.ready, er]
        rfl
      refine ⟨hcount.trans (missUnknown_same _ _), ?_⟩
      dsimp only [missUnknown]
      -- counting the request has not changed the room there is
      rw [hcount.size, hcount.maxInflight]
      split_ifs with hroom hpf hpf
      · exact .full _ (by simp [fullStatus, hpf]) habsent hidle hroom
      · exact .full _ (by simp [fullStatus, hpf]) habsent hidle hroom
      · exact .new _ rfl habsent hidle (by omega)
      · exact .new _ rfl habsent hidle (by omega)
    · refine ⟨hcount.trans (mergeInflight_same er _), .merged _ rfl habsent ?_⟩
      rw [← hready, Cache.ready, er]
      rfl
  · refine ⟨hcount.trans (hitWay_same _ _ _ _ _), .hit _ rfl ?_⟩
    rw [← Bool.not_eq_false, ← hfind, e]
    simp

/-- A request leaves the policy and the prefetcher as they are. -/
theorem request_hooks (c : Cache P) (addr : BitVec 32) (t : ℕ) (isPrefetch : Bool) :
    (c.request addr t isPrefetch).2.replacementPolicy = c.replacementPolicy ∧
      (c.request addr t isPrefetch).2.prefetcher = c.prefetcher := by
  obtain ⟨k, hk⟩ := countRequest_eq c isPrefetch
  unfold request
  dsimp only
  rw [hk]
  split
  · unfold hitWay
    dsimp only
    split_ifs <;> exact ⟨rfl, rfl⟩
  · split
    · unfold mergeInflight
      split <;> exact ⟨rfl, rfl⟩
    · unfold missUnknown
      split_ifs <;> exact ⟨rfl, rfl⟩

/-! ### Fills -/

/-- A new request puts its block in flight and records the call. -/
theorem scheduleFill_new {c : Cache P} {addr : BitVec 32}
    (h : c.ready (c.getBlockAddr addr) = none) (t : ℕ) (isPrefetch : Bool) :
    c.scheduleFill addr t isPrefetch
      = { c with
          inflight := c.inflight.insert (c.getBlockAddr addr)
            ⟨c.getBlockAddr addr, t, isPrefetch, !isPrefetch⟩
          history :=
            c.history ++ [.scheduled (c.getBlockAddr addr) t isPrefetch true] } := by
  have hl : c.inflight.lookup (c.getBlockAddr addr) = none := by
    rwa [ready, Option.map_eq_none_iff] at h
  simp [scheduleFill, hl]

/-- A fill that is scheduled is in flight from then on. -/
theorem scheduleFill_ready {c : Cache P} {addr : BitVec 32}
    (h : c.ready (c.getBlockAddr addr) = none) (t : ℕ) (isPrefetch : Bool)
    (b : BitVec 32) :
    (c.scheduleFill addr t isPrefetch).ready b
      = if b = c.getBlockAddr addr then some t else c.ready b := by
  rw [scheduleFill_new h, ready]
  by_cases hb : b = c.getBlockAddr addr
  · subst hb
    simp
  · simp [hb, ready]

/-- It changes no geometry. -/
theorem scheduleFill_shape (c : Cache P) (addr : BitVec 32) (t : ℕ) (isPrefetch : Bool) :
    SameShape c (c.scheduleFill addr t isPrefetch) := by
  unfold scheduleFill
  dsimp only
  split <;> exact ⟨rfl, rfl, rfl, rfl, rfl, rfl⟩

/-- No line is filled yet. -/
theorem scheduleFill_keys (c : Cache P) (addr : BitVec 32) (t : ℕ) (isPrefetch : Bool)
    (i : BitVec 32) : (c.scheduleFill addr t isPrefetch).keys i = c.keys i := by
  unfold scheduleFill
  dsimp only
  split <;> rfl

/-- Nothing is counted here. -/
theorem scheduleFill_counters (c : Cache P) (addr : BitVec 32) (t : ℕ)
    (isPrefetch : Bool) : (c.scheduleFill addr t isPrefetch).counters = c.counters := by
  unfold scheduleFill
  dsimp only
  split <;> rfl

/-- So nothing hits that did not hit before. -/
theorem scheduleFill_contains (c : Cache P) (addr : BitVec 32) (t : ℕ)
    (isPrefetch : Bool) (a : BitVec 32) :
    (c.scheduleFill addr t isPrefetch).contains a = c.contains a := by
  rw [Bool.eq_iff_iff, contains_iff, contains_iff, scheduleFill_keys,
    (scheduleFill_shape c addr t isPrefetch).index,
    (scheduleFill_shape c addr t isPrefetch).tag]

/-- The sets as a whole stay. -/
theorem scheduleFill_sets (c : Cache P) (addr : BitVec 32) (t : ℕ) (isPrefetch : Bool) :
    (c.scheduleFill addr t isPrefetch).sets = c.sets := by
  unfold scheduleFill
  dsimp only
  split <;> rfl

/-- Policy and prefetcher are not asked. -/
theorem scheduleFill_hooks (c : Cache P) (addr : BitVec 32) (t : ℕ) (isPrefetch : Bool) :
    (c.scheduleFill addr t isPrefetch).replacementPolicy = c.replacementPolicy ∧
      (c.scheduleFill addr t isPrefetch).prefetcher = c.prefetcher := by
  unfold scheduleFill
  dsimp only
  split <;> exact ⟨rfl, rfl⟩

/-- The way that a fill of block `b` overwrites. -/
def victim (c : Cache P) (b : BitVec 32) : ℕ :=
  c.replacementPolicy.chooseVictim (c.index b) (buildLineViews (c.sets (c.index b)))

/-- The victim is a way of the set. -/
theorem victim_lt {c : Cache P} {b : BitVec 32} (h : c.sets (c.index b) ≠ []) :
    c.victim b < (c.sets (c.index b)).length := by
  have hne : buildLineViews (c.sets (c.index b)) ≠ [] := by
    simpa [buildLineViews] using h
  have h := c.replacementPolicy.chooseVictim_lt (c.index b) _ hne
  rwa [buildLineViews_length] at h

/-- A write to a line that keeps its key keeps the keys of the set. -/
theorem map_key_modify_line (f : Line → Line) (hf : ∀ l, (f l).key = l.key) (way : ℕ)
    (set : List Line) : (set.modify way f).map Line.key = set.map Line.key := by
  induction set generalizing way with
  | nil => simp
  | cons l set ih =>
    cases way with
    | zero => simp [hf]
    | succ n => simp [ih]

/-- An installed block has its own key, in the way it got. -/
theorem map_key_install (views : List LineView) (way : ℕ) (t : BitVec 32) :
    (views.modify way fun v => { v with valid := true, tag := t }).map LineView.key
      = (views.map LineView.key).set way (true, t) := by
  induction views generalizing way with
  | nil => simp
  | cons v views ih =>
    cases way with
    | zero => simp [LineView.key]
    | succ n => simp [ih]

/-- The entry of the block is taken out by the caller. -/
theorem fillBlock_inflight (c : Cache P) (b : BitVec 32) (t : ℕ) (pf dw : Bool) :
    (c.fillBlock b t pf dw).inflight = c.inflight := rfl

/-- A fill is noted in the history. -/
theorem fillBlock_history (c : Cache P) (b : BitVec 32) (t : ℕ) (pf dw : Bool) :
    (c.fillBlock b t pf dw).history = c.history ++ [.filled b t pf dw] := rfl

/-- **What a fill does to the keys**: in the set of the block, the victim's key
becomes that of the block. -/
theorem fillBlock_keys (c : Cache P) (b : BitVec 32) (t : ℕ) (pf dw : Bool)
    (i : BitVec 32) :
    (c.fillBlock b t pf dw).keys i
      = if i = c.index b then (c.keys i).set (c.victim b) (true, c.tag b)
        else c.keys i := by
  by_cases hi : i = c.index b
  · subst hi
    rw [if_pos rfl]
    let views := buildLineViews (c.sets (c.index b))
    let installed :=
      views.modify (c.victim b) fun v => { v with valid := true, tag := c.tag b }
    -- a policy keeps the keys, so the one that changes is that of the line filled
    have hkey := c.replacementPolicy.onCacheFill_key (c.index b) (c.victim b) t installed
    have hlen : (c.replacementPolicy.onCacheFill (c.index b) (c.victim b) t
        installed).length = (c.sets (c.index b)).length := by
      rw [length_eq_of_key hkey]
      simp [installed, views]
    have hset := applyLineViews_key _ _ hlen
    have hinst : installed.map LineView.key
        = (c.keys (c.index b)).set (c.victim b) (true, c.tag b) := by
      rw [map_key_install, buildLineViews_key]
      rfl
    rw [hkey, hinst] at hset
    rw [← hset]
    simp only [keys, fillBlock, Function.update_self]
    apply map_key_modify_line
    intro l
    rfl
  · simp [keys, fillBlock, hi]

end Cache

end TraceSim
