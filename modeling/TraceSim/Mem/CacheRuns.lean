/-
TraceSim/Mem/CacheRuns.lean

Runs of one cache by itself.

A run is a list of calls: requests, requests that are followed by a `schedule_fill`
if they answer with a new miss, and `process_returns`.  Along it a log records the hits
and the fills, and for each fill the way that it overwrites; the log says which block is
where, and when a block was last touched.  An invariant of the cache and its log is proved
for one request, one scheduled fill and one return, and holds of every run
(`LogInvariant.run`).
-/
import TraceSim.Mem.Consistency

namespace TraceSim

/-! ### The log -/

/-- What the log records. -/
inductive CacheEvent
  /-- A request for the block hits. -/
  | hit (block : BitVec 32) (cycle : ℕ)
  /-- The block is filled into a way of a set. -/
  | fill (set : BitVec 32) (way : ℕ) (block : BitVec 32) (cycle : ℕ)
  deriving DecidableEq, Repr

namespace CacheEvent

def cycle : CacheEvent → ℕ
  | hit _ t => t
  | fill _ _ _ t => t

/-- The block that is touched. -/
def block : CacheEvent → BitVec 32
  | hit b _ => b
  | fill _ _ b _ => b

/-- The cycle of an event that touches the block `b`. -/
def touches (b : BitVec 32) (e : CacheEvent) : Option ℕ :=
  if e.block = b then some e.cycle else none

/-- The cycle of a fill of the block `b`. -/
def fills (b : BitVec 32) : CacheEvent → Option ℕ
  | hit _ _ => none
  | fill _ _ b' t => if b' = b then some t else none

/-- The block that is filled into the way `w` of the set `i`. -/
def fillsWay (i : BitVec 32) (w : ℕ) : CacheEvent → Option (BitVec 32)
  | hit _ _ => none
  | fill i' w' b _ => if i' = i ∧ w' = w then some b else none

end CacheEvent

/-- The block that was filled last into a way: it is there until the next fill of the
way evicts it. -/
def residentAt (L : List CacheEvent) (i : BitVec 32) (w : ℕ) : Option (BitVec 32) :=
  lastSome (CacheEvent.fillsWay i w) L

/-- The block was filled and not evicted since. -/
def Resident (L : List CacheEvent) (b : BitVec 32) : Prop :=
  ∃ i w, residentAt L i w = some b

/-- The cycle of the last hit or fill of a block. -/
def lastTouch (L : List CacheEvent) (b : BitVec 32) : Option ℕ :=
  lastSome (CacheEvent.touches b) L

/-- The cycle of the last fill of a block. -/
def lastFill (L : List CacheEvent) (b : BitVec 32) : Option ℕ :=
  lastSome (CacheEvent.fills b) L

/-! ### Calls -/

/-- The calls of a run. -/
inductive CacheOp
  | request (addr : BitVec 32) (cycle : ℕ) (isPrefetch : Bool)
  /-- A request, and directly after it, if it answers with a new miss, a call of
  `schedule_fill` for the same address. -/
  | fetch (addr : BitVec 32) (cycle : ℕ) (isPrefetch : Bool) (readyCycle : ℕ)
      (isPrefetchFill : Bool)
  | returns (cycle : ℕ) (table : TableOrder)

def CacheOp.cycle : CacheOp → ℕ
  | request _ t _ => t
  | fetch _ t _ _ _ => t
  | returns t _ => t

namespace Cache

variable {P : Type}

/-- The log of a request. -/
def requestLog (c : Cache P) (addr : BitVec 32) (t : ℕ) (isPrefetch : Bool) : List CacheEvent :=
  if (c.request addr t isPrefetch).1.status = .hit then [.hit (c.getBlockAddr addr) t] else []

/-- The log of a turn of `process_returns`. -/
def returnLog (t : ℕ) (c : Cache P) (b : BitVec 32) : List CacheEvent :=
  if b ∈ c.inflight then [.fill (c.index b) (c.victim b) b t] else []

def returnsLog (t : ℕ) (c : Cache P) : List (BitVec 32) → List CacheEvent
  | [] => []
  | b :: blocks => returnLog t c b ++ returnsLog t (returnBlock t c b) blocks

/-- What a call does. -/
def call (c : Cache P) : CacheOp → Cache P
  | .request addr t isPrefetch => (c.request addr t isPrefetch).2
  | .fetch addr t isPrefetch readyCycle isPrefetchFill =>
      let (res, c) := c.request addr t isPrefetch
      if res.status = .missNew then c.scheduleFill addr readyCycle isPrefetchFill else c
  | .returns t table => c.processReturns t table

/-- What a call adds to the log. -/
def callLog (c : Cache P) : CacheOp → List CacheEvent
  | .request addr t isPrefetch => c.requestLog addr t isPrefetch
  | .fetch addr t isPrefetch _ _ => c.requestLog addr t isPrefetch
  | .returns t table => returnsLog t c (table.order (c.completedBlocks t))

def calls (c : Cache P) (ops : List CacheOp) : Cache P := ops.foldl call c

def log (c : Cache P) : List CacheOp → List CacheEvent
  | [] => []
  | op :: ops => c.callLog op ++ (c.call op).log ops

/-! ### Invariants of runs -/

/-- The clock of a run: `ok now t` allows a call in cycle `t` after one in cycle `now`. -/
def OnClock (ok : ℕ → ℕ → Prop) : ℕ → List CacheOp → Prop
  | _, [] => True
  | now, op :: ops => ok now op.cycle ∧ OnClock ok op.cycle ops

/-- What is preserved by the clock, by one request, by one fill that is scheduled for a new
miss, and by one return. -/
structure LogInvariant (ok : ℕ → ℕ → Prop) (I : ℕ → Cache P → List CacheEvent → Prop) : Prop where
  tick : ∀ {now t c L}, ok now t → I now c L → I t c L
  request : ∀ {t c L}, I t c L → ∀ addr isPrefetch,
    I t (c.request addr t isPrefetch).2 (L ++ c.requestLog addr t isPrefetch)
  schedule : ∀ {t c L}, I t c L → ∀ {addr}, c.contains addr = false →
    c.ready (c.getBlockAddr addr) = none → c.inflight.entries.length < c.maxInflight →
    ∀ readyCycle isPrefetch, I t (c.scheduleFill addr readyCycle isPrefetch) L
  returned : ∀ {t c L b}, I t c L → b ∈ c.inflight →
    I t (returnBlock t c b) (L ++ [.fill (c.index b) (c.victim b) b t])

namespace LogInvariant

variable {ok : ℕ → ℕ → Prop} {I J : ℕ → Cache P → List CacheEvent → Prop} {t : ℕ} {c : Cache P}
  {L : List CacheEvent}

theorem returns (h : LogInvariant ok I) (hI : I t c L) (blocks : List (BitVec 32)) :
    I t (blocks.foldl (returnBlock t) c) (L ++ returnsLog t c blocks) := by
  induction blocks generalizing c L with
  | nil =>
    rw [returnsLog, List.append_nil]
    exact hI
  | cons b blocks ih =>
    rw [returnsLog, ← List.append_assoc, List.foldl_cons]
    refine ih ?_
    by_cases hb : b ∈ c.inflight
    · rw [returnLog, if_pos hb]
      exact h.returned hI hb
    · rw [returnLog, if_neg hb, List.append_nil, returnBlock_of_notMem hb]
      exact hI

/-- **One call** preserves the invariant. -/
theorem call (h : LogInvariant ok I) {now : ℕ} (op : CacheOp) (hI : I now c L)
    (hok : ok now op.cycle) : I op.cycle (c.call op) (L ++ c.callLog op) := by
  have htick := h.tick hok hI
  cases op with
  | request addr t isPrefetch => exact h.request htick addr isPrefetch
  | fetch addr t isPrefetch readyCycle isPrefetchFill =>
    have hrequest : I t (c.request addr t isPrefetch).2 (L ++ c.requestLog addr t isPrefetch) :=
      h.request htick addr isPrefetch
    obtain ⟨hsame, houtcome⟩ := request_spec c addr t isPrefetch
    simp only [Cache.call, callLog]
    -- a fill is scheduled after a new miss only: its block is idle, and there is room
    split_ifs with hnew
    · cases houtcome with
      | new hres absent idle room =>
        refine h.schedule hrequest ?_ ?_ ?_ _ _
        · exact (hsame.contains addr).trans absent
        · rw [hsame.getBlockAddr, hsame.ready]
          exact idle
        · rw [hsame.size, hsame.maxInflight]
          exact room
      | hit hres _ =>
        rw [hres] at hnew
        cases hnew
      | merged hres _ _ =>
        rw [hres] at hnew
        cases hnew
      | full hres _ _ _ =>
        rw [hres, fullStatus] at hnew
        cases isPrefetch <;> cases hnew
    · exact hrequest
  | returns t table => exact h.returns htick _

/-- **Every run** preserves the invariant. -/
theorem run (h : LogInvariant ok I) {now : ℕ} (hI : I now c L) {ops : List CacheOp}
    (hclock : OnClock ok now ops) : ∃ t, I t (c.calls ops) (L ++ c.log ops) := by
  induction ops generalizing now c L with
  | nil => exact ⟨now, by simpa [calls, log] using hI⟩
  | cons op ops ih =>
    obtain ⟨t, ht⟩ := ih (h.call op hI hclock.1) hclock.2
    refine ⟨t, ?_⟩
    rw [log, ← List.append_assoc]
    exact ht

theorem and (h : LogInvariant ok I) (h' : LogInvariant ok J) :
    LogInvariant ok fun t c L => I t c L ∧ J t c L where
  tick hok hI := ⟨h.tick hok hI.1, h'.tick hok hI.2⟩
  request hI addr isPrefetch := ⟨h.request hI.1 addr isPrefetch, h'.request hI.2 addr isPrefetch⟩
  schedule hI _ absent idle room r isPrefetch :=
    ⟨h.schedule hI.1 absent idle room r isPrefetch, h'.schedule hI.2 absent idle room r isPrefetch⟩
  returned hI hb := ⟨h.returned hI.1 hb, h'.returned hI.2 hb⟩

end LogInvariant

theorem onClock_true (now : ℕ) (ops : List CacheOp) : OnClock (fun _ _ => True) now ops := by
  induction ops generalizing now with
  | nil => trivial
  | cons op ops ih => exact ⟨trivial, ih _⟩

/-- The geometry of a cache is that of its construction. -/
theorem shape_logInvariant (ok : ℕ → ℕ → Prop) (c₀ : Cache P) :
    LogInvariant ok fun _ c _ => SameShape c₀ c where
  tick _ h := h
  request h addr isPrefetch := h.trans (request_spec _ addr _ isPrefetch).1.toSameShape
  schedule h _ _ _ _ readyCycle isPrefetch := h.trans (scheduleFill_shape _ _ readyCycle isPrefetch)
  returned h _ := h.trans (returnBlock_shape _ _ _)

theorem calls_shape (c : Cache P) (ops : List CacheOp) : SameShape c (c.calls ops) := by
  obtain ⟨-, hshape⟩ := (shape_logInvariant _ c).run (L := []) (SameShape.refl c)
    (onClock_true 0 ops)
  exact hshape

/-! ### What the log says of the cache -/

variable {c : Cache P} {L : List CacheEvent}

/-- A request hits exactly if its block is found. -/
theorem request_hit_iff (c : Cache P) (addr : BitVec 32) (t : ℕ) (isPrefetch : Bool) :
    (c.request addr t isPrefetch).1.status = .hit ↔ c.contains addr = true := by
  cases (request_spec c addr t isPrefetch).2 with
  | hit hres resident => exact ⟨fun _ => resident, fun _ => hres⟩
  | merged hres absent _ =>
    rw [hres, absent]
    exact iff_of_false (by decide) (by decide)
  | full hres absent _ _ =>
    rw [hres, absent, fullStatus]
    cases isPrefetch
    · exact iff_of_false (by decide) (by decide)
    · exact iff_of_false (by decide) (by decide)
  | new hres absent _ _ =>
    rw [hres, absent]
    exact iff_of_false (by decide) (by decide)

/-- A request fills nothing. -/
theorem residentAt_requestLog (c : Cache P) (L : List CacheEvent) (addr : BitVec 32) (t : ℕ)
    (isPrefetch : Bool) (i : BitVec 32) (w : ℕ) :
    residentAt (L ++ c.requestLog addr t isPrefetch) i w = residentAt L i w := by
  rw [residentAt, lastSome_append, requestLog]
  split_ifs
  · rfl
  · rfl

theorem residentAt_fill (L : List CacheEvent) (i' : BitVec 32) (w' : ℕ) (b : BitVec 32) (t : ℕ)
    (i : BitVec 32) (w : ℕ) :
    residentAt (L ++ [.fill i' w' b t]) i w
      = if i' = i ∧ w' = w then some b else residentAt L i w := by
  rw [residentAt, lastSome_concat, CacheEvent.fillsWay]
  split_ifs
  · rfl
  · rfl

/-- A return overwrites the key of its victim, as it overwrites the way in the log. -/
theorem returnBlock_key {t : ℕ} {b : BitVec 32} (hb : b ∈ c.inflight)
    (hways : ∀ i, c.sets i ≠ []) (i : BitVec 32) (w : ℕ) :
    ((returnBlock t c b).keys i)[w]?
      = if c.index b = i ∧ c.victim b = w then some (true, c.tag b) else (c.keys i)[w]? := by
  have hvictim : c.victim b < (c.keys (c.index b)).length := by
    rw [keys, List.length_map]
    exact victim_lt (hways (c.index b))
  rw [returnBlock_keys hb]
  by_cases hi : i = c.index b
  · subst hi
    rw [if_pos rfl, List.getElem?_set]
    by_cases hw : c.victim b = w
    · subst hw
      rw [if_pos rfl, if_pos hvictim, if_pos ⟨rfl, rfl⟩]
    · rw [if_neg hw, if_neg fun h => hw h.2]
  · rw [if_neg hi, if_neg fun h => hi h.1.symm]

/-- The blocks that are in a way by the log are those whose key is there. -/
structure Tracked (c : Cache P) (L : List CacheEvent) : Prop where
  bounded : c.Bounded none
  ways : ∀ i, c.sets i ≠ []
  found : ∀ {i w b}, residentAt L i w = some b →
    (c.keys i)[w]? = some (true, c.tag b) ∧ c.index b = i ∧ c.getBlockAddr b = b
  held : ∀ {i w u}, (c.keys i)[w]? = some (true, u) → ∃ b, residentAt L i w = some b

theorem Tracked.of_same {c' : Cache P} (h : c.Tracked L) (hs : Same c c') : c'.Tracked L where
  bounded := h.bounded.of_same hs
  ways := ways_of_keys hs.keys h.ways
  found hb := by
    rw [hs.keys, hs.tag, hs.index, hs.getBlockAddr]
    exact h.found hb
  held hk := by
    rw [hs.keys] at hk
    exact h.held hk

/-- **The log tracks the cache**, whatever the geometry. -/
theorem tracked_logInvariant (ok : ℕ → ℕ → Prop) :
    LogInvariant ok fun _ (c : Cache P) L => c.Tracked L where
  tick _ h := h
  request {t c L} h addr isPrefetch := by
    have hsame := h.of_same (request_spec c addr t isPrefetch).1
    exact
      { bounded := hsame.bounded
        ways := hsame.ways
        found := fun hb => hsame.found ((residentAt_requestLog c L addr t isPrefetch _ _) ▸ hb)
        held := fun hk => by
          rw [residentAt_requestLog]
          exact hsame.held hk }
  schedule {t c L} h addr _ idle room readyCycle isPrefetch := by
    have hshape := scheduleFill_shape c addr readyCycle isPrefetch
    refine ⟨h.bounded.scheduleFill idle room (by simp) isPrefetch, ?_, fun hb => ?_, fun hk => ?_⟩
    · rw [scheduleFill_new idle]
      exact h.ways
    · rw [scheduleFill_keys, hshape.tag, hshape.index, hshape.getBlockAddr]
      exact h.found hb
    · rw [scheduleFill_keys] at hk
      exact h.held hk
  returned {t c L b} h hb := by
    have hshape := returnBlock_shape t c b
    refine ⟨h.bounded.returnBlock t b, returnBlock_ways h.ways, fun {i w b'} hb' => ?_,
      fun {i w u} hk => ?_⟩
    · rw [hshape.tag, hshape.index, hshape.getBlockAddr, returnBlock_key hb h.ways]
      rw [residentAt_fill] at hb'
      -- the way that is filled holds the block, and the others are as before
      split_ifs at hb' ⊢ with hiw
      · obtain rfl := Option.some.inj hb'
        exact ⟨rfl, hiw.1, h.bounded.aligned b hb⟩
      · exact h.found hb'
    · rw [residentAt_fill]
      rw [returnBlock_key hb h.ways] at hk
      split_ifs at hk ⊢
      · exact ⟨b, rfl⟩
      · exact h.held hk

theorem tracked_build {cfg : CacheConfig P} (h : 0 < cfg.assoc.toNat) :
    cfg.build.Tracked [] where
  bounded := bounded_build cfg
  ways i := by
    simp only [CacheConfig.build, Cache.new, ne_eq, List.replicate_eq_nil_iff]
    omega
  found := nofun
  held hk := by
    simp only [keys, CacheConfig.build, Cache.new, List.map_replicate, Line.key,
      List.getElem?_replicate] at hk
    split_ifs at hk
    cases hk

/-- A new cache finds nothing. -/
theorem build_contains {cfg : CacheConfig P} (h : 0 < cfg.assoc.toNat) (a : BitVec 32) :
    cfg.build.contains a = false := by
  rw [← Bool.not_eq_true]
  intro hcon
  obtain ⟨w, hw⟩ := List.mem_iff_getElem?.mp (contains_iff.mp hcon)
  obtain ⟨b, hb⟩ := (tracked_build h).held hw
  cases hb

end Cache

end TraceSim
