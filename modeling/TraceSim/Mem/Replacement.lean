/-
TraceSim/Mem/Replacement.lean

What the replacement policies guarantee over whole runs.

A policy picks the way with the least stamp, and the stamps are those of the log: of the
last touch of a block (LRU) or of its last fill (FIFO).  So a block that LRU evicts was
followed by touches of as many other blocks of its set as there are ways, and FIFO evicts
a block that was filled no later than those that stay.  Under FIFO the hits leave no trace
in valid bits, tags and insertion times.
-/
import TraceSim.Mem.CacheRuns
import TraceSim.Mem.Views
import Mathlib.Data.Finset.Card

namespace TraceSim

variable {P : Type}

/-! ### Stamps -/

/-- The policy evicts the way with the least stamp, and its hooks keep as the stamp of a way
the cycle of the last event that `sel` selects for the block there. -/
structure CacheReplacementPolicy.EvictsLeast (p : CacheReplacementPolicy)
    (stamp : LineView → ℕ) (sel : BitVec 32 → CacheEvent → Option ℕ) : Prop where
  victim : ∀ i views, p.chooseVictim i views = oldestWay stamp views 0 0 uint64Max
  hit : ∀ i way t views w b, ((p.onCacheHit i way t views)[w]?).map stamp
    = (views[w]?).map fun v => if way = w then (sel b (.hit b t)).getD (stamp v) else stamp v
  fill : ∀ i way t views w, ((p.onCacheFill i way t views)[w]?).map stamp
    = (views[w]?).map fun v => if way = w then t else stamp v
  selHit : ∀ {b b' t s}, sel b (.hit b' t) = some s → b' = b ∧ t = s
  selFill : ∀ b i w b' t, sel b (.fill i w b' t) = if b' = b then some t else none

namespace CacheReplacementPolicy.EvictsLeast

variable {p : CacheReplacementPolicy} {stamp : LineView → ℕ}
  {sel : BitVec 32 → CacheEvent → Option ℕ} {b b' : BitVec 32}

theorem sel_hit_of_ne (h : p.EvictsLeast stamp sel) (hne : b' ≠ b) (t : ℕ) :
    sel b (.hit b' t) = none := by
  rcases e : sel b (.hit b' t) with - | s
  · rfl
  · exact absurd (h.selHit e).1 hne

theorem cycle_of_sel (h : p.EvictsLeast stamp sel) {e : CacheEvent} {s : ℕ}
    (hs : sel b e = some s) : e.block = b ∧ e.cycle = s := by
  cases e with
  | hit b' t => exact h.selHit hs
  | fill i w b' t =>
    rw [h.selFill] at hs
    split_ifs at hs with hb
    exact ⟨hb, Option.some.inj hs⟩

end CacheReplacementPolicy.EvictsLeast

theorem map_modify_stamp {stamp : LineView → ℕ} {f : LineView → LineView} {t : ℕ}
    (hf : ∀ v, stamp (f v) = t) (views : List LineView) (way w : ℕ) :
    ((views.modify way f)[w]?).map stamp
      = (views[w]?).map fun v => if way = w then t else stamp v := by
  rw [List.getElem?_modify, Option.map_eq_map, Option.map_map]
  refine congrArg (fun g => Option.map g views[w]?) (funext fun v => ?_)
  rw [Function.comp_apply]
  split_ifs
  · exact hf v
  · rfl

theorem evictsLeast_lru :
    lruReplacementPolicy.EvictsLeast LineView.lastAccess CacheEvent.touches where
  victim _ _ := rfl
  hit i way t views w b := by
    have htouch : CacheEvent.touches b (.hit b t) = some t := if_pos rfl
    rw [htouch]
    exact map_modify_stamp (by intro v; rfl) views way w
  fill i way t views w := map_modify_stamp (by intro v; rfl) views way w
  selHit h := by
    rw [CacheEvent.touches] at h
    split_ifs at h with hb
    exact ⟨hb, Option.some.inj h⟩
  selFill b i w b' t := rfl

theorem evictsLeast_fifo :
    fifoReplacementPolicy.EvictsLeast LineView.insertionTime CacheEvent.fills where
  victim _ _ := rfl
  hit i way t views w b := by
    refine congrArg (fun g => Option.map g views[w]?) (funext fun v => ?_)
    exact (ite_self _).symm
  fill i way t views w := map_modify_stamp (by intro v; rfl) views way w
  selHit h := nomatch h
  selFill b i w b' t := rfl

/-! ### Evictions -/

/-- Whenever a fill of the log evicts a block, `R` holds: of the log before it, the set and
the way, the block that comes in, the cycle, and the block that goes. -/
def OnEvictions (R : List CacheEvent → BitVec 32 → ℕ → BitVec 32 → ℕ → BitVec 32 → Prop)
    (L : List CacheEvent) : Prop :=
  ∀ ⦃L₁ i w b' t L₂ b⦄, L = L₁ ++ .fill i w b' t :: L₂ → residentAt L₁ i w = some b →
    R L₁ i w b' t b

namespace OnEvictions

variable {R R' : List CacheEvent → BitVec 32 → ℕ → BitVec 32 → ℕ → BitVec 32 → Prop}
  {L : List CacheEvent}

theorem nil : OnEvictions R [] := by
  intro L₁ i w b' t L₂ b hsplit
  exact absurd hsplit (by simp)

theorem mono (h : OnEvictions R L) (himp : ∀ {L₁ i w b' t b}, R L₁ i w b' t b → R' L₁ i w b' t b) :
    OnEvictions R' L := fun _ _ _ _ _ _ _ hsplit hb => himp (h hsplit hb)

/-- The next event evicts nothing, or what it evicts satisfies `R`. -/
theorem concat (h : OnEvictions R L) {e : CacheEvent}
    (he : ∀ i w b' t b, e = .fill i w b' t → residentAt L i w = some b → R L i w b' t b) :
    OnEvictions R (L ++ [e]) := by
  intro L₁ i w b' t L₂ b hsplit hb
  rcases append_eq_append_cons hsplit with ⟨M, hL, -⟩ | ⟨M, hL₁, he'⟩
  · exact h hL hb
  · rcases List.singleton_eq_append_iff.mp he' with ⟨rfl, hcons⟩ | ⟨-, hcons⟩
    · rw [List.append_nil] at hL₁
      subst hL₁
      exact he i w b' t b (List.cons.inj hcons).1.symm hb
    · cases hcons

end OnEvictions

/-- The fills of a log: the blocks and the cycles. -/
def fillSequence (L : List CacheEvent) : List (BitVec 32 × ℕ) :=
  L.filterMap fun
    | .hit _ _ => none
    | .fill _ _ b t => some (b, t)

namespace LineView

/-- What a FIFO policy uses of a way. -/
def content (v : LineView) : Bool × BitVec 32 × ℕ := (v.valid, v.tag, v.insertionTime)

def ofContent (k : Bool × BitVec 32 × ℕ) : LineView :=
  { valid := k.1, tag := k.2.1, insertionTime := k.2.2 }

end LineView

/-- A clock of 64-bit cycles that does not run backwards. -/
def Clock64 (now t : ℕ) : Prop := now ≤ t ∧ t ≤ uint64Max

namespace Cache

/-! ### Blocks in their ways -/

/-- No two ways hold one block. -/
theorem Apart.unique {keys : List (Bool × BitVec 32)} (h : keys.Pairwise Apart) {w w' : ℕ}
    {u : BitVec 32} (hw : keys[w]? = some (true, u)) (hw' : keys[w']? = some (true, u)) :
    w = w' := by
  obtain ⟨hlt, hkey⟩ := List.getElem?_eq_some_iff.mp hw
  obtain ⟨hlt', hkey'⟩ := List.getElem?_eq_some_iff.mp hw'
  rcases Nat.lt_trichotomy w w' with hless | rfl | hless
  · have hapart := List.pairwise_iff_getElem.mp h w w' hlt hlt' hless
    rw [hkey, hkey'] at hapart
    exact absurd rfl (hapart rfl rfl)
  · rfl
  · have hapart := List.pairwise_iff_getElem.mp h w' w hlt' hlt hless
    rw [hkey, hkey'] at hapart
    exact absurd rfl (hapart rfl rfl)

/-- The cache and its log along a run of the cache `c₀`. -/
structure Placed (c₀ c : Cache P) (L : List CacheEvent) : Prop where
  shape : SameShape c₀ c
  policy : c.replacementPolicy = c₀.replacementPolicy
  width : ∀ i, (c.keys i).length = c₀.assoc.toNat
  tracked : c.Tracked L
  consistent : c.Consistent none

variable {c₀ c : Cache P} {L : List CacheEvent} {i i' : BitVec 32} {w w' t : ℕ}
  {b b' : BitVec 32}

theorem placed_logInvariant (hp : c₀.PowerOfTwo) (ok : ℕ → ℕ → Prop) :
    LogInvariant ok fun _ c L => Placed c₀ c L where
  tick _ h := h
  request {t c L} h addr isPrefetch := by
    have hsame := (request_spec c addr t isPrefetch).1
    exact
      { shape := h.shape.trans hsame.toSameShape
        policy := (request_hooks c addr t isPrefetch).1.trans h.policy
        width := fun i => by
          rw [hsame.keys]
          exact h.width i
        tracked := (tracked_logInvariant ok).request h.tracked addr isPrefetch
        consistent := h.consistent.of_same hsame }
  schedule {t c L} h addr absent idle room readyCycle isPrefetch :=
    { shape := h.shape.trans (scheduleFill_shape c addr readyCycle isPrefetch)
      policy := (scheduleFill_hooks c addr readyCycle isPrefetch).1.trans h.policy
      width := fun i => by
        rw [scheduleFill_keys]
        exact h.width i
      tracked := (tracked_logInvariant ok).schedule (t := t) h.tracked absent idle room
        readyCycle isPrefetch
      consistent := h.consistent.scheduleFill (hp.of_shape h.shape) absent idle room nofun
        isPrefetch }
  -- a return changes one way of one set
  returned {t c L b} h hb :=
    { shape := h.shape.trans (returnBlock_shape t c b)
      policy := (returnBlock_hooks t c b).1.trans h.policy
      width := fun i => by
        rw [returnBlock_keys hb]
        split_ifs
        · rw [List.length_set]
          exact h.width i
        · exact h.width i
      tracked := (tracked_logInvariant ok).returned h.tracked hb
      consistent := h.consistent.returnBlock (hp.of_shape h.shape) t b }

theorem placed_build {cfg : CacheConfig P} (h : cfg.PowerOfTwo) :
    Placed cfg.build cfg.build [] where
  shape := SameShape.refl _
  policy := rfl
  width i := by
    rw [keys, List.length_map]
    exact List.length_replicate
  tracked := tracked_build h.assoc
  consistent := consistent_build h

namespace Placed

/-- A resident block is found. -/
theorem contains (h : Placed c₀ c L) (hb : residentAt L i w = some b) :
    c.contains b = true := by
  obtain ⟨hkey, rfl, -⟩ := h.tracked.found hb
  exact contains_iff.mpr (List.mem_of_getElem? hkey)

/-- No block is in two ways. -/
theorem inj (h : Placed c₀ c L) (hb : residentAt L i w = some b)
    (hb' : residentAt L i' w' = some b) : i = i' ∧ w = w' := by
  obtain ⟨hkey, rfl, -⟩ := h.tracked.found hb
  obtain ⟨hkey', rfl, -⟩ := h.tracked.found hb'
  exact ⟨rfl, Apart.unique (h.consistent.unique _) hkey hkey'⟩

/-- A block in flight is in no way. -/
theorem not_resident (h : Placed c₀ c L) (hb : b ∈ c.inflight) (i : BitVec 32) (w : ℕ) :
    residentAt L i w ≠ some b := by
  intro hres
  have hcon := h.contains hres
  rw [h.consistent.disjoint b hb] at hcon
  cases hcon

/-- The way that a hit finds holds the block of the address. -/
theorem hitBlock (h : Placed c₀ c L) (hp : c₀.PowerOfTwo) {addr : BitVec 32} {way : ℕ}
    (hway : findWay (c.views (c.index addr)) (c.tag addr) = some way) :
    residentAt L (c.index addr) way = some (c.getBlockAddr addr) := by
  have hkey := findWay_eq_some hway
  rw [views_key] at hkey
  obtain ⟨b, hb⟩ := h.tracked.held hkey
  obtain ⟨hkey', hindex, hblock⟩ := h.tracked.found hb
  have htag := (Prod.mk.inj (Option.some.inj (hkey.symm.trans hkey'))).2
  rw [hb, (split_iff (hp.of_shape h.shape) addr b).mp ⟨hindex.symm, htag⟩, hblock]

end Placed

/-! ### The stamps of the log -/

/-- The stamp of a way is the cycle of the last selected event of the block there. -/
structure Stamped (stamp : LineView → ℕ) (sel : BitVec 32 → CacheEvent → Option ℕ)
    (c₀ : Cache P) (now : ℕ) (c : Cache P) (L : List CacheEvent) : Prop where
  placed : Placed c₀ c L
  time : now ≤ uint64Max
  events : ∀ e ∈ L, e.cycle ≤ now
  stamps : ∀ {i w b}, residentAt L i w = some b →
    ((c.views i)[w]?).map stamp = lastSome (sel b) L

variable {stamp : LineView → ℕ} {sel : BitVec 32 → CacheEvent → Option ℕ}

theorem requestLog_hit {addr : BitVec 32} (h : c.contains addr = true) (t : ℕ)
    (isPrefetch : Bool) : c.requestLog addr t isPrefetch = [.hit (c.getBlockAddr addr) t] :=
  if_pos ((request_hit_iff c addr t isPrefetch).mpr h)

theorem requestLog_miss {addr : BitVec 32} (h : c.contains addr = false) (t : ℕ)
    (isPrefetch : Bool) : c.requestLog addr t isPrefetch = [] := by
  refine if_neg fun hhit => ?_
  rw [request_hit_iff, h] at hhit
  cases hhit

theorem cycle_of_mem_requestLog {addr : BitVec 32} {t : ℕ} {isPrefetch : Bool} {e : CacheEvent}
    (h : e ∈ c.requestLog addr t isPrefetch) : e.cycle = t := by
  rw [requestLog] at h
  split_ifs at h
  · rw [List.mem_singleton.mp h]
    rfl
  · cases h

/-- A way that holds a block has a view. -/
theorem Placed.view (h : Placed c₀ c L) (hb : residentAt L i w = some b) :
    ∃ v, (c.views i)[w]? = some v ∧ v.valid = true ∧ v.tag = c.tag b := by
  obtain ⟨hkey, -, -⟩ := h.tracked.found hb
  rw [← views_key, List.getElem?_map, Option.map_eq_some_iff] at hkey
  obtain ⟨v, hv, hkey⟩ := hkey
  exact ⟨v, hv, congrArg Prod.fst hkey, congrArg Prod.snd hkey⟩

/-- A request stamps the way that it hits and leaves the others. -/
theorem Stamped.request (hp : c₀.PowerOfTwo)
    (hpolicy : c₀.replacementPolicy.EvictsLeast stamp sel) (h : Stamped stamp sel c₀ t c L)
    (addr : BitVec 32) (isPrefetch : Bool) (hb : residentAt L i w = some b) :
    (((c.request addr t isPrefetch).2.views i)[w]?).map stamp
      = lastSome (sel b) (L ++ c.requestLog addr t isPrefetch) := by
  have hold := h.stamps hb
  rcases hcon : c.contains addr with _ | _
  · rw [requestLog_miss hcon, List.append_nil, request_views_miss hcon]
    exact hold
  obtain ⟨way, hway⟩ := exists_findWay hcon
  have hhit := h.placed.hitBlock hp hway
  rw [requestLog_hit hcon, request_views_hit hway, lastSome_concat]
  by_cases hblock : b = c.getBlockAddr addr
  · -- the way of the block is the one that is hit
    subst hblock
    obtain ⟨rfl, rfl⟩ := h.placed.inj hb hhit
    obtain ⟨v, hv, -, -⟩ := h.placed.view hb
    rw [if_pos rfl, h.placed.policy, hpolicy.hit _ _ _ _ _ (c.getBlockAddr addr), hv, ← hold, hv,
      Option.map_some, if_pos rfl, Option.map_some]
    cases sel (c.getBlockAddr addr) (.hit (c.getBlockAddr addr) t) <;> rfl
  · rw [hpolicy.sel_hit_of_ne (Ne.symm hblock) t, Option.none_or, ← hold]
    split_ifs with hi
    · subst hi
      have hw : way ≠ w := by
        rintro rfl
        exact hblock (Option.some.inj (hb.symm.trans hhit))
      rw [h.placed.policy, hpolicy.hit _ _ _ _ _ b]
      simp only [if_neg hw]
    · rfl

/-- A return stamps its victim and leaves the other ways. -/
theorem Stamped.returned (hpolicy : c₀.replacementPolicy.EvictsLeast stamp sel)
    (h : Stamped stamp sel c₀ t c L) (hb : b ∈ c.inflight) {x : BitVec 32}
    (hx : residentAt (L ++ [.fill (c.index b) (c.victim b) b t]) i w = some x) :
    (((returnBlock t c b).views i)[w]?).map stamp
      = lastSome (sel x) (L ++ [.fill (c.index b) (c.victim b) b t]) := by
  rw [residentAt_fill] at hx
  rw [returnBlock_views hb, lastSome_concat, hpolicy.selFill]
  -- the way filled has the stamp of this fill, which no other block shares
  by_cases hiw : c.index b = i ∧ c.victim b = w
  · obtain ⟨rfl, rfl⟩ := hiw
    rw [if_pos ⟨rfl, rfl⟩] at hx
    obtain rfl := Option.some.inj hx
    have hlt : c.victim b < (c.views (c.index b)).length := by
      rw [views, buildLineViews_length]
      exact victim_lt (h.placed.consistent.ways _)
    rw [if_pos rfl, if_pos rfl, h.placed.policy, hpolicy.fill, install, List.getElem?_modify_eq,
      List.getElem?_eq_getElem hlt, Option.map_eq_map, Option.map_some, Option.map_some, if_pos rfl]
    rfl
  · rw [if_neg hiw] at hx
    have hne : b ≠ x := by
      rintro rfl
      exact h.placed.not_resident hb i w hx
    rw [if_neg hne, Option.none_or, ← h.stamps hx]
    split_ifs with hi
    · have hw : c.victim b ≠ w := fun hw => hiw ⟨hi.symm, hw⟩
      rw [h.placed.policy, hpolicy.fill, install, List.getElem?_modify_ne _ _ hw]
      simp only [if_neg hw]
    · rfl

/-- What a way with a valid line holds. -/
theorem Stamped.held (hpolicy : c₀.replacementPolicy.EvictsLeast stamp sel) {now : ℕ}
    (h : Stamped stamp sel c₀ now c L) {v : LineView} (hv : (c.views i)[w]? = some v)
    (hvalid : v.valid = true) :
    ∃ b, residentAt L i w = some b ∧ lastSome (sel b) L = some (stamp v) ∧ stamp v ≤ now := by
  have hkey : (c.keys i)[w]? = some (true, v.tag) := by
    rw [← views_key, List.getElem?_map, hv, Option.map_some, LineView.key, hvalid]
  obtain ⟨b, hb⟩ := h.placed.tracked.held hkey
  have hstamp := h.stamps hb
  rw [hv, Option.map_some, eq_comm] at hstamp
  obtain ⟨e, he, hsel⟩ := exists_of_lastSome hstamp
  exact ⟨b, hb, hstamp, (hpolicy.cycle_of_sel hsel).2 ▸ h.events e he⟩

/-- A block in a full set is evicted: all ways still hold blocks, distinct ones and none of
them the one that goes, and for none of them the last selected event is older. -/
structure OldestOut (sel : BitVec 32 → CacheEvent → Option ℕ) (c₀ : Cache P)
    (L : List CacheEvent) (i : BitVec 32) (w : ℕ) (b' : BitVec 32) (t : ℕ) (b : BitVec 32) :
    Prop where
  full : ∀ w' < c₀.assoc.toNat, ∃ x, residentAt (L ++ [.fill i w b' t]) i w' = some x
  distinct : ∀ {w₁ w₂ x}, residentAt (L ++ [.fill i w b' t]) i w₁ = some x →
    residentAt (L ++ [.fill i w b' t]) i w₂ = some x → w₁ = w₂
  inSet : ∀ {w' x}, residentAt (L ++ [.fill i w b' t]) i w' = some x → c₀.index x = i
  gone : ∀ {w'}, residentAt (L ++ [.fill i w b' t]) i w' ≠ some b
  oldest : ∃ s, lastSome (sel b) L = some s ∧
    ∀ {w' x}, residentAt (L ++ [.fill i w b' t]) i w' = some x →
      ∃ s', lastSome (sel x) (L ++ [.fill i w b' t]) = some s' ∧ s ≤ s' ∧ s' ≤ t

/-- **One eviction**: the policy gives up the oldest block of a full set. -/
theorem Stamped.oldestOut (hpolicy : c₀.replacementPolicy.EvictsLeast stamp sel)
    (h : Stamped stamp sel c₀ t c L) {b₀ : BitVec 32} (hb : b ∈ c.inflight)
    (h' : Placed c₀ (returnBlock t c b) (L ++ [.fill (c.index b) (c.victim b) b t]))
    (hb₀ : residentAt L (c.index b) (c.victim b) = some b₀) :
    OldestOut sel c₀ L (c.index b) (c.victim b) b t b₀ := by
  obtain ⟨v, hv, hvalid, -⟩ := h.placed.view hb₀
  have hscan : c.victim b = oldestWay stamp (c.views (c.index b)) 0 0 uint64Max := by
    rw [victim, h.placed.policy, hpolicy.victim, views]
  -- all ways are valid, and none has a smaller stamp than the victim
  have hleast : ∀ u ∈ c.views (c.index b), u.valid = true ∧ stamp v ≤ stamp u := by
    rw [hscan] at hv
    refine oldestWay_start_least stamp (fun u hu huvalid => ?_) hv hvalid
    obtain ⟨-, -, -, hle⟩ := h.held hpolicy hu huvalid
    exact hle.trans h.time
  have hlast : lastSome (sel b₀) L = some (stamp v) := by
    rw [← h.stamps hb₀, hv, Option.map_some]
  obtain ⟨-, -, -, hle⟩ := h.held hpolicy hv hvalid
  refine
    { full := fun w' hw' => ?_
      distinct := fun h₁ h₂ => (h'.inj h₁ h₂).2
      inSet := fun {w' x} hx => ?_
      gone := fun {w'} hgone => ?_
      oldest := ⟨stamp v, hlast, fun {w' x} hx => ?_⟩ }
  · rw [residentAt_fill]
    by_cases hw : c.index b = c.index b ∧ c.victim b = w'
    · exact ⟨b, if_pos hw⟩
    · rw [← h.placed.width (c.index b), ← views_key, List.length_map] at hw'
      obtain ⟨x, hx, -, -⟩ := h.held hpolicy (List.getElem?_eq_getElem hw')
        (hleast _ (List.getElem_mem hw')).1
      exact ⟨x, (if_neg hw).trans hx⟩
  · obtain ⟨-, hindex, -⟩ := h'.tracked.found hx
    rwa [← h'.shape.index]
  · rw [residentAt_fill] at hgone
    split_ifs at hgone with hw
    · exact h.placed.not_resident hb _ _ (hb₀.trans hgone.symm)
    · exact hw ⟨rfl, (h.placed.inj hb₀ hgone).2⟩
  · rw [lastSome_concat, hpolicy.selFill]
    rw [residentAt_fill] at hx
    split_ifs at hx with hw
    · obtain rfl := Option.some.inj hx
      rw [if_pos rfl]
      exact ⟨t, rfl, hle, le_rfl⟩
    · have hne : b ≠ x := by
        rintro rfl
        exact h.placed.not_resident hb _ _ hx
      obtain ⟨u, hu, huvalid, -⟩ := h.placed.view hx
      obtain ⟨x', hx', hstamp, hbound⟩ := h.held hpolicy hu huvalid
      obtain rfl := Option.some.inj (hx.symm.trans hx')
      rw [if_neg hne, Option.none_or]
      exact ⟨stamp u, hstamp, (hleast u (List.mem_of_getElem? hu)).2, hbound⟩

/-- **Every eviction** of a run is one of the oldest block. -/
theorem stamped_logInvariant (hp : c₀.PowerOfTwo)
    (hpolicy : c₀.replacementPolicy.EvictsLeast stamp sel) :
    LogInvariant Clock64 fun now c L =>
      Stamped stamp sel c₀ now c L ∧ OnEvictions (OldestOut sel c₀) L where
  tick hok h :=
    ⟨{ h.1 with
       time := hok.2
       events := fun e he => (h.1.events e he).trans hok.1 }, h.2⟩
  request {t c L} h addr isPrefetch := by
    have hplaced := (placed_logInvariant hp Clock64).request (t := t) h.1.placed addr isPrefetch
    refine ⟨⟨hplaced, h.1.time, fun e he => ?_, fun hb => ?_⟩, ?_⟩
    · rcases List.mem_append.mp he with he | he
      · exact h.1.events e he
      · exact (cycle_of_mem_requestLog he).le
    · rw [residentAt_requestLog] at hb
      exact h.1.request hp hpolicy addr isPrefetch hb
    -- a request evicts nothing
    · rw [requestLog]
      split_ifs
      · refine h.2.concat ?_
        intro i w b' t' b₀ hfill
        cases hfill
      · rw [List.append_nil]
        exact h.2
  schedule {t c L} h addr absent idle room readyCycle isPrefetch := by
    have hplaced := (placed_logInvariant hp Clock64).schedule (t := t) h.1.placed absent idle room
      readyCycle isPrefetch
    refine ⟨⟨hplaced, h.1.time, h.1.events, fun hb => ?_⟩, h.2⟩
    rw [scheduleFill_views]
    exact h.1.stamps hb
  returned {t c L b} h hb := by
    -- a return is a fill, with the oldest block out if the set is full
    have hplaced := (placed_logInvariant hp Clock64).returned (t := t) h.1.placed hb
    refine ⟨⟨hplaced, h.1.time, fun e he => ?_, h.1.returned hpolicy hb⟩, h.2.concat ?_⟩
    · rcases List.mem_append.mp he with he | he
      · exact h.1.events e he
      · rw [List.mem_singleton.mp he]
        exact le_rfl
    · intro i w b' t' b₀ hfill hb₀
      cases hfill
      exact h.1.oldestOut hpolicy hb hplaced hb₀

theorem stamped_build {cfg : CacheConfig P} (h : cfg.PowerOfTwo) :
    Stamped stamp sel cfg.build 0 cfg.build [] where
  placed := placed_build h
  time := Nat.zero_le _
  events := nofun
  stamps := nofun

theorem log_evictions {cfg : CacheConfig P} (hcfg : cfg.PowerOfTwo)
    (hpolicy : cfg.replacement.EvictsLeast stamp sel) {ops : List CacheOp}
    (hclock : OnClock Clock64 0 ops) :
    OnEvictions (OldestOut sel cfg.build) (cfg.build.log ops) := by
  obtain ⟨-, -, h⟩ := (stamped_logInvariant (powerOfTwo_build hcfg) hpolicy).run
    ⟨stamped_build hcfg, .nil⟩ hclock
  exact h

/-! ### Least recently used -/

/-- From its last touch on, as many other blocks of its set are touched as there are ways,
the block that comes in among them. -/
def CrowdedOut (c₀ : Cache P) (L : List CacheEvent) (i : BitVec 32) (w : ℕ) (b' : BitVec 32)
    (t : ℕ) (b : BitVec 32) : Prop :=
  ∃ s, lastTouch L b = some s ∧
    ∃ others : Finset (BitVec 32), c₀.assoc.toNat ≤ others.card ∧ b' ∈ others ∧ b ∉ others ∧
      ∀ x ∈ others, c₀.index x = i ∧
        ∃ e ∈ L ++ [.fill i w b' t], e.block = x ∧ s ≤ e.cycle ∧ e.cycle ≤ t

theorem OldestOut.crowdedOut (h : OldestOut CacheEvent.touches c₀ L i w b' t b) :
    CrowdedOut c₀ L i w b' t b := by
  obtain ⟨s, hs, holdest⟩ := h.oldest
  have hin : residentAt (L ++ [.fill i w b' t]) i w = some b' := by
    rw [residentAt_fill, if_pos ⟨rfl, rfl⟩]
  choose! block hblock using h.full
  -- the blocks that are in the set after the fill
  let others := insert b' ((Finset.range c₀.assoc.toNat).image block)
  have hresident : ∀ x ∈ others, ∃ w', residentAt (L ++ [.fill i w b' t]) i w' = some x := by
    intro x hx
    rcases Finset.mem_insert.mp hx with rfl | hx
    · exact ⟨w, hin⟩
    · obtain ⟨w', hw', rfl⟩ := Finset.mem_image.mp hx
      exact ⟨w', hblock w' (Finset.mem_range.mp hw')⟩
  refine ⟨s, hs, others, ?_, Finset.mem_insert_self _ _, fun hb => ?_, fun x hx => ?_⟩
  · have hinj : Set.InjOn block (Finset.range c₀.assoc.toNat) := by
      intro w₁ h₁ w₂ h₂ heq
      have hw₁ := hblock w₁ (Finset.mem_range.mp h₁)
      rw [heq] at hw₁
      exact h.distinct hw₁ (hblock w₂ (Finset.mem_range.mp h₂))
    have hcard := Finset.card_le_card (Finset.subset_insert b'
      ((Finset.range c₀.assoc.toNat).image block))
    rwa [Finset.card_image_of_injOn hinj, Finset.card_range] at hcard
  · obtain ⟨w', hw'⟩ := hresident b hb
    exact h.gone hw'
  · obtain ⟨w', hw'⟩ := hresident x hx
    obtain ⟨s', hs', hle, hlt⟩ := holdest hw'
    obtain ⟨e, he, hsel⟩ := exists_of_lastSome hs'
    obtain ⟨hblock, rfl⟩ := evictsLeast_lru.cycle_of_sel hsel
    exact ⟨h.inSet hw', e, he, hblock, hle, hlt⟩

/-! ### First in, first out -/

/-- No block that stays in the set was filled before the one that goes. -/
def FirstOut (L : List CacheEvent) (i : BitVec 32) (w : ℕ) (b' : BitVec 32) (t : ℕ)
    (b : BitVec 32) : Prop :=
  ∃ s, lastFill L b = some s ∧ ∀ w' x, residentAt (L ++ [.fill i w b' t]) i w' = some x →
    ∃ s', lastFill (L ++ [.fill i w b' t]) x = some s' ∧ s ≤ s'

theorem OldestOut.firstOut (h : OldestOut CacheEvent.fills c₀ L i w b' t b) :
    FirstOut L i w b' t b := by
  obtain ⟨s, hs, holdest⟩ := h.oldest
  refine ⟨s, hs, fun w' x hx => ?_⟩
  obtain ⟨s', hs', hle, -⟩ := holdest hx
  exact ⟨s', hs', hle⟩

/-! ### Contents under FIFO -/

/-- Valid bit, tag and insertion time of the ways of a set. -/
def contents (c : Cache P) (i : BitVec 32) : List (Bool × BitVec 32 × ℕ) :=
  (c.views i).map LineView.content

/-- What a fill does to the contents: the way that was filled longest ago holds the block. -/
def fillOldest (c₀ : Cache P) (S : BitVec 32 → List (Bool × BitVec 32 × ℕ))
    (f : BitVec 32 × ℕ) : BitVec 32 → List (Bool × BitVec 32 × ℕ) :=
  let set := S (c₀.index f.1)
  let way := oldestWay LineView.insertionTime (set.map LineView.ofContent) 0 0 uint64Max
  Function.update S (c₀.index f.1) (set.set way (true, c₀.tag f.1, f.2))

theorem stampWay_install_content (c : Cache P) (b : BitVec 32) (i : BitVec 32) (way t : ℕ)
    (views : List LineView) :
    (stampWay i way t (c.install b way views)).map LineView.content
      = (views.map LineView.content).set way (true, c.tag b, t) := by
  induction views generalizing way with
  | nil => simp [install, stampWay]
  | cons v views ih =>
    cases way with
    | zero => rfl
    | succ way =>
      have hrec := ih way
      simp only [install, stampWay, List.modify_succ_cons, List.map_cons, List.set_cons_succ]
        at hrec ⊢
      rw [hrec]

/-- A FIFO cache is what its fills have made of it. -/
structure FilledInOrder (c₀ c : Cache P) (L : List CacheEvent) : Prop where
  shape : SameShape c₀ c
  policy : c.replacementPolicy = fifoReplacementPolicy
  contents : c.contents = (fillSequence L).foldl c₀.fillOldest c₀.contents

theorem FilledInOrder.request_views (h : FilledInOrder c₀ c L) (addr : BitVec 32) (t : ℕ)
    (isPrefetch : Bool) (i : BitVec 32) :
    (c.request addr t isPrefetch).2.views i = c.views i := by
  rcases hcon : c.contains addr with _ | _
  · exact request_views_miss hcon t isPrefetch i
  · obtain ⟨way, hway⟩ := exists_findWay hcon
    rw [request_views_hit hway, h.policy]
    exact ite_self _

theorem fillSequence_requestLog (c : Cache P) (L : List CacheEvent) (addr : BitVec 32) (t : ℕ)
    (isPrefetch : Bool) :
    fillSequence (L ++ c.requestLog addr t isPrefetch) = fillSequence L := by
  rw [fillSequence, List.filterMap_append, requestLog]
  split_ifs
  · exact List.append_nil _
  · exact List.append_nil _

/-- The victim can be told from the contents. -/
theorem FilledInOrder.victim (h : FilledInOrder c₀ c L) (b : BitVec 32) :
    c.victim b = oldestWay LineView.insertionTime
      ((c.contents (c.index b)).map LineView.ofContent) 0 0 uint64Max := by
  rw [Cache.victim, h.policy, Cache.contents, List.map_map, oldestWay_map]
  · rfl
  · exact fun _ => rfl
  · exact fun _ => rfl

theorem filledInOrder_logInvariant (c₀ : Cache P) (ok : ℕ → ℕ → Prop) :
    LogInvariant ok fun _ c L => FilledInOrder c₀ c L where
  tick _ h := h
  request {t c L} h addr isPrefetch :=
    { shape := h.shape.trans (request_spec c addr t isPrefetch).1.toSameShape
      policy := (request_hooks c addr t isPrefetch).1.trans h.policy
      contents := by
        rw [fillSequence_requestLog, ← h.contents]
        funext i
        rw [Cache.contents, h.request_views, Cache.contents] }
  schedule {t c L} h addr _ _ _ readyCycle isPrefetch :=
    { shape := h.shape.trans (scheduleFill_shape c addr readyCycle isPrefetch)
      policy := (scheduleFill_hooks c addr readyCycle isPrefetch).1.trans h.policy
      contents := by
        rw [← h.contents]
        funext i
        rw [Cache.contents, scheduleFill_views, Cache.contents] }
  returned {t c L b} h hb :=
    { shape := h.shape.trans (returnBlock_shape t c b)
      policy := (returnBlock_hooks t c b).1.trans h.policy
      contents := by
        -- the return appends its block to the fills
        have hfills : fillSequence (L ++ [.fill (c.index b) (c.victim b) b t])
            = fillSequence L ++ [(b, t)] := List.filterMap_append
        rw [hfills, List.foldl_append, ← h.contents, List.foldl_cons, List.foldl_nil, fillOldest,
          ← h.shape.index, ← h.shape.tag]
        dsimp only
        rw [← h.victim]
        funext i
        rw [Cache.contents, returnBlock_views hb]
        split_ifs with hi
        · subst hi
          rw [Function.update_self, h.policy]
          exact stampWay_install_content c b (c.index b) _ t _
        · rw [Function.update_of_ne hi]
          rfl }

theorem fifo_contents {cfg : CacheConfig P} (hpolicy : cfg.replacement = fifoReplacementPolicy)
    (ops : List CacheOp) :
    (cfg.build.calls ops).contents
      = (fillSequence (cfg.build.log ops)).foldl cfg.build.fillOldest cfg.build.contents := by
  have hbuild : FilledInOrder cfg.build cfg.build [] := ⟨SameShape.refl _, hpolicy, rfl⟩
  obtain ⟨-, h⟩ := (filledInOrder_logInvariant cfg.build _).run hbuild (onClock_true 0 ops)
  exact h.contents

/-! ### The guarantees -/

/-- **Replacement guarantees.** In every run, the block that LRU evicts was followed by touches
of as many other blocks of its set as there are ways; FIFO evicts no block while one that
was filled before it stays, and its hits leave no trace in the contents. -/
theorem replacement_guarantees {cfg : CacheConfig P} (hcfg : cfg.PowerOfTwo) {ops : List CacheOp}
    (hclock : OnClock Clock64 0 ops) :
    (cfg.replacement = lruReplacementPolicy →
      OnEvictions (CrowdedOut cfg.build) (cfg.build.log ops)) ∧
    (cfg.replacement = fifoReplacementPolicy →
      OnEvictions FirstOut (cfg.build.log ops) ∧
      ∀ ops', fillSequence (cfg.build.log ops') = fillSequence (cfg.build.log ops) →
        (cfg.build.calls ops').contents = (cfg.build.calls ops).contents) := by
  refine ⟨fun hpolicy => ?_, fun hpolicy => ⟨?_, fun ops' hfills => ?_⟩⟩
  · have h := log_evictions hcfg (hpolicy ▸ evictsLeast_lru) hclock
    exact h.mono OldestOut.crowdedOut
  · have h := log_evictions hcfg (hpolicy ▸ evictsLeast_fifo) hclock
    exact h.mono OldestOut.firstOut
  · rw [fifo_contents hpolicy, fifo_contents hpolicy, hfills]

/-- A cache of one set of two ways. -/
def oneSet (policy : CacheReplacementPolicy) : CacheConfig BuiltinPrefetcher :=
  ⟨128, 2, 64, 1, policy, makePrefetcher .none⟩

theorem powerOfTwo_oneSet (policy : CacheReplacementPolicy) : (oneSet policy).PowerOfTwo :=
  ⟨⟨6, rfl⟩, ⟨0, (by decide : ((128 : BitVec 32) / (2 * 64)).toNat = 2 ^ 0)⟩,
    Nat.succ_pos 1⟩

/-- Two blocks are filled, the first one is wanted again or not, and a third block comes
in. -/
def evictingRun (again : List CacheOp) : List CacheOp :=
  [.fetch 0 0 false 1 false, .returns 1 default, .fetch 64 2 false 3 false,
    .returns 3 default] ++ again ++ [.fetch 128 6 false 7 false, .returns 7 default]

theorem evictingRun_clock : OnClock Clock64 0 (evictingRun [.request 0 4 false]) := by
  simp [evictingRun, OnClock, Clock64, CacheOp.cycle, uint64Max]

/-- LRU evicts the second block and FIFO the first, where the hit changes nothing. -/
theorem replacement_guarantees_oneSet :
    CrowdedOut (oneSet lruReplacementPolicy).build
        [.fill 0 0 0 1, .fill 0 1 64 3, .hit 0 4] 0 1 128 7 64 ∧
      FirstOut [.fill 0 0 0 1, .fill 0 1 64 3, .hit 0 4] 0 0 128 7 0 ∧
      ((oneSet fifoReplacementPolicy).build.calls (evictingRun [])).contents
        = ((oneSet fifoReplacementPolicy).build.calls
            (evictingRun [.request 0 4 false])).contents := by
  have hlru : (oneSet lruReplacementPolicy).build.log (evictingRun [.request 0 4 false])
      = [.fill 0 0 0 1, .fill 0 1 64 3, .hit 0 4] ++ .fill 0 1 128 7 :: [] := by
    decide +kernel
  have hfifo : (oneSet fifoReplacementPolicy).build.log (evictingRun [.request 0 4 false])
      = [.fill 0 0 0 1, .fill 0 1 64 3, .hit 0 4] ++ .fill 0 0 128 7 :: [] := by
    decide +kernel
  have hfills : fillSequence ((oneSet fifoReplacementPolicy).build.log (evictingRun []))
      = fillSequence ((oneSet fifoReplacementPolicy).build.log
          (evictingRun [.request 0 4 false])) := by
    decide +kernel
  obtain ⟨hcrowded, -⟩ := replacement_guarantees (powerOfTwo_oneSet lruReplacementPolicy)
    evictingRun_clock
  obtain ⟨-, hfirst⟩ := replacement_guarantees (powerOfTwo_oneSet fifoReplacementPolicy)
    evictingRun_clock
  obtain ⟨hevicts, hcontents⟩ := hfirst rfl
  exact ⟨hcrowded rfl hlru (by decide), hevicts hfifo (by decide), hcontents _ hfills⟩

end Cache

end TraceSim
