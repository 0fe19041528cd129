/-
TraceSim/Mem/Views.lean

What a replacement policy sees and does.

The cache copies valid bit, tag and time stamps of the ways of one set into views, hands
them to a hook of the policy and copies them back.  So a request lets the policy change the
views of the set that it hits, a return those of the set that it fills, and nothing else
changes any view.
-/
import TraceSim.Mem.Consistency

namespace TraceSim

namespace Cache

variable {P : Type}

/-! ### Views of a set -/

/-- The ways of a set, as the replacement policy sees them. -/
def views (c : Cache P) (i : BitVec 32) : List LineView := buildLineViews (c.sets i)

theorem views_key (c : Cache P) (i : BitVec 32) : (c.views i).map LineView.key = c.keys i :=
  buildLineViews_key (c.sets i)

/-- Views that are copied back to the lines of their set are the views of the lines. -/
theorem buildLineViews_applyLineViews {set : List Line} {views : List LineView}
    (h : views.length = set.length) : buildLineViews (applyLineViews set views) = views := by
  induction set generalizing views with
  | nil =>
    rw [List.length_eq_zero_iff.mp h]
    rfl
  | cons l set ih =>
    cases views with
    | nil => cases h
    | cons v views =>
      have hrec := ih (Nat.succ.inj h)
      rw [applyLineViews, buildLineViews] at hrec ⊢
      rw [List.zipWith_cons_cons, List.map_cons, hrec]

/-- What the policy does not see may change. -/
theorem buildLineViews_modify {f : Line → Line}
    (hf : ∀ l, buildLineViews [f l] = buildLineViews [l]) (way : ℕ) (set : List Line) :
    buildLineViews (set.modify way f) = buildLineViews set := by
  induction set generalizing way with
  | nil => rw [List.modify_nil]
  | cons l set ih =>
    cases way with
    | zero =>
      have hl := hf l
      simp only [buildLineViews, List.map_cons, List.map_nil, List.cons.injEq, and_true] at hl
      simp only [buildLineViews, List.modify_zero_cons, List.map_cons, hl]
    | succ way =>
      have hrec := ih way
      simp only [buildLineViews] at hrec
      simp only [buildLineViews, List.modify_succ_cons, List.map_cons, hrec]

theorem buildLineViews_set_usedByDemand (set : List Line) (way : ℕ) :
    buildLineViews (set.set way { set.getD way {} with usedByDemand := true })
      = buildLineViews set := by
  induction set generalizing way with
  | nil => rw [List.set_nil]
  | cons l set ih =>
    cases way with
    | zero => rfl
    | succ way =>
      have hrec := ih way
      simp only [buildLineViews, List.getD_cons_succ] at hrec ⊢
      rw [List.set_cons_succ, List.map_cons, List.map_cons, hrec]

theorem views_update {c c' : Cache P} {i : BitVec 32} {set : List Line}
    (h : c'.sets = Function.update c.sets i set) (j : BitVec 32) :
    c'.views j = if j = i then buildLineViews set else c.views j := by
  rw [views, h]
  split_ifs with hj
  · rw [hj, Function.update_self]
  · rw [Function.update_of_ne hj, views]

/-! ### Requests -/

/-- The hit branch lets the policy change the set of the address. -/
theorem hitWay_views (c : Cache P) (addr : BitVec 32) (way t : ℕ) (isPrefetch : Bool)
    (i : BitVec 32) :
    (c.hitWay addr way t isPrefetch).views i
      = if i = c.index addr then c.replacementPolicy.onCacheHit i way t (c.views i)
        else c.views i := by
  have hlen := length_eq_of_key (c.replacementPolicy.onCacheHit_key (c.index addr) way t
    (c.views (c.index addr)))
  have happly := buildLineViews_applyLineViews (hlen.trans (buildLineViews_length _))
  obtain ⟨set, hsets, hset⟩ : ∃ set,
      (c.hitWay addr way t isPrefetch).sets = Function.update c.sets (c.index addr) set ∧
      buildLineViews set
        = c.replacementPolicy.onCacheHit (c.index addr) way t (c.views (c.index addr)) := by
    unfold hitWay
    dsimp only
    split_ifs
    · exact ⟨_, rfl, happly⟩
    · exact ⟨_, rfl, (buildLineViews_set_usedByDemand _ _).trans happly⟩
    · exact ⟨_, rfl, happly⟩
  rw [views_update hsets, hset]
  split_ifs with hi
  · rw [hi]
  · rfl

theorem exists_findWay {c : Cache P} {addr : BitVec 32} (h : c.contains addr = true) :
    ∃ way, findWay (c.views (c.index addr)) (c.tag addr) = some way := by
  rw [← Option.ne_none_iff_exists', views, Ne, findWay_eq_none, h]
  nofun

/-- A request that hits lets the policy change its set. -/
theorem request_views_hit {c : Cache P} {addr : BitVec 32} {way : ℕ}
    (h : findWay (c.views (c.index addr)) (c.tag addr) = some way) (t : ℕ) (isPrefetch : Bool)
    (i : BitVec 32) :
    (c.request addr t isPrefetch).2.views i
      = if i = c.index addr then c.replacementPolicy.onCacheHit i way t (c.views i)
        else c.views i := by
  obtain ⟨k, hk⟩ := countRequest_eq c isPrefetch
  unfold request
  dsimp only
  rw [hk]
  change findWay (buildLineViews (Cache.sets { c with counters := k }
    (Cache.index { c with counters := k } addr))) (Cache.tag { c with counters := k } addr)
    = some way at h
  rw [h]
  exact hitWay_views { c with counters := k } addr way t isPrefetch i

/-- A request that does not hit changes no set. -/
theorem request_views_miss {c : Cache P} {addr : BitVec 32} (h : c.contains addr = false)
    (t : ℕ) (isPrefetch : Bool) (i : BitVec 32) :
    (c.request addr t isPrefetch).2.views i = c.views i := by
  obtain ⟨k, hk⟩ := countRequest_eq c isPrefetch
  rw [← findWay_eq_none] at h
  unfold request
  dsimp only
  rw [hk]
  change findWay (buildLineViews (Cache.sets { c with counters := k }
    (Cache.index { c with counters := k } addr))) (Cache.tag { c with counters := k } addr)
    = none at h
  rw [h]
  dsimp only
  split
  · unfold mergeInflight
    split <;> rfl
  · unfold missUnknown
    split_ifs <;> rfl

/-! ### Fills -/

theorem scheduleFill_views (c : Cache P) (addr : BitVec 32) (t : ℕ) (isPrefetch : Bool)
    (i : BitVec 32) : (c.scheduleFill addr t isPrefetch).views i = c.views i := by
  rw [views, scheduleFill_sets, views]

/-- The views of a set in which the block `b` goes into a way. -/
def install (c : Cache P) (b : BitVec 32) (way : ℕ) (views : List LineView) : List LineView :=
  views.modify way fun view => { view with valid := true, tag := c.tag b }

/-- **What a return does to the views**: the block goes into the victim, and the policy
changes the set. -/
theorem returnBlock_views {t : ℕ} {c : Cache P} {b : BitVec 32} (hb : b ∈ c.inflight)
    (i : BitVec 32) :
    (returnBlock t c b).views i
      = if i = c.index b then
          c.replacementPolicy.onCacheFill i (c.victim b) t (c.install b (c.victim b) (c.views i))
        else c.views i := by
  obtain ⟨req, hreq⟩ := Option.isSome_iff_exists.mp (AList.lookup_isSome.mpr hb)
  have hlen := length_eq_of_key (c.replacementPolicy.onCacheFill_key (c.index b) (c.victim b) t
    (c.install b (c.victim b) (c.views (c.index b))))
  have happly := buildLineViews_applyLineViews
    (hlen.trans ((List.length_modify _ _ _).trans (buildLineViews_length (c.sets (c.index b)))))
  obtain ⟨set, hsets, hset⟩ : ∃ set,
      (returnBlock t c b).sets = Function.update c.sets (c.index b) set ∧
      buildLineViews set
        = c.replacementPolicy.onCacheFill (c.index b) (c.victim b) t
            (c.install b (c.victim b) (c.views (c.index b))) := by
    unfold returnBlock
    rw [hreq]
    refine ⟨_, rfl, Eq.trans ?_ happly⟩
    apply buildLineViews_modify
    intro l
    rfl
  rw [views_update hsets, hset]
  split_ifs with hi
  · rw [hi]
  · rfl

end Cache

end TraceSim
