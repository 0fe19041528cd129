/-
TraceSim/Mem/ReturnOrder.lean

`process_returns` does not depend on the order of the hash table.

Each return changes the set from which the next one of the same set chooses its
victim, so two returns do not commute state by state.  But LRU and FIFO choose by
valid bits and stamps, and the fills of one call all stamp alike, above every
stamp that was there: the fills of a set are arrivals at slots
(`Slots.PicksLeast.place_perm`).  The table in flight loses the same keys in any
order, and the counters then follow from what a return preserves: prefetches in
flight become filled ones, and every filled one has a fate.
-/
import TraceSim.Lib.Slots
import TraceSim.Mem.Late
import TraceSim.Mem.Views
import Mathlib.Algebra.Order.Group.Nat

namespace TraceSim

variable {P : Type}

/-! ### Policies that stamp -/

/-- The hooks of `LruReplacementPolicy` and `FifoReplacementPolicy`: the victim is the
oldest way by one of the stamps, and a fill sets both. -/
structure CacheReplacementPolicy.StampsFills (p : CacheReplacementPolicy)
    (stamp : LineView → ℕ) : Prop where
  victim : ∀ i views, p.chooseVictim i views = oldestWay stamp views 0 0 uint64Max
  fill : p.onCacheFill = stampWay
  stamps : stamp = LineView.lastAccess ∨ stamp = LineView.insertionTime

theorem stampsFills_lru : lruReplacementPolicy.StampsFills LineView.lastAccess :=
  ⟨fun _ _ => rfl, rfl, .inl rfl⟩

theorem stampsFills_fifo : fifoReplacementPolicy.StampsFills LineView.insertionTime :=
  ⟨fun _ _ => rfl, rfl, .inr rfl⟩

/-- What the policies see of a line. -/
def Line.view (l : Line) : LineView := ⟨l.valid, l.tag, l.lastAccess, l.insertionTime⟩

/-- The place of a line in the queue of victims: the invalid ones come first. -/
def Line.rank (stamp : LineView → ℕ) (l : Line) : ℕ :=
  if l.valid then stamp l.view + 1 else 0

/-- The scan depends on the ranks. -/
theorem oldestWay_congr {stamp : LineView → ℕ} {s t : List Line}
    (h : s.map (Line.rank stamp) = t.map (Line.rank stamp)) (i victim least : ℕ) :
    oldestWay stamp (s.map Line.view) i victim least
      = oldestWay stamp (t.map Line.view) i victim least := by
  induction s generalizing t i victim least with
  | nil => rw [List.map_eq_nil_iff.mp h.symm]
  | cons x s ih =>
    cases t with
    | nil => cases h
    | cons y t =>
      obtain ⟨hrank, hrest⟩ := List.cons.inj h
      have ih := ih hrest
      rw [List.map_cons, List.map_cons, oldestWay, oldestWay]
      have hvalid : x.view.valid = y.view.valid ∧
          (x.view.valid = true → stamp x.view = stamp y.view) := by
        simp only [Line.rank] at hrank
        simp only [Line.view] at hrank ⊢
        cases hx : x.valid <;> cases hy : y.valid <;> simp_all
      rw [hvalid.1]
      cases hy : y.view.valid with
      | false => rfl
      | true => rw [hvalid.2 (hvalid.1.trans hy), ih, ih]

/-- **LRU and FIFO choose a way of least rank**, as long as stamps are 64-bit numbers. -/
theorem picksLeast_of_stampsFills {p : CacheReplacementPolicy} {stamp : LineView → ℕ}
    (hp : p.StampsFills stamp) {t : ℕ} (ht : t ≤ uint64Max) (i : BitVec 32) :
    Slots.PicksLeast (Line.rank stamp) (t + 1)
      fun set => p.chooseVictim i (Cache.buildLineViews set) where
  lt set hne := by
    have hviews : Cache.buildLineViews set ≠ [] := fun h => hne (List.map_eq_nil_iff.mp h)
    have hlt := p.chooseVictim_lt i (Cache.buildLineViews set) hviews
    rwa [Cache.buildLineViews_length] at hlt
  congr h := by
    rw [hp.victim, hp.victim]
    exact oldestWay_congr h 0 0 uint64Max
  least {set l} hle hl y hy := by
    rw [hp.victim] at hl
    -- an invalid line has rank 0
    rcases hvalid : l.valid with _ | _
    · simp [Line.rank, hvalid]
    have hview : (Cache.buildLineViews set)[oldestWay stamp (Cache.buildLineViews set) 0 0
        uint64Max]? = some l.view := by
      rw [Cache.buildLineViews, List.getElem?_map]
      exact congrArg (Option.map _) hl
    -- the stamps of valid lines are not behind the cycle
    have hbound : ∀ v, (Cache.buildLineViews set)[0]? = some v → v.valid = true →
        stamp v ≤ uint64Max := by
      intro v hv hvvalid
      obtain ⟨x, hx, rfl⟩ := List.mem_map.mp (List.mem_of_getElem? hv)
      have hrank := hle x hx
      rw [Line.rank, if_pos hvvalid] at hrank
      exact Nat.le_trans (Nat.le_of_succ_le_succ hrank) ht
    obtain ⟨hyvalid, hstamp⟩ := oldestWay_start_least stamp hbound hview hvalid y.view
      (List.mem_map.mpr ⟨y, hy, rfl⟩)
    have hyrank : Line.rank stamp y = stamp y.view + 1 := if_pos hyvalid
    rw [Line.rank, if_pos hvalid, hyrank]
    exact Nat.succ_le_succ hstamp

namespace Cache

/-! ### One set -/

/-- The line that a fill of block `b` writes for its request. -/
def filledLine (c : Cache P) (t : ℕ) (req : InflightRequest) (b : BitVec 32) : Line :=
  { tag := c.tag b, valid := true, prefetched := req.isPrefetch,
    usedByDemand := req.hasDemandWaiter || !req.isPrefetch,
    lastAccess := t, insertionTime := t, fillCycle := t }

theorem SameShape.filledLine {c c' : Cache P} (h : SameShape c c') (t : ℕ)
    (req : InflightRequest) (b : BitVec 32) :
    c'.filledLine t req b = c.filledLine t req b := by
  rw [Cache.filledLine, h.tag, Cache.filledLine]

theorem applyLineViews_buildLineViews (set : List Line) :
    applyLineViews set (buildLineViews set) = set := by
  induction set with
  | nil => rfl
  | cons l set ih => exact congrArg (l :: ·) ih

/-- A fill of a stamping policy overwrites the whole line. -/
theorem fill_eq_set (set : List Line) (way t : ℕ) (i tag : BitVec 32) (pf used : Bool) :
    (applyLineViews set (stampWay i way t ((buildLineViews set).modify way fun view =>
        { view with valid := true, tag := tag }))).modify way
      (fun line => { line with prefetched := pf, usedByDemand := used, fillCycle := t })
      = set.set way { tag := tag, valid := true, prefetched := pf, usedByDemand := used,
                      lastAccess := t, insertionTime := t, fillCycle := t } := by
  induction set generalizing way with
  | nil => simp [applyLineViews]
  | cons l set ih =>
    cases way with
    | zero =>
      have hrest := applyLineViews_buildLineViews set
      simp only [buildLineViews, applyLineViews] at hrest
      simp only [buildLineViews, applyLineViews, stampWay, List.map_cons, List.modify_zero_cons,
        List.zipWith_cons_cons, List.set_cons_zero, hrest]
    | succ way =>
      have hrest := ih way
      simp only [buildLineViews, applyLineViews, stampWay] at hrest
      simp only [buildLineViews, applyLineViews, stampWay, List.map_cons, List.modify_succ_cons,
        List.zipWith_cons_cons, List.set_cons_succ, hrest]

/-- **What a return does to a set**: the victim becomes the line of the block. -/
theorem returnBlock_sets {c : Cache P} {stamp : LineView → ℕ}
    (hp : c.replacementPolicy.StampsFills stamp) {t : ℕ} {b : BitVec 32} {req : InflightRequest}
    (hreq : c.inflight.lookup b = some req) (i : BitVec 32) :
    (returnBlock t c b).sets i
      = if i = c.index b then
          (c.sets i).set (c.replacementPolicy.chooseVictim i (buildLineViews (c.sets i)))
            (c.filledLine t req b)
        else c.sets i := by
  rw [returnBlock_of_lookup hreq]
  by_cases hi : i = c.index b
  · subst hi
    simp only [fillBlock, Function.update_self, hp.fill, if_pos]
    exact fill_eq_set _ _ _ _ _ _ _
  · simp only [fillBlock, if_neg hi]
    exact Function.update_of_ne hi _ _

/-- The returns of one call, as arrivals at the ways of a set. -/
theorem foldl_returnBlock_sets {stamp : LineView → ℕ} (t : ℕ) {blocks : List (BitVec 32)}
    (hnodup : blocks.Nodup) {c : Cache P} (hp : c.replacementPolicy.StampsFills stamp)
    {req : BitVec 32 → InflightRequest}
    (hreq : ∀ b ∈ blocks, c.inflight.lookup b = some (req b)) (i : BitVec 32) :
    (blocks.foldl (returnBlock t) c).sets i
      = Slots.place (fun set => c.replacementPolicy.chooseVictim i (buildLineViews set)) (c.sets i)
          ((blocks.filter fun b => i = c.index b).map fun b => c.filledLine t (req b) b) := by
  induction blocks generalizing c with
  | nil => rfl
  | cons b blocks ih =>
    obtain ⟨hb, hnodup⟩ := List.nodup_cons.mp hnodup
    have hpolicy := (returnBlock_hooks t c b).1
    have hshape := returnBlock_shape t c b
    have hfirst := hreq b List.mem_cons_self
    have hrest : ∀ b' ∈ blocks, (returnBlock t c b).inflight.lookup b' = some (req b') := by
      intro b' hb'
      have hne : b' ≠ b := by
        rintro rfl
        exact hb hb'
      rw [returnBlock_of_lookup hfirst, AList.lookup_erase_ne hne]
      exact hreq b' (List.mem_cons_of_mem _ hb')
    rw [List.foldl_cons, ih hnodup (by rwa [hpolicy]) hrest, hpolicy,
      returnBlock_sets hp hfirst]
    simp only [hshape.index, hshape.filledLine]
    by_cases hi : i = c.index b
    · rw [List.filter_cons_of_pos (by simpa using hi), if_pos hi, List.map_cons, Slots.place]
    · rw [List.filter_cons_of_neg (by simpa using hi), if_neg hi]

/-! ### The table in flight -/

theorem returnBlock_inflight (t : ℕ) (c : Cache P) (b : BitVec 32) :
    (returnBlock t c b).inflight = c.inflight.erase b := by
  rcases e : c.inflight.lookup b with - | req
  · have hmem := AList.lookup_eq_none.mp e
    rw [returnBlock_of_notMem hmem]
    exact AList.ext (List.kerase_of_notMem_keys hmem).symm
  · rw [returnBlock_of_lookup e]

theorem foldl_returnBlock_inflight (t : ℕ) (blocks : List (BitVec 32)) (c : Cache P) :
    (blocks.foldl (returnBlock t) c).inflight
      = blocks.foldl (fun table b => table.erase b) c.inflight := by
  induction blocks generalizing c with
  | nil => rfl
  | cons b blocks ih => rw [List.foldl_cons, ih, returnBlock_inflight, List.foldl_cons]

theorem processReturns_inflight (c : Cache P) (t : ℕ) (table table' : TableOrder) :
    (c.processReturns t table).inflight = (c.processReturns t table').inflight := by
  rw [processReturns, processReturns, foldl_returnBlock_inflight, foldl_returnBlock_inflight]
  refine ((table.perm _).trans (table'.perm _).symm).foldl_eq' (fun b _ b' _ s => ?_) _
  exact AList.erase_erase b b' s

/-! ### The counters -/

theorem foldl_returnBlock_prefetches (t : ℕ) (blocks : List (BitVec 32)) (c : Cache P) :
    (blocks.foldl (returnBlock t) c).counters.prefetchFill
        + (blocks.foldl (returnBlock t) c).inflightPrefetches
      = c.counters.prefetchFill + c.inflightPrefetches := by
  induction blocks generalizing c with
  | nil => rfl
  | cons b blocks ih => rw [List.foldl_cons, ih, returnBlock_prefetches]

theorem foldl_returnBlock_fates (t : ℕ) (blocks : List (BitVec 32)) {c : Cache P}
    (hways : ∀ i, c.sets i ≠ []) :
    (blocks.foldl (returnBlock t) c).counters.uselessPrefetch
        + (blocks.foldl (returnBlock t) c).waitedFills
        + (blocks.foldl (returnBlock t) c).unusedLines + c.counters.prefetchFill
      = c.counters.uselessPrefetch + c.waitedFills + c.unusedLines
        + (blocks.foldl (returnBlock t) c).counters.prefetchFill := by
  induction blocks generalizing c with
  | nil => rfl
  | cons b blocks ih =>
    have hstep := returnBlock_fates hways t b
    have hrest := ih (returnBlock_ways (t := t) (b := b) hways)
    rw [List.foldl_cons]
    omega

/-- Caches of one geometry with the same lines in their sets have as many unused lines. -/
theorem unusedLines_perm {c c' : Cache P} (hmask : c'.indexMask = c.indexMask)
    (h : ∀ i, (c.sets i).Perm (c'.sets i)) : c.unusedLines = c'.unusedLines := by
  rw [unusedLines, unusedLines, hmask]
  exact Finset.sum_congr rfl fun i _ => (h _).countP_eq _

/-- Two orders that leave the same lines in every set leave the same counters. -/
theorem processReturns_counters_eq {c : Cache P} (hways : ∀ i, c.sets i ≠ []) (t : ℕ)
    (table table' : TableOrder)
    (hsets : ∀ i, ((c.processReturns t table).sets i).Perm ((c.processReturns t table').sets i)) :
    (c.processReturns t table).counters = (c.processReturns t table').counters := by
  have hshape := processReturns_shape c t table
  have hshape' := processReturns_shape c t table'
  have hinflight := processReturns_inflight c t table table'
  have hunused := unusedLines_perm (hshape'.indexMask.trans hshape.indexMask.symm) hsets
  have hexcess := (processReturns_excess c t table).trans (processReturns_excess c t table').symm
  have hfill := foldl_returnBlock_prefetches t (table.order (c.completedBlocks t)) c
  have hfill' := foldl_returnBlock_prefetches t (table'.order (c.completedBlocks t)) c
  have hfates := foldl_returnBlock_fates t (table.order (c.completedBlocks t)) hways
  have hfates' := foldl_returnBlock_fates t (table'.order (c.completedBlocks t)) hways
  obtain ⟨u, p, hk⟩ := processReturns_counters c t table
  obtain ⟨u', p', hk'⟩ := processReturns_counters c t table'
  rw [← processReturns] at hfill hfill' hfates hfates'
  simp only [inflightPrefetches, excess, met, hinflight, hk, hk'] at hfill hfill' hexcess
  have hp : p = p' := by omega
  simp only [hk, hk'] at hfates hfates'
  have hu : u = u' := by omega
  rw [hk, hk', hp, hu]

/-! ### The order of the table -/

/-- **The returns of a cycle do not depend on the order of the hash table**, under LRU
and FIFO: with at most as many completing blocks in a set as it has ways, and a cycle
above the stamps of the valid lines, any two orders leave the same table in flight, the
same counters, and in each set the same lines up to a permutation of the ways. -/
theorem processReturns_order {c : Cache P}
    (hpolicy : c.replacementPolicy = lruReplacementPolicy ∨
      c.replacementPolicy = fifoReplacementPolicy)
    (hassoc : 0 < c.assoc.toNat) (hways : ∀ i, (c.sets i).length = c.assoc.toNat) {t : ℕ}
    (ht : t ≤ uint64Max)
    (hstamps : ∀ i, ∀ l ∈ c.sets i, l.valid = true → l.lastAccess < t ∧ l.insertionTime < t)
    (hroom : ∀ i, ((c.completedBlocks t).countP fun b => i = c.index b) ≤ c.assoc.toNat)
    (table table' : TableOrder) :
    (c.processReturns t table).inflight = (c.processReturns t table').inflight ∧
      (c.processReturns t table).counters = (c.processReturns t table').counters ∧
      ∀ i, ((c.processReturns t table).sets i).Perm ((c.processReturns t table').sets i) := by
  obtain ⟨stamp, hp⟩ : ∃ stamp, c.replacementPolicy.StampsFills stamp := by
    rcases hpolicy with h | h
    · exact ⟨_, h ▸ stampsFills_lru⟩
    · exact ⟨_, h ▸ stampsFills_fifo⟩
  have hne : ∀ i, c.sets i ≠ [] := by
    intro i hnil
    have hlen := hways i
    rw [hnil, List.length_nil] at hlen
    omega
  -- the requests of the completing blocks
  have hreq : ∀ (table : TableOrder), ∀ b ∈ table.order (c.completedBlocks t),
      c.inflight.lookup b = some ((c.inflight.lookup b).getD {}) := by
    intro table b hb
    obtain ⟨f, hf, -⟩ := (mem_order table).mp hb
    obtain ⟨req, hreq, -⟩ := Option.map_eq_some_iff.mp hf
    rw [hreq, Option.getD_some]
  have hsets : ∀ i,
      ((c.processReturns t table).sets i).Perm ((c.processReturns t table').sets i) := by
    intro i
    have hperm := (table.perm (c.completedBlocks t)).trans (table'.perm _).symm
    rw [processReturns, processReturns,
      foldl_returnBlock_sets t (nodup_order c t table) hp (hreq table),
      foldl_returnBlock_sets t (nodup_order c t table') hp (hreq table')]
    refine (picksLeast_of_stampsFills hp ht i).place_perm (fun l hl => ?_) (fun l hl => ?_)
      ((hperm.filter _).map _) ?_
    · rw [Line.rank]
      split_ifs with hvalid
      · have hlt := hstamps i l hl hvalid
        rcases hp.stamps with rfl | rfl
        · exact Nat.succ_lt_succ hlt.1
        · exact Nat.succ_lt_succ hlt.2
      · exact Nat.succ_pos t
    · obtain ⟨b, -, rfl⟩ := List.mem_map.mp hl
      rcases hp.stamps with rfl | rfl <;> rfl
    · rw [List.length_map, ← List.countP_eq_length_filter, (table.perm _).countP_eq, hways]
      exact hroom i
  exact ⟨processReturns_inflight c t table table',
    processReturns_counters_eq hne t table table' hsets, hsets⟩

/-- A set of two ways, one with a prefetched line that nothing touched, and two blocks
that return to it in cycle 9. -/
def twoReturns : Cache Unit :=
  { Cache.new 128 2 64 lruReplacementPolicy () 4 with
    sets := fun _ =>
      [{ tag := 3, valid := true, prefetched := true, lastAccess := 2, insertionTime := 2 },
       { tag := 4, valid := true, usedByDemand := true, lastAccess := 7, insertionTime := 1 }]
    inflight :=
      (AList.insert 0x40 (⟨0x40, 9, true, false⟩ : InflightRequest) ∅).insert 0x80
        (⟨0x80, 8, false, true⟩ : InflightRequest) }

theorem processReturns_order_twoReturns :
    (twoReturns.processReturns 9 ⟨id, fun _ => List.Perm.refl _⟩).counters
        = (twoReturns.processReturns 9 ⟨List.reverse, List.reverse_perm⟩).counters ∧
      (twoReturns.processReturns 9 default).sets 0
        ≠ (twoReturns.processReturns 9 ⟨List.reverse, List.reverse_perm⟩).sets 0 := by
  have hlines : ∀ l ∈ twoReturns.sets 0,
      l.valid = true → l.lastAccess < 9 ∧ l.insertionTime < 9 := by decide
  refine ⟨(processReturns_order (c := twoReturns) (t := 9) (.inl rfl) (by decide) (fun _ => rfl)
    (by decide) (fun _ => hlines) (fun i => ?_) _ _).2.1, by decide⟩
  exact Nat.le_trans List.countP_le_length (by decide)

end Cache

end TraceSim
