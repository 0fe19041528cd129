/-
TraceSim/Mem/Ledger.lean

The event counters of a cache add up.

Every access is a hit, a new miss, a merge or a blocked access.  Every prefetch
is a hit, a merge, dropped, filled or still in flight.  And every prefetch that
was filled has one fate: a demand access hit it later, it was evicted unused, a
demand access was already waiting for it when it returned, or its line is still
there, unused (`Cache.Balanced`).

The fate of a prefetch is recorded by four operations, in flags of the entry in
flight and of the line.  A lookup does not read the flags of a line, so they are
tracked like its key (`Cache.flags`): a request changes them in one way at most,
where it counts a useful prefetch, and a fill overwrites those of one way.
-/
import TraceSim.Mem.Mshrs
import Mathlib.Algebra.BigOperators.Group.Finset.Basic

namespace TraceSim

variable {P : Type}

/-! ### Flags of lines -/

/-- A valid line that was prefetched and that no demand access has touched. -/
def Line.unused (l : Line) : Bool := l.valid && l.prefetched && !l.usedByDemand

/-- The part of a line that decides whether it is unused. -/
def Line.flags (l : Line) : Bool × Bool × Bool := (l.valid, l.prefetched, l.usedByDemand)

/-- Whether flags are those of an unused line. -/
def unusedFlags (f : Bool × Bool × Bool) : Bool := f.1 && f.2.1 && !f.2.2

namespace Cache

/-- The number of unused lines in the cache. -/
def unusedLines (c : Cache P) : ℕ :=
  ∑ i ∈ Finset.range (c.indexMask.toNat + 1),
    (c.sets (BitVec.ofNat 32 i)).countP Line.unused

/-- The number of prefetches in flight. -/
def inflightPrefetches (c : Cache P) : ℕ :=
  countValues InflightRequest.isPrefetch c.inflight

end Cache

/-- The event is the fill of a prefetch that a demand access was waiting for. -/
def FillEvent.isWaitedPrefetch : FillEvent → Bool
  | .filled _ _ pf dw => pf && dw
  | .scheduled _ _ _ _ => false

namespace Cache

/-- The number of prefetches a demand access was waiting for when they
returned. -/
def waitedFills (c : Cache P) : ℕ := c.history.countP FillEvent.isWaitedPrefetch

theorem countP_unused (set : List Line) :
    set.countP Line.unused = (set.map Line.flags).countP unusedFlags := by
  rw [List.countP_map]
  rfl

theorem index_lt (c : Cache P) (a : BitVec 32) :
    (c.index a).toNat < c.indexMask.toNat + 1 := by
  rw [index, BitVec.toNat_and, Nat.lt_succ_iff]
  exact Nat.and_le_right

/-- Rewriting one set changes the number of unused lines by those of that set. -/
theorem unusedLines_update {c c' : Cache P} {a : BitVec 32} {set : List Line}
    (hmask : c'.indexMask = c.indexMask)
    (hsets : c'.sets = Function.update c.sets (c.index a) set) :
    c'.unusedLines + (c.sets (c.index a)).countP Line.unused
      = c.unusedLines + set.countP Line.unused := by
  have hmem : (c.index a).toNat ∈ Finset.range (c.indexMask.toNat + 1) :=
    Finset.mem_range.mpr (c.index_lt a)
  have hrest : ∀ i ∈ (Finset.range (c.indexMask.toNat + 1)).erase (c.index a).toNat,
      (Function.update c.sets (c.index a) set (BitVec.ofNat 32 i)).countP Line.unused
        = (c.sets (BitVec.ofNat 32 i)).countP Line.unused := by
    intro i hi
    obtain ⟨hne, hrange⟩ := Finset.mem_erase.mp hi
    have hlt : i < 2 ^ 32 := by
      have hmask := c.indexMask.isLt
      have hi := Finset.mem_range.mp hrange
      omega
    rw [Function.update_of_ne]
    intro heq
    rw [← heq, BitVec.toNat_ofNat, Nat.mod_eq_of_lt hlt] at hne
    exact hne rfl
  unfold unusedLines
  rw [hmask, hsets, ← Finset.add_sum_erase _ _ hmem, ← Finset.add_sum_erase _ _ hmem,
    Finset.sum_congr rfl hrest, BitVec.ofNat_toNat, BitVec.setWidth_eq, Function.update_self]
  omega

/-! ### What requests and fills do to flags -/

/-- Views with the keys of a set leave its flags alone. -/
theorem applyLineViews_flags (set : List Line) (views : List LineView)
    (h : views.map LineView.key = set.map Line.key) :
    (applyLineViews set views).map Line.flags = set.map Line.flags := by
  induction set generalizing views with
  | nil => simp [applyLineViews]
  | cons l set ih =>
    cases views with
    | nil => simp at h
    | cons v views =>
      simp only [List.map_cons, List.cons.injEq] at h
      have hvalid : v.valid = l.valid := congrArg Prod.fst h.1
      have hrest := ih views h.2
      simp only [applyLineViews] at hrest
      simp only [applyLineViews, List.zipWith_cons_cons, List.map_cons, hrest]
      simp [Line.flags, hvalid]

/-- Views that install a valid key in one way, and the new flags of that way. -/
theorem applyLineViews_install_flags {f : Line → Line} {pf used : Bool}
    (hf : ∀ l, (f l).flags = (l.valid, pf, used)) {set : List Line} {views : List LineView}
    {way : ℕ} {t : BitVec 32}
    (h : views.map LineView.key = (set.map Line.key).set way (true, t)) :
    ((applyLineViews set views).modify way f).map Line.flags
      = (set.map Line.flags).set way (true, pf, used) := by
  -- along the set, and the way counts down with it
  induction set generalizing views way with
  | nil => simp [applyLineViews]
  | cons l set ih =>
    cases views with
    | nil =>
      have hlen := congrArg List.length h
      simp at hlen
    | cons v views =>
      cases way with
      | zero =>
        simp only [List.map_cons, List.set_cons_zero, List.cons.injEq] at h ⊢
        have hvalid : v.valid = true := congrArg Prod.fst h.1
        have hrest := applyLineViews_flags set views h.2
        simp only [applyLineViews] at hrest
        simp only [applyLineViews, List.zipWith_cons_cons, List.modify_zero_cons, List.map_cons,
          hrest, hf, hvalid]
      | succ way =>
        simp only [List.map_cons, List.set_cons_succ, List.cons.injEq] at h ⊢
        have hvalid : v.valid = l.valid := congrArg Prod.fst h.1
        have hrest := ih h.2
        simp only [applyLineViews] at hrest
        simp only [applyLineViews, List.zipWith_cons_cons, List.modify_succ_cons, List.map_cons,
          hrest]
        simp [Line.flags, hvalid]

/-- The way the scan of `request` finds holds a valid line. -/
theorem findWay_valid {set : List Line} {t : BitVec 32} {way : ℕ}
    (h : findWay (buildLineViews set) t = some way) :
    ∃ hway : way < set.length, set[way].valid = true := by
  have hkey := findWay_eq_some h
  rw [buildLineViews_key, List.getElem?_map, Option.map_eq_some_iff] at hkey
  obtain ⟨line, hline, hkey⟩ := hkey
  obtain ⟨hway, rfl⟩ := List.getElem?_eq_some_iff.mp hline
  exact ⟨hway, congrArg Prod.fst hkey⟩

/-- What a hit does to its set: it makes a line useful exactly when it takes it
from the unused ones. -/
theorem hitWay_sets {c : Cache P} {addr : BitVec 32} {way : ℕ}
    (h : findWay (buildLineViews (c.sets (c.index addr))) (c.tag addr) = some way)
    (t : ℕ) (pf : Bool) :
    ∃ set, (c.hitWay addr way t pf).sets = Function.update c.sets (c.index addr) set ∧
      (c.hitWay addr way t pf).counters.usefulPrefetch + set.countP Line.unused
        = c.counters.usefulPrefetch + (c.sets (c.index addr)).countP Line.unused := by
  obtain ⟨hway, hvalid⟩ := findWay_valid h
  have hkeys : (c.replacementPolicy.onCacheHit (c.index addr) way t
      (buildLineViews (c.sets (c.index addr)))).map LineView.key
      = (c.sets (c.index addr)).map Line.key := by
    rw [c.replacementPolicy.onCacheHit_key, buildLineViews_key]
  unfold hitWay
  dsimp only
  generalize c.replacementPolicy.onCacheHit (c.index addr) way t
    (buildLineViews (c.sets (c.index addr))) = views at hkeys
  -- the hook changes no flags
  have hflags := applyLineViews_flags _ _ hkeys
  generalize applyLineViews (c.sets (c.index addr)) views = set at hflags
  have hlen : set.length = (c.sets (c.index addr)).length := by
    simpa using congrArg List.length hflags
  have hcount : set.countP Line.unused = (c.sets (c.index addr)).countP Line.unused := by
    rw [countP_unused, hflags, countP_unused]
  have hlt : way < set.length := hlen ▸ hway
  have hvalid' : set[way].valid = true := by
    have hget : set[way].flags = (c.sets (c.index addr))[way].flags := by
      rw [← List.getElem_map Line.flags (h := by simpa), ← List.getElem_map Line.flags
        (h := by simpa)]
      simp only [hflags]
    exact (congrArg Prod.fst hget).trans hvalid
  rw [List.getD_eq_getElem _ _ hlt]
  split_ifs with hpf hfirst
  · exact ⟨set, rfl, by rw [hcount]⟩
  · have hun : set[way].unused = true := by simpa [Line.unused, hvalid'] using hfirst
    have htouch := countP_set_add (p := Line.unused) hlt { set[way] with usedByDemand := true }
    have hused : Line.unused { set[way] with usedByDemand := true } = false := by
      simp [Line.unused]
    rw [hused, hun, if_pos rfl, if_neg Bool.false_ne_true] at htouch
    refine ⟨_, rfl, ?_⟩
    dsimp only at htouch ⊢
    omega
  · exact ⟨set, rfl, by rw [hcount]⟩

/-- A request moves lines from the unused to the useful ones. -/
theorem request_fates (c : Cache P) (addr : BitVec 32) (t : ℕ) (pf : Bool) :
    (c.request addr t pf).2.counters.usefulPrefetch + (c.request addr t pf).2.unusedLines
      = c.counters.usefulPrefetch + c.unusedLines := by
  have hcount : (c.countRequest pf).counters.usefulPrefetch + (c.countRequest pf).unusedLines
      = c.counters.usefulPrefetch + c.unusedLines := by
    cases pf <;> rfl
  rw [← hcount]
  unfold request
  dsimp only
  generalize c.countRequest pf = c'
  split
  · next way hway =>
    obtain ⟨set, hsets, huseful⟩ := hitWay_sets hway t pf
    have hmask := (hitWay_same c' addr way t pf).indexMask
    have hlines := unusedLines_update hmask hsets
    dsimp only
    omega
  · split
    · cases pf <;> rfl
    · unfold missUnknown
      split_ifs <;> rfl

/-- Neither does it touch the other two counters of fates, nor the history. -/
theorem request_fills (c : Cache P) (addr : BitVec 32) (t : ℕ) (pf : Bool) :
    (c.request addr t pf).2.counters.prefetchFill = c.counters.prefetchFill ∧
      (c.request addr t pf).2.counters.uselessPrefetch = c.counters.uselessPrefetch := by
  obtain ⟨u, d, l, hk⟩ := request_counters c addr t pf
  rw [hk]
  generalize (c.request addr t pf).1.status = s
  cases s <;> cases pf <;> exact ⟨rfl, rfl⟩

/-- A fill sets the flags of its victim. -/
theorem fillBlock_flags (c : Cache P) (b : BitVec 32) (t : ℕ) (pf dw : Bool) :
    ((c.fillBlock b t pf dw).sets (c.index b)).map Line.flags
      = ((c.sets (c.index b)).map Line.flags).set (c.victim b) (true, pf, dw || !pf) := by
  simp only [fillBlock, Function.update_self]
  apply applyLineViews_install_flags fun l => rfl
  rw [c.replacementPolicy.onCacheFill_key, map_key_install, buildLineViews_key]

/-- The line that a fill of block `b` overwrites. -/
def victimLine (c : Cache P) (b : BitVec 32) : Line :=
  (c.sets (c.index b)).getD (c.victim b) {}

theorem fillBlock_useless (c : Cache P) (b : BitVec 32) (t : ℕ) (pf dw : Bool) :
    (c.fillBlock b t pf dw).counters.uselessPrefetch
      = c.counters.uselessPrefetch + if (c.victimLine b).unused then 1 else 0 := by
  have hif : (c.fillBlock b t pf dw).counters.uselessPrefetch
      = if (c.victimLine b).unused then c.counters.uselessPrefetch + 1
        else c.counters.uselessPrefetch := rfl
  rw [hif]
  split_ifs <;> rfl

theorem fillBlock_prefetchFill (c : Cache P) (b : BitVec 32) (t : ℕ) (pf dw : Bool) :
    (c.fillBlock b t pf dw).counters.prefetchFill
      = c.counters.prefetchFill + if pf then 1 else 0 := by
  cases pf <;> rfl

theorem fillBlock_waitedFills (c : Cache P) (b : BitVec 32) (t : ℕ) (pf dw : Bool) :
    (c.fillBlock b t pf dw).waitedFills
      = c.waitedFills + if pf && dw then 1 else 0 := by
  rw [waitedFills, fillBlock_history, List.countP_append, List.countP_singleton, waitedFills]
  rfl

/-- The victim is no longer among the unused lines; the filled line is, if it was
prefetched and no demand access waited for it. -/
theorem fillBlock_unusedLines {c : Cache P} {b : BitVec 32} (hways : c.sets (c.index b) ≠ [])
    (t : ℕ) (pf dw : Bool) :
    (c.fillBlock b t pf dw).unusedLines + (if (c.victimLine b).unused then 1 else 0)
      = c.unusedLines + if pf && !dw then 1 else 0 := by
  have hlt := victim_lt hways
  have hsets : (c.fillBlock b t pf dw).sets
      = Function.update c.sets (c.index b) ((c.fillBlock b t pf dw).sets (c.index b)) := by
    simp only [fillBlock, Function.update_self]
  have hmask : (c.fillBlock b t pf dw).indexMask = c.indexMask := rfl
  have hlines := unusedLines_update hmask hsets
  have hlt' : c.victim b < ((c.sets (c.index b)).map Line.flags).length := by simpa using hlt
  have hcount := countP_set_add (p := unusedFlags) hlt' (true, pf, dw || !pf)
  have hold : unusedFlags ((c.sets (c.index b)).map Line.flags)[c.victim b]
      = (c.victimLine b).unused := by
    rw [List.getElem_map, victimLine, List.getD_eq_getElem _ _ hlt]
    rfl
  have hnew : unusedFlags (true, pf, dw || !pf) = (pf && !dw) := by
    cases pf <;> cases dw <;> rfl
  rw [← fillBlock_flags c b t, ← countP_unused, ← countP_unused, hold, hnew] at hcount
  omega

/-- **What a fill does to the fates**: the victim may become useless, and a
prefetch that fills is either waited for or a new unused line. -/
theorem fillBlock_fates {c : Cache P} {b : BitVec 32} (hways : c.sets (c.index b) ≠ [])
    (t : ℕ) (pf dw : Bool) :
    (c.fillBlock b t pf dw).counters.uselessPrefetch + (c.fillBlock b t pf dw).waitedFills
        + (c.fillBlock b t pf dw).unusedLines + c.counters.prefetchFill
      = c.counters.uselessPrefetch + c.waitedFills + c.unusedLines
        + (c.fillBlock b t pf dw).counters.prefetchFill := by
  have hlines := fillBlock_unusedLines hways t pf dw
  have hkinds : (if pf && dw then 1 else 0) + (if pf && !dw then 1 else 0)
      = if pf then 1 else 0 := by
    cases pf <;> cases dw <;> rfl
  rw [fillBlock_useless, fillBlock_waitedFills, fillBlock_prefetchFill]
  omega

/-! ### Prefetches in flight -/

theorem request_inflightPrefetches (c : Cache P) (addr : BitVec 32) (t : ℕ) (pf : Bool) :
    (c.request addr t pf).2.inflightPrefetches = c.inflightPrefetches := by
  have hcount : (c.countRequest pf).inflightPrefetches = c.inflightPrefetches := by
    cases pf <;> rfl
  rw [← hcount]
  unfold request
  dsimp only
  generalize c.countRequest pf = c'
  split
  · unfold hitWay
    dsimp only
    split_ifs <;> rfl
  · split
    · next req hreq =>
      cases pf with
      | true => rfl
      | false =>
        -- a merge leaves the entry a prefetch if it was one
        have hrep := countValues_replace InflightRequest.isPrefetch
          { req with hasDemandWaiter := true } hreq
        exact Nat.add_right_cancel hrep
    · unfold missUnknown
      split_ifs <;> rfl

variable {l1 llc l1' llc' : Cache P} {addr : BitVec 32} {t lat f : ℕ}

theorem Accepts.inflightPrefetches {c : Cache P} (h : c.Accepts addr) (t f : ℕ) (pf : Bool) :
    ((c.request addr t pf).2.scheduleFill addr f pf).inflightPrefetches
      = c.inflightPrefetches + if pf then 1 else 0 := by
  have hidle := (h.request t pf).idle
  rw [scheduleFill_new hidle, ← request_inflightPrefetches c addr t pf]
  exact countValues_insert _ (ready_eq_none_iff.mp hidle)

theorem Accepts.waitedFills {c : Cache P} (h : c.Accepts addr) (t f : ℕ) (pf : Bool) :
    ((c.request addr t pf).2.scheduleFill addr f pf).waitedFills = c.waitedFills := by
  rw [Cache.waitedFills, h.history, List.countP_append]
  rfl

theorem Accepts.unusedLines {c : Cache P} (h : c.Accepts addr) (t f : ℕ) (pf : Bool) :
    ((c.request addr t pf).2.scheduleFill addr f pf).unusedLines
      = (c.request addr t pf).2.unusedLines := by
  rw [scheduleFill_new (h.request t pf).idle]
  rfl

end Cache

/-! ### The balance of one cache -/

/-- Each answer counts its access once. -/
theorem CacheCounters.count_accesses {k : CacheCounters}
    (h : k.access = k.hit + k.missNew + k.missMerged + k.missBlocked) (pf : Bool)
    (s : AccessStatus) :
    (k.count pf s).access
      = (k.count pf s).hit + (k.count pf s).missNew + (k.count pf s).missMerged
        + (k.count pf s).missBlocked := by
  cases s <;> cases pf <;> simp only [count, if_true, Bool.false_eq_true, if_false] <;> omega

/-- The prefetches that a cache answered itself. -/
def CacheCounters.answered (k : CacheCounters) : ℕ :=
  k.prefetchHit + k.prefetchFilteredInflight + k.prefetchDropped

/-- Each answer counts its prefetch once, but for a new miss. -/
theorem CacheCounters.count_prefetches (k : CacheCounters) (pf : Bool) (s : AccessStatus) :
    (k.count pf s).prefetch + k.answered
      = k.prefetch + (k.count pf s).answered
        + if pf = true ∧ s = .missNew then 1 else 0 := by
  cases s <;> cases pf <;>
    simp only [count, answered, if_true, Bool.false_eq_true, if_false, reduceCtorEq, and_self,
      and_false, false_and] <;> omega

namespace Cache

/-- The counters of a cache add up: accesses by their answers, prefetches by
their answers and progress, and filled prefetches by their fates. -/
structure Balanced (c : Cache P) : Prop where
  accesses : c.counters.access
    = c.counters.hit + c.counters.missNew + c.counters.missMerged + c.counters.missBlocked
  prefetches : c.counters.prefetch
    = c.counters.prefetchHit + c.counters.prefetchFilteredInflight
      + c.counters.prefetchDropped + c.counters.prefetchFill + c.inflightPrefetches
  fates : c.counters.prefetchFill
    = c.counters.usefulPrefetch + c.counters.uselessPrefetch + c.waitedFills + c.unusedLines

variable {l1 llc l1' llc' : Cache P} {addr : BitVec 32} {t lat f : ℕ}

/-- What a request does to the balance: a prefetch that is a new miss is the one
thing not yet accounted for. -/
theorem Balanced.request_parts {c : Cache P} (h : c.Balanced) (addr : BitVec 32) (t : ℕ)
    (pf : Bool) :
    (c.request addr t pf).2.counters.access
        = (c.request addr t pf).2.counters.hit + (c.request addr t pf).2.counters.missNew
          + (c.request addr t pf).2.counters.missMerged
          + (c.request addr t pf).2.counters.missBlocked ∧
      (c.request addr t pf).2.counters.prefetch
        = (c.request addr t pf).2.counters.prefetchHit
          + (c.request addr t pf).2.counters.prefetchFilteredInflight
          + (c.request addr t pf).2.counters.prefetchDropped
          + (c.request addr t pf).2.counters.prefetchFill + c.inflightPrefetches
          + (if pf = true ∧ (c.request addr t pf).1.status = .missNew then 1 else 0) ∧
      (c.request addr t pf).2.counters.prefetchFill
        = (c.request addr t pf).2.counters.usefulPrefetch
          + (c.request addr t pf).2.counters.uselessPrefetch + c.waitedFills
          + (c.request addr t pf).2.unusedLines := by
  obtain ⟨hfill, huseless⟩ := request_fills c addr t pf
  -- demands, prefetches and the fates of what was prefetched have each their own count
  refine ⟨?_, ?_, ?_⟩
  · obtain ⟨u, d, l, hk⟩ := request_counters c addr t pf
    rw [hk]
    exact CacheCounters.count_accesses h.accesses pf _
  · obtain ⟨u, d, l, hk⟩ := request_counters c addr t pf
    have hprefetch := h.prefetches
    have hcount := c.counters.count_prefetches pf (c.request addr t pf).1.status
    rw [hfill, hk]
    simp only [CacheCounters.answered] at hcount ⊢
    omega
  · have hfates := request_fates c addr t pf
    have hbalance := h.fates
    omega

/-- A request after which no fill is scheduled. -/
theorem Balanced.request {c : Cache P} (h : c.Balanced) {pf : Bool}
    (hs : pf = true → (c.request addr t pf).1.status ≠ .missNew) :
    (c.request addr t pf).2.Balanced := by
  obtain ⟨haccess, hprefetch, hfates⟩ := h.request_parts addr t pf
  have hwaited : (c.request addr t pf).2.waitedFills = c.waitedFills := by
    rw [waitedFills, (request_spec c addr t pf).1.history, waitedFills]
  refine ⟨haccess, ?_, ?_⟩
  · rw [if_neg fun h => hs h.1 h.2, Nat.add_zero] at hprefetch
    rw [request_inflightPrefetches]
    exact hprefetch
  · rw [hwaited]
    exact hfates

/-- An accepted request and its fill. -/
theorem Balanced.fill {c : Cache P} (h : c.Balanced) (hacc : c.Accepts addr) {pf : Bool}
    (hnew : (c.request addr t pf).1.status = .missNew) (f : ℕ) :
    ((c.request addr t pf).2.scheduleFill addr f pf).Balanced := by
  obtain ⟨haccess, hprefetch, hfates⟩ := h.request_parts addr t pf
  constructor
  · rw [scheduleFill_counters]
    exact haccess
  · rw [scheduleFill_counters, hacc.inflightPrefetches]
    simp only [hnew, and_true] at hprefetch
    rw [hprefetch]
    omega
  · rw [scheduleFill_counters, hacc.waitedFills, hacc.unusedLines]
    exact hfates

/-- The invariant behind the balance: there is always a line to fill. -/
structure Ledger (c : Cache P) : Prop extends Balanced c where
  ways : ∀ i, c.sets i ≠ []

theorem Ledger.request {c : Cache P} (h : c.Ledger) {pf : Bool}
    (hs : pf = true → (c.request addr t pf).1.status ≠ .missNew) :
    (c.request addr t pf).2.Ledger where
  toBalanced := h.toBalanced.request hs
  ways := ways_of_keys (request_spec c addr t pf).1.keys h.ways

theorem Ledger.fill {c : Cache P} (h : c.Ledger) (hacc : c.Accepts addr) {pf : Bool}
    (hnew : (c.request addr t pf).1.status = .missNew) (f : ℕ) :
    ((c.request addr t pf).2.scheduleFill addr f pf).Ledger where
  toBalanced := h.toBalanced.fill hacc hnew f
  ways := ways_of_keys (scheduleFill_keys _ addr f pf)
    (ways_of_keys (request_spec c addr t pf).1.keys h.ways)

theorem returnBlock_of_lookup {c : Cache P} {b : BitVec 32} {req : InflightRequest}
    (h : c.inflight.lookup b = some req) (t : ℕ) :
    returnBlock t c b
      = { c.fillBlock b t req.isPrefetch req.hasDemandWaiter with
          inflight := c.inflight.erase b } := by
  simp [returnBlock, h, fillBlock_inflight]

/-- A prefetch in flight that returns becomes a filled one. -/
theorem returnBlock_prefetches (t : ℕ) (c : Cache P) (b : BitVec 32) :
    (returnBlock t c b).counters.prefetchFill + (returnBlock t c b).inflightPrefetches
      = c.counters.prefetchFill + c.inflightPrefetches := by
  rcases e : c.inflight.lookup b with - | req
  · rw [returnBlock_of_notMem (AList.lookup_eq_none.mp e)]
  have hfill := fillBlock_prefetchFill c b t req.isPrefetch req.hasDemandWaiter
  have herase := countValues_erase InflightRequest.isPrefetch e
  rw [returnBlock_of_lookup e]
  simp only [inflightPrefetches] at herase ⊢
  omega

/-- A return changes the fates as its fill does. -/
theorem returnBlock_fates {c : Cache P} (hways : ∀ i, c.sets i ≠ []) (t : ℕ) (b : BitVec 32) :
    (returnBlock t c b).counters.uselessPrefetch + (returnBlock t c b).waitedFills
        + (returnBlock t c b).unusedLines + c.counters.prefetchFill
      = c.counters.uselessPrefetch + c.waitedFills + c.unusedLines
        + (returnBlock t c b).counters.prefetchFill := by
  rcases e : c.inflight.lookup b with - | req
  · rw [returnBlock_of_notMem (AList.lookup_eq_none.mp e)]
  rw [returnBlock_of_lookup e]
  exact fillBlock_fates (hways (c.index b)) t req.isPrefetch req.hasDemandWaiter

/-- **One return** keeps the balance. -/
theorem Balanced.returnBlock {c : Cache P} (h : c.Balanced) (hways : ∀ i, c.sets i ≠ [])
    (t : ℕ) (b : BitVec 32) : (returnBlock t c b).Balanced := by
  have hprefetches := returnBlock_prefetches t c b
  have hfates := returnBlock_fates hways t b
  have hprefetch := h.prefetches
  have hbalance := h.fates
  obtain ⟨u, p, hk⟩ := returnBlock_counters t c b
  refine ⟨?_, ?_, ?_⟩
  · rw [hk]
    exact h.accesses
  · simp only [hk] at hprefetches ⊢
    omega
  · simp only [hk] at hfates ⊢
    omega

/-- **The returns of a cycle** keep the ledger. -/
theorem Ledger.processReturns {c : Cache P} (h : c.Ledger) (t : ℕ) (table : TableOrder) :
    (c.processReturns t table).Ledger := by
  rw [Cache.processReturns]
  generalize table.order (c.completedBlocks t) = blocks
  induction blocks generalizing c with
  | nil => exact h
  | cons b blocks ih =>
    exact ih ⟨h.toBalanced.returnBlock h.ways t b, returnBlock_ways h.ways⟩

/-! ### The ledgers of the subsystem -/

theorem LlcOutcome.ledger {pf : Bool} {s : AccessStatus}
    (h : llc.LlcOutcome addr t pf s f llc') (hs : (llc.request addr t pf).1.status = s)
    (hl : llc.Ledger) : llc'.Ledger := by
  cases h with
  | hit resident => exact hl.request fun _ => by simp [hs]
  | merged f absent pending => exact hl.request fun _ => by simp [hs]
  | new absent idle room => exact hl.fill ⟨absent, idle, room⟩ hs _

theorem AccessOutcome.ledger {r : HierarchyAccessResult}
    (h : AccessOutcome l1 llc addr t lat r l1' llc') (h1 : l1.Ledger)
    (h2 : llc.Ledger) : l1'.Ledger ∧ llc'.Ledger := by
  have hl1 : (l1.request addr t false).2.Ledger := h1.request (by simp)
  apply h.rule
  · exact ⟨hl1, h2⟩
  · intro _ _
    exact ⟨hl1, h2.request (by simp)⟩
  · intro accepts status s f c' llcStatus answer
    exact ⟨h1.fill accepts status _, answer.ledger llcStatus h2⟩

/-- A prefetch that the last level refuses would be lost to the first level. -/
theorem PrefetchOutcome.ledger (h : PrefetchOutcome l1 llc addr t l1' llc')
    (hllc : l1.Accepts addr → ¬ llc.Refuses addr) (h1 : l1.Ledger) (h2 : llc.Ledger) :
    l1'.Ledger ∧ llc'.Ledger := by
  apply h.rule
  · intro status
    exact ⟨h1.request fun _ => status, h2⟩
  · intro accepts refuses
    exact absurd refuses (hllc accepts)
  · intro accepts status s f c' llcStatus answer
    exact ⟨h1.fill accepts status f, answer.ledger llcStatus h2⟩

theorem Ledger.of_prefetcher {c : Cache P} (h : c.Ledger) (p : P) :
    Ledger { c with prefetcher := p } :=
  ⟨⟨h.accesses, h.prefetches, h.fates⟩, h.ways⟩

theorem ledger_build {cfg : CacheConfig P} (h : 0 < cfg.assoc.toNat) : cfg.build.Ledger where
  accesses := rfl
  prefetches := rfl
  fates := by
    have hnone : cfg.build.unusedLines = 0 := by
      simp [unusedLines, CacheConfig.build, Cache.new, Line.unused]
    rw [hnone]
    rfl
  ways i := by
    simp only [CacheConfig.build, Cache.new, ne_eq, List.replicate_eq_nil_iff]
    omega

end Cache

/-- Every cache of the configuration has a way. -/
structure MemConfig.HasWays (cfg : MemConfig P) : Prop where
  icache : 0 < cfg.icache.assoc.toNat
  dcache : 0 < cfg.dcache.assoc.toNat
  llc : 0 < cfg.llc.assoc.toNat

namespace MemSubsystem

/-- The invariant: nothing is refused by the last level, and every cache keeps
its ledger. -/
structure Ledgers (last : Option ℕ) (m : MemSubsystem P) : Prop where
  unrefused : m.Unrefused last
  l1 : ∀ x, (m.l1 x).Ledger
  llc : m.llc.Ledger

theorem Ledgers.putCaches {m : MemSubsystem P} {last : Option ℕ} (h : m.Ledgers last)
    (x : L1) {l1' llc' : Cache P} (hu : (m.putCaches x l1' llc').Unrefused last)
    (hc : l1'.Ledger ∧ llc'.Ledger) : (m.putCaches x l1' llc').Ledgers last where
  unrefused := hu
  l1 := forall_putCaches (J := fun _ c => c.Ledger) h.l1 hc.1 llc'
  llc := by
    rw [putCaches_llc]
    exact hc.2

theorem ledgers_runInvariant : RunInvariant (P := P) fun last m => m.Ledgers last where
  quiet {last m m'} hs h :=
    { unrefused := unrefused_runInvariant.quiet hs h.unrefused
      l1 := fun x => by
        obtain ⟨p, hp⟩ := hs.l1 x
        rw [hp]
        exact (h.l1 x).of_prefetcher p
      llc := hs.llc ▸ h.llc }
  access {t m} x addr r l1' llc' hout h :=
    h.putCaches x (h.unrefused.access x hout) (hout.ledger (h.l1 x) h.llc)
  prefetch {t m} x addr l1' llc' hout h :=
    h.putCaches x (h.unrefused.prefetch x hout)
      (hout.ledger (fun hacc => h.unrefused.not_refuses hacc) (h.l1 x) h.llc)
  returns {last m} t i d l hle h :=
    { unrefused := unrefused_runInvariant.returns t i d l hle h.unrefused
      l1 := fun x => by
        rw [processReturns_l1]
        exact (h.l1 x).processReturns t _
      llc := h.llc.processReturns t l }

theorem ledgers_new {cfg : MemConfig P} (hb : cfg.Backed) (hw : cfg.HasWays) :
    (new cfg).Ledgers none where
  unrefused := unrefused_new hb
  l1 x := by
    cases x
    · exact Cache.ledger_build hw.icache
    · exact Cache.ledger_build hw.dcache
  llc := Cache.ledger_build hw.llc

variable [CachePrefetcher P]

/-- **The counters of all caches add up** in every reachable subsystem: each
access has one answer, each prefetch one answer or progress, and each filled
prefetch one fate. -/
theorem counters_balanced {cfg : MemConfig P} (hb : cfg.Backed) (hw : cfg.HasWays)
    {last : Option ℕ} {m : MemSubsystem P} (h : Reachable cfg last m) :
    m.icache.Balanced ∧ m.dcache.Balanced ∧ m.llc.Balanced := by
  have hinv := h.invariant ledgers_runInvariant (ledgers_new hb hw)
  exact ⟨(hinv.l1 .icache).toBalanced, (hinv.l1 .dcache).toBalanced, hinv.llc.toBalanced⟩

/-- The shipped configuration with a next-line prefetcher for the D-cache. -/
def nextLineConfig : MemConfig BuiltinPrefetcher :=
  { shippedMemConfig with
    dcache := { shippedMemConfig.dcache with prefetcher := makePrefetcher .nextLine } }

/-- A load starts the prefetch of the next line, and finds it when it has returned. -/
def prefetchedRun : List MemOp :=
  [.processReturns 0 default default default, .access .dcache 0x1000 0,
    .enqueuePrefetch true 0x80000000 0x1000 false, .servicePrefetchQueues 0,
    .processReturns 135 default default default, .access .dcache 0x1040 135]

theorem counters_balanced_prefetchedRun :
    ∃ m, Reachable nextLineConfig (some 135) m ∧ m.dcache.counters.usefulPrefetch = 1 ∧
      m.icache.Balanced ∧ m.dcache.Balanced ∧ m.llc.Balanced := by
  have hm : Reachable nextLineConfig (some 135)
      ((new nextLineConfig).execs nextLineConfig prefetchedRun) :=
    ⟨prefetchedRun, by simp [prefetchedRun, Disciplined, MemOp.Allowed, MemOp.latest], rfl, rfl⟩
  have hbacked : nextLineConfig.Backed := ⟨rfl, rfl, by decide⟩
  have hways : nextLineConfig.HasWays := ⟨by decide, by decide, by decide⟩
  exact ⟨_, hm, by decide +kernel, counters_balanced hbacked hways hm⟩

end MemSubsystem

end TraceSim
