/-
TraceSim/Mem/Consistency.lean

The invariant of one cache, and that the operations keep it.

`Cache.Consistent c last` says that the tables of `c` make sense when `last` is
the cycle of the latest `process_returns` call (none at the start): no block is
resident twice, none is both resident and in flight, the table of misses is
within its bound, its keys are line addresses, and whatever is in flight is
still to come.  The last clause is about the past: no `schedule_fill` call found
its block in flight.

A request keeps the invariant because it changes no table.  `scheduleFill` keeps
it where the caller has just seen a new miss, and `processReturns` moves it to
the cycle it is called with, in whatever order it meets the requests.
-/
import TraceSim.Lib.Lists
import TraceSim.Mem.CacheTables
import TraceSim.Mem.MemSubsystem

namespace TraceSim

/-! ### Power-of-two geometries -/

/-- A geometry with a power-of-two line size and a power-of-two number of sets,
of at least one way. -/
structure CacheConfig.PowerOfTwo {P : Type} (cfg : CacheConfig P) : Prop where
  lineSize : ∃ k, cfg.lineSize.toNat = 2 ^ k
  numSets : ∃ k, (cfg.size / (cfg.assoc * cfg.lineSize)).toNat = 2 ^ k
  assoc : 0 < cfg.assoc.toNat

/-- Powers of two for size, associativity and line size make such a geometry. -/
theorem CacheConfig.powerOfTwo_of_pow {P : Type} {cfg : CacheConfig P} {s a l : ℕ}
    (hs : cfg.size.toNat = 2 ^ s) (ha : cfg.assoc.toNat = 2 ^ a)
    (hl : cfg.lineSize.toNat = 2 ^ l) (h : a + l ≤ s) : cfg.PowerOfTwo where
  lineSize := ⟨l, hl⟩
  numSets := by
    have hslt : 2 ^ s < 2 ^ 32 := hs ▸ cfg.size.isLt
    have hle : 2 ^ (a + l) ≤ 2 ^ s := Nat.pow_le_pow_right (by decide) h
    refine ⟨s - (a + l), ?_⟩
    rw [BitVec.toNat_udiv, BitVec.toNat_mul, hs, ha, hl, ← Nat.pow_add,
      Nat.mod_eq_of_lt (by omega), Nat.pow_div h (by decide)]
  assoc := ha ▸ Nat.two_pow_pos a

namespace Cache

variable {P : Type}

/-- The masks and shifts of a cache split addresses as intended. -/
structure PowerOfTwo (c : Cache P) : Prop where
  lineSize : c.lineSize.toNat = 2 ^ c.offsetBits
  indexMask : c.indexMask.toNat = 2 ^ c.indexBits - 1

theorem PowerOfTwo.of_shape {c c' : Cache P} (h : c.PowerOfTwo) (hs : SameShape c c') :
    c'.PowerOfTwo where
  lineSize := by rw [hs.lineSize, hs.offsetBits, h.lineSize]
  indexMask := by rw [hs.indexMask, hs.indexBits, h.indexMask]

theorem powerOfTwo_build {cfg : CacheConfig P} (h : cfg.PowerOfTwo) :
    cfg.build.PowerOfTwo := by
  obtain ⟨k, hk⟩ := h.lineSize
  obtain ⟨j, hj⟩ := h.numSets
  constructor
  · simp [CacheConfig.build, Cache.new, getBits, hk]
  · have hbits : getBits (cfg.size / (cfg.assoc * cfg.lineSize)) = j := by
      rw [getBits, hj, Nat.log2_two_pow]
    simp only [CacheConfig.build, Cache.new, hbits]
    exact toNat_sub_one hj

section Split

variable {c : Cache P} (h : c.PowerOfTwo)

include h

/-- Index and tag of an address are those of its block, and determine it. -/
theorem split_iff (a b : BitVec 32) :
    c.index a = c.index b ∧ c.tag a = c.tag b ↔ c.getBlockAddr a = c.getBlockAddr b :=
  split_eq_iff a b h.lineSize h.indexMask

theorem split_blockAddr (a : BitVec 32) :
    c.index (c.getBlockAddr a) = c.index a ∧ c.tag (c.getBlockAddr a) = c.tag a :=
  (split_iff h _ _).mpr (line_line a c.lineSize)

theorem contains_blockAddr (a : BitVec 32) :
    c.contains (c.getBlockAddr a) = c.contains a := by
  obtain ⟨hi, ht⟩ := split_blockAddr h a
  simp [contains, hi, ht]

end Split

/-! ### The invariant -/

/-- Two ways do not hold the same block: not both valid with one tag. -/
def Apart (k k' : Bool × BitVec 32) : Prop := k.1 = true → k'.1 = true → k.2 ≠ k'.2

/-- The part of the invariant that does not depend on the geometry: the table of
misses is bounded, its keys are block addresses, its requests are ready after
`last`, the cycle of the latest `process_returns` call, and no call of
`schedule_fill` met its block there. -/
structure Bounded (c : Cache P) (last : Option ℕ) : Prop where
  capacity : c.inflight.entries.length ≤ c.maxInflight
  aligned : ∀ b ∈ c.inflight, c.getBlockAddr b = b
  pending : ∀ b f, c.ready b = some f → ∀ p ∈ last, p < f
  inserted : ∀ b t pf ins, .scheduled b t pf ins ∈ c.history → ins = true

/-- The invariant of one cache. -/
structure Consistent (c : Cache P) (last : Option ℕ) : Prop extends Bounded c last where
  ways : ∀ i, c.sets i ≠ []
  unique : ∀ i, (c.keys i).Pairwise Apart
  disjoint : ∀ b ∈ c.inflight, c.contains b = false

theorem bounded_build (cfg : CacheConfig P) : cfg.build.Bounded none where
  capacity := by simp [CacheConfig.build, Cache.new]
  aligned b hb := by simp [CacheConfig.build, Cache.new] at hb
  pending b f _ p hp := by simp at hp
  inserted b t pf ins hmem := by simp [CacheConfig.build, Cache.new] at hmem

theorem consistent_build {cfg : CacheConfig P} (h : cfg.PowerOfTwo) :
    cfg.build.Consistent none where
  toBounded := bounded_build cfg
  ways i := by
    have hpos := h.assoc
    simp only [CacheConfig.build, Cache.new, ne_eq, List.replicate_eq_nil_iff]
    omega
  unique i := by
    simp [keys, CacheConfig.build, Cache.new, List.pairwise_replicate, Apart, Line.key]
  disjoint b hb := by simp [CacheConfig.build, Cache.new] at hb

/-- A cache that looks the same is as bounded. -/
theorem Bounded.of_same {c c' : Cache P} {last : Option ℕ} (h : c.Bounded last)
    (hs : Same c c') : c'.Bounded last where
  capacity := by
    rw [hs.size, hs.maxInflight]
    exact h.capacity
  aligned b hb := by
    rw [hs.getBlockAddr]
    exact h.aligned b ((hs.mem_inflight b).mp hb)
  pending b f hf := by
    rw [hs.ready] at hf
    exact h.pending b f hf
  inserted b t pf ins hmem := by
    rw [hs.history] at hmem
    exact h.inserted b t pf ins hmem

/-- A cache that looks the same is as consistent. -/
theorem Consistent.of_same {c c' : Cache P} {last : Option ℕ} (h : c.Consistent last)
    (hs : Same c c') : c'.Consistent last where
  toBounded := h.toBounded.of_same hs
  ways := ways_of_keys hs.keys h.ways
  unique i := by
    rw [hs.keys]
    exact h.unique i
  disjoint b hb := by
    rw [hs.contains]
    exact h.disjoint b ((hs.mem_inflight b).mp hb)

theorem scheduleFill_mem_inflight {c : Cache P} {addr : BitVec 32}
    (idle : c.ready (c.getBlockAddr addr) = none) (t : ℕ) (isPrefetch : Bool)
    {b : BitVec 32} :
    b ∈ (c.scheduleFill addr t isPrefetch).inflight ↔
      b = c.getBlockAddr addr ∨ b ∈ c.inflight := by
  rw [scheduleFill_new idle]
  exact AList.mem_insert _

/-- **A fill scheduled after a new miss** keeps the table bounded, if it is ready
after the cycle of the latest returns. -/
theorem Bounded.scheduleFill {c : Cache P} {last : Option ℕ} (h : c.Bounded last)
    {addr : BitVec 32} (idle : c.ready (c.getBlockAddr addr) = none)
    (room : c.inflight.entries.length < c.maxInflight) {t : ℕ}
    (later : ∀ p ∈ last, p < t) (isPrefetch : Bool) :
    (c.scheduleFill addr t isPrefetch).Bounded last := by
  have hshape := scheduleFill_shape c addr t isPrefetch
  -- the room, the alignment, the deadlines, and the log of what was inserted
  refine ⟨?_, fun b hb => ?_, fun b f hf => ?_, ?_⟩
  · rw [hshape.maxInflight, scheduleFill_new idle]
    have hlen := length_insert_of_notMem
      (v := (⟨c.getBlockAddr addr, t, isPrefetch, !isPrefetch⟩ : InflightRequest))
      (ready_eq_none_iff.mp idle)
    simp only [hlen]
    omega
  · rw [hshape.getBlockAddr]
    rcases (scheduleFill_mem_inflight idle t isPrefetch).mp hb with rfl | hb
    · exact line_line addr c.lineSize
    · exact h.aligned b hb
  · rw [scheduleFill_ready idle] at hf
    by_cases hb : b = c.getBlockAddr addr
    · rw [if_pos hb, Option.some.injEq] at hf
      exact hf ▸ later
    · rw [if_neg hb] at hf
      exact h.pending b f hf
  · intro b t' pf ins hev
    rw [scheduleFill_new idle] at hev
    rcases List.mem_append.mp hev with hev | hev
    · exact h.inserted b t' pf ins hev
    · simp only [List.mem_singleton, FillEvent.scheduled.injEq] at hev
      exact hev.2.2.2

theorem Consistent.scheduleFill {c : Cache P} {last : Option ℕ} (h : c.Consistent last)
    (hp : c.PowerOfTwo) {addr : BitVec 32} (absent : c.contains addr = false)
    (idle : c.ready (c.getBlockAddr addr) = none)
    (room : c.inflight.entries.length < c.maxInflight) {t : ℕ}
    (later : ∀ p ∈ last, p < t) (isPrefetch : Bool) :
    (c.scheduleFill addr t isPrefetch).Consistent last where
  toBounded := h.toBounded.scheduleFill idle room later isPrefetch
  ways := by
    rw [scheduleFill_new idle]
    exact h.ways
  unique i := by
    rw [scheduleFill_keys]
    exact h.unique i
  disjoint b hb := by
    rw [scheduleFill_contains]
    rcases (scheduleFill_mem_inflight idle t isPrefetch).mp hb with rfl | hb
    · rw [contains_blockAddr hp, absent]
    · exact h.disjoint b hb

/-! ### Returns -/

theorem returnBlock_shape (t : ℕ) (c : Cache P) (b : BitVec 32) :
    SameShape c (returnBlock t c b) := by
  unfold returnBlock
  split
  · exact SameShape.refl c
  · exact ⟨rfl, rfl, rfl, rfl, rfl, rfl⟩

theorem returnBlock_hooks (t : ℕ) (c : Cache P) (b : BitVec 32) :
    (returnBlock t c b).replacementPolicy = c.replacementPolicy ∧
      (returnBlock t c b).prefetcher = c.prefetcher := by
  unfold returnBlock
  split <;> exact ⟨rfl, rfl⟩

/-- The block that returns leaves the table; the others keep their times. -/
theorem returnBlock_ready (t : ℕ) (c : Cache P) (b b' : BitVec 32) :
    (returnBlock t c b).ready b' = if b' = b then none else c.ready b' := by
  unfold returnBlock
  rcases e : c.inflight.lookup b with - | req
  · by_cases hb : b' = b
    · subst hb
      simp [ready, e]
    · simp [hb]
  · by_cases hb : b' = b
    · subst hb
      simp [ready]
    · simp [ready, hb, fillBlock_inflight]

/-- What a return does to a set: nothing, or the victim of the block is
overwritten. -/
theorem returnBlock_keys {t : ℕ} {c : Cache P} {b : BitVec 32} (hb : b ∈ c.inflight)
    (i : BitVec 32) :
    (returnBlock t c b).keys i
      = if i = c.index b then (c.keys i).set (c.victim b) (true, c.tag b)
        else c.keys i := by
  obtain ⟨req, hreq⟩ := Option.isSome_iff_exists.mp (AList.lookup_isSome.mpr hb)
  have heq : (returnBlock t c b).keys i
      = (c.fillBlock b t req.isPrefetch req.hasDemandWaiter).keys i := by
    simp [returnBlock, hreq, keys]
  exact heq.trans (fillBlock_keys c b t req.isPrefetch req.hasDemandWaiter i)

/-- A return of a block in flight records one fill of it. -/
theorem returnBlock_history {t : ℕ} {c : Cache P} {b : BitVec 32} (hb : b ∈ c.inflight) :
    ∃ pf dw, (returnBlock t c b).history = c.history ++ [.filled b t pf dw] := by
  obtain ⟨req, hreq⟩ := Option.isSome_iff_exists.mp (AList.lookup_isSome.mpr hb)
  exact ⟨req.isPrefetch, req.hasDemandWaiter, by simp [returnBlock, hreq, fillBlock_history]⟩

theorem returnBlock_of_notMem {t : ℕ} {c : Cache P} {b : BitVec 32}
    (hb : b ∉ c.inflight) : returnBlock t c b = c := by
  simp [returnBlock, AList.lookup_eq_none.mpr hb]

/-- After the return the block is resident. -/
theorem returnBlock_ways {t : ℕ} {c : Cache P} {b : BitVec 32} (h : ∀ i, c.sets i ≠ [])
    (i : BitVec 32) : (Cache.returnBlock t c b).sets i ≠ [] := by
  by_cases hb : b ∈ c.inflight
  · intro hi
    have hk := returnBlock_keys (t := t) hb i
    rw [keys, hi, List.map_nil] at hk
    split_ifs at hk
    · exact h i (by simpa [keys] using hk.symm)
    · exact h i (by simpa [keys] using hk.symm)
  · rw [returnBlock_of_notMem hb]
    exact h i

theorem returnBlock_contains {t : ℕ} {c : Cache P} {b : BitVec 32} (hb : b ∈ c.inflight)
    (hways : c.sets (c.index b) ≠ []) : (returnBlock t c b).contains b = true := by
  have hshape := returnBlock_shape t c b
  rw [contains_iff, hshape.index, hshape.tag, returnBlock_keys hb, if_pos rfl]
  have hlt : c.victim b < (c.keys (c.index b)).length := by
    simpa [keys] using victim_lt hways
  exact List.mem_set hlt _

/-- A block that is resident after the return was so before, or has returned. -/
theorem contains_of_returnBlock {t : ℕ} {c : Cache P} (hp : c.PowerOfTwo)
    {b b' : BitVec 32} (hb : b ∈ c.inflight)
    (h : (returnBlock t c b).contains b' = true) :
    c.contains b' = true ∨ c.getBlockAddr b' = c.getBlockAddr b := by
  have hshape := returnBlock_shape t c b
  rw [contains_iff, hshape.index, hshape.tag, returnBlock_keys hb] at h
  rw [contains_iff]
  split_ifs at h with hi
  · rcases List.mem_or_eq_of_mem_set h with hmem | heq
    · exact Or.inl hmem
    -- the key was written by this return, and keys determine blocks
    · exact Or.inr ((split_iff hp b' b).mp ⟨hi, (Prod.mk.injEq .. ▸ heq).2⟩)
  · exact Or.inl h

/-- What is in flight after a return: all but the returned block. -/
theorem returnBlock_mem_inflight {t : ℕ} {c : Cache P} {b b' : BitVec 32} :
    b' ∈ (returnBlock t c b).inflight ↔ b' ≠ b ∧ b' ∈ c.inflight := by
  rw [mem_inflight_iff, mem_inflight_iff]
  simp only [returnBlock_ready]
  by_cases hb : b' = b
  · simp [hb]
  · simp [hb]

theorem Bounded.returnBlock {c : Cache P} {last : Option ℕ} (h : c.Bounded last) (t : ℕ)
    (b : BitVec 32) : (returnBlock t c b).Bounded last := by
  by_cases hb : b ∈ c.inflight
  swap
  · rw [returnBlock_of_notMem hb]
    exact h
  have hshape := returnBlock_shape t c b
  refine ⟨?_, fun b' hb' => ?_, fun b' f hf => ?_, fun b' t' pf ins hev => ?_⟩
  · rw [hshape.maxInflight]
    refine le_trans ?_ h.capacity
    obtain ⟨req, hreq⟩ := Option.isSome_iff_exists.mp (AList.lookup_isSome.mpr hb)
    have hlen := length_erase_of_mem hb
    simp only [Cache.returnBlock, hreq, fillBlock_inflight]
    omega
  · rw [hshape.getBlockAddr]
    exact h.aligned b' (returnBlock_mem_inflight.mp hb').2
  · rw [returnBlock_ready] at hf
    split_ifs at hf
    exact h.pending b' f hf
  · obtain ⟨pf', dw', hhist⟩ := returnBlock_history (t := t) hb
    rw [hhist] at hev
    rcases List.mem_append.mp hev with hev | hev
    · exact h.inserted b' t' pf ins hev
    · simp at hev

/-- **One return** keeps the invariant. -/
theorem Consistent.returnBlock {c : Cache P} {last : Option ℕ} (h : c.Consistent last)
    (hp : c.PowerOfTwo) (t : ℕ) (b : BitVec 32) :
    (returnBlock t c b).Consistent last := by
  by_cases hb : b ∈ c.inflight
  swap
  · rw [returnBlock_of_notMem hb]
    exact h
  refine ⟨h.toBounded.returnBlock t b, returnBlock_ways h.ways, fun i => ?_, fun b' hb' => ?_⟩
  · rw [returnBlock_keys hb]
    split_ifs with hi
    · -- the block was in flight, so no way of its set holds it
      refine pairwise_set ?_ (h.unique i) (fun k hk _ hvalid htag => ?_) _
      · exact fun hxy hy hx heq => hxy hx hy heq.symm
      · have hres : c.contains b = true := by
          rw [contains_iff, ← hi]
          obtain ⟨v, u⟩ := k
          simp only at hvalid htag
          rwa [htag, ← hvalid]
        rw [h.disjoint b hb] at hres
        cases hres
    · exact h.unique i
  · obtain ⟨hne, hmem⟩ := returnBlock_mem_inflight.mp hb'
    rw [← Bool.not_eq_true]
    intro hcon
    -- resident before, or the block that returned: neither is still in flight
    rcases contains_of_returnBlock hp hb hcon with hcon | hcon
    · rw [h.disjoint b' hmem] at hcon
      cases hcon
    · rw [h.aligned b' hmem, h.aligned b hb] at hcon
      exact hne hcon

/-! ### The whole call -/

theorem foldl_returnBlock_shape (t : ℕ) (blocks : List (BitVec 32)) (c : Cache P) :
    SameShape c (blocks.foldl (Cache.returnBlock t) c) := by
  induction blocks generalizing c with
  | nil => exact SameShape.refl c
  | cons b blocks ih => exact (returnBlock_shape t c b).trans (ih _)

theorem foldl_returnBlock_ready (t : ℕ) (blocks : List (BitVec 32)) (c : Cache P)
    (b : BitVec 32) :
    (blocks.foldl (Cache.returnBlock t) c).ready b
      = if b ∈ blocks then none else c.ready b := by
  induction blocks generalizing c with
  | nil => simp
  | cons b' blocks ih =>
    rw [List.foldl_cons, ih, returnBlock_ready]
    by_cases hb : b = b'
    · simp [hb]
    · simp [hb]

theorem Bounded.foldl_returnBlock {c : Cache P} {last : Option ℕ} (h : c.Bounded last)
    (t : ℕ) (blocks : List (BitVec 32)) :
    (blocks.foldl (Cache.returnBlock t) c).Bounded last := by
  induction blocks generalizing c with
  | nil => exact h
  | cons b blocks ih => exact ih (h.returnBlock t b)

theorem Consistent.foldl_returnBlock {c : Cache P} {last : Option ℕ}
    (h : c.Consistent last) (hp : c.PowerOfTwo) (t : ℕ) (blocks : List (BitVec 32)) :
    (blocks.foldl (Cache.returnBlock t) c).Consistent last := by
  induction blocks generalizing c with
  | nil => exact h
  | cons b blocks ih =>
    exact ih (h.returnBlock hp t b) (hp.of_shape (returnBlock_shape t c b))

/-- The blocks `process_returns` completes are those whose time has come. -/
theorem mem_completedBlocks {c : Cache P} {t : ℕ} {b : BitVec 32} :
    b ∈ c.completedBlocks t ↔ ∃ f, c.ready b = some f ∧ f ≤ t := by
  have h := mem_selected_keys (p := fun req : InflightRequest => req.readyCycle ≤ t)
    (s := c.inflight) (a := b)
  rw [completedBlocks, h, ready]
  cases c.inflight.lookup b <;> simp

theorem mem_order {c : Cache P} {t : ℕ} (table : TableOrder) {b : BitVec 32} :
    b ∈ table.order (c.completedBlocks t) ↔ ∃ f, c.ready b = some f ∧ f ≤ t := by
  rw [(table.perm _).mem_iff, mem_completedBlocks]

theorem processReturns_shape (c : Cache P) (t : ℕ) (table : TableOrder) :
    SameShape c (c.processReturns t table) :=
  foldl_returnBlock_shape t _ c

/-- **What is in flight after the returns**: what was in flight and is not yet
ready. -/
theorem processReturns_ready (c : Cache P) (t : ℕ) (table : TableOrder) (b : BitVec 32) :
    (c.processReturns t table).ready b = (c.ready b).filter fun f => decide (t < f) := by
  rw [processReturns, foldl_returnBlock_ready]
  rcases e : c.ready b with - | f
  · simp
  · by_cases hf : f ≤ t
    · rw [if_pos ((mem_order table).mpr ⟨f, e, hf⟩)]
      have hnot : ¬ t < f := by omega
      simp only [Option.filter_some, hnot, decide_false, Bool.false_eq_true, if_false]
    · rw [if_neg]
      · have hlt : t < f := by omega
        simp only [Option.filter_some, hlt, decide_true, if_true]
      · intro hmem
        obtain ⟨f', hf', hle⟩ := (mem_order table).mp hmem
        rw [e, Option.some.injEq] at hf'
        omega

/-- **The returns of a cycle** move the bound to that cycle. -/
theorem Bounded.processReturns {c : Cache P} {last : Option ℕ} (h : c.Bounded last)
    (t : ℕ) (table : TableOrder) : (c.processReturns t table).Bounded (some t) := by
  have hfold := h.foldl_returnBlock t (table.order (c.completedBlocks t))
  refine ⟨hfold.capacity, hfold.aligned, fun b f hf p hpt => ?_, hfold.inserted⟩
  rw [processReturns_ready] at hf
  obtain ⟨-, hlt⟩ := Option.filter_eq_some_iff.mp hf
  rw [Option.mem_some_iff] at hpt
  simpa [hpt] using hlt

/-- **The returns of a cycle** move the invariant to that cycle. -/
theorem Consistent.processReturns {c : Cache P} {last : Option ℕ} (h : c.Consistent last)
    (hp : c.PowerOfTwo) (t : ℕ) (table : TableOrder) :
    (c.processReturns t table).Consistent (some t) := by
  have hfold := h.foldl_returnBlock hp t (table.order (c.completedBlocks t))
  exact ⟨h.toBounded.processReturns t table, hfold.ways, hfold.unique, hfold.disjoint⟩

end Cache

end TraceSim
