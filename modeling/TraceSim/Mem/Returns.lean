/-
TraceSim/Mem/Returns.lean

A miss is served exactly once, and not early.

From a demand miss on, its block is in flight with one ready time `f`
(`pending_runInvariant`).  While no `process_returns` call has reached `f`,
every access to the block merges into the miss; the first call that reaches `f`
fills the block, once (`miss_served`).
-/
import TraceSim.Mem.Runs

namespace TraceSim

variable {P : Type}

/-- The event is a fill of block `b`. -/
def FillEvent.isFillOf (b : BitVec 32) : FillEvent → Bool
  | .filled b' _ _ _ => b' == b
  | .scheduled _ _ _ _ => false

namespace Cache

/-- The number of times block `b` has been filled. -/
def fills (c : Cache P) (b : BitVec 32) : ℕ := c.history.countP (FillEvent.isFillOf b)

/-! ### Fills by the returns of a cycle -/

theorem returnBlock_fills (t : ℕ) (c : Cache P) (b b' : BitVec 32) :
    (returnBlock t c b).fills b'
      = c.fills b' + if b = b' ∧ b ∈ c.inflight then 1 else 0 := by
  by_cases hb : b ∈ c.inflight
  · obtain ⟨pf, dw, hhist⟩ := returnBlock_history (t := t) hb
    rw [fills, hhist, List.countP_append, fills]
    by_cases heq : b = b'
    · subst heq
      simp [FillEvent.isFillOf, hb]
    · simp [FillEvent.isFillOf, heq]
  · simp [returnBlock_of_notMem hb, hb]

/-- A sequence of returns fills each of its blocks that is in flight once. -/
theorem foldl_returnBlock_fills (t : ℕ) (blocks : List (BitVec 32)) (c : Cache P)
    (b : BitVec 32) :
    (blocks.foldl (returnBlock t) c).fills b
      = c.fills b + if b ∈ blocks ∧ b ∈ c.inflight then 1 else 0 := by
  induction blocks generalizing c with
  | nil => simp
  | cons b' blocks ih =>
    rw [List.foldl_cons, ih, returnBlock_fills, Nat.add_assoc]
    congr 1
    simp only [returnBlock_mem_inflight, List.mem_cons]
    by_cases hb : b = b'
    · subst hb
      simp
    · simp [hb, Ne.symm hb]

theorem processReturns_fills {c : Cache P} {b : BitVec 32} {f : ℕ}
    (hb : c.ready b = some f) (t : ℕ) (table : TableOrder) :
    (c.processReturns t table).fills b = c.fills b + if f ≤ t then 1 else 0 := by
  have hmem : b ∈ table.order (c.completedBlocks t) ↔ f ≤ t := by
    simp [mem_order, hb]
  have hin : b ∈ c.inflight := mem_inflight_iff.mpr ⟨f, hb⟩
  rw [processReturns, foldl_returnBlock_fills]
  simp only [hmem, hin, and_true]

/-- The returns of a cycle free the MSHR of a block that is ready. -/
theorem processReturns_size_lt {c : Cache P} {b : BitVec 32} {f t : ℕ}
    (hb : c.ready b = some f) (hle : f ≤ t) (table : TableOrder) :
    (c.processReturns t table).inflight.entries.length < c.inflight.entries.length := by
  have hgone : b ∉ (c.processReturns t table).inflight := by
    rw [← ready_eq_none_iff, processReturns_ready, hb, Option.filter_some]
    simp [hle]
  have hnodup : (b :: (c.processReturns t table).inflight.keys).Nodup :=
    List.nodup_cons.mpr ⟨hgone, AList.keys_nodup _⟩
  have hsub : b :: (c.processReturns t table).inflight.keys ⊆ c.inflight.keys := by
    intro b' hb'
    rcases List.mem_cons.mp hb' with rfl | hb'
    · exact AList.mem_keys.mpr (mem_inflight_iff.mpr ⟨f, hb⟩)
    -- what is still in flight was in flight
    · obtain ⟨f', hf'⟩ := mem_inflight_iff.mp (AList.mem_keys.mp hb')
      rw [processReturns_ready] at hf'
      exact AList.mem_keys.mpr
        (mem_inflight_iff.mpr ⟨f', (Option.filter_eq_some_iff.mp hf').1⟩)
  have hlen := (List.subperm_of_subset hnodup hsub).length_le
  have hkeys (c : Cache P) : c.inflight.keys.length = c.inflight.entries.length :=
    List.length_map _
  rwa [List.length_cons, hkeys, hkeys] at hlen

/-- The blocks that a call of `process_returns` completes are distinct. -/
theorem nodup_order (c : Cache P) (t : ℕ) (table : TableOrder) :
    (table.order (c.completedBlocks t)).Nodup :=
  (table.perm _).nodup_iff.mpr
    (nodup_selected_keys (fun req : InflightRequest => decide (req.readyCycle ≤ t)) _)

/-- What it means that a `process_returns` call at cycle `t` fills block `b`
once: the block has one turn in the loop and is resident right after it, the
call records one fill of it, and it is no longer in flight. -/
structure FilledOnce (c : Cache P) (t : ℕ) (table : TableOrder) (b : BitVec 32) : Prop where
  turn : ∃ before after, table.order (c.completedBlocks t) = before ++ b :: after ∧
    b ∉ before ∧ b ∉ after ∧
    ((before ++ [b]).foldl (returnBlock t) c).contains b = true
  fills : (c.processReturns t table).fills b = c.fills b + 1
  removed : b ∉ (c.processReturns t table).inflight

/-- **A ready block is filled once** by the returns of a cycle. -/
theorem Consistent.filledOnce {c : Cache P} {last : Option ℕ} (h : c.Consistent last)
    (hp : c.PowerOfTwo) {b : BitVec 32} {f t : ℕ} (hb : c.ready b = some f) (hle : f ≤ t)
    (table : TableOrder) : c.FilledOnce t table b where
  turn := by
    have hmem := (mem_order table).mpr ⟨f, hb, hle⟩
    obtain ⟨before, after, horder⟩ := List.append_of_mem hmem
    -- the keys of a table are distinct, so the block has one turn
    have hnodup := nodup_order c t table
    rw [horder, List.nodup_middle, List.nodup_cons, List.mem_append, not_or] at hnodup
    obtain ⟨⟨hbefore, hafter⟩, -⟩ := hnodup
    refine ⟨before, after, horder, hbefore, hafter, ?_⟩
    rw [List.foldl_append, List.foldl_cons, List.foldl_nil]
    refine returnBlock_contains ?_ ((h.foldl_returnBlock hp t before).ways _)
    rw [mem_inflight_iff, foldl_returnBlock_ready, if_neg hbefore]
    exact ⟨f, hb⟩
  fills := by rw [processReturns_fills hb, if_pos hle]
  removed := by
    rw [← ready_eq_none_iff, processReturns_ready, hb, Option.filter_some]
    simp [hle]

/-! ### A block in flight stays in flight -/

variable {l1 llc l1' llc' : Cache P} {addr b : BitVec 32} {t lat f : ℕ}

/-- An accepted request for another block leaves `b` in flight and unfilled. -/
theorem Accepts.frame {c : Cache P} (h : c.Accepts addr) (hb : c.ready b = some f)
    (t f' : ℕ) (pf : Bool) :
    ((c.request addr t pf).2.scheduleFill addr f' pf).ready b = some f ∧
      ((c.request addr t pf).2.scheduleFill addr f' pf).fills b = c.fills b := by
  constructor
  · rw [h.ready, if_neg, hb]
    rintro rfl
    rw [h.idle] at hb
    cases hb
  · simp [fills, h.history, FillEvent.isFillOf]

theorem request_frame {c : Cache P} (hb : c.ready b = some f) (addr : BitVec 32) (t : ℕ)
    (pf : Bool) :
    (c.request addr t pf).2.ready b = some f ∧
      (c.request addr t pf).2.fills b = c.fills b := by
  have hs := (request_spec c addr t pf).1
  exact ⟨(hs.ready b).trans hb, by rw [fills, fills, hs.history]⟩

theorem AccessOutcome.frame {r : HierarchyAccessResult}
    (h : AccessOutcome l1 llc addr t lat r l1' llc') (hb : l1.ready b = some f) :
    l1'.ready b = some f ∧ l1'.fills b = l1.fills b := by
  have hreq := request_frame hb addr t false
  apply h.rule
  · exact hreq
  · intro _ _
    exact hreq
  · intro accepts _ s f c' _ answer
    exact accepts.frame hb _ _ _

theorem PrefetchOutcome.frame (h : PrefetchOutcome l1 llc addr t l1' llc')
    (hb : l1.ready b = some f) : l1'.ready b = some f ∧ l1'.fills b = l1.fills b := by
  have hreq := request_frame hb addr t true
  apply h.rule
  · intro _
    exact hreq
  · intro _ _
    exact hreq
  · intro accepts _ s f c' _ answer
    exact accepts.frame hb _ _ _

/-- A demand access that is neither blocked nor a hit leaves its block in
flight, to be ready no later than it reports. -/
theorem AccessOutcome.inFlight {r : HierarchyAccessResult}
    (h : AccessOutcome l1 llc addr t lat r l1' llc') (hblocked : r.blocked = false)
    (hmiss : r.l1Status ≠ .hit) :
    ∃ f, l1'.ready (l1.getBlockAddr addr) = some f ∧ f ≤ r.readyCycle := by
  cases h with
  | hit resident status => exact absurd rfl hmiss
  | merged f absent pending status =>
    exact ⟨f, (request_frame pending addr t false).1, le_max_right _ _⟩
  | l1Full refuses status => cases hblocked
  | llcFull accepts refuses status llcStatus => cases hblocked
  | fill accepts status s f llc' llcStatus answer =>
    exact ⟨_, by rw [accepts.ready, if_pos rfl], le_rfl⟩

/-- A demand access to a block in flight merges. -/
theorem AccessOutcome.merges {r : HierarchyAccessResult}
    (h : AccessOutcome l1 llc addr t lat r l1' llc')
    (hb : l1.ready (l1.getBlockAddr addr) = some f) (absent : l1.contains addr = false) :
    r.l1Status = .missMerged ∧ f ≤ r.readyCycle := by
  cases h with
  | hit resident status =>
    rw [absent] at resident
    cases resident
  | merged f' absent pending status =>
    rw [hb, Option.some.injEq] at pending
    exact ⟨rfl, pending ▸ le_max_right _ _⟩
  | l1Full refuses status => cases hb.symm.trans refuses.idle
  | llcFull accepts refuses status llcStatus => cases hb.symm.trans accepts.idle
  | fill accepts status s f llc' llcStatus answer => cases hb.symm.trans accepts.idle

end Cache

/-! ### The miss over a run -/

namespace MemSubsystem

variable {x : L1} {b : BitVec 32} {f n : ℕ}

/-- While no returns have reached `f`, block `b` of the first level `x` is in
flight with ready time `f`, and has been filled `n` times. -/
def Pending (x : L1) (b : BitVec 32) (f n : ℕ) (last : Option ℕ) (m : MemSubsystem P) :
    Prop :=
  (∀ p ∈ last, p < f) → (m.l1 x).ready b = some f ∧ (m.l1 x).fills b = n

/-- A change of one first level that leaves `b` in flight where it was. -/
theorem Pending.putCaches {m : MemSubsystem P} {last : Option ℕ}
    (h : m.Pending x b f n last) (y : L1) {l1' llc' : Cache P}
    (hframe : ∀ f, (m.l1 y).ready b = some f →
      l1'.ready b = some f ∧ l1'.fills b = (m.l1 y).fills b) :
    (m.putCaches y l1' llc').Pending x b f n last := by
  intro hlast
  obtain ⟨hready, hfills⟩ := h hlast
  rw [putCaches_l1]
  split_ifs with hxy
  · subst hxy
    obtain ⟨hready', hfills'⟩ := hframe f hready
    exact ⟨hready', hfills'.trans hfills⟩
  · exact ⟨hready, hfills⟩

theorem pending_runInvariant : RunInvariant (P := P) (Pending x b f n) where
  quiet {last m m'} hs h hlast := by
    have hsame := hs.same x
    obtain ⟨hready, hfills⟩ := h hlast
    refine ⟨(hsame.ready b).trans hready, ?_⟩
    rw [Cache.fills, hsame.history]
    exact hfills
  access {t m} y addr r l1' llc' hout h := h.putCaches y fun _ hb => hout.frame hb
  prefetch {t m} y addr l1' llc' hout h := h.putCaches y fun _ hb => hout.frame hb
  returns {last m} t i d l hle h hlast := by
    -- returns before `f` do not complete the block
    have hlt : t < f := hlast t rfl
    obtain ⟨hready, hfills⟩ := h fun p hp => (hle p hp).trans_lt hlt
    rw [processReturns_l1]
    constructor
    · simp [Cache.processReturns_ready, hready, hlt]
    · rw [Cache.processReturns_fills hready, if_neg (by omega), hfills]
      rfl

end MemSubsystem

theorem mem_of_latestReturns {last : Option ℕ} {ops : List MemOp} {p : ℕ}
    (h : latestReturns last ops = some p) :
    last = some p ∨ ∃ i d l, MemOp.processReturns p i d l ∈ ops := by
  induction ops generalizing last with
  | nil => exact Or.inl h
  | cons op ops ih =>
    rcases ih h with hlast | ⟨i, d, l, hmem⟩
    · cases op with
      | processReturns c i d l =>
        obtain rfl : c = p := Option.some.inj hlast
        exact Or.inr ⟨i, d, l, List.mem_cons_self⟩
      | access y addr c => exact Or.inl hlast
      | enqueuePrefetch isData pc addr hit => exact Or.inl hlast
      | servicePrefetchQueues c => exact Or.inl hlast
    · exact Or.inr ⟨i, d, l, List.mem_cons_of_mem _ hmem⟩

namespace MemSubsystem

variable [CachePrefetcher P]

omit [CachePrefetcher P] in
/-- A demand access to a block in flight merges, and is promised no less than
the block's ready time. -/
theorem Consistent.merges {m : MemSubsystem P} {last : Option ℕ} (h : m.Consistent last)
    {addr : BitVec 32} (hready : (m.l1 x).ready ((m.l1 x).getBlockAddr addr) = some f)
    (t : ℕ) :
    (m.access x addr t).1.l1Status = .missMerged ∧ f ≤ (m.access x addr t).1.readyCycle := by
  obtain ⟨r, l1', llc', heq, hout⟩ := m.access_spec x addr t
  rw [heq]
  refine hout.merges hready ?_
  rw [← Cache.contains_blockAddr (h.l1PowerOfTwo x)]
  exact (h.l1 x).disjoint _ (Cache.mem_inflight_iff.mpr ⟨f, hready⟩)

/-- After a demand access that is neither blocked nor a hit, the run that ends
with it is pending at its block. -/
theorem Reachable.access_pending {cfg : MemConfig P} {t : ℕ} {m m' : MemSubsystem P}
    (hm : Reachable cfg (some t) m) {addr : BitVec 32} {r : HierarchyAccessResult}
    (hacc : m.access x addr t = (r, m')) (hblocked : r.blocked = false)
    (hmiss : r.l1Status ≠ .hit) :
    Reachable cfg (some t) m' ∧ m.SameShape m' ∧
      ∃ f, (m'.l1 x).ready ((m.l1 x).getBlockAddr addr) = some f ∧ f ≤ r.readyCycle := by
  obtain ⟨r', l1', llc', heq, hout⟩ := m.access_spec x addr t
  obtain ⟨rfl, rfl⟩ : r' = r ∧ m.putCaches x l1' llc' = m' := by
    rwa [heq, Prod.mk.injEq] at hacc
  refine ⟨?_, (SameShape.refl m).putCaches x hout.shape, ?_⟩
  · have hallowed : Disciplined (some t) [.access x addr t] := ⟨rfl, trivial⟩
    have hstep := hm.execs hallowed
    rwa [show m.execs cfg [.access x addr t] = m.putCaches x l1' llc' from
      congrArg Prod.snd heq] at hstep
  · rw [putCaches_l1, if_pos rfl]
    exact hout.inFlight hblocked hmiss

/-- **A miss is served once, and not early.**  After a demand access through
`x` that is neither blocked nor a hit, its block is in flight until some `f` that
is no later than reported.  In whatever follows without returns at `f` or later,
accesses to the block through `x` merge and are promised no less than `f`; and
the first returns at `f` or later fill the block once. -/
theorem miss_served {cfg : MemConfig P} (hcfg : cfg.PowerOfTwo) {t : ℕ}
    {m m' : MemSubsystem P} (hm : Reachable cfg (some t) m) (x : L1) (addr : BitVec 32)
    {r : HierarchyAccessResult} (hacc : m.access x addr t = (r, m'))
    (hblocked : r.blocked = false) (hmiss : r.l1Status ≠ .hit) :
    ∃ f, (m'.l1 x).ready ((m.l1 x).getBlockAddr addr) = some f ∧ f ≤ r.readyCycle ∧
      ∀ later, Disciplined (some t) later →
        (∀ c i d l, MemOp.processReturns c i d l ∈ later → c < f) →
        (∀ addr' t', (m.l1 x).getBlockAddr addr' = (m.l1 x).getBlockAddr addr →
          latestReturns (some t) later = some t' →
          ((m'.execs cfg later).access x addr' t').1.l1Status = .missMerged ∧
          f ≤ ((m'.execs cfg later).access x addr' t').1.readyCycle) ∧
        (∀ c i d l, (∀ p ∈ latestReturns (some t) later, p ≤ c) → f ≤ c →
          ((m'.execs cfg later).l1 x).FilledOnce c (L1.table i d x)
            ((m.l1 x).getBlockAddr addr) ∧
          (((m'.execs cfg later).processReturns c i d l).l1 x).fills
              ((m.l1 x).getBlockAddr addr)
            = (m'.l1 x).fills ((m.l1 x).getBlockAddr addr) + 1) := by
  obtain ⟨hm', hstep, f, hready, hle⟩ := hm.access_pending hacc hblocked hmiss
  refine ⟨f, hready, hle, fun later hlater hbefore => ?_⟩
  -- after `later` the subsystem is consistent, of the same shape and still pending
  have hcons := (hm'.execs hlater).consistent hcfg
  have hshape := (sameShape_runInvariant m).execs cfg hlater hstep
  have hlast : ∀ p ∈ latestReturns (some t) later, p < f := by
    intro p hp
    rcases mem_of_latestReturns hp with hp | ⟨i, d, l, hmem⟩
    · obtain rfl : t = p := Option.some.inj hp
      exact ((hm'.consistent hcfg).l1 x).pending _ f hready t rfl
    · exact hbefore p i d l hmem
  obtain ⟨hready', hfills'⟩ :=
    pending_runInvariant.execs cfg hlater (fun _ => ⟨hready, rfl⟩) hlast
  constructor
  · intro addr' t' hblock hnow
    rw [← hblock, ← (hshape.l1 x).getBlockAddr] at hready'
    exact hcons.merges hready' t'
  · intro c i d l _ hfc
    have hfilled := (hcons.l1 x).filledOnce (hcons.l1PowerOfTwo x) hready' hfc (L1.table i d x)
    refine ⟨hfilled, ?_⟩
    rw [processReturns_l1, hfilled.fills, hfills']

/-- A D-cache miss to memory, a second access at once, and the returns when the
first was promised its data. -/
theorem miss_served_shipped :
    let m := (new shippedMemConfig).processReturns 0 default default default
    let m' := (m.access .dcache 0x1040 0).2
    let b := (m.l1 .dcache).getBlockAddr 0x1040
    (m'.access .dcache 0x1044 0).1.l1Status = .missMerged ∧
      ((m'.processReturns 135 default default default).l1 .dcache).fills b
        = (m'.l1 .dcache).fills b + 1 := by
  intro m m' b
  have hm : Reachable shippedMemConfig (some 0) m :=
    ⟨[.processReturns 0 default default default], by simp [Disciplined, MemOp.Allowed],
      rfl, rfl⟩
  have hacc : m.access .dcache 0x1040 0 = ((m.access .dcache 0x1040 0).1, m') := rfl
  have hready : (m.access .dcache 0x1040 0).1.readyCycle = 135 := by decide +kernel
  -- returns at the promised cycle are late enough, whatever `f` is
  obtain ⟨f, -, hle, hlater⟩ :=
    miss_served powerOfTwo_shipped hm .dcache 0x1040 hacc (by decide +kernel)
      (by decide +kernel)
  obtain ⟨hmerge, hfill⟩ := hlater [] trivial (by simp)
  have hblock : (m.l1 .dcache).getBlockAddr 0x1044 = b := by decide +kernel
  have hmerged := hmerge 0x1044 0 hblock rfl
  have hfilled := hfill 135 default default default (by simp [latestReturns]) (hready ▸ hle)
  exact ⟨hmerged.1, hfilled.2⟩

end MemSubsystem

end TraceSim
