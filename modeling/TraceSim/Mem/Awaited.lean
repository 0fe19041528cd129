/-
TraceSim/Mem/Awaited.lean

The work a first level still has to do for others than a given block.

A block is awaited while it is in flight.  A demand access makes at most its own block
awaited, a prefetch moves an address from the queue to the table of misses at most, and
returns take blocks out of it.  So, as long as nothing is added to the prefetch queue, the
work left for blocks other than the one a fetch is waiting for never grows, and it falls
with every prefetch that leaves the queue and with every return of another block
(`others`).
-/
import TraceSim.Mem.Owners
import TraceSim.Mem.Returns
import TraceSim.Mem.PrefetchQueues
import Mathlib.Data.Finset.Card

namespace TraceSim

variable {P : Type}

namespace Cache

variable {c c' l1 llc l1' llc' : Cache P} {addr b b' : BitVec 32} {t lat f : ℕ}

/-- The blocks in flight. -/
def awaited (c : Cache P) : Finset (BitVec 32) := c.inflight.keys.toFinset

theorem mem_awaited : b ∈ c.awaited ↔ ∃ f, c.ready b = some f := by
  rw [awaited, List.mem_toFinset, ← mem_inflight_iff]
  exact AList.mem_keys

theorem card_awaited (c : Cache P) : c.awaited.card = c.inflight.entries.length := by
  rw [awaited, List.toFinset_card_of_nodup c.inflight.keys_nodup]
  exact List.length_map _

theorem Same.awaited (h : Same c c') : c'.awaited = c.awaited := by
  ext b
  rw [mem_awaited, mem_awaited, h.ready]

theorem Accepts.awaited (h : c.Accepts addr) (t f : ℕ) (pf : Bool) :
    ((c.request addr t pf).2.scheduleFill addr f pf).awaited
      = insert (c.getBlockAddr addr) c.awaited := by
  ext b
  rw [mem_awaited, Finset.mem_insert, mem_awaited, h.ready]
  split_ifs with hb
  · exact iff_of_true ⟨f, rfl⟩ (Or.inl hb)
  · rw [or_iff_right hb]

/-- **A demand access** makes no other block awaited than its own. -/
theorem AccessOutcome.awaited {r : HierarchyAccessResult}
    (h : AccessOutcome l1 llc addr t lat r l1' llc') :
    l1'.awaited ⊆ insert (l1.getBlockAddr addr) l1.awaited := by
  have hreq : (l1.request addr t false).2.awaited ⊆ insert (l1.getBlockAddr addr) l1.awaited := by
    rw [(request_spec l1 addr t false).1.awaited]
    exact Finset.subset_insert _ _
  apply h.rule (I := fun c _ => c.awaited ⊆ insert (l1.getBlockAddr addr) l1.awaited)
  · exact hreq
  · intro _ _
    exact hreq
  · intro accepts _ s f c' _ answer
    exact (accepts.awaited _ _ _).subset

theorem PrefetchOutcome.awaited (h : PrefetchOutcome l1 llc addr t l1' llc') :
    l1'.awaited ⊆ insert (l1.getBlockAddr addr) l1.awaited := by
  have hreq : (l1.request addr t true).2.awaited ⊆ insert (l1.getBlockAddr addr) l1.awaited := by
    rw [(request_spec l1 addr t true).1.awaited]
    exact Finset.subset_insert _ _
  apply h.rule (I := fun c _ => c.awaited ⊆ insert (l1.getBlockAddr addr) l1.awaited)
  · intro _
    exact hreq
  · intro _ _
    exact hreq
  · intro accepts _ s f c' _ answer
    exact (accepts.awaited _ _ _).subset

theorem processReturns_awaited (c : Cache P) (t : ℕ) (table : TableOrder) :
    (c.processReturns t table).awaited ⊆ c.awaited := by
  intro b hb
  obtain ⟨f, hf⟩ := mem_awaited.mp hb
  rw [processReturns_ready] at hf
  exact mem_awaited.mpr ⟨f, (Option.filter_eq_some_iff.mp hf).1⟩

/-- The returns of a cycle end the wait for a block that is ready. -/
theorem notMem_processReturns_awaited (hb : c.ready b = some f) (hle : f ≤ t)
    (table : TableOrder) : b ∉ (c.processReturns t table).awaited := by
  intro hmem
  obtain ⟨f', hf'⟩ := mem_awaited.mp hmem
  rw [processReturns_ready, hb] at hf'
  obtain ⟨heq, hlt⟩ := Option.filter_eq_some_iff.mp hf'
  rw [Option.some.injEq] at heq
  have hlt := of_decide_eq_true hlt
  omega

/-- Where no other block is awaited, a block that is ready is resident after the returns. -/
theorem Consistent.returns_contains {last : Option ℕ} (h : c.Consistent last)
    (hp : c.PowerOfTwo) (hb : c.ready b = some f) (hle : f ≤ t)
    (honly : c.awaited ⊆ {b}) (table : TableOrder) :
    (c.processReturns t table).contains b = true := by
  obtain ⟨before, after, horder, -, hafter, hcontains⟩ := (h.filledOnce hp hb hle table).turn
  -- whatever is completed after `b` would be `b` again
  have hnil : after = [] := by
    refine List.eq_nil_iff_forall_not_mem.mpr fun b' hb' => ?_
    have hmem : b' ∈ table.order (c.completedBlocks t) := by
      rw [horder]
      exact List.mem_append_right _ (List.mem_cons_of_mem _ hb')
    obtain ⟨f', hf', -⟩ := (mem_order table).mp hmem
    have heq := Finset.mem_singleton.mp (honly (mem_awaited.mpr ⟨f', hf'⟩))
    exact hafter (heq ▸ hb')
  rw [hnil] at horder
  rwa [Cache.processReturns, horder]

end Cache

/-! ### The service of a prefetch queue -/

/-- What a first level still has to do for blocks other than `b`: a queued prefetch is to be
issued and may have to be awaited then. -/
def othersOf (b : BitVec 32) (queue : List (BitVec 32)) (c : Cache P) : ℕ :=
  2 * queue.length + (c.awaited.erase b).card

/-- One more awaited block is one more, unless it is `b`. -/
theorem card_erase_insert_le (A : Finset (BitVec 32)) (b x : BitVec 32) :
    ((insert x A).erase b).card ≤ (A.erase b).card + 1 := by
  refine (Finset.card_le_card (t := insert x (A.erase b)) fun y hy => ?_).trans
    (Finset.card_insert_le _ _)
  rw [Finset.mem_erase, Finset.mem_insert] at hy
  rw [Finset.mem_insert, Finset.mem_erase]
  exact hy.2.imp id fun hA => ⟨hy.1, hA⟩

/-- **The service of a queue**: every prefetch that is issued leaves less work. -/
theorem servicePrefetchQueue_others (t : ℕ) (b : BitVec 32) (n : ℕ) (queue : List (BitVec 32))
    (l1 llc : Cache P) :
    othersOf b (servicePrefetchQueue t n queue l1 llc).1
        (servicePrefetchQueue t n queue l1 llc).2.1 + min n queue.length
      ≤ othersOf b queue l1 := by
  induction n generalizing queue l1 llc with
  | zero => exact (congrArg _ (Nat.zero_min _)).le
  | succ n ih =>
    cases queue with
    | nil => exact (congrArg _ (Nat.min_zero _)).le
    | cons addr queue =>
      obtain ⟨l1', llc', heq, hout⟩ := issuePrefetchToL1_spec l1 llc addr t
      rw [servicePrefetchQueue, heq]
      have hrest := ih queue l1' llc'
      have hcard := (Finset.card_le_card (Finset.erase_subset_erase b hout.awaited)).trans
        (card_erase_insert_le l1.awaited b _)
      simp only [othersOf, List.length_cons] at hrest ⊢
      omega

theorem servicePrefetchQueue_length (t n : ℕ) (queue : List (BitVec 32)) (l1 llc : Cache P) :
    (servicePrefetchQueue t n queue l1 llc).1.length = queue.length - n := by
  induction n generalizing queue l1 llc with
  | zero => rfl
  | succ n ih =>
    cases queue with
    | nil => exact (Nat.zero_sub (n + 1)).symm
    | cons addr queue =>
      rw [servicePrefetchQueue]
      dsimp only
      rw [ih, List.length_cons, Nat.succ_sub_succ]

namespace MemSubsystem

variable {m : MemSubsystem P}

/-- What the I-cache still has to do for blocks other than `b`. -/
def others (b : BitVec 32) (m : MemSubsystem P) : ℕ :=
  othersOf b m.icachePrefetch.queue m.icache

theorem others_servicePrefetchQueues (cfg : MemConfig P) (b : BitVec 32) (m : MemSubsystem P)
    (t : ℕ) : (m.servicePrefetchQueues cfg t).others b
      + min cfg.icachePrefetchIssuePerCycle m.icachePrefetch.queue.length ≤ m.others b :=
  servicePrefetchQueue_others t b cfg.icachePrefetchIssuePerCycle m.icachePrefetch.queue
    m.icache m.llc

/-- A fetch from block `b` adds no work for others. -/
theorem others_accessIcache (m : MemSubsystem P) {b addr : BitVec 32} (t : ℕ)
    (hb : m.icache.getBlockAddr addr = b) : (m.accessIcache addr t).2.others b ≤ m.others b := by
  obtain ⟨r, l1', llc', heq, hout⟩ := m.accessIcache_spec addr t
  rw [heq]
  refine Nat.add_le_add_left (Finset.card_le_card fun y hy => ?_) _
  rw [Finset.mem_erase] at hy ⊢
  refine ⟨hy.1, ?_⟩
  have hmem := hout.awaited hy.2
  rw [hb, Finset.mem_insert] at hmem
  exact hmem.resolve_left hy.1

theorem others_processReturns (b : BitVec 32) (m : MemSubsystem P) (t : ℕ)
    (i d l : TableOrder) : (m.processReturns t i d l).others b ≤ m.others b :=
  Nat.add_le_add_left (Finset.card_le_card
    (Finset.erase_subset_erase b (m.icache.processReturns_awaited t i))) _

/-- The return of another block leaves less to do. -/
theorem others_processReturns_lt {b b' : BitVec 32} {t f : ℕ} (hne : b' ≠ b)
    (hready : m.icache.ready b' = some f) (hle : f ≤ t) (i d l : TableOrder) :
    (m.processReturns t i d l).others b < m.others b := by
  refine Nat.add_lt_add_left (Finset.card_lt_card ?_) _
  refine Finset.ssubset_iff_of_subset
    (Finset.erase_subset_erase b (m.icache.processReturns_awaited t i)) |>.mpr ?_
  refine ⟨b', Finset.mem_erase.mpr ⟨hne, Cache.mem_awaited.mpr ⟨f, hready⟩⟩, fun hmem => ?_⟩
  exact Cache.notMem_processReturns_awaited hready hle i (Finset.mem_of_mem_erase hmem)

/-- What is left to do is bounded by the queue and the MSHRs. -/
theorem others_le {last : Option ℕ} (hbounded : m.Bounded last) (b : BitVec 32) :
    m.others b ≤ 2 * m.icachePrefetch.queue.length + m.icache.maxInflight := by
  refine Nat.add_le_add_left ?_ _
  refine (Finset.card_le_card (Finset.erase_subset b _)).trans ?_
  rw [Cache.card_awaited]
  exact (hbounded.l1 .icache).capacity

/-- A fetch that misses, while the I-cache awaits nothing but its block, is served: the block
is in flight until the cycle that is reported. -/
theorem accessIcache_awaits {addr : BitVec 32} {t : ℕ} (hroomy : m.Roomy (some t))
    (hmiss : m.icache.contains addr = false) (hmshr : 1 ≤ m.icache.maxInflight)
    (honly : m.icache.awaited ⊆ {m.icache.getBlockAddr addr}) :
    (m.accessIcache addr t).1.blocked = false ∧ t < (m.accessIcache addr t).1.readyCycle ∧
      (m.accessIcache addr t).2.icache.ready (m.icache.getBlockAddr addr)
        = some (m.accessIcache addr t).1.readyCycle := by
  obtain ⟨r, l1', llc', heq, hout⟩ := m.accessIcache_spec addr t
  rw [heq]
  cases hout with
  | hit resident status => cases hmiss.symm.trans resident
  | merged f absent pending status =>
    have hlt : t < f := (hroomy.bounded.l1 .icache).pending _ f pending t rfl
    have hmax : max (t + icacheHitLatency) f = f := max_eq_right hlt.le
    refine ⟨rfl, hmax.symm ▸ hlt, (Cache.request_frame pending addr t false).1.trans ?_⟩
    exact congrArg some hmax.symm
  | l1Full refuses status =>
    -- the table is empty, so there is an entry
    have hnone : m.icache.awaited = ∅ := by
      refine Finset.eq_empty_of_forall_notMem fun b hb => ?_
      obtain ⟨f, hf⟩ := Cache.mem_awaited.mp hb
      rw [Finset.mem_singleton.mp (honly hb), refuses.idle] at hf
      cases hf
    have hcard := m.icache.card_awaited
    rw [hnone, Finset.card_empty] at hcard
    have hnoRoom := refuses.noRoom
    omega
  | llcFull accepts refuses status llcStatus =>
    exact absurd refuses (hroomy.not_refuses (x := .icache) accepts)
  | fill accepts status s f llc' llcStatus answer =>
    have hlater := hroomy.bounded.llc.later_add answer icacheHitLatency
    exact ⟨rfl, hlater, (accepts.ready _ _ _ _).trans (if_pos rfl)⟩

end MemSubsystem

end TraceSim
