/-
TraceSim/Mem/Blocked.lean

Blocked demand accesses.

A blocked access leaves the lines and tables of all caches as they were.  It
counts as blocked in its first level only when that level is full: when it is
the last level that refuses, the first level has already counted a new miss, for
which no fill is scheduled.  So `miss_new` counts the demand fills of a first
level exactly in the runs in which the last level refuses no access
(`blocked_clean_iff`).
-/
import TraceSim.Mem.Mshrs
import Mathlib.Data.List.Induction

namespace TraceSim

variable {P : Type}

namespace Cache

variable {l1 llc l1' llc' : Cache P} {addr : BitVec 32} {t lat f : ℕ}

/-- Every new miss counted has a demand fill scheduled for it. -/
def Counted (c : Cache P) : Prop := c.counters.missNew = c.scheduled false

/-- A request that is not a new demand miss. -/
theorem Counted.request {c : Cache P} (h : c.Counted) {pf : Bool}
    (hs : pf = true ∨ (c.request addr t pf).1.status ≠ .missNew) :
    (c.request addr t pf).2.Counted := by
  obtain ⟨u, d, l, hk⟩ := request_counters c addr t pf
  unfold Counted at h ⊢
  rw [request_scheduled, hk]
  generalize (c.request addr t pf).1.status = s at hs ⊢
  cases s with
  | missNew =>
    rcases hs with rfl | hs
    · exact h
    · exact absurd rfl hs
  | hit => cases pf <;> exact h
  | missMerged => cases pf <;> exact h
  | missBlocked => exact h
  | prefetchDropped => exact h

/-- A new demand miss and its fill. -/
theorem Counted.fill {c : Cache P} (h : c.Counted) (hacc : c.Accepts addr)
    (hnew : (c.request addr t false).1.status = .missNew) (f : ℕ) :
    ((c.request addr t false).2.scheduleFill addr f false).Counted := by
  obtain ⟨u, d, l, hk⟩ := request_counters c addr t false
  unfold Counted at h ⊢
  rw [hacc.scheduled, scheduleFill_counters, hk, hnew, if_pos rfl, ← h]
  rfl

/-- A prefetch that the cache passes on, and its fill. -/
theorem Counted.prefetchFill {c : Cache P} (h : c.Counted) (hacc : c.Accepts addr)
    (t f : ℕ) : ((c.request addr t true).2.scheduleFill addr f true).Counted := by
  have hreq : (c.request addr t true).2.Counted := h.request (Or.inl rfl)
  unfold Counted at hreq ⊢
  rw [hacc.scheduled, scheduleFill_counters]
  rwa [request_scheduled] at hreq

theorem Counted.processReturns {c : Cache P} (h : c.Counted) (t : ℕ) (table : TableOrder) :
    (c.processReturns t table).Counted := by
  obtain ⟨u, p, hk⟩ := processReturns_counters c t table
  unfold Counted at h ⊢
  rw [hk, processReturns_scheduled]
  exact h

/-- A demand access that the last level does not refuse. -/
theorem AccessOutcome.counted {r : HierarchyAccessResult}
    (h : AccessOutcome l1 llc addr t lat r l1' llc') (hc : l1.Counted)
    (hllc : l1.Accepts addr → ¬ llc.Refuses addr) : l1'.Counted := by
  cases h with
  | hit resident status => exact hc.request (Or.inr (by simp [status]))
  | merged f absent pending status => exact hc.request (Or.inr (by simp [status]))
  | l1Full refuses status => exact hc.request (Or.inr (by simp [status]))
  | llcFull accepts refuses status llcStatus => exact absurd refuses (hllc accepts)
  | fill accepts status s f llc' llcStatus answer => exact hc.fill accepts status _

theorem PrefetchOutcome.counted (h : PrefetchOutcome l1 llc addr t l1' llc')
    (hc : l1.Counted) : l1'.Counted := by
  cases h with
  | skipped status => exact hc.request (Or.inl rfl)
  | llcFull accepts refuses status llcStatus => exact hc.request (Or.inl rfl)
  | fill accepts status s f llc' llcStatus answer => exact hc.prefetchFill accepts t f

end Cache

namespace MemSubsystem

/-! ### One blocked access -/

/-- The last level refuses a demand access through `x`: that level accepts it,
and the last level has no free entry. -/
def LlcRefuses (m : MemSubsystem P) (x : L1) (addr : BitVec 32) : Prop :=
  (m.l1 x).Accepts addr ∧ m.llc.Refuses addr

/-- The caches `c` and `c'` have the same lines and the same misses in flight. -/
def SameContents (c c' : Cache P) : Prop := c'.sets = c.sets ∧ c'.inflight = c.inflight

/-- What a blocked access through `x` should do: change no lines and no table,
and count as blocked. -/
structure CountsBlocked (x : L1) (m m' : MemSubsystem P) : Prop where
  l1 : ∀ y, SameContents (m.l1 y) (m'.l1 y)
  llc : SameContents m.llc m'.llc
  missBlocked : (m'.l1 x).counters.missBlocked = (m.l1 x).counters.missBlocked + 1
  missNew : (m'.l1 x).counters.missNew = (m.l1 x).counters.missNew

/-- The access, if it is blocked, does what it should. -/
def BlockedClean (m : MemSubsystem P) (x : L1) (addr : BitVec 32) (t : ℕ) : Prop :=
  (m.access x addr t).1.blocked = true → CountsBlocked x m (m.access x addr t).2

theorem sameContents_request {c : Cache P} {addr : BitVec 32} (h : c.Refuses addr)
    (t : ℕ) (pf : Bool) : SameContents c (c.request addr t pf).2 := by
  obtain ⟨k, hk⟩ := Cache.request_unknown h.absent h.idle t pf
  rw [hk]
  exact ⟨rfl, rfl⟩

/-- **A blocked access counts as blocked** exactly if it is not the last level
that refuses it. -/
theorem blockedClean_iff (m : MemSubsystem P) (x : L1) (addr : BitVec 32) (t : ℕ) :
    m.BlockedClean x addr t ↔ ¬ m.LlcRefuses x addr := by
  obtain ⟨r, l1', llc', heq, hout⟩ := m.access_spec x addr t
  obtain ⟨u, d, l, hk⟩ := Cache.request_counters (m.l1 x) addr t false
  unfold BlockedClean
  rw [heq]
  cases hout with
  | hit resident status =>
    refine iff_of_true (by simp) fun h => ?_
    rw [h.1.absent] at resident
    cases resident
  | merged f absent pending status =>
    exact iff_of_true (by simp) fun h => by cases pending.symm.trans h.1.idle
  | l1Full refuses status =>
    -- blocked by the first level itself: only its counters change
    refine iff_of_true (fun _ => ⟨fun y => ?_, ?_, ?_, ?_⟩) fun h => h.1.not_refuses refuses
    · rw [putCaches_l1]
      split_ifs with hy
      · exact hy ▸ sameContents_request refuses t false
      · exact ⟨rfl, rfl⟩
    · rw [putCaches_llc]
      exact ⟨rfl, rfl⟩
    · rw [putCaches_l1, if_pos rfl, hk, status]
      rfl
    · rw [putCaches_l1, if_pos rfl, hk, status]
      rfl
  | llcFull accepts refuses status llcStatus =>
    refine iff_of_false (fun h => ?_) fun h => h ⟨accepts, refuses⟩
    -- the first level has counted a new miss, not a blocked one
    have hnew := (h rfl).missNew
    rw [putCaches_l1, if_pos rfl, hk, status] at hnew
    simp [CacheCounters.count] at hnew
  | fill accepts status s f llc' llcStatus answer =>
    exact iff_of_true (by simp) fun h => answer.not_refuses h.2

/-! ### Runs -/

/-- Both first levels schedule a demand fill for every new miss they count. -/
def Counted (m : MemSubsystem P) : Prop := ∀ x, (m.l1 x).Counted

theorem Counted.putCaches {m : MemSubsystem P} (h : m.Counted) (x : L1)
    {l1' llc' : Cache P} (hc : l1'.Counted) : (m.putCaches x l1' llc').Counted := by
  exact forall_putCaches (J := fun _ c => c.Counted) h hc llc'

theorem counted_serviceInvariant : ServiceInvariant (P := P) fun _ m => m.Counted where
  quiet {last m m'} hs h x := by
    obtain ⟨p, hp⟩ := hs.l1 x
    rw [hp]
    exact h x
  prefetch {t m} x addr l1' llc' hout h := h.putCaches x (hout.counted (h x))

section Run

variable [CachePrefetcher P] (cfg : MemConfig P)

/-- The run passes through `m`. -/
def Passes (ops : List MemOp) (m : MemSubsystem P) : Prop :=
  ∃ before after, ops = before ++ after ∧ (new cfg).execs cfg before = m

/-- The run performs the call `op` in `m`. -/
def Performs (ops : List MemOp) (m : MemSubsystem P) (op : MemOp) : Prop :=
  ∃ before after, ops = before ++ op :: after ∧ (new cfg).execs cfg before = m

variable {cfg}

/-- One call keeps the count, if the last level does not refuse it. -/
theorem Counted.exec {m : MemSubsystem P} (h : m.Counted) (op : MemOp)
    (hop : ∀ x addr t, op = .access x addr t → ¬ m.LlcRefuses x addr) :
    (m.exec cfg op).Counted := by
  cases op with
  | access x addr t =>
    obtain ⟨r, l1', llc', heq, hout⟩ := m.access_spec x addr t
    have hc := hout.counted (h x) fun hacc href => hop x addr t rfl ⟨hacc, href⟩
    have hstep : (m.putCaches x l1' llc').Counted := h.putCaches x hc
    simpa [MemSubsystem.exec, heq] using hstep
  | enqueuePrefetch isData pc addr hit =>
    exact @counted_serviceInvariant.quiet none _ _
      (m.enqueuePrefetch_same cfg isData pc addr hit) h
  | servicePrefetchQueues t => exact counted_serviceInvariant.servicePrefetchQueues cfg h
  | processReturns t i d l =>
    intro x
    exact (processReturns_l1 m t i d l x).symm ▸ (h x).processReturns t _

/-- A run in which the last level refuses nothing keeps the count. -/
theorem counted_passes {ops : List MemOp}
    (hops : ∀ m x addr t, Performs cfg ops m (.access x addr t) → ¬ m.LlcRefuses x addr)
    {m : MemSubsystem P} (hm : Passes cfg ops m) : m.Counted := by
  obtain ⟨before, after, rfl, rfl⟩ := hm
  induction before using List.reverseRecOn generalizing after with
  | nil => exact fun x => by cases x <;> rfl
  | append_singleton before op ih =>
    rw [execs_append]
    refine Counted.exec (ih (op :: after) ?_) op fun x addr t hop => ?_
    · rwa [List.append_assoc] at hops
    · exact hops _ x addr t ⟨before, after, by rw [hop, List.append_assoc]; rfl, rfl⟩

/-- **Blocked accesses over a run**: they are all free of side effects and counted
as blocked, and every new miss a first level counts has its demand fill
scheduled, exactly if the last level refuses no access of the run. -/
theorem blocked_clean_iff (ops : List MemOp) :
    ((∀ m x addr t, Performs cfg ops m (.access x addr t) → m.BlockedClean x addr t) ∧
      ∀ m, Passes cfg ops m →
        ∀ x, (m.l1 x).counters.missNew = (m.l1 x).scheduled false) ↔
    ∀ m x addr t, Performs cfg ops m (.access x addr t) → ¬ m.LlcRefuses x addr := by
  constructor
  · rintro ⟨hclean, -⟩ m x addr t hm
    exact (m.blockedClean_iff x addr t).mp (hclean m x addr t hm)
  · intro hrun
    refine ⟨fun m x addr t hm => ?_, fun m hm => counted_passes hrun hm⟩
    exact (m.blockedClean_iff x addr t).mpr (hrun m x addr t hm)

end Run

/-- The shipped configuration with one MSHR in every cache. -/
def oneMshrConfig : MemConfig BuiltinPrefetcher :=
  { shippedMemConfig with
    icache := { shippedMemConfig.icache with mshrSize := 1 }
    dcache := { shippedMemConfig.dcache with mshrSize := 1 }
    llc := { shippedMemConfig.llc with mshrSize := 1 } }

/-- With one MSHR each, an I-cache miss in flight makes the last level refuse the
next D-cache miss: it is blocked, counts as a new miss and not as blocked, and
has no fill scheduled. -/
theorem blocked_counts_new_miss :
    ∃ m, Reachable oneMshrConfig (some 0) m ∧
      (m.access .dcache 0x2000 0).1.blocked = true ∧
      ((m.access .dcache 0x2000 0).2.l1 .dcache).counters.missBlocked
        = (m.l1 .dcache).counters.missBlocked ∧
      ((m.access .dcache 0x2000 0).2.l1 .dcache).counters.missNew
        = (m.l1 .dcache).counters.missNew + 1 ∧
      ((m.access .dcache 0x2000 0).2.l1 .dcache).counters.missNew
        ≠ ((m.access .dcache 0x2000 0).2.l1 .dcache).scheduled false :=
  ⟨(new oneMshrConfig).execs oneMshrConfig
      [.processReturns 0 default default default, .access .icache 0x1000 0],
    ⟨[.processReturns 0 default default default, .access .icache 0x1000 0],
      by simp [Disciplined, MemOp.Allowed, MemOp.latest], rfl, rfl⟩,
    by decide +kernel, by decide +kernel, by decide +kernel, by decide +kernel⟩

end MemSubsystem

end TraceSim
