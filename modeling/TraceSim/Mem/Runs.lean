/-
TraceSim/Mem/Runs.lean

Runs of the memory subsystem, under the discipline of `TraceSim::run`.

A run is a list of calls (`MemOp`).  The simulator calls `process_returns` with
the current cycle before it accesses a cache or services a prefetch queue in
that cycle, and cycles do not decrease; `Disciplined` says so.  An invariant of
all runs has to survive four things only (`RunInvariant`): a change that no
lookup can see, a demand access, one prefetch, and the returns of a cycle.

Main result: in every disciplined run all three caches stay consistent
(`caches_consistent`).
-/
import TraceSim.Mem.Consistency
import TraceSim.Mem.Accesses

namespace TraceSim

variable {P : Type}

/-! ### The two first levels -/

/-- The first-level caches. -/
inductive L1
  | icache
  | dcache
  deriving DecidableEq, Repr

/-- The hit latency each access method passes on. -/
def L1.hitLatency : L1 → ℕ
  | .icache => icacheHitLatency
  | .dcache => lduLatency

/-- The iteration order of the table of a first level. -/
def L1.table (itable dtable : TableOrder) : L1 → TableOrder
  | .icache => itable
  | .dcache => dtable

namespace MemSubsystem

def l1 (m : MemSubsystem P) : L1 → Cache P
  | .icache => m.icache
  | .dcache => m.dcache

/-- A demand access through the given first level: `access_icache` or
`access_dcache_load`. -/
def access (m : MemSubsystem P) (x : L1) (addr : BitVec 32) (cycle : ℕ) :
    HierarchyAccessResult × MemSubsystem P :=
  match x with
  | .icache => m.accessIcache addr cycle
  | .dcache => m.accessDcacheLoad addr cycle

/-- Put back a first level and the last level. -/
def putCaches (m : MemSubsystem P) (x : L1) (l1 llc : Cache P) : MemSubsystem P :=
  match x with
  | .icache => { m with icache := l1, llc := llc }
  | .dcache => { m with dcache := l1, llc := llc }

@[simp] theorem putCaches_l1 (m : MemSubsystem P) (x y : L1) (l1 llc : Cache P) :
    (m.putCaches x l1 llc).l1 y = if y = x then l1 else m.l1 y := by
  cases x <;> cases y <;> rfl

/-- What holds of the first levels before, and of the new one, holds of them after. -/
theorem forall_putCaches {J : L1 → Cache P → Prop} {m : MemSubsystem P} {x : L1}
    {l1 : Cache P} (h : ∀ y, J y (m.l1 y)) (hx : J x l1) (llc : Cache P) (y : L1) :
    J y ((m.putCaches x l1 llc).l1 y) := by
  rw [putCaches_l1]
  split_ifs with hy
  · rw [hy]
    exact hx
  · exact h y

@[simp] theorem putCaches_llc (m : MemSubsystem P) (x : L1) (l1 llc : Cache P) :
    (m.putCaches x l1 llc).llc = llc := by
  cases x <;> rfl

@[simp] theorem putCaches_putCaches (m : MemSubsystem P) (x : L1)
    (l1 llc l1' llc' : Cache P) :
    (m.putCaches x l1 llc).putCaches x l1' llc' = m.putCaches x l1' llc' := by
  cases x <;> rfl

@[simp] theorem putCaches_self (m : MemSubsystem P) (x : L1) :
    m.putCaches x (m.l1 x) m.llc = m := by
  cases x <;> rfl

/-- **A demand access of the subsystem** is one of its first level and the last
level. -/
theorem access_spec (m : MemSubsystem P) (x : L1) (addr : BitVec 32) (t : ℕ) :
    ∃ r l1' llc', m.access x addr t = (r, m.putCaches x l1' llc') ∧
      Cache.AccessOutcome (m.l1 x) m.llc addr t x.hitLatency r l1' llc' := by
  obtain ⟨r, l1', llc', heq, hout⟩ :=
    accessL1Hierarchy_spec (m.l1 x) m.llc addr t x.hitLatency
  refine ⟨r, l1', llc', ?_, hout⟩
  cases x
  · simp only [access, accessIcache]
    rw [show accessL1Hierarchy m.icache m.llc addr t icacheHitLatency
      = (r, l1', llc') from heq]
    rfl
  · simp only [access, accessDcacheLoad]
    rw [show accessL1Hierarchy m.dcache m.llc addr t lduLatency
      = (r, l1', llc') from heq]
    rfl

@[simp] theorem processReturns_l1 (m : MemSubsystem P) (t : ℕ) (i d l : TableOrder)
    (x : L1) :
    (m.processReturns t i d l).l1 x = (m.l1 x).processReturns t (L1.table i d x) := by
  cases x <;> rfl

/-- The subsystems `m` and `m'` differ at most in queues, prefetchers and
baselines. -/
structure SameCaches (m m' : MemSubsystem P) : Prop where
  l1 : ∀ x, ∃ p, m'.l1 x = { m.l1 x with prefetcher := p }
  llc : m'.llc = m.llc

end MemSubsystem

/-! ### Runs -/

/-- A call of the memory subsystem. -/
inductive MemOp
  | access (x : L1) (addr : BitVec 32) (cycle : ℕ)
  | enqueuePrefetch (isData : Bool) (pc addr : BitVec 32) (hit : Bool)
  | servicePrefetchQueues (cycle : ℕ)
  | processReturns (cycle : ℕ) (itable dtable ltable : TableOrder)

namespace MemOp

/-- Whether the discipline allows a call when the latest `process_returns` was
at `last`. -/
def Allowed (last : Option ℕ) : MemOp → Prop
  | access _ _ cycle => last = some cycle
  | enqueuePrefetch _ _ _ _ => True
  | servicePrefetchQueues cycle => last = some cycle
  | processReturns cycle _ _ _ => ∀ p ∈ last, p ≤ cycle

/-- The cycle of the latest `process_returns` after a call. -/
def latest (last : Option ℕ) : MemOp → Option ℕ
  | processReturns cycle _ _ _ => some cycle
  | _ => last

end MemOp

/-- The cycle of the latest `process_returns` after a run. -/
def latestReturns (last : Option ℕ) (ops : List MemOp) : Option ℕ :=
  ops.foldl MemOp.latest last

/-- Every call of the run is allowed where it stands. -/
def Disciplined : Option ℕ → List MemOp → Prop
  | _, [] => True
  | last, op :: ops => op.Allowed last ∧ Disciplined (op.latest last) ops

theorem disciplined_append {last : Option ℕ} {ops ops' : List MemOp} :
    Disciplined last (ops ++ ops') ↔
      Disciplined last ops ∧ Disciplined (latestReturns last ops) ops' := by
  induction ops generalizing last with
  | nil => simp [Disciplined, latestReturns]
  | cons op ops ih => simp [Disciplined, latestReturns, ih, and_assoc]

namespace MemSubsystem

variable [CachePrefetcher P]

def exec (cfg : MemConfig P) (m : MemSubsystem P) : MemOp → MemSubsystem P
  | .access x addr cycle => (m.access x addr cycle).2
  | .enqueuePrefetch isData pc addr hit => m.enqueuePrefetch cfg isData pc addr hit
  | .servicePrefetchQueues cycle => m.servicePrefetchQueues cfg cycle
  | .processReturns cycle i d l => m.processReturns cycle i d l

def execs (cfg : MemConfig P) (m : MemSubsystem P) (ops : List MemOp) : MemSubsystem P :=
  ops.foldl (exec cfg) m

theorem execs_append (cfg : MemConfig P) (m : MemSubsystem P) (ops ops' : List MemOp) :
    m.execs cfg (ops ++ ops') = (m.execs cfg ops).execs cfg ops' :=
  List.foldl_append

theorem enqueuePrefetch_same (cfg : MemConfig P) (m : MemSubsystem P) (isData : Bool)
    (pc addr : BitVec 32) (hit : Bool) :
    SameCaches m (m.enqueuePrefetch cfg isData pc addr hit) := by
  cases isData
  · exact ⟨fun x => by cases x <;> exact ⟨_, rfl⟩, rfl⟩
  · exact ⟨fun x => by cases x <;> exact ⟨_, rfl⟩, rfl⟩

end MemSubsystem

/-! ### Invariants of runs -/

/-- What makes `Inv` an invariant of the service of the prefetch queues. -/
structure ServiceInvariant (Inv : Option ℕ → MemSubsystem P → Prop) : Prop where
  quiet : ∀ {last m m'}, m.SameCaches m' → Inv last m → Inv last m'
  prefetch : ∀ {t m} (x addr l1' llc'),
    Cache.PrefetchOutcome (m.l1 x) m.llc addr t l1' llc' →
    Inv (some t) m → Inv (some t) (m.putCaches x l1' llc')

/-- What makes `Inv` an invariant of every disciplined run. -/
structure RunInvariant (Inv : Option ℕ → MemSubsystem P → Prop) : Prop
    extends ServiceInvariant Inv where
  access : ∀ {t m} (x addr r l1' llc'),
    Cache.AccessOutcome (m.l1 x) m.llc addr t x.hitLatency r l1' llc' →
    Inv (some t) m → Inv (some t) (m.putCaches x l1' llc')
  returns : ∀ {last m} (t i d l), (∀ p ∈ last, p ≤ t) →
    Inv last m → Inv (some t) (m.processReturns t i d l)

namespace ServiceInvariant

variable {Inv : Option ℕ → MemSubsystem P → Prop} (h : ServiceInvariant Inv)

include h

/-- Servicing one queue is a sequence of prefetches. -/
theorem servicePrefetchQueue {t : ℕ} (x : L1) (n : ℕ) (queue : List (BitVec 32))
    {m : MemSubsystem P} (hm : Inv (some t) m) :
    Inv (some t) (m.putCaches x
      (TraceSim.servicePrefetchQueue t n queue (m.l1 x) m.llc).2.1
      (TraceSim.servicePrefetchQueue t n queue (m.l1 x) m.llc).2.2) := by
  induction n generalizing queue m with
  | zero => simpa [TraceSim.servicePrefetchQueue] using hm
  | succ n ih =>
    cases queue with
    | nil => simpa [TraceSim.servicePrefetchQueue] using hm
    | cons addr queue =>
      obtain ⟨l1', llc', heq, hout⟩ := issuePrefetchToL1_spec (m.l1 x) m.llc addr t
      have hone := h.prefetch x addr l1' llc' hout hm
      have hrest := ih queue hone
      simpa [TraceSim.servicePrefetchQueue, heq] using hrest

theorem servicePrefetchQueues {t : ℕ} (cfg : MemConfig P) {m : MemSubsystem P}
    (hm : Inv (some t) m) : Inv (some t) (m.servicePrefetchQueues cfg t) := by
  have hi := h.servicePrefetchQueue .icache cfg.icachePrefetchIssuePerCycle
    m.icachePrefetch.queue hm
  have hd := h.servicePrefetchQueue .dcache cfg.dcachePrefetchIssuePerCycle
    m.dcachePrefetch.queue hi
  refine h.quiet ?_ hd
  exact ⟨fun x => by cases x <;> exact ⟨_, rfl⟩, rfl⟩

end ServiceInvariant

namespace RunInvariant

variable {Inv : Option ℕ → MemSubsystem P → Prop} (h : RunInvariant Inv)
variable [CachePrefetcher P]

include h

/-- One allowed call keeps the invariant. -/
theorem exec (cfg : MemConfig P) {last : Option ℕ} {m : MemSubsystem P} {op : MemOp}
    (hop : op.Allowed last) (hm : Inv last m) :
    Inv (op.latest last) (m.exec cfg op) := by
  cases op with
  | access x addr t =>
    have hlast : last = some t := hop
    subst hlast
    obtain ⟨r, l1', llc', heq, hout⟩ := m.access_spec x addr t
    have hstep := h.access x addr r l1' llc' hout hm
    simpa [MemSubsystem.exec, MemOp.latest, heq] using hstep
  | enqueuePrefetch isData pc addr hit =>
    exact h.quiet (m.enqueuePrefetch_same cfg isData pc addr hit) hm
  | servicePrefetchQueues t =>
    have hlast : last = some t := hop
    subst hlast
    exact h.servicePrefetchQueues cfg hm
  | processReturns t i d l => exact h.returns t i d l hop hm

/-- **A run keeps the invariant.** -/
theorem execs (cfg : MemConfig P) {last : Option ℕ} {m : MemSubsystem P}
    {ops : List MemOp} (hops : Disciplined last ops) (hm : Inv last m) :
    Inv (latestReturns last ops) (m.execs cfg ops) := by
  induction ops generalizing last m with
  | nil => exact hm
  | cons op ops ih => exact ih hops.2 (h.exec cfg hops.1 hm)

end RunInvariant

/-- An invariant that does not mention the latest returns needs no discipline. -/
theorem RunInvariant.exec_undisciplined [CachePrefetcher P] {I : MemSubsystem P → Prop}
    (h : RunInvariant fun _ m => I m) (cfg : MemConfig P) {m : MemSubsystem P} (hm : I m)
    (op : MemOp) : I (m.exec cfg op) := by
  -- each call is allowed after some returns
  cases op with
  | access x addr t =>
    have hop : (MemOp.access x addr t).Allowed (some t) := rfl
    exact h.exec cfg hop hm
  | enqueuePrefetch isData pc addr hit =>
    have hop : (MemOp.enqueuePrefetch isData pc addr hit).Allowed none := trivial
    exact h.exec cfg hop hm
  | servicePrefetchQueues t =>
    have hop : (MemOp.servicePrefetchQueues t).Allowed (some t) := rfl
    exact h.exec cfg hop hm
  | processReturns t i d l =>
    have hop : (MemOp.processReturns t i d l).Allowed none := by simp [MemOp.Allowed]
    exact h.exec cfg hop hm

theorem RunInvariant.execs_undisciplined [CachePrefetcher P] {I : MemSubsystem P → Prop}
    (h : RunInvariant fun _ m => I m) (cfg : MemConfig P) {m : MemSubsystem P} (hm : I m)
    (ops : List MemOp) : I (m.execs cfg ops) := by
  induction ops generalizing m with
  | nil => exact hm
  | cons op ops ih => exact ih (h.exec_undisciplined cfg hm op)

/-! ### Consistency of all three caches -/

namespace Cache

variable {l1 llc l1' llc' : Cache P} {addr : BitVec 32} {t lat f : ℕ}

theorem LlcOutcome.shape {pf : Bool} {s : AccessStatus}
    (h : llc.LlcOutcome addr t pf s f llc') : SameShape llc llc' := by
  have hreq := (request_spec llc addr t pf).1.toSameShape
  cases h with
  | hit resident => exact hreq
  | merged f absent pending => exact hreq
  | new absent idle room => exact hreq.trans (scheduleFill_shape _ _ _ _)

theorem AccessOutcome.shape {r : HierarchyAccessResult}
    (h : AccessOutcome l1 llc addr t lat r l1' llc') :
    SameShape l1 l1' ∧ SameShape llc llc' := by
  have hl1 := (request_spec l1 addr t false).1.toSameShape
  have hllc := (request_spec llc addr t false).1.toSameShape
  apply h.rule
  · exact ⟨hl1, SameShape.refl llc⟩
  · intro _ _
    exact ⟨hl1, hllc⟩
  · intro accepts _ s f c' _ answer
    exact ⟨hl1.trans (scheduleFill_shape _ _ _ _), answer.shape⟩

theorem PrefetchOutcome.shape (h : PrefetchOutcome l1 llc addr t l1' llc') :
    SameShape l1 l1' ∧ SameShape llc llc' := by
  have hl1 := (request_spec l1 addr t true).1.toSameShape
  have hllc := (request_spec llc addr t true).1.toSameShape
  apply h.rule
  · intro _
    exact ⟨hl1, SameShape.refl llc⟩
  · intro _ _
    exact ⟨hl1, hllc⟩
  · intro accepts _ s f c' _ answer
    exact ⟨hl1.trans (scheduleFill_shape _ _ _ _), answer.shape⟩

/-- A request does not change whether the cache accepts a block. -/
theorem Accepts.request {c : Cache P} (h : c.Accepts addr) (t : ℕ) (pf : Bool) :
    (c.request addr t pf).2.Accepts addr := by
  have hs := (request_spec c addr t pf).1
  refine ⟨?_, ?_, ?_⟩
  · rw [hs.contains, h.absent]
  · rw [hs.ready, hs.getBlockAddr, h.idle]
  · rw [hs.size, hs.maxInflight]
    exact h.room

/-- What is in flight after an accepted request and its fill. -/
theorem Accepts.ready {c : Cache P} (h : c.Accepts addr) (t f : ℕ) (pf : Bool)
    (b : BitVec 32) :
    ((c.request addr t pf).2.scheduleFill addr f pf).ready b
      = if b = c.getBlockAddr addr then some f else c.ready b := by
  have hs := (request_spec c addr t pf).1
  rw [scheduleFill_ready (h.request t pf).idle, hs.getBlockAddr, hs.ready]

/-- What the history records of an accepted request and its fill. -/
theorem Accepts.history {c : Cache P} (h : c.Accepts addr) (t f : ℕ) (pf : Bool) :
    ((c.request addr t pf).2.scheduleFill addr f pf).history
      = c.history ++ [.scheduled (c.getBlockAddr addr) f pf true] := by
  have hs := (request_spec c addr t pf).1
  rw [scheduleFill_new (h.request t pf).idle]
  simp only [hs.history, hs.getBlockAddr]

/-- A fill scheduled behind an accepting request keeps the table bounded. -/
theorem Bounded.request_scheduleFill {c : Cache P} (h : c.Bounded (some t))
    (accepts : c.Accepts addr) (later : t < f) (pf : Bool) :
    ((c.request addr t pf).2.scheduleFill addr f pf).Bounded (some t) := by
  have hacc := accepts.request t pf
  exact (h.of_same (request_spec c addr t pf).1).scheduleFill hacc.idle hacc.room
    (by simpa) pf

theorem Consistent.request_scheduleFill {c : Cache P} (h : c.Consistent (some t))
    (hp : c.PowerOfTwo) (accepts : c.Accepts addr) (later : t < f) (pf : Bool) :
    ((c.request addr t pf).2.scheduleFill addr f pf).Consistent (some t) := by
  have hs := (request_spec c addr t pf).1
  have hacc := accepts.request t pf
  exact (h.of_same hs).scheduleFill (hp.of_shape hs.toSameShape) hacc.absent hacc.idle
    hacc.room (by simpa) pf

/-- The last level answers with a cycle to come. -/
theorem Bounded.later {pf : Bool} {s : AccessStatus} (hc : llc.Bounded (some t))
    (h : llc.LlcOutcome addr t pf s f llc') : t < f := by
  cases h with
  | hit resident => simp [llcHitLatency]
  | merged f absent pending => exact hc.pending _ f pending t rfl
  | new absent idle room =>
    simp only [llcHitLatency, memoryMissPenalty]
    omega

/-- So does the first level behind it. -/
theorem Bounded.later_add {pf : Bool} {s : AccessStatus} (hc : llc.Bounded (some t))
    (h : llc.LlcOutcome addr t pf s f llc') (lat : ℕ) : t < f + lat :=
  (hc.later h).trans_le (Nat.le_add_right f lat)

theorem Bounded.llcOutcome {pf : Bool} {s : AccessStatus} (hc : llc.Bounded (some t))
    (h : llc.LlcOutcome addr t pf s f llc') : llc'.Bounded (some t) := by
  have hreq := hc.of_same (request_spec llc addr t pf).1
  have hlt := hc.later h
  cases h with
  | hit resident => exact hreq
  | merged f absent pending => exact hreq
  | new absent idle room => exact hc.request_scheduleFill ⟨absent, idle, room⟩ hlt pf

theorem Consistent.llcOutcome {pf : Bool} {s : AccessStatus}
    (hc : llc.Consistent (some t)) (hp : llc.PowerOfTwo)
    (h : llc.LlcOutcome addr t pf s f llc') : llc'.Consistent (some t) := by
  have hreq := hc.of_same (request_spec llc addr t pf).1
  have hlt := hc.toBounded.later h
  cases h with
  | hit resident => exact hreq
  | merged f absent pending => exact hreq
  | new absent idle room => exact hc.request_scheduleFill hp ⟨absent, idle, room⟩ hlt pf

theorem AccessOutcome.bounded {r : HierarchyAccessResult}
    (h : AccessOutcome l1 llc addr t lat r l1' llc') (h1 : l1.Bounded (some t))
    (h2 : llc.Bounded (some t)) : l1'.Bounded (some t) ∧ llc'.Bounded (some t) := by
  have hl1 := h1.of_same (request_spec l1 addr t false).1
  have hllc := h2.of_same (request_spec llc addr t false).1
  apply h.rule
  · exact ⟨hl1, h2⟩
  · intro _ _
    exact ⟨hl1, hllc⟩
  · intro accepts _ s f c' _ answer
    exact ⟨h1.request_scheduleFill accepts (h2.later_add answer lat) false,
      h2.llcOutcome answer⟩

/-- **A demand access** keeps both levels consistent. -/
theorem AccessOutcome.consistent {r : HierarchyAccessResult}
    (h : AccessOutcome l1 llc addr t lat r l1' llc') (h1 : l1.Consistent (some t))
    (hp1 : l1.PowerOfTwo) (h2 : llc.Consistent (some t)) (hp2 : llc.PowerOfTwo) :
    l1'.Consistent (some t) ∧ llc'.Consistent (some t) := by
  have hl1 := h1.of_same (request_spec l1 addr t false).1
  have hllc := h2.of_same (request_spec llc addr t false).1
  apply h.rule
  · exact ⟨hl1, h2⟩
  · intro _ _
    exact ⟨hl1, hllc⟩
  · intro accepts _ s f c' _ answer
    have hready := h2.toBounded.later_add answer lat
    exact ⟨h1.request_scheduleFill hp1 accepts hready false, h2.llcOutcome hp2 answer⟩

theorem PrefetchOutcome.bounded (h : PrefetchOutcome l1 llc addr t l1' llc')
    (h1 : l1.Bounded (some t)) (h2 : llc.Bounded (some t)) :
    l1'.Bounded (some t) ∧ llc'.Bounded (some t) := by
  have hl1 := h1.of_same (request_spec l1 addr t true).1
  have hllc := h2.of_same (request_spec llc addr t true).1
  apply h.rule
  · intro _
    exact ⟨hl1, h2⟩
  · intro _ _
    exact ⟨hl1, hllc⟩
  · intro accepts _ s f c' _ answer
    exact ⟨h1.request_scheduleFill accepts (h2.later answer) true, h2.llcOutcome answer⟩

/-- **A prefetch** keeps both levels consistent. -/
theorem PrefetchOutcome.consistent
    (h : PrefetchOutcome l1 llc addr t l1' llc') (h1 : l1.Consistent (some t))
    (hp1 : l1.PowerOfTwo) (h2 : llc.Consistent (some t)) (hp2 : llc.PowerOfTwo) :
    l1'.Consistent (some t) ∧ llc'.Consistent (some t) := by
  have hl1 := h1.of_same (request_spec l1 addr t true).1
  have hllc := h2.of_same (request_spec llc addr t true).1
  apply h.rule
  · intro _
    exact ⟨hl1, h2⟩
  · intro _ _
    exact ⟨hl1, hllc⟩
  · intro accepts _ s f c' _ answer
    have hready := h2.toBounded.later answer
    exact ⟨h1.request_scheduleFill hp1 accepts hready true, h2.llcOutcome hp2 answer⟩

/-- Replacing the prefetcher is not visible to a lookup. -/
theorem same_of_prefetcher (c : Cache P) (p : P) : Same c { c with prefetcher := p } :=
  ⟨⟨rfl, rfl, rfl, rfl, rfl, rfl⟩, fun _ => rfl, rfl, fun _ => rfl, rfl⟩

end Cache

namespace MemSubsystem

theorem SameCaches.same {m m' : MemSubsystem P} (h : m.SameCaches m') (x : L1) :
    Cache.Same (m.l1 x) (m'.l1 x) := by
  obtain ⟨p, hp⟩ := h.l1 x
  rw [hp]
  exact Cache.same_of_prefetcher _ p

/-- The subsystems `m` and `m'` have caches of the same geometries and
capacities. -/
structure SameShape (m m' : MemSubsystem P) : Prop where
  l1 : ∀ x, Cache.SameShape (m.l1 x) (m'.l1 x)
  llc : Cache.SameShape m.llc m'.llc

theorem SameShape.refl (m : MemSubsystem P) : m.SameShape m :=
  ⟨fun _ => Cache.SameShape.refl _, Cache.SameShape.refl _⟩

theorem SameShape.putCaches {m m' : MemSubsystem P} (h : m.SameShape m') (x : L1)
    {l1' llc' : Cache P}
    (hs : Cache.SameShape (m'.l1 x) l1' ∧ Cache.SameShape m'.llc llc') :
    m.SameShape (m'.putCaches x l1' llc') where
  l1 := forall_putCaches (J := fun y c => Cache.SameShape (m.l1 y) c) h.l1
    ((h.l1 x).trans hs.1) llc'
  llc := by
    rw [putCaches_llc]
    exact h.llc.trans hs.2

/-- No run changes a geometry or a capacity. -/
theorem sameShape_runInvariant (m₀ : MemSubsystem P) :
    RunInvariant fun _ m => m₀.SameShape m where
  quiet {last m m'} hs h :=
    ⟨fun x => (h.l1 x).trans (hs.same x).toSameShape, hs.llc ▸ h.llc⟩
  access {t m} x addr r l1' llc' hout h := h.putCaches x hout.shape
  prefetch {t m} x addr l1' llc' hout h := h.putCaches x hout.shape
  returns {last m} t i d l _ h :=
    { l1 := fun x => by
        rw [processReturns_l1]
        exact (h.l1 x).trans (Cache.processReturns_shape _ _ _)
      llc := h.llc.trans (Cache.processReturns_shape _ _ _) }

/-- Every table of misses is bounded. -/
structure Bounded (last : Option ℕ) (m : MemSubsystem P) : Prop where
  l1 : ∀ x, (m.l1 x).Bounded last
  llc : m.llc.Bounded last

theorem Bounded.putCaches {m : MemSubsystem P} {last : Option ℕ} (h : m.Bounded last)
    (x : L1) {l1' llc' : Cache P} (hc : l1'.Bounded last ∧ llc'.Bounded last) :
    (m.putCaches x l1' llc').Bounded last where
  l1 := forall_putCaches (J := fun _ c => c.Bounded last) h.l1 hc.1 llc'
  llc := by
    rw [putCaches_llc]
    exact hc.2

theorem bounded_runInvariant : RunInvariant (P := P) fun last m => m.Bounded last where
  quiet {last m m'} hs h :=
    ⟨fun x => (h.l1 x).of_same (hs.same x), hs.llc ▸ h.llc⟩
  access {t m} x addr r l1' llc' hout h := h.putCaches x (hout.bounded (h.l1 x) h.llc)
  prefetch {t m} x addr l1' llc' hout h := h.putCaches x (hout.bounded (h.l1 x) h.llc)
  returns {last m} t i d l _ h :=
    { l1 := fun x => by
        rw [processReturns_l1]
        exact (h.l1 x).processReturns t _
      llc := h.llc.processReturns t l }

/-- The invariant of the subsystem: every cache is consistent. -/
structure Consistent (last : Option ℕ) (m : MemSubsystem P) : Prop where
  l1 : ∀ x, (m.l1 x).Consistent last
  llc : m.llc.Consistent last
  l1PowerOfTwo : ∀ x, (m.l1 x).PowerOfTwo
  llcPowerOfTwo : m.llc.PowerOfTwo

/-- New contents for a first level and the last level. -/
theorem Consistent.putCaches {m : MemSubsystem P} {last : Option ℕ}
    (h : m.Consistent last) (x : L1) {l1' llc' : Cache P}
    (hc : l1'.Consistent last ∧ llc'.Consistent last)
    (hs : Cache.SameShape (m.l1 x) l1' ∧ Cache.SameShape m.llc llc') :
    (m.putCaches x l1' llc').Consistent last where
  l1 := forall_putCaches (J := fun _ c => c.Consistent last) h.l1 hc.1 llc'
  llc := by
    rw [putCaches_llc]
    exact hc.2
  l1PowerOfTwo := forall_putCaches (J := fun _ c => c.PowerOfTwo) h.l1PowerOfTwo
    ((h.l1PowerOfTwo x).of_shape hs.1) llc'
  llcPowerOfTwo := by
    rw [putCaches_llc]
    exact h.llcPowerOfTwo.of_shape hs.2

theorem consistent_runInvariant : RunInvariant (P := P) fun last m => m.Consistent last where
  quiet {last m m'} hs h :=
    { l1 := fun x => (h.l1 x).of_same (hs.same x)
      llc := hs.llc ▸ h.llc
      l1PowerOfTwo := fun x => (h.l1PowerOfTwo x).of_shape (hs.same x).toSameShape
      llcPowerOfTwo := hs.llc ▸ h.llcPowerOfTwo }
  access {t m} x addr r l1' llc' hout h :=
    h.putCaches x (hout.consistent (h.l1 x) (h.l1PowerOfTwo x) h.llc h.llcPowerOfTwo) hout.shape
  prefetch {t m} x addr l1' llc' hout h :=
    h.putCaches x (hout.consistent (h.l1 x) (h.l1PowerOfTwo x) h.llc h.llcPowerOfTwo) hout.shape
  returns {last m} t i d l _ h :=
    { l1 := fun x => by
        rw [processReturns_l1]
        exact (h.l1 x).processReturns (h.l1PowerOfTwo x) t _
      llc := h.llc.processReturns h.llcPowerOfTwo t l
      l1PowerOfTwo := fun x => by
        rw [processReturns_l1]
        exact (h.l1PowerOfTwo x).of_shape (Cache.processReturns_shape _ _ _)
      llcPowerOfTwo := h.llcPowerOfTwo.of_shape (Cache.processReturns_shape _ _ _) }

end MemSubsystem

/-- Every cache of the configuration has power-of-two line size and sets. -/
structure MemConfig.PowerOfTwo (cfg : MemConfig P) : Prop where
  icache : cfg.icache.PowerOfTwo
  dcache : cfg.dcache.PowerOfTwo
  llc : cfg.llc.PowerOfTwo

theorem MemSubsystem.bounded_new (cfg : MemConfig P) : (MemSubsystem.new cfg).Bounded none where
  l1 x := by
    cases x
    · exact Cache.bounded_build cfg.icache
    · exact Cache.bounded_build cfg.dcache
  llc := Cache.bounded_build cfg.llc

theorem MemSubsystem.consistent_new {cfg : MemConfig P} (h : cfg.PowerOfTwo) :
    (MemSubsystem.new cfg).Consistent none where
  l1 x := by
    cases x
    · exact Cache.consistent_build h.icache
    · exact Cache.consistent_build h.dcache
  llc := Cache.consistent_build h.llc
  l1PowerOfTwo x := by
    cases x
    · exact Cache.powerOfTwo_build h.icache
    · exact Cache.powerOfTwo_build h.dcache
  llcPowerOfTwo := Cache.powerOfTwo_build h.llc

/-- The shipped geometries are powers of two. -/
theorem powerOfTwo_shipped : shippedMemConfig.PowerOfTwo where
  icache := CacheConfig.powerOfTwo_of_pow (s := 15) (a := 3) (l := 6) rfl rfl rfl (by decide)
  dcache := CacheConfig.powerOfTwo_of_pow (s := 15) (a := 3) (l := 6) rfl rfl rfl (by decide)
  llc := CacheConfig.powerOfTwo_of_pow (s := 19) (a := 3) (l := 6) rfl rfl rfl (by decide)

namespace MemSubsystem

variable [CachePrefetcher P]

/-- The subsystem `m` is the result of a disciplined run whose latest returns
were those of cycle `last`. -/
def Reachable (cfg : MemConfig P) (last : Option ℕ) (m : MemSubsystem P) : Prop :=
  ∃ ops, Disciplined none ops ∧ latestReturns none ops = last ∧
    (new cfg).execs cfg ops = m

theorem Reachable.execs {cfg : MemConfig P} {last : Option ℕ} {m : MemSubsystem P}
    (h : Reachable cfg last m) {ops : List MemOp} (hops : Disciplined last ops) :
    Reachable cfg (latestReturns last ops) (m.execs cfg ops) := by
  obtain ⟨before, hbefore, rfl, rfl⟩ := h
  refine ⟨before ++ ops, disciplined_append.mpr ⟨hbefore, hops⟩, ?_, execs_append _ _ _ _⟩
  exact List.foldl_append

/-- The subsystem `m'` results from `m` by calls the discipline allows in cycle
`t`, after its returns. -/
def During (cfg : MemConfig P) (t : ℕ) (m m' : MemSubsystem P) : Prop :=
  ∃ ops, Disciplined (some t) ops ∧ latestReturns (some t) ops = some t ∧
    m.execs cfg ops = m'

theorem During.refl (cfg : MemConfig P) (t : ℕ) (m : MemSubsystem P) : During cfg t m m :=
  ⟨[], trivial, rfl, rfl⟩

theorem During.trans {cfg : MemConfig P} {t : ℕ} {m m' m'' : MemSubsystem P}
    (h : During cfg t m m') (h' : During cfg t m' m'') : During cfg t m m'' := by
  obtain ⟨ops, hops, hlast, rfl⟩ := h
  obtain ⟨ops', hops', hlast', rfl⟩ := h'
  refine ⟨ops ++ ops', disciplined_append.mpr ⟨hops, by rwa [hlast]⟩, ?_,
    execs_append _ _ _ _⟩
  rw [latestReturns, List.foldl_append]
  exact (congrArg (List.foldl MemOp.latest · ops') hlast).trans hlast'

theorem during_access (cfg : MemConfig P) (t : ℕ) (m : MemSubsystem P) (x : L1)
    (addr : BitVec 32) : During cfg t m (m.access x addr t).2 :=
  ⟨[.access x addr t], ⟨rfl, trivial⟩, rfl, rfl⟩

theorem during_enqueuePrefetch (cfg : MemConfig P) (t : ℕ) (m : MemSubsystem P)
    (isData : Bool) (pc addr : BitVec 32) (hit : Bool) :
    During cfg t m (m.enqueuePrefetch cfg isData pc addr hit) :=
  ⟨[.enqueuePrefetch isData pc addr hit], ⟨trivial, trivial⟩, rfl, rfl⟩

theorem Reachable.during {cfg : MemConfig P} {t : ℕ} {m m' : MemSubsystem P}
    (h : Reachable cfg (some t) m) (h' : During cfg t m m') :
    Reachable cfg (some t) m' := by
  obtain ⟨ops, hops, hlast, rfl⟩ := h'
  have hrun := h.execs hops
  rwa [hlast] at hrun

/-- An invariant that holds of the initial subsystem holds of every reachable
one. -/
theorem Reachable.invariant {cfg : MemConfig P} {last : Option ℕ} {m : MemSubsystem P}
    (h : Reachable cfg last m) {Inv : Option ℕ → MemSubsystem P → Prop}
    (hinv : RunInvariant Inv) (hnew : Inv none (new cfg)) : Inv last m := by
  obtain ⟨ops, hops, rfl, rfl⟩ := h
  exact hinv.execs cfg hops hnew

theorem Reachable.consistent {cfg : MemConfig P} (hcfg : cfg.PowerOfTwo)
    {last : Option ℕ} {m : MemSubsystem P} (h : Reachable cfg last m) :
    m.Consistent last :=
  h.invariant consistent_runInvariant (consistent_new hcfg)

/-- **Cache consistency**: in every reachable subsystem each of the three caches
is consistent, whatever the orders in which the tables were iterated over. -/
theorem caches_consistent (cfg : MemConfig P) (hcfg : cfg.PowerOfTwo) {last : Option ℕ}
    {m : MemSubsystem P} (h : Reachable cfg last m) :
    m.icache.Consistent last ∧ m.dcache.Consistent last ∧ m.llc.Consistent last :=
  ⟨(h.consistent hcfg).l1 .icache, (h.consistent hcfg).l1 .dcache,
    (h.consistent hcfg).llc⟩

/-- A run that misses in both first levels and returns one of the misses. -/
def twoMissRun : List MemOp :=
  [.processReturns 0 default default default, .access .icache 0x1000 0,
    .processReturns 1 default default default, .access .dcache 0x2000 1,
    .servicePrefetchQueues 1, .processReturns 132 default default default]

theorem twoMissRun_disciplined : Disciplined none twoMissRun := by
  simp [twoMissRun, Disciplined, MemOp.Allowed, MemOp.latest]

theorem caches_consistent_twoMissRun :
    ((new shippedMemConfig).execs shippedMemConfig twoMissRun).icache.Consistent (some 132) ∧
    ((new shippedMemConfig).execs shippedMemConfig twoMissRun).dcache.Consistent (some 132) ∧
    ((new shippedMemConfig).execs shippedMemConfig twoMissRun).llc.Consistent (some 132) :=
  caches_consistent shippedMemConfig powerOfTwo_shipped
    ⟨twoMissRun, twoMissRun_disciplined, rfl, rfl⟩

end MemSubsystem

end TraceSim
