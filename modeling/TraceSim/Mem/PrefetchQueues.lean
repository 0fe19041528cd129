/-
TraceSim/Mem/PrefetchQueues.lean

The prefetch queues.

A candidate of the prefetcher is filtered, found in the queue, dropped or accepted; an
accepted one waits until it is issued to its first level, which counts it.  The traffic
of a queue (`QueueTraffic`) has the candidates, those accepted and those issued, each in
order.  Between the calls of any run, what was accepted is what was issued followed by
what is queued (`Accounted`): so every candidate is counted once, and none overtakes
another.
-/
import TraceSim.Mem.Runs
import TraceSim.Mem.Mshrs

namespace TraceSim

variable {P : Type}

/-! ### Traffic -/

/-- The addresses that come into a prefetch queue and go out of it, oldest first. -/
structure QueueTraffic where
  candidates : List (BitVec 32) := []
  accepted : List (BitVec 32) := []
  issued : List (BitVec 32) := []

namespace QueueTraffic

instance : Append QueueTraffic where
  append a b := ⟨a.candidates ++ b.candidates, a.accepted ++ b.accepted, a.issued ++ b.issued⟩

@[simp] theorem candidates_append (a b : QueueTraffic) :
    (a ++ b).candidates = a.candidates ++ b.candidates := rfl

@[simp] theorem accepted_append (a b : QueueTraffic) :
    (a ++ b).accepted = a.accepted ++ b.accepted := rfl

@[simp] theorem issued_append (a b : QueueTraffic) :
    (a ++ b).issued = a.issued ++ b.issued := rfl

theorem append_empty (a : QueueTraffic) : a ++ ({} : QueueTraffic) = a := by
  obtain ⟨candidates, accepted, issued⟩ := a
  change QueueTraffic.mk (candidates ++ []) (accepted ++ []) (issued ++ []) = _
  rw [List.append_nil, List.append_nil, List.append_nil]

theorem append_assoc (a b c : QueueTraffic) : a ++ b ++ c = a ++ (b ++ c) := by
  change QueueTraffic.mk _ _ _ = QueueTraffic.mk _ _ _
  simp

end QueueTraffic

/-! ### Candidates -/

/-- The queue takes in a candidate. -/
def PrefetchQueue.accepts (l1 : Cache P) (limit : ℕ) (q : PrefetchQueue)
    (request : PrefetchRequest) : Bool :=
  !l1.contains request.addr
    && !(q.queue.any fun queued => l1.getBlockAddr queued == l1.getBlockAddr request.addr)
    && decide (q.queue.length < limit)

/-- The traffic of the loop of `enqueue_prefetch`. -/
def offerTraffic (l1 : Cache P) (limit : ℕ) : PrefetchQueue → List PrefetchRequest → QueueTraffic
  | _, [] => {}
  | q, request :: requests =>
      { candidates := [request.addr]
        accepted := if q.accepts l1 limit request then [request.addr] else [] }
        ++ offerTraffic l1 limit (q.offer l1 limit request) requests

/-- What holds of a queue with the given traffic so far; `line` is the line of an
address. -/
structure QueueAccount (line : BitVec 32 → BitVec 32) (limit : ℕ) (q : PrefetchQueue)
    (log : QueueTraffic) : Prop where
  bound : q.queue.length ≤ limit
  lines : q.queue.Pairwise fun a b => line a ≠ line b
  counted : log.candidates.length
    = q.stats.filteredHit + q.stats.duplicate + q.stats.drop + log.accepted.length
  order : log.accepted = log.issued ++ q.queue

section Offer

variable {l1 : Cache P} {limit : ℕ} {q : PrefetchQueue} {log : QueueTraffic}

/-- **One candidate** is counted or accepted. -/
theorem QueueAccount.offer (h : QueueAccount l1.getBlockAddr limit q log)
    (request : PrefetchRequest) :
    QueueAccount l1.getBlockAddr limit (q.offer l1 limit request)
      (log ++ { candidates := [request.addr]
                accepted := if q.accepts l1 limit request then [request.addr] else [] }) := by
  have hcounted := h.counted
  -- the three filters, in the order of the source
  rcases hhit : l1.contains request.addr with - | -
  swap
  · have haccepts : q.accepts l1 limit request = false := by
      rw [PrefetchQueue.accepts, hhit]
      rfl
    rw [PrefetchQueue.offer, if_pos hhit, haccepts, if_neg Bool.false_ne_true]
    refine ⟨h.bound, h.lines, ?_, ?_⟩
    · simp only [QueueTraffic.candidates_append, QueueTraffic.accepted_append,
        List.length_append, List.length_singleton, List.append_nil]
      omega
    · simpa using h.order
  rcases hdup : q.queue.any fun queued =>
      l1.getBlockAddr queued == l1.getBlockAddr request.addr with - | -
  swap
  · have haccepts : q.accepts l1 limit request = false := by
      rw [PrefetchQueue.accepts, hhit, hdup]
      rfl
    rw [PrefetchQueue.offer, hhit, if_neg Bool.false_ne_true, if_pos hdup, haccepts,
      if_neg Bool.false_ne_true]
    refine ⟨h.bound, h.lines, ?_, ?_⟩
    · simp only [QueueTraffic.candidates_append, QueueTraffic.accepted_append,
        List.length_append, List.length_singleton, List.append_nil]
      omega
    · simpa using h.order
  by_cases hfull : q.queue.length ≥ limit
  · have haccepts : q.accepts l1 limit request = false := by
      rw [PrefetchQueue.accepts, hhit, hdup, decide_eq_false (not_lt.mpr hfull)]
      rfl
    rw [PrefetchQueue.offer, hhit, if_neg Bool.false_ne_true, hdup,
      if_neg Bool.false_ne_true, if_pos hfull, haccepts, if_neg Bool.false_ne_true]
    refine ⟨h.bound, h.lines, ?_, ?_⟩
    · simp only [QueueTraffic.candidates_append, QueueTraffic.accepted_append,
        List.length_append, List.length_singleton, List.append_nil]
      omega
    · simpa using h.order
  · have haccepts : q.accepts l1 limit request = true := by
      rw [PrefetchQueue.accepts, hhit, hdup, decide_eq_true (not_le.mp hfull)]
      rfl
    rw [PrefetchQueue.offer, hhit, if_neg Bool.false_ne_true, hdup,
      if_neg Bool.false_ne_true, if_neg hfull, haccepts, if_pos rfl]
    refine ⟨?_, ?_, ?_, ?_⟩
    · rw [List.length_append, List.length_singleton]
      omega
    · rw [List.pairwise_append]
      refine ⟨h.lines, List.pairwise_singleton _ _, fun a ha b hb => ?_⟩
      rw [List.mem_singleton.mp hb]
      rw [List.any_eq_false] at hdup
      simpa using hdup a ha
    · simp only [QueueTraffic.candidates_append, QueueTraffic.accepted_append,
        List.length_append, List.length_singleton]
      omega
    · simp only [QueueTraffic.accepted_append, QueueTraffic.issued_append, List.append_nil]
      rw [h.order, List.append_assoc]

theorem QueueAccount.offers (h : QueueAccount l1.getBlockAddr limit q log)
    (requests : List PrefetchRequest) :
    QueueAccount l1.getBlockAddr limit (requests.foldl (PrefetchQueue.offer l1 limit) q)
      (log ++ offerTraffic l1 limit q requests) := by
  induction requests generalizing q log with
  | nil =>
    rw [offerTraffic, QueueTraffic.append_empty]
    exact h
  | cons request requests ih =>
    rw [offerTraffic, ← QueueTraffic.append_assoc]
    exact ih (h.offer request)

theorem offerTraffic_issued (l1 : Cache P) (limit : ℕ) (q : PrefetchQueue)
    (requests : List PrefetchRequest) : (offerTraffic l1 limit q requests).issued = [] := by
  induction requests generalizing q with
  | nil => rfl
  | cons request requests ih =>
    rw [offerTraffic, QueueTraffic.issued_append, ih]
    rfl

/-- Prefetches that leave the queue at its front. -/
theorem QueueAccount.issue {line : BitVec 32 → BitVec 32} (h : QueueAccount line limit q log)
    {issued rest : List (BitVec 32)} (hqueue : issued ++ rest = q.queue) :
    QueueAccount line limit { q with queue := rest } (log ++ { issued := issued }) where
  bound := by
    have hbound := h.bound
    rw [← hqueue, List.length_append] at hbound
    exact (Nat.le_add_left _ _).trans hbound
  lines := by
    have hlines := h.lines
    rw [← hqueue, List.pairwise_append] at hlines
    exact hlines.2.1
  counted := by simpa using h.counted
  order := by simpa [hqueue] using h.order

end Offer

/-! ### The count of the first level -/

section Counts

variable {l1 llc l1' llc' : Cache P} {addr : BitVec 32} {t lat : ℕ}

theorem Cache.request_prefetch (c : Cache P) (addr : BitVec 32) (t : ℕ) (pf : Bool) :
    (c.request addr t pf).2.counters.prefetch
      = c.counters.prefetch + if pf then 1 else 0 := by
  obtain ⟨u, d, l, hk⟩ := request_counters c addr t pf
  rw [hk]
  cases (request_spec c addr t pf).2 with
  | hit hres => rw [hres]; cases pf <;> rfl
  | merged hres => rw [hres]; cases pf <;> rfl
  | full hres => rw [hres]; cases pf <;> rfl
  | new hres => rw [hres]; cases pf <;> rfl

/-- A demand access counts no prefetch of its first level. -/
theorem Cache.AccessOutcome.prefetch {r : HierarchyAccessResult}
    (h : AccessOutcome l1 llc addr t lat r l1' llc') :
    l1'.counters.prefetch = l1.counters.prefetch := by
  have hreq := request_prefetch l1 addr t false
  cases h with
  | fill => rwa [scheduleFill_counters]
  | _ => exact hreq

/-- Whatever comes of a prefetch, its first level counts it. -/
theorem Cache.PrefetchOutcome.prefetch (h : PrefetchOutcome l1 llc addr t l1' llc') :
    l1'.counters.prefetch = l1.counters.prefetch + 1 := by
  have hreq := request_prefetch l1 addr t true
  cases h with
  | fill => rwa [scheduleFill_counters]
  | _ => exact hreq

/-- The addresses that a loop of `service_prefetch_queues` issues. -/
def issuedPrefetches : ℕ → List (BitVec 32) → List (BitVec 32)
  | 0, _ => []
  | _ + 1, [] => []
  | n + 1, addr :: queue => addr :: issuedPrefetches n queue

/-- **The service of a queue**: it issues from the front, and the first level counts what
it is issued. -/
theorem servicePrefetchQueue_issued (t n : ℕ) (queue : List (BitVec 32)) (l1 llc : Cache P) :
    issuedPrefetches n queue ++ (servicePrefetchQueue t n queue l1 llc).1 = queue ∧
      (servicePrefetchQueue t n queue l1 llc).2.1.counters.prefetch
        = l1.counters.prefetch + (issuedPrefetches n queue).length := by
  induction n generalizing queue l1 llc with
  | zero => exact ⟨rfl, rfl⟩
  | succ n ih =>
    cases queue with
    | nil => exact ⟨rfl, rfl⟩
    | cons addr queue =>
      obtain ⟨l1', llc', heq, hout⟩ := issuePrefetchToL1_spec l1 llc addr t
      obtain ⟨hqueue, hcount⟩ := ih queue l1' llc'
      rw [issuedPrefetches, servicePrefetchQueue, heq]
      refine ⟨congrArg (addr :: ·) hqueue, ?_⟩
      dsimp only
      rw [hcount, hout.prefetch, List.length_cons]
      omega

end Counts

namespace MemSubsystem

/-! ### Calls -/

/-- The prefetch queue of a first level. -/
def prefetchQueue (m : MemSubsystem P) : L1 → PrefetchQueue
  | .icache => m.icachePrefetch
  | .dcache => m.dcachePrefetch

end MemSubsystem

/-- The first level that `enqueue_prefetch` selects. -/
def L1.ofData (isData : Bool) : L1 := if isData then .dcache else .icache

/-- The limit of the prefetch queue of a first level. -/
def MemConfig.queueLimit (cfg : MemConfig P) : L1 → ℕ
  | .icache => cfg.icachePrefetchQueueSize
  | .dcache => cfg.dcachePrefetchQueueSize

/-- How many prefetches of a first level are issued in a call. -/
def MemConfig.issueRate (cfg : MemConfig P) : L1 → ℕ
  | .icache => cfg.icachePrefetchIssuePerCycle
  | .dcache => cfg.dcachePrefetchIssuePerCycle

namespace MemSubsystem

variable {cfg : MemConfig P} {m : MemSubsystem P} {x : L1} {log : QueueTraffic}

/-- The traffic of the queue of a first level during a call of `service_prefetch_queues`. -/
def serviceTraffic (cfg : MemConfig P) (x : L1) (m : MemSubsystem P) : QueueTraffic :=
  { issued := issuedPrefetches (cfg.issueRate x) (m.prefetchQueue x).queue }

/-- What holds of the queue of a first level between the calls. -/
structure Accounted (cfg : MemConfig P) (x : L1) (m : MemSubsystem P) (log : QueueTraffic) :
    Prop extends QueueAccount (m.l1 x).getBlockAddr (cfg.queueLimit x) (m.prefetchQueue x) log
    where
  issued : (m.l1 x).counters.prefetch = log.issued.length

theorem accounted_new (cfg : MemConfig P) (x : L1) : (new cfg).Accounted cfg x {} where
  bound := by
    cases x <;> exact Nat.zero_le _
  lines := by
    cases x <;> exact List.Pairwise.nil
  counted := by
    cases x <;> rfl
  order := by
    cases x <;> rfl
  issued := by
    cases x <;> rfl

/-- A call that leaves the queue alone. -/
theorem Accounted.same {m' : MemSubsystem P} (h : m.Accounted cfg x log)
    (hqueue : QueueAccount (m.l1 x).getBlockAddr (cfg.queueLimit x) (m'.prefetchQueue x) log)
    (hshape : Cache.SameShape (m.l1 x) (m'.l1 x))
    (hcount : (m'.l1 x).counters.prefetch = (m.l1 x).counters.prefetch) :
    m'.Accounted cfg x (log ++ ({} : QueueTraffic)) := by
  have hline : (m'.l1 x).getBlockAddr = (m.l1 x).getBlockAddr := funext hshape.getBlockAddr
  rw [QueueTraffic.append_empty]
  refine ⟨?_, hcount.trans h.issued⟩
  rw [hline]
  exact hqueue

theorem Accounted.access (h : m.Accounted cfg x log) (y : L1) (addr : BitVec 32) (t : ℕ) :
    (m.access y addr t).2.Accounted cfg x (log ++ ({} : QueueTraffic)) := by
  obtain ⟨r, l1', llc', heq, hout⟩ := m.access_spec y addr t
  rw [heq]
  have hqueue : (m.putCaches y l1' llc').prefetchQueue x = m.prefetchQueue x := by
    cases x <;> cases y <;> rfl
  refine h.same (hqueue ▸ h.toQueueAccount) ?_ ?_
  · rw [putCaches_l1]
    split_ifs with hxy
    · exact hxy ▸ hout.shape.1
    · exact .refl _
  · rw [putCaches_l1]
    split_ifs with hxy
    · exact hxy ▸ hout.prefetch
    · rfl

theorem Accounted.processReturns (h : m.Accounted cfg x log) (t : ℕ) (i d l : TableOrder) :
    (m.processReturns t i d l).Accounted cfg x (log ++ ({} : QueueTraffic)) := by
  have hqueue : (m.processReturns t i d l).prefetchQueue x = m.prefetchQueue x := by
    cases x <;> rfl
  refine h.same (hqueue ▸ h.toQueueAccount) ?_ ?_
  · rw [processReturns_l1]
    exact Cache.processReturns_shape _ _ _
  · obtain ⟨u, p, hk⟩ := Cache.processReturns_counters (m.l1 x) t (L1.table i d x)
    rw [processReturns_l1, hk]

theorem Accounted.servicePrefetchQueues (h : m.Accounted cfg x log) (t : ℕ) :
    (m.servicePrefetchQueues cfg t).Accounted cfg x (log ++ m.serviceTraffic cfg x) := by
  have hshape : Cache.SameShape (m.l1 x) ((m.servicePrefetchQueues cfg t).l1 x) :=
    ((sameShape_runInvariant m).servicePrefetchQueues cfg (t := t) (SameShape.refl m)).l1 x
  -- the I-cache is served first and leaves its last level to the D-cache
  have hserved : ∃ llc, (m.servicePrefetchQueues cfg t).prefetchQueue x
        = { m.prefetchQueue x with
            queue := (servicePrefetchQueue t (cfg.issueRate x) (m.prefetchQueue x).queue
              (m.l1 x) llc).1 } ∧
      (m.servicePrefetchQueues cfg t).l1 x
        = (servicePrefetchQueue t (cfg.issueRate x) (m.prefetchQueue x).queue (m.l1 x)
            llc).2.1 := by
    cases x with
    | icache => exact ⟨m.llc, rfl, rfl⟩
    | dcache => exact ⟨_, rfl, rfl⟩
  obtain ⟨llc, hqueue, hl1⟩ := hserved
  obtain ⟨hissued, hcount⟩ := servicePrefetchQueue_issued t (cfg.issueRate x)
    (m.prefetchQueue x).queue (m.l1 x) llc
  refine ⟨?_, ?_⟩
  · rw [hqueue, show ((m.servicePrefetchQueues cfg t).l1 x).getBlockAddr = (m.l1 x).getBlockAddr
      from funext hshape.getBlockAddr]
    exact h.toQueueAccount.issue hissued
  · rw [hl1, hcount, h.issued, QueueTraffic.issued_append, List.length_append]
    rfl

end MemSubsystem

/-! ### Runs -/

/-- A call of any public method of the subsystem that changes it. -/
inductive MemCall
  | op (op : MemOp)
  | resetBaselines

namespace MemSubsystem

variable [CachePrefetcher P] {cfg : MemConfig P} {m : MemSubsystem P} {x : L1}
  {log : QueueTraffic}

def call (cfg : MemConfig P) (m : MemSubsystem P) : MemCall → MemSubsystem P
  | .op op => m.exec cfg op
  | .resetBaselines => m.resetBaselines

def calls (cfg : MemConfig P) (m : MemSubsystem P) (cs : List MemCall) : MemSubsystem P :=
  cs.foldl (call cfg) m

/-- The traffic of the queue of a first level during a call of `enqueue_prefetch`. -/
def enqueueTraffic (cfg : MemConfig P) (x : L1) (m : MemSubsystem P) (isData : Bool)
    (pc addr : BitVec 32) (hit : Bool) : QueueTraffic :=
  if L1.ofData isData = x then
    offerTraffic (m.l1 x) (cfg.queueLimit x) (m.prefetchQueue x)
      (CachePrefetcher.onAccess (m.l1 x).prefetcher
        (accessInfo (m.l1 x).lineSize isData pc addr hit)).1
  else {}

/-- The traffic of the queue of a first level during a call. -/
def traffic (cfg : MemConfig P) (x : L1) (m : MemSubsystem P) : MemCall → QueueTraffic
  | .op (.enqueuePrefetch isData pc addr hit) => m.enqueueTraffic cfg x isData pc addr hit
  | .op (.servicePrefetchQueues _) => m.serviceTraffic cfg x
  | _ => {}

/-- The traffic of the queue of a first level during a run. -/
def traffics (cfg : MemConfig P) (x : L1) : MemSubsystem P → List MemCall → QueueTraffic
  | _, [] => {}
  | m, c :: cs => m.traffic cfg x c ++ traffics cfg x (m.call cfg c) cs

theorem Accounted.enqueuePrefetch (h : m.Accounted cfg x log) (isData : Bool)
    (pc addr : BitVec 32) (hit : Bool) :
    (m.enqueuePrefetch cfg isData pc addr hit).Accounted cfg x
      (log ++ m.enqueueTraffic cfg x isData pc addr hit) := by
  unfold enqueueTraffic
  by_cases hx : L1.ofData isData = x
  · rw [if_pos hx]
    have hoffers := h.toQueueAccount.offers (CachePrefetcher.onAccess (m.l1 x).prefetcher
      (accessInfo (m.l1 x).lineSize isData pc addr hit)).1
    have hissued := h.issued
    rw [← List.append_nil log.issued, ← offerTraffic_issued (m.l1 x) (cfg.queueLimit x)
      (m.prefetchQueue x) (CachePrefetcher.onAccess (m.l1 x).prefetcher
        (accessInfo (m.l1 x).lineSize isData pc addr hit)).1] at hissued
    subst hx
    cases isData <;> exact ⟨hoffers, hissued⟩
  · rw [if_neg hx]
    have hqueue : (m.enqueuePrefetch cfg isData pc addr hit).prefetchQueue x
        = m.prefetchQueue x := by
      cases isData <;> cases x <;> first | rfl | exact absurd rfl hx
    have hsame := m.enqueuePrefetch_same cfg isData pc addr hit
    refine h.same (hqueue ▸ h.toQueueAccount) (hsame.same x).toSameShape ?_
    obtain ⟨p, hp⟩ := hsame.l1 x
    rw [hp]

/-- **One call** accounts for the candidates it produces. -/
theorem Accounted.call (h : m.Accounted cfg x log) (c : MemCall) :
    (m.call cfg c).Accounted cfg x (log ++ m.traffic cfg x c) := by
  cases c with
  | op op =>
    cases op with
    | access y addr t => exact h.access y addr t
    | enqueuePrefetch isData pc addr hit => exact h.enqueuePrefetch isData pc addr hit
    | servicePrefetchQueues t => exact h.servicePrefetchQueues t
    | processReturns t i d l => exact h.processReturns t i d l
  | resetBaselines =>
    have hqueue : m.resetBaselines.prefetchQueue x = m.prefetchQueue x := by
      cases x <;> rfl
    have hl1 : m.resetBaselines.l1 x = m.l1 x := by
      cases x <;> rfl
    refine h.same (hqueue ▸ h.toQueueAccount) ?_ ?_
    · exact hl1 ▸ .refl _
    · exact hl1 ▸ rfl

theorem Accounted.calls (h : m.Accounted cfg x log) (cs : List MemCall) :
    (m.calls cfg cs).Accounted cfg x (log ++ m.traffics cfg x cs) := by
  induction cs generalizing m log with
  | nil =>
    rw [traffics, QueueTraffic.append_empty]
    exact h
  | cons c cs ih =>
    rw [traffics, ← QueueTraffic.append_assoc]
    exact ih (h.call c)

theorem During.calls {t : ℕ} {m' : MemSubsystem P} (h : During cfg t m m') :
    ∃ cs, m' = m.calls cfg cs := by
  obtain ⟨ops, -, -, rfl⟩ := h
  refine ⟨ops.map .op, ?_⟩
  rw [MemSubsystem.calls, List.foldl_map]
  rfl

/-- **The prefetch queues**, after any calls and for any prefetcher.  A queue is within
its limit and has no two addresses of one line; every candidate was filtered, found in the
queue, dropped, issued to the first level, or is queued; and the candidates leave the
queue in the order in which they were accepted. -/
theorem prefetchQueue_accounted (cfg : MemConfig P) (x : L1) (cs : List MemCall) :
    (((new cfg).calls cfg cs).prefetchQueue x).queue.length ≤ cfg.queueLimit x ∧
    (((new cfg).calls cfg cs).prefetchQueue x).queue.Pairwise (fun a b =>
      (((new cfg).calls cfg cs).l1 x).getBlockAddr a
        ≠ (((new cfg).calls cfg cs).l1 x).getBlockAddr b) ∧
    ((new cfg).traffics cfg x cs).candidates.length
      = (((new cfg).calls cfg cs).prefetchQueue x).stats.filteredHit
        + (((new cfg).calls cfg cs).prefetchQueue x).stats.duplicate
        + (((new cfg).calls cfg cs).prefetchQueue x).stats.drop
        + (((new cfg).calls cfg cs).l1 x).counters.prefetch
        + (((new cfg).calls cfg cs).prefetchQueue x).queue.length ∧
    ((new cfg).traffics cfg x cs).accepted
      = ((new cfg).traffics cfg x cs).issued
        ++ (((new cfg).calls cfg cs).prefetchQueue x).queue := by
  have h := (accounted_new cfg x).calls cs
  have hlog : ({} : QueueTraffic) ++ (new cfg).traffics cfg x cs = (new cfg).traffics cfg x cs :=
    rfl
  rw [hlog] at h
  refine ⟨h.bound, h.lines, ?_, h.order⟩
  rw [h.counted, h.order, h.issued, List.length_append]
  omega

end MemSubsystem

end TraceSim
