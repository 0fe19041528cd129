/-
TraceSim/Core/IcacheMisses.lean

An instruction fetch misses once.

After a miss the record waits in the one-entry buffer, fetch is stalled until the
promised cycle, and the returns of that cycle come before its fetch.  So the I-cache is
asked again only when the line is there, and then for the same pc.  `Phase` says where
a miss stands, given the latest access; `Refetched` is what the log says of the misses
so far.
-/
import TraceSim.Core.FetchGroups
import TraceSim.Mem.SingleMiss

namespace TraceSim

open Relation

/-! ### The accesses of a log -/

/-- An access to the I-cache. -/
structure IcacheAccess where
  pc : BitVec 32
  cycle : ℕ
  result : HierarchyAccessResult

def IcacheAccess.event (a : IcacheAccess) : FetchEvent := .access a.pc a.cycle a.result

/-- The access does not hit. -/
def IcacheAccess.missed (a : IcacheAccess) : Bool := !a.result.l1Hit

/-- The accesses of a log. -/
def accesses (log : List FetchEvent) : List IcacheAccess :=
  log.filterMap fun
    | .access pc cycle result => some ⟨pc, cycle, result⟩
    | _ => none

@[simp] theorem accesses_append (log log' : List FetchEvent) :
    accesses (log ++ log') = accesses log ++ accesses log' :=
  List.filterMap_append

@[simp] theorem accesses_event (a : IcacheAccess) (log : List FetchEvent) :
    accesses (a.event :: log) = a :: accesses log := rfl

/-- What follows the miss `a`: its record is put back, and is in the buffer until the next
access, which is made when the line is there, for the same pc, and hits. -/
structure Retried (buffer : List TraceInst) (a : IcacheAccess) (after : List FetchEvent) :
    Prop where
  requeued : ∃ inst rest, after = .requeued inst :: rest ∧ inst.pc = a.pc ∧
    (accesses after = [] → buffer = [inst])
  later : ∀ a' ∈ accesses after, a.result.readyCycle ≤ a'.cycle
  next : ∀ a' ∈ (accesses after).head?, a'.pc = a.pc ∧ a'.result.hits = true

/-- More events after a miss: the first access among them, if it is the first after the
miss, is the retry. -/
theorem Retried.append {buffer buffer' : List TraceInst} {a : IcacheAccess}
    {after events : List FetchEvent} (h : Retried buffer a after)
    (hbuffer : accesses after = [] → accesses events = [] → buffer' = buffer)
    (hlater : ∀ a' ∈ accesses events, a.result.readyCycle ≤ a'.cycle)
    (hnext : accesses after = [] →
      ∀ a' ∈ (accesses events).head?, a'.pc = a.pc ∧ a'.result.hits = true) :
    Retried buffer' a (after ++ events) where
  requeued := by
    obtain ⟨inst, rest, rfl, hpc, hwaits⟩ := h.requeued
    refine ⟨inst, rest ++ events, rfl, hpc, fun hnone => ?_⟩
    rw [accesses_append, List.append_eq_nil_iff] at hnone
    rw [hbuffer hnone.1 hnone.2]
    exact hwaits hnone.1
  later a' ha' := by
    rw [accesses_append, List.mem_append] at ha'
    rcases ha' with ha' | ha'
    · exact h.later a' ha'
    · exact hlater a' ha'
  next a' ha' := by
    rw [accesses_append] at ha'
    -- the next access is among the earlier events, if there was one
    rcases e : accesses after with - | ⟨a₁, rest⟩
    · rw [e, List.nil_append] at ha'
      exact hnext e a' ha'
    · rw [e] at ha'
      refine h.next a' ?_
      rw [e]
      exact ha'

namespace Sim

variable {P B : Type} {cfg : Config P B} {env : Env} {s s' : Sim P B}
  {log : List FetchEvent}

/-- What holds of the accesses made so far. -/
structure Refetched (s : Sim P B) (log : List FetchEvent) : Prop where
  served : ∀ a ∈ accesses log, a.result.blocked = false
  stalled : ∀ a ∈ accesses log, a.missed = true → a.result.readyCycle ≤ s.fetchStallUntil
  past : ∀ a ∈ accesses log, a.cycle ≤ s.totalCycles
  ordered : (accesses log).Pairwise fun a a' => a.cycle ≤ a'.cycle
  retried : ∀ before a after, log = before ++ a.event :: after → a.missed = true →
    Retried s.preFetchBuffer a after

theorem Refetched.same (h : Refetched s log) (hstall : s.fetchStallUntil ≤ s'.fetchStallUntil)
    (hcycles : s.totalCycles ≤ s'.totalCycles)
    (hbuffer : s'.preFetchBuffer = s.preFetchBuffer) : Refetched s' log where
  served := h.served
  stalled a ha hmissed := (h.stalled a ha hmissed).trans hstall
  past a ha := (h.past a ha).trans hcycles
  ordered := h.ordered
  retried before a after heq hmissed := hbuffer ▸ h.retried before a after heq hmissed

/-- A miss that no access follows is the latest access. -/
theorem getLast?_accesses {before after : List FetchEvent} {a : IcacheAccess}
    (h : accesses after = []) : (accesses (before ++ a.event :: after)).getLast? = some a := by
  rw [accesses_append, accesses_event, h, List.getLast?_append_of_ne_nil _ (List.cons_ne_nil _ _),
    List.getLast?_singleton]

/-- Events without an access, after an access that hits. -/
theorem Refetched.quiet (h : Refetched s log)
    (hhit : ∀ a ∈ (accesses log).getLast?, a.missed = false)
    (hstall : s.fetchStallUntil ≤ s'.fetchStallUntil)
    (hcycles : s.totalCycles ≤ s'.totalCycles) {events : List FetchEvent}
    (hnone : accesses events = []) : Refetched s' (log ++ events) := by
  have heq : accesses (log ++ events) = accesses log := by
    rw [accesses_append, hnone, List.append_nil]
  refine ⟨heq ▸ h.served, fun a ha hmissed => ?_, fun a ha => ?_, heq ▸ h.ordered,
    fun before a after hsplit hmissed => ?_⟩
  · exact (h.stalled a (heq ▸ ha) hmissed).trans hstall
  · exact (h.past a (heq ▸ ha)).trans hcycles
  · rcases append_eq_append_cons hsplit with ⟨rest, rfl, rfl⟩ | ⟨rest, -, hevents⟩
    · refine (h.retried before a rest rfl hmissed).append (fun hrest => ?_)
        (by simp [hnone]) (by simp [hnone])
      -- the latest access hits, so it is not this miss
      have hlast := hhit a (getLast?_accesses hrest)
      rw [hmissed] at hlast
      cases hlast
    · rw [hevents, accesses_append, accesses_event] at hnone
      cases (List.append_eq_nil_iff.mp hnone).2

/-- **An access**, when no stall is active: if the latest access missed, it is the
retry; if it misses itself, its record is put back. -/
theorem Refetched.access (h : Refetched s log) {a : IcacheAccess} {tail : List FetchEvent}
    (hcan : s.fetchStallUntil ≤ s.totalCycles) (hcycle : a.cycle = s.totalCycles)
    (hserved : a.result.blocked = false) (hnone : accesses tail = [])
    (hretry : ∀ a₀ ∈ (accesses log).getLast?, a₀.missed = true →
      a.pc = a₀.pc ∧ a.result.hits = true)
    (hmiss : a.missed = true → a.result.readyCycle ≤ s'.fetchStallUntil ∧
      ∃ inst, tail = [.requeued inst] ∧ inst.pc = a.pc ∧ s'.preFetchBuffer = [inst])
    (hstall : s.fetchStallUntil ≤ s'.fetchStallUntil)
    (hcycles : s'.totalCycles = s.totalCycles) : Refetched s' (log ++ a.event :: tail) := by
  have heq : accesses (log ++ a.event :: tail) = accesses log ++ [a] := by
    rw [accesses_append, accesses_event, hnone]
  have hcases {a' : IcacheAccess} (ha' : a' ∈ accesses (log ++ a.event :: tail)) :
      a' ∈ accesses log ∨ a' = a := by
    rw [heq, List.mem_append, List.mem_singleton] at ha'
    exact ha'
  refine ⟨fun a' ha' => ?_, fun a' ha' hmissed => ?_, fun a' ha' => ?_, ?_,
    fun before a' after hsplit hmissed => ?_⟩
  · rcases hcases ha' with ha' | rfl
    · exact h.served a' ha'
    · exact hserved
  · rcases hcases ha' with ha' | rfl
    · exact (h.stalled a' ha' hmissed).trans hstall
    · exact (hmiss hmissed).1
  · rw [hcycles]
    rcases hcases ha' with ha' | rfl
    · exact h.past a' ha'
    · exact hcycle.le
  · rw [heq, List.pairwise_append]
    refine ⟨h.ordered, List.pairwise_singleton _ _, fun a₁ ha₁ a₂ ha₂ => ?_⟩
    rw [List.mem_singleton.mp ha₂, hcycle]
    exact h.past a₁ ha₁
  · rcases append_eq_append_cons hsplit with ⟨rest, rfl, rfl⟩ | ⟨rest, -, hevents⟩
    -- an earlier miss: its stall is over
    · have hstalled := h.stalled a' (by simp) hmissed
      refine (h.retried before a' rest rfl hmissed).append (fun _ hnone' => ?_)
        (fun a₁ ha₁ => ?_) (fun hrest a₁ ha₁ => ?_)
      · rw [accesses_event] at hnone'
        cases hnone'
      · rw [accesses_event, hnone, List.mem_singleton] at ha₁
        rw [ha₁, hcycle]
        exact hstalled.trans hcan
      · rw [accesses_event, List.head?_cons, Option.mem_some_iff] at ha₁
        subst ha₁
        exact hretry a' (getLast?_accesses hrest) hmissed
    -- the new miss
    · rcases rest with - | ⟨event, rest⟩
      · rw [List.nil_append, List.cons.injEq] at hevents
        obtain ⟨hevent, rfl⟩ := hevents
        obtain rfl : a = a' := by
          cases a
          cases a'
          cases hevent
          rfl
        obtain ⟨-, inst, rfl, hpc, hbuffer⟩ := hmiss hmissed
        refine ⟨⟨inst, [], rfl, hpc, fun _ => hbuffer⟩, ?_, ?_⟩ <;> simp [hnone]
      · rw [List.cons_append, List.cons.injEq] at hevents
        rw [hevents.2, accesses_append, accesses_event] at hnone
        cases (List.append_eq_nil_iff.mp hnone).2

/-! ### Where a miss stands -/

/-- Where the latest access stands at a boundary. -/
inductive Phase (b : Boundary) (s : Sim P B) : Option IcacheAccess → Prop
  /-- no miss is waited for -/
  | idle {last} (hit : ∀ a ∈ last, a.missed = false) (idle : s.mem.icache.Idle) :
      Phase b s last
  /-- the line is on its way, and not before the promised cycle -/
  | waits {a} (missed : a.missed = true) (inst) (buffer : s.preFetchBuffer = [inst])
      (pc : inst.pc = a.pc)
      (awaits : s.mem.icache.Awaits (s.mem.icache.getBlockAddr a.pc) a.result.readyCycle)
      (early : b ≠ .returns → s.totalCycles < a.result.readyCycle) : Phase b s (some a)
  /-- the line is there, and nobody has asked for it again -/
  | arrived {a} (missed : a.missed = true) (inst) (buffer : s.preFetchBuffer = [inst])
      (pc : inst.pc = a.pc) (idle : s.mem.icache.Idle)
      (resident : s.mem.icache.contains a.pc = true) : Phase b s (some a)

/-- The I-cache and its queue of `s'` are those of `s`. -/
structure SameIcache (s s' : Sim P B) : Prop where
  icache : s'.mem.icache = s.mem.icache
  icachePrefetch : s'.mem.icachePrefetch = s.mem.icachePrefetch

theorem SameIcache.refl (s : Sim P B) : SameIcache s s := ⟨rfl, rfl⟩

theorem SameIcache.trans (h : SameIcache s s') (h' : SameIcache s' s'') : SameIcache s s'' where
  icache := h'.icache.trans h.icache
  icachePrefetch := h'.icachePrefetch.trans h.icachePrefetch

theorem Phase.same {b b' : Boundary} {last : Option IcacheAccess} (h : Phase b s last)
    (hcache : SameIcache s s') (hbuffer : s'.preFetchBuffer = s.preFetchBuffer)
    (hcycles : b' ≠ .returns → b ≠ .returns ∧ s'.totalCycles = s.totalCycles) :
    Phase b' s' last := by
  cases h with
  | idle hit idle => exact .idle hit (hcache.icache ▸ idle)
  | waits missed inst buffer pc awaits early =>
    refine .waits missed inst (hbuffer.trans buffer) pc (hcache.icache ▸ awaits) fun hb => ?_
    obtain ⟨hb', heq⟩ := hcycles hb
    rw [heq]
    exact early hb'
  | arrived missed inst buffer pc idle resident =>
    exact .arrived missed inst (hbuffer.trans buffer) pc (hcache.icache ▸ idle)
      (hcache.icache ▸ resident)

theorem Phase.length_le {b : Boundary} {last : Option IcacheAccess} (h : Phase b s last) :
    s.mem.icache.inflight.entries.length ≤ 1 := by
  cases h with
  | idle hit idle => exact idle.length_eq.le.trans zero_le_one
  | waits missed inst buffer pc awaits early => exact awaits.length_le
  | arrived missed inst buffer pc idle resident => exact idle.length_eq.le.trans zero_le_one

variable [CachePrefetcher P]

/-- The invariant: the I-cache prefetches nothing, the buffer holds at most one record, and
every miss so far has been retried, or will be. -/
structure MissesOnce (b : Boundary) (s : Sim P B) (log : List FetchEvent) : Prop where
  plain : s.mem.icache.Plain
  queue : s.mem.icachePrefetch.queue = []
  buffer : s.preFetchBuffer.length ≤ 1
  phase : Phase b s (accesses log).getLast?
  refetched : Refetched s log

theorem MissesOnce.same {b b' : Boundary} (h : MissesOnce b s log) (hcache : SameIcache s s')
    (hfront : SameFrontEnd s s') (hle : s.totalCycles ≤ s'.totalCycles)
    (hcycles : b' ≠ .returns → b ≠ .returns ∧ s'.totalCycles = s.totalCycles) :
    MissesOnce b' s' log where
  plain := hcache.icache ▸ h.plain
  queue := hcache.icachePrefetch ▸ h.queue
  buffer := hfront.preFetchBuffer ▸ h.buffer
  phase := h.phase.same hcache hfront.preFetchBuffer hcycles
  refetched := h.refetched.same hfront.fetchStallUntil.ge hle hfront.preFetchBuffer

/-! ### The stages around the fetch stage -/

/-- **The returns of a cycle**: the line of a miss arrives in the promised cycle. -/
theorem MissesOnce.returns (h : MissesOnce .returns s log) (env : Env) [BranchPredictor B] :
    MissesOnce .advance (stage cfg env .returns s) log where
  plain := h.plain.processReturns _ _
  queue := h.queue
  buffer := h.buffer
  phase := by
    have hphase := h.phase
    have hcache : (stage cfg env .returns s).mem.icache
        = s.mem.icache.processReturns s.totalCycles (env.itable s.totalCycles) := rfl
    have hshape := Cache.processReturns_shape s.mem.icache s.totalCycles
      (env.itable s.totalCycles)
    generalize (accesses log).getLast? = last at hphase ⊢
    cases hphase with
    | idle hit idle => exact .idle hit (by rwa [hcache, idle.processReturns])
    | @waits a missed inst buffer pc awaits early =>
      -- before the promised cycle nothing comes back, and in it the line does
      rcases Nat.lt_or_ge s.totalCycles a.result.readyCycle with hlt | hle
      · refine .waits missed inst buffer pc ?_ fun _ => hlt
        rw [hcache, hshape.getBlockAddr]
        exact awaits.processReturns hlt _
      · obtain ⟨hidle, hresident⟩ := awaits.returned hle h.plain.ways
          (env.itable s.totalCycles)
        rw [← hshape.getBlockAddr, Cache.contains_blockAddr (h.plain.geometry.of_shape hshape)]
          at hresident
        exact .arrived missed inst buffer pc hidle hresident
    | arrived missed inst buffer pc idle resident =>
      exact .arrived missed inst buffer pc (by rwa [hcache, idle.processReturns])
        (by rwa [hcache, idle.processReturns])
  refetched := h.refetched.same (Nat.le_refl _) (Nat.le_refl _) rfl

/-- An attempt to issue an op does not touch the I-cache. -/
theorem attempt_sameIcache (cfg : Config P B) (q : Iq) (s : Sim P B) (i : ℕ) :
    SameIcache s (attempt cfg q s i).1 := by
  -- only a load goes to the memory, and there to the data side
  by_cases hq : q = .ldu
  swap
  · refine attempt_rule hq cfg (.refl s) (fun t => ?_) fun _ _ _ _ _ _ => ⟨rfl, rfl⟩
    rw [markLoadExecuted_eq]
    exact ⟨rfl, rfl⟩
  · subst hq
    have houtcome := lduAttempt_outcome cfg s i
    change SameIcache s (lduAttempt cfg s i).1
    have haccess {r mem} (h : s.mem.accessDcacheLoad (s.rob i).inst.memAddr s.totalCycles
        = (r, mem)) : mem.icache = s.mem.icache ∧
          mem.icachePrefetch = s.mem.icachePrefetch := by
      have hmem : (s.mem.accessDcacheLoad (s.rob i).inst.memAddr s.totalCycles).2 = mem :=
        congrArg Prod.snd h
      rw [← hmem]
      exact ⟨rfl, rfl⟩
    generalize (lduAttempt cfg s i).1 = s', (lduAttempt cfg s i).2 = ok at houtcome ⊢
    cases houtcome with
    | notReady sources => exact .refl s
    | stalled op' same executed cycle dep => exact ⟨rfl, rfl⟩
    | forwarded sources src dep stlf data time op' same executed cycle stats =>
      exact ⟨rfl, rfl⟩
    | refused dep r mem access blocked op' same executed cycle =>
      exact ⟨(haccess access).1, (haccess access).2⟩
    | accessed sources dep r mem access served op' same executed cycle stats =>
      exact ⟨(haccess access).1, (haccess access).2⟩

variable [BranchPredictor B]

/-- Only the returns and the fetch stage change the I-cache, if nothing is queued for
it. -/
theorem stage_sameIcache (cfg : Config P B) (env : Env) {b : Boundary} (hreturns : b ≠ .returns)
    (hfetch : b ≠ .fetch) (hqueue : s.mem.icachePrefetch.queue = []) :
    SameIcache s (stage cfg env b s) := by
  cases b with
  | returns => exact absurd rfl hreturns
  | fetch => exact absurd rfl hfetch
  -- the loops of the other stages work on the pipeline alone
  | advance =>
    unfold stage advanceCycle
    dsimp only
    split_ifs <;> exact ⟨rfl, rfl⟩
  | commit =>
    have hloop : SameIcache s
        (commitLoop cfg cfg.commitWidth { s with instsBefore := s.instructionsRetired }) :=
      commitLoop_rule (I := SameIcache s) (fun h _ => h.trans ⟨rfl, rfl⟩) _ ⟨rfl, rfl⟩
    exact ⟨hloop.icache, hloop.icachePrefetch⟩
  | issue =>
    refine issueStage_attempts (I := SameIcache s)
      (fun {s'} q i h => h.trans (attempt_sameIcache cfg q s' i)) (fun q l h => h.trans ?_)
      (.refl s)
    cases q <;> exact ⟨rfl, rfl⟩
  | dispatch =>
    have hloop : SameIcache s (dispatchLoop cfg cfg.dispatchWidth s).2 := by
      refine dispatchLoop_rule (I := SameIcache s)
        (fun {s₁ op rest} h _ _ => h.trans ?_) _ (.refl s)
      unfold dispatchOne
      cases iqTarget op <;> exact ⟨rfl, rfl⟩
    exact ⟨hloop.icache, hloop.icachePrefetch⟩
  | service =>
    obtain ⟨hicache, hprefetch⟩ :=
      MemSubsystem.servicePrefetchQueues_icache cfg.mem hqueue s.totalCycles
    exact ⟨hicache, hprefetch⟩
  | _ => exact ⟨rfl, rfl⟩

/-- **The other stages** but the fetch stage keep the invariant. -/
theorem MissesOnce.stage {b : Boundary} (h : MissesOnce b s log) (hreturns : b ≠ .returns)
    (hfetch : b ≠ .fetch) : MissesOnce b.next (Sim.stage cfg env b s) log := by
  have hcache := stage_sameIcache cfg env hreturns hfetch h.queue
  have hfront := stage_sameFrontEnd cfg env hfetch s
  by_cases haccount : b = .account
  · subst haccount
    exact h.same hcache hfront (Nat.le_succ _) fun hb => absurd rfl hb
  · have hcycles := stage_totalCycles cfg env haccount s
    exact h.same hcache hfront hcycles.ge fun _ => ⟨hreturns, hcycles⟩

/-! ### The fetch stage -/

omit [CachePrefetcher P] [BranchPredictor B] in
/-- After a record is acquired, the one-entry buffer is empty. -/
theorem Acquired.preFetchBuffer {inst : TraceInst} {s₁ : Sim P B} (h : Acquired env s inst s₁)
    (hbuffer : s.preFetchBuffer.length ≤ 1) : s₁.preFetchBuffer = [] := by
  cases h with
  | buffered inst rest front =>
    rw [front, List.length_cons] at hbuffer
    have hrest : rest = [] := List.eq_nil_of_length_eq_zero (by omega)
    exact hrest
  | stepped empty running goes => exact empty

omit [BranchPredictor B] in
/-- The check of the first instruction of a group, when the I-cache does not block. -/
theorem checkIcache_eq {inst : TraceInst} {hint : BoundReason} {r : HierarchyAccessResult}
    {mem : MemSubsystem P} (haccess : s.mem.accessIcache inst.pc s.totalCycles = (r, mem))
    (hserved : r.blocked = false) :
    s.checkIcache cfg inst hint =
      if r.l1Hit then
        (true, s.setMem (mem.enqueuePrefetch cfg.mem false inst.pc inst.pc true), hint)
      else
        (false, ((s.setMem mem).setFetchStall r.readyCycle .icacheMiss).frontendRequeueTraceInst
          inst, hint) := by
  unfold checkIcache
  rw [haccess]
  dsimp only
  rw [hserved, if_neg Bool.false_ne_true]
  cases r.l1Hit <;> rfl

omit [CachePrefetcher P] [BranchPredictor B] in
/-- A record that is put back into the empty buffer, after a stall has been set. -/
theorem requeue_fields (inst : TraceInst) (hempty : s.preFetchBuffer = []) (u : ℕ)
    (reason : FetchStallReason) :
    ((s.setFetchStall u reason).frontendRequeueTraceInst inst).preFetchBuffer = [inst] ∧
      ((s.setFetchStall u reason).frontendRequeueTraceInst inst).fetchStallUntil
        = max s.fetchStallUntil u ∧
      ((s.setFetchStall u reason).frontendRequeueTraceInst inst).totalCycles = s.totalCycles ∧
      ((s.setFetchStall u reason).frontendRequeueTraceInst inst).mem = s.mem := by
  have hstall := setFetchStall_fetchStallUntil s u reason
  obtain ⟨u', reason', heq⟩ := setFetchStall_eq s u reason
  rw [heq] at hstall ⊢
  unfold frontendRequeueTraceInst
  rw [if_pos (by simpa using hempty)]
  refine ⟨?_, hstall, rfl, rfl⟩
  change s.preFetchBuffer ++ [inst] = [inst]
  rw [hempty, List.nil_append]

omit [BranchPredictor B] in
/-- When no stall is active no line is on its way, and that of the latest miss is there. -/
theorem MissesOnce.arrived (h : MissesOnce .fetch s log) (hcan : s.frontendCanFetch cfg = true) :
    s.mem.icache.Idle ∧ ∀ a ∈ (accesses log).getLast?, a.missed = true →
      ∃ inst, s.preFetchBuffer = [inst] ∧ inst.pc = a.pc ∧
        s.mem.icache.contains a.pc = true := by
  have hstall := stall_le_of_canFetch hcan
  have hstalled (a) (ha : a ∈ (accesses log).getLast?) := h.refetched.stalled a
    (List.mem_of_getLast? ha)
  have hphase := h.phase
  generalize (accesses log).getLast? = last at hphase hstalled ⊢
  cases hphase with
  | idle hit idle =>
    refine ⟨idle, fun a ha hmissed => ?_⟩
    rw [hit a ha] at hmissed
    cases hmissed
  | @waits a missed inst buffer pc awaits early =>
    have hready := hstalled a rfl missed
    have hearly := early (by decide)
    omega
  | arrived missed inst buffer pc idle resident =>
    refine ⟨idle, fun a ha _ => ?_⟩
    obtain rfl := Option.some.inj ha
    exact ⟨inst, buffer, pc, resident⟩

omit [BranchPredictor B] in
/-- **The access of a turn.**  The record is that of the latest miss, if there is one to
retry; the access is not blocked, and it hits in that case. -/
theorem MissesOnce.access (h : MissesOnce .fetch s log)
    (hroomy : s.mem.Roomy (some s.totalCycles)) (hcan : s.frontendCanFetch cfg = true)
    {inst : TraceInst} {s₁ : Sim P B} (hacquired : Acquired env s inst s₁) :
    ∃ r mem, s₁.mem.accessIcache inst.pc s₁.totalCycles = (r, mem) ∧ r.blocked = false ∧
      mem.icache.Plain ∧ mem.icachePrefetch.queue = [] ∧
      (∀ a ∈ (accesses log).getLast?, a.missed = true → inst.pc = a.pc ∧ r.l1Hit = true) ∧
      ((r.l1Hit = true ∧ mem.icache.Idle) ∨
        (r.l1Hit = false ∧ s.totalCycles < r.readyCycle ∧
          mem.icache.Awaits (mem.icache.getBlockAddr inst.pc) r.readyCycle)) := by
  obtain ⟨-, -, hcycles, hmem, -⟩ := hacquired.pipeline cfg
  obtain ⟨hidle, harrived⟩ := h.arrived hcan
  obtain ⟨r, l1', llc', haccess, hout⟩ := s.mem.accessIcache_spec inst.pc s.totalCycles
  obtain ⟨hserved, hcases⟩ := hout.idle hidle h.plain.mshrs
    (hroomy.not_refuses (x := .icache)) hroomy.bounded.llc
  rw [hmem, hcycles]
  refine ⟨r, _, haccess, hserved, h.plain.access hout, h.queue, fun a ha hmissed => ?_, ?_⟩
  · obtain ⟨inst₀, hbuffer, hpc, hresident⟩ := harrived a ha hmissed
    -- the record put back is the only one to take
    obtain rfl : inst = inst₀ := by
      cases hacquired with
      | buffered inst rest front =>
        rw [hbuffer, List.cons.injEq] at front
        exact front.1.symm
      | stepped empty running goes =>
        rw [hbuffer] at empty
        cases empty
    exact ⟨hpc, hout.l1Hit_iff.mpr (hpc ▸ hresident)⟩
  · rwa [hout.shape.1.getBlockAddr]

omit [BranchPredictor B] in
/-- A turn without an access, after an access that hits. -/
theorem MissesOnce.quiet (h : MissesOnce .fetch s log) (hcan : s.frontendCanFetch cfg = true)
    (hhit : ∀ a ∈ (accesses log).getLast?, a.missed = false) (hcache : SameIcache s s')
    (hbuffer : s'.preFetchBuffer.length ≤ 1) (hstall : s.fetchStallUntil ≤ s'.fetchStallUntil)
    (hcycles : s'.totalCycles = s.totalCycles) {events : List FetchEvent}
    (hnone : accesses events = []) (b : Boundary) : MissesOnce b s' (log ++ events) where
  plain := hcache.icache ▸ h.plain
  queue := hcache.icachePrefetch ▸ h.queue
  buffer := hbuffer
  phase := by
    rw [accesses_append, hnone, List.append_nil]
    exact .idle hhit (hcache.icache ▸ (h.arrived hcan).1)
  refetched := h.refetched.quiet hhit hstall hcycles.ge hnone

omit [BranchPredictor B] in
/-- A turn with the access `a`, which hits, or misses and puts the record `inst` back. -/
theorem MissesOnce.turn (h : MissesOnce .fetch s log) (hcan : s.frontendCanFetch cfg = true)
    {a : IcacheAccess} (hcycle : a.cycle = s.totalCycles) (hserved : a.result.blocked = false)
    (hretry : ∀ a₀ ∈ (accesses log).getLast?, a₀.missed = true →
      a.pc = a₀.pc ∧ a.result.l1Hit = true)
    {inst : TraceInst} (hpc : inst.pc = a.pc) (hplain : s'.mem.icache.Plain)
    (hqueue : s'.mem.icachePrefetch.queue = []) (hbuffer : s'.preFetchBuffer.length ≤ 1)
    (hstall : s.fetchStallUntil ≤ s'.fetchStallUntil)
    (hcycles : s'.totalCycles = s.totalCycles) {tail : List FetchEvent}
    (hnone : accesses tail = [])
    (houtcome : (a.result.l1Hit = true ∧ s'.mem.icache.Idle) ∨
      (a.result.l1Hit = false ∧ s.totalCycles < a.result.readyCycle ∧
        a.result.readyCycle ≤ s'.fetchStallUntil ∧
        s'.mem.icache.Awaits (s'.mem.icache.getBlockAddr a.pc) a.result.readyCycle ∧
        s'.preFetchBuffer = [inst] ∧ tail = [.requeued inst]))
    (b : Boundary) : MissesOnce b s' (log ++ a.event :: tail) where
  plain := hplain
  queue := hqueue
  buffer := hbuffer
  phase := by
    rw [getLast?_accesses hnone]
    -- a hit leaves nothing open, and a miss waits for its block
    rcases houtcome with ⟨hhit, hidle⟩ | ⟨hmiss, hearly, -, hawaits, hinst, -⟩
    · refine .idle (fun a' ha' => ?_) hidle
      rw [← Option.some.inj ha', IcacheAccess.missed, hhit]
      rfl
    · exact .waits (by rw [IcacheAccess.missed, hmiss]; rfl) inst hinst hpc hawaits
        fun _ => hcycles ▸ hearly
  refetched := by
    refine h.refetched.access (stall_le_of_canFetch hcan) hcycle hserved hnone
      (fun a₀ ha₀ hmissed => ?_) (fun hmissed => ?_) hstall hcycles
    · obtain ⟨hpc₀, hhit⟩ := hretry a₀ ha₀ hmissed
      exact ⟨hpc₀, by rw [HierarchyAccessResult.hits, hhit, hserved]; rfl⟩
    · rcases houtcome with ⟨hhit, -⟩ | ⟨-, -, hready, -, hinst, htail⟩
      · rw [IcacheAccess.missed, hhit] at hmissed
        cases hmissed
      · exact ⟨hready, inst, htail, hpc, hinst⟩

omit [BranchPredictor B] in
/-- **A turn that puts the record back.** -/
theorem MissesOnce.refused (h : MissesOnce .fetch s log)
    (hroomy : s.mem.Roomy (some s.totalCycles)) (hcan : s.frontendCanFetch cfg = true)
    {inst : TraceInst} {s₁ : Sim P B} (hacquired : Acquired env s inst s₁) {line : BitVec 32}
    {first : Bool} {hint : BoundReason}
    (hlast : first = false → ∀ a ∈ (accesses log).getLast?, a.missed = false)
    (hrefused : (s₁.admitInst cfg inst line first hint).1 = false) (b : Boundary) :
    MissesOnce b (s₁.admitInst cfg inst line first hint).2.1
      (log ++ (s₁.accessEvents inst first ++ [.requeued inst])) := by
  obtain ⟨-, hstall₁, hcycles₁, hmem₁, -⟩ := hacquired.pipeline cfg
  have hempty := hacquired.preFetchBuffer h.buffer
  cases first with
  | false =>
    -- not the first of its group: the record is in another line, and nothing is accessed
    rw [admitInst, if_neg Bool.false_ne_true] at hrefused ⊢
    by_cases hline : lineAddr inst.pc s₁.mem.icacheLineSize = line
    · rw [if_neg (not_not_intro hline)] at hrefused
      cases hrefused
    rw [if_pos hline]
    obtain ⟨hinst, hstall, hcycles, hmem⟩ := requeue_fields inst hempty (s₁.totalCycles + 1)
      .lineBoundary
    refine h.quiet hcan (hlast rfl) ⟨?_, ?_⟩ ?_ ?_ ?_ ?_ b
    · rw [hmem, hmem₁]
    · rw [hmem, hmem₁]
    · rw [hinst, List.length_singleton]
    · rw [hstall, hstall₁]
      exact Nat.le_max_left _ _
    · rw [hcycles, hcycles₁]
    · rfl
  | true =>
    -- the first of its group: its access has missed
    obtain ⟨r, mem, haccess, hserved, hplain, hqueue, hretry, houtcome⟩ :=
      h.access hroomy hcan hacquired
    rw [admitInst, if_pos rfl, checkIcache_eq haccess hserved] at hrefused ⊢
    rcases houtcome with ⟨hhit, -⟩ | ⟨hmiss, hearly, hawaits⟩
    · rw [hhit, if_pos rfl] at hrefused
      cases hrefused
    rw [hmiss, if_neg Bool.false_ne_true]
    obtain ⟨hinst, hstall, hcycles, hmem⟩ := requeue_fields (s := s₁.setMem mem) inst hempty
      r.readyCycle .icacheMiss
    have hevents : s₁.accessEvents inst true ++ [.requeued inst]
        = (⟨inst.pc, s₁.totalCycles, r⟩ : IcacheAccess).event :: [.requeued inst] := by
      rw [accessEvents, if_pos rfl, haccess]
      rfl
    rw [hevents]
    generalize ((s₁.setMem mem).setFetchStall r.readyCycle
      .icacheMiss).frontendRequeueTraceInst inst = s₂ at hinst hstall hcycles hmem ⊢
    obtain rfl : s₂.mem = mem := hmem
    refine h.turn hcan hcycles₁ hserved hretry rfl hplain hqueue ?_ ?_ ?_ rfl
      (Or.inr ⟨hmiss, hearly, ?_, hawaits, hinst, rfl⟩) b
    · rw [hinst, List.length_singleton]
    · rw [hstall]
      exact hstall₁.ge.trans (Nat.le_max_left _ _)
    · exact hcycles.trans hcycles₁
    · rw [hstall]
      exact Nat.le_max_right _ _

/-- **A turn that delivers.** -/
theorem MissesOnce.delivered (h : MissesOnce .fetch s log)
    (hroomy : s.mem.Roomy (some s.totalCycles)) (hcan : s.frontendCanFetch cfg = true)
    {inst : TraceInst} {s₁ s₂ : Sim P B} (hacquired : Acquired env s inst s₁)
    {line : BitVec 32} {first : Bool} {hint : BoundReason}
    (hlast : first = false → ∀ a ∈ (accesses log).getLast?, a.missed = false)
    (hadmitted : (s₁.admitInst cfg inst line first hint).1 = true)
    (heq : (s₁.admitInst cfg inst line first hint).2.1 = s₂) (m : Bool) (b : Boundary) :
    MissesOnce b (s₂.deliverInst cfg env inst).2 (log ++ (s₁.accessEvents inst first
        ++ [.delivered (s₂.fetchedOp inst) m])) ∧
      ∀ a ∈ (accesses (log ++ (s₁.accessEvents inst first
        ++ [.delivered (s₂.fetchedOp inst) m]))).getLast?, a.missed = false := by
  obtain ⟨-, hstall₁, hcycles₁, hmem₁, -⟩ := hacquired.pipeline cfg
  have hempty := hacquired.preFetchBuffer h.buffer
  obtain ⟨-, hcycles, hmem⟩ := deliverInst_pipeline cfg env s₂ inst
  have hbuffer : (s₂.deliverInst cfg env inst).2.preFetchBuffer = s₂.preFetchBuffer := by
    obtain ⟨profiler, bp, rc, u, r, -, heq⟩ := deliverInst_eq cfg env s₂ inst
    rw [heq]
  have hstall := (deliverInst_stop cfg env s₂ inst).2.1
  cases first with
  -- not the first of its group: the line has hit already, and nothing is accessed
  | false =>
    obtain rfl : s₁ = s₂ := by
      rw [admitInst, if_neg Bool.false_ne_true] at hadmitted heq
      by_cases hline : lineAddr inst.pc s₁.mem.icacheLineSize = line
      · rwa [if_neg (not_not_intro hline)] at heq
      · rw [if_pos hline] at hadmitted
        cases hadmitted
    constructor
    · refine h.quiet hcan (hlast rfl) ⟨?_, ?_⟩ ?_ ?_ (hcycles.trans hcycles₁) rfl b
      · rw [hmem, hmem₁]
      · rw [hmem, hmem₁]
      · rw [hbuffer, hempty]
        exact Nat.zero_le _
      · exact hstall₁.ge.trans hstall
    · have hnone : accesses (s₁.accessEvents inst false
          ++ [.delivered (s₁.fetchedOp inst) m]) = [] := rfl
      rw [accesses_append, hnone, List.append_nil]
      exact hlast rfl
  | true =>
    -- the first of its group: its access has hit
    obtain ⟨r, mem, haccess, hserved, hplain, hqueue, hretry, houtcome⟩ :=
      h.access hroomy hcan hacquired
    rw [admitInst, if_pos rfl, checkIcache_eq haccess hserved] at hadmitted heq
    rcases houtcome with ⟨hhit, hidle⟩ | ⟨hmiss, -⟩
    swap
    · rw [hmiss, if_neg Bool.false_ne_true] at hadmitted
      cases hadmitted
    rw [hhit, if_pos rfl, MemSubsystem.enqueuePrefetch_silent hplain.silent] at heq
    subst heq
    have hevents : s₁.accessEvents inst true
          ++ [.delivered ((s₁.setMem mem).fetchedOp inst) m]
        = (⟨inst.pc, s₁.totalCycles, r⟩ : IcacheAccess).event
          :: [.delivered ((s₁.setMem mem).fetchedOp inst) m] := by
      rw [accessEvents, if_pos rfl, haccess]
      rfl
    rw [hevents]
    generalize (s₁.setMem mem).deliverInst cfg env inst = delivered
      at hcycles hmem hbuffer hstall ⊢
    obtain rfl : delivered.2.mem = mem := hmem
    constructor
    · refine h.turn hcan hcycles₁ hserved hretry rfl hplain hqueue ?_ ?_
        (hcycles.trans hcycles₁) rfl (Or.inl ⟨hhit, hidle⟩) b
      · have hnone : delivered.2.preFetchBuffer = [] := hbuffer.trans hempty
        rw [hnone]
        exact Nat.zero_le _
      · exact hstall₁.ge.trans hstall
    · intro a ha
      rw [getLast?_accesses rfl] at ha
      rw [← Option.some.inj ha, IcacheAccess.missed, hhit]
      rfl

/-- A turn that delivers leaves the last level as it should be. -/
theorem roomy_deliverInst (hroomy : s.mem.Roomy (some s.totalCycles)) {inst : TraceInst}
    {line : BitVec 32} {first : Bool} {hint : BoundReason}
    (hadmitted : (s.admitInst cfg inst line first hint).1 = true)
    (heq : (s.admitInst cfg inst line first hint).2.1 = s') :
    (s'.deliverInst cfg env inst).2.mem.Roomy
      (some (s'.deliverInst cfg env inst).2.totalCycles) := by
  obtain ⟨mem, hduring, hset⟩ := admitInst_admitted cfg hadmitted
  obtain rfl : s.setMem mem = s' := hset.symm.trans heq
  obtain ⟨-, hcycles, hmem⟩ := deliverInst_pipeline cfg env (s.setMem mem) inst
  have hturn : MemDuring cfg s ((s.setMem mem).deliverInst cfg env inst).2 :=
    ⟨hcycles, by rw [hmem]; exact hduring⟩
  exact hturn.memoryAt MemSubsystem.roomy_runInvariant hroomy

/-- **The fetch loop** keeps the invariant. -/
theorem MissesOnce.fetchLoop (h : MissesOnce .fetch s log)
    (hroomy : s.mem.Roomy (some s.totalCycles)) :
    MissesOnce .service (fetchLoop cfg env cfg.fetchBandwidth s 0 true .none).1
      (log ++ fetchLoopEvents cfg env cfg.fetchBandwidth s 0 true .none) := by
  refine fetchLoopEvents_rule cfg env
    (J := fun _ s _ first log => MissesOnce .fetch s log ∧
      s.mem.Roomy (some s.totalCycles) ∧
      (first = false → ∀ a ∈ (accesses log).getLast?, a.missed = false))
    (F := fun s log => MissesOnce .service s log) ?_ ?_ ?_ ?_ _ s 0 true .none log
    ⟨h, hroomy, nofun⟩
  · rintro n s line first log ⟨h, -, -⟩
    exact h.same (.refl s) (.refl s) (Nat.le_refl _) fun _ => ⟨by decide, rfl⟩
  · rintro n s line first log ⟨h, -, -⟩
    exact h.same ⟨rfl, rfl⟩ ⟨rfl, rfl, rfl⟩ (Nat.le_refl _) fun _ => ⟨by decide, rfl⟩
  · rintro n s line first log inst s₁ hint ⟨h, hroomy, hlast⟩ hcan hacquired hrefused
    exact h.refused hroomy hcan hacquired hlast hrefused .service
  · rintro n s line first log inst s₁ hint s₂ ⟨h, hroomy, hlast⟩ hcan hacquired hadmitted heq
    have hdelivered := h.delivered hroomy hcan hacquired hlast hadmitted heq
      (s₂.mispredicts cfg env inst)
    split_ifs
    · exact (hdelivered .service).1
    · obtain ⟨-, -, hcycles₁, hmem₁, -⟩ := hacquired.pipeline cfg
      rw [← hmem₁, ← hcycles₁] at hroomy
      exact ⟨(hdelivered .fetch).1, roomy_deliverInst hroomy hadmitted heq,
        fun _ => (hdelivered .fetch).2⟩

/-- **The misses of every run.** -/
theorem Observed.missesOnce (hsilent : Silent cfg.mem.icache.prefetcher)
    (hgeometry : cfg.mem.icache.PowerOfTwo) (hmshrs : 0 < cfg.mem.icache.mshrSize.toNat)
    (hample : cfg.mem.Ample) {b : Boundary} (h : Observed cfg env (fetchEvents cfg env) b s log) :
    MissesOnce b s log := by
  induction h with
  | start =>
    refine ⟨Cache.plain_build hgeometry hmshrs hsilent, rfl, Nat.zero_le _,
      .idle nofun fun b => rfl, ?_⟩
    refine ⟨nofun, nofun, nofun, List.Pairwise.nil, fun before a after heq => ?_⟩
    cases before <;> cases heq
  | @step b s log hs _ ih =>
    -- the fetch stage logs, the returns deliver what is awaited, the others do neither
    by_cases hfetch : b = .fetch
    · subst hfetch
      have hroomy : s.mem.Roomy (some s.totalCycles) := hs.reach.roomy hample
      change MissesOnce .service (s.fetchStage cfg env) (log ++
        if s.frontendCanFetch cfg then
          fetchLoopEvents cfg env cfg.fetchBandwidth s 0 true .none else [])
      unfold fetchStage
      rcases s.frontendCanFetch cfg with - | -
      · rw [if_neg Bool.false_ne_true, if_neg Bool.false_ne_true, List.append_nil]
        exact ih.same ⟨rfl, rfl⟩ ⟨rfl, rfl, rfl⟩ (Nat.le_refl _) fun _ => ⟨by decide, rfl⟩
      · rw [if_pos rfl, if_pos rfl]
        exact (ih.fetchLoop hroomy).same ⟨rfl, rfl⟩ ⟨rfl, rfl, rfl⟩ (Nat.le_refl _)
          fun _ => ⟨by decide, rfl⟩
    · have hevents : fetchEvents cfg env b s = [] := by
        cases b <;> first | rfl | exact absurd rfl hfetch
      rw [hevents, List.append_nil]
      by_cases hreturns : b = .returns
      · subst hreturns
        exact ih.returns env
      · exact ih.stage hreturns hfetch

/-! ### The theorem -/

/-- **An instruction fetch misses once.**  If the I-cache prefetches nothing, has a
power-of-two geometry and an MSHR, and the last level has as many MSHRs as both first
levels, then in every run the I-cache has at most one request in flight and never blocks.
After a miss for `pc` in cycle `c` the record is put back, and stays in the buffer until
the next access; no access is made between `c` and the promised cycle, and the next one
is for `pc` and hits. -/
theorem fetch_misses_once (cfg : Config P B) (env : Env)
    (hsilent : Silent cfg.mem.icache.prefetcher) (hgeometry : cfg.mem.icache.PowerOfTwo)
    (hmshrs : 0 < cfg.mem.icache.mshrSize.toNat) (hample : cfg.mem.Ample) {b : Boundary}
    {s : Sim P B} {log : List FetchEvent}
    (h : Observed cfg env (fetchEvents cfg env) b s log) :
    s.mem.icache.inflight.entries.length ≤ 1 ∧
    (∀ a ∈ accesses log, a.result.blocked = false) ∧
    ∀ before pc c r after, log = before ++ .access pc c r :: after → r.l1Hit = false →
      (∃ inst rest, after = .requeued inst :: rest ∧ inst.pc = pc ∧
        (accesses after = [] → s.preFetchBuffer = [inst])) ∧
      (∀ a ∈ accesses log, ¬ (c < a.cycle ∧ a.cycle < r.readyCycle)) ∧
      ∀ a ∈ (accesses after).head?, a.pc = pc ∧ a.result.hits = true := by
  have hmisses := h.missesOnce hsilent hgeometry hmshrs hample
  refine ⟨hmisses.phase.length_le, hmisses.refetched.served,
    fun before pc c r after heq hmiss => ?_⟩
  have hmissed : (⟨pc, c, r⟩ : IcacheAccess).missed = true := by
    rw [IcacheAccess.missed, hmiss]
    rfl
  have hretried := hmisses.refetched.retried before ⟨pc, c, r⟩ after heq hmissed
  refine ⟨hretried.requeued, fun a ha hbetween => ?_, hretried.next⟩
  have hordered := hmisses.refetched.ordered
  rw [heq] at ha hordered
  change a ∈ accesses (before ++ (⟨pc, c, r⟩ : IcacheAccess).event :: after) at ha
  change (accesses (before ++ (⟨pc, c, r⟩ : IcacheAccess).event :: after)).Pairwise _
    at hordered
  rw [accesses_append, accesses_event, List.mem_append, List.mem_cons] at ha
  rw [accesses_append, accesses_event, List.pairwise_append] at hordered
  rcases ha with ha | rfl | ha
  -- the accesses before the miss are no later than it
  · have hle := hordered.2.2 a ha _ List.mem_cons_self
    exact absurd hbetween.1 (Nat.not_lt.mpr hle)
  · exact Nat.lt_irrefl _ hbetween.1
  · exact absurd hbetween.2 (Nat.not_lt.mpr (hretried.later a ha))

/-- The first fetch of a run misses; its record is fetched again, and hits. -/
theorem fetch_misses_once_jumpTrace :
    ∃ s pc r inst rest,
      Observed shippedConfig jumpTrace (fetchEvents shippedConfig jumpTrace) .returns s
        (.access pc 0 r :: .requeued inst :: rest) ∧
      r.l1Hit = false ∧ ∃ a ∈ accesses rest, a.pc = pc ∧ a.result.hits = true := by
  have hstart : Observed shippedConfig jumpTrace (fetchEvents shippedConfig jumpTrace) .returns
      ((Sim.new shippedConfig).cycle shippedConfig jumpTrace)
      (fetchEvents shippedConfig jumpTrace .fetch
        ((Sim.new shippedConfig).upTo shippedConfig jumpTrace .fetch)) :=
    ((((((((Observed.start.step fun _ => rfl).step nofun).step nofun).step nofun).step
      nofun).step nofun).step nofun).step nofun).step nofun
  obtain ⟨r, inst, hevents, hmiss⟩ : ∃ r inst,
      fetchEvents shippedConfig jumpTrace .fetch
          ((Sim.new shippedConfig).upTo shippedConfig jumpTrace .fetch)
        = [.access 0x80000000 0 r, .requeued inst] ∧ r.l1Hit = false := by
    refine ⟨{ l1Status := .missNew, llcStatus := .missNew, dramMiss := true, readyCycle := 132 },
      { pc := 0x80000000, opcode := 0b1101111, rd := 1 }, ?_, rfl⟩
    decide +kernel
  rw [hevents] at hstart
  have hrun : (runFor shippedConfig jumpTrace 135
      ((Sim.new shippedConfig).cycle shippedConfig jumpTrace)).any
        (fun s => s.preFetchBuffer.isEmpty) = true := by
    decide +kernel
  rcases e : runFor shippedConfig jumpTrace 135
      ((Sim.new shippedConfig).cycle shippedConfig jumpTrace) with - | s
  · rw [e] at hrun
    cases hrun
  rw [e, Option.any_some, List.isEmpty_iff] at hrun
  obtain ⟨rest, hlog⟩ := hstart.runFor e
  obtain ⟨-, -, hmisses⟩ := fetch_misses_once shippedConfig jumpTrace silent_none
    powerOfTwo_shipped.icache (by decide) backed_shipped.ample hlog
  obtain ⟨⟨inst', rest', -, -, hwaits⟩, -, hnext⟩ :=
    hmisses [] 0x80000000 0 r (.requeued inst :: rest) rfl hmiss
  -- the buffer is empty, so there is an access after the miss
  rcases haccesses : accesses (.requeued inst :: rest) with - | ⟨a, later⟩
  · rw [hwaits haccesses] at hrun
    cases hrun
  · refine ⟨s, _, r, inst, rest, hlog, hmiss, a, ?_, hnext a (by rw [haccesses]; rfl)⟩
    change a ∈ accesses (.requeued inst :: rest)
    rw [haccesses]
    exact List.mem_cons_self

end Sim

end TraceSim
