/-
TraceSim/Core/LoadLedger.lean

Three counts of the same loads.

The load profile, the demand counters of the D-cache and the forwardings of the
profiler count the loads that issue, each in its own place and with its own way to
start over.  The log has one entry for each call of `record_load_event`.  It holds
every load that has left its queue once (`Ledger`), and the three counts are those of
the log.
-/
import TraceSim.Core.Accounting
import TraceSim.Core.LoadProfile

namespace TraceSim

open Relation

namespace Sim

variable {P B : Type} {cfg : Config P B} {env : Env} {s s' s'' : Sim P B} {log : List ℕ}

/-! ### The log -/

section Log

variable [CachePrefetcher P]

/-- The calls of `record_load_event` in the attempt to issue the load in slot `i`, each
with the number of the load. -/
def loadRecords (cfg : Config P B) (s : Sim P B) (i : ℕ) : List ℕ :=
  List.replicate ((lduAttempt cfg s i).1.loadProfileStats.total - s.loadProfileStats.total)
    (s.rob i).entryId

/-- The loads recorded in a stage. -/
def loadEvents (cfg : Config P B) : Boundary → Sim P B → List ℕ
  | .issue, s =>
      let s := Iq.ldu.before.foldl (issueIq cfg) s
      scanLog (attempt cfg .ldu) (loadRecords cfg) (units cfg .ldu) (s.iq .ldu) s
  | _, _ => []

end Log

/-- The op is a load that does not wait in its queue any more. -/
def leftQueue (op : OpEntry) : Bool := decide (iqTarget op = .ldu) && !Iq.ldu.awaits op

/-- The dispatched ops, each with whether it is a load that has left its queue. -/
def flags (cfg : Config P B) (s : Sim P B) : List (ℕ × Bool) :=
  (s.dispatched cfg).map fun op => (op.entryId, leftQueue op)

/-- The ledger. -/
structure Ledger (cfg : Config P B) (s : Sim P B) (log : List ℕ) : Prop where
  nodup : log.Nodup
  mem : ∀ n, n ∈ log ↔ (n, true) ∈ s.flags cfg
  total : s.loadProfileStats.total = log.length
  l1Hit : s.loadProfileStats.l1Hit = s.mem.dcache.counters.hit
  served : s.loadProfileStats.total = s.loadProfileStats.stlf + s.mem.dcache.demands
  stlf : s.loadProfileBaseline.stlf + s.profiler.stats.stlfHits = s.loadProfileStats.stlf

/-! ### What leaves the counts alone -/

/-- The states `s` and `s'` have the same counts. -/
structure SameLoads (s s' : Sim P B) : Prop where
  stats : s'.loadProfileStats = s.loadProfileStats
  baseline : s'.loadProfileBaseline = s.loadProfileBaseline
  stlfHits : s'.profiler.stats.stlfHits = s.profiler.stats.stlfHits
  dcache : s.mem.dcache.SameDemands s'.mem.dcache

theorem SameLoads.refl (s : Sim P B) : SameLoads s s := ⟨rfl, rfl, rfl, .refl _⟩

theorem SameLoads.trans (h : SameLoads s s') (h' : SameLoads s' s'') : SameLoads s s'' where
  stats := h'.stats.trans h.stats
  baseline := h'.baseline.trans h.baseline
  stlfHits := h'.stlfHits.trans h.stlfHits
  dcache := h.dcache.trans h'.dcache

theorem Ledger.same (h : Ledger cfg s log) (hs : SameLoads s s')
    (hflags : ∀ n, (n, true) ∈ s'.flags cfg ↔ (n, true) ∈ s.flags cfg) :
    Ledger cfg s' log where
  nodup := h.nodup
  mem n := (h.mem n).trans (hflags n).symm
  total := hs.stats ▸ h.total
  l1Hit := by rw [hs.stats, hs.dcache.hit, h.l1Hit]
  served := by rw [hs.stats, hs.dcache.demands, h.served]
  stlf := by rw [hs.stats, hs.baseline, hs.stlfHits, h.stlf]

/-- The end of the warm-up starts both counts of the forwardings over. -/
theorem Ledger.advanceCycle (h : Ledger cfg s log) : Ledger cfg (s.advanceCycle cfg) log := by
  unfold Sim.advanceCycle
  split_ifs
  · exact ⟨h.nodup, h.mem, h.total, h.l1Hit, h.served, Nat.add_zero _⟩
  · exact h
  · exact ⟨h.nodup, h.mem, h.total, h.l1Hit, h.served, h.stlf⟩
  · exact h
  · exact ⟨h.nodup, h.mem, h.total, h.l1Hit, h.served, h.stlf⟩
  · exact h

/-! ### Commit, dispatch and fetch -/

theorem commitLoop_sameLoads (cfg : Config P B) (n : ℕ) (s : Sim P B) :
    SameLoads s (s.commitLoop cfg n) := by
  refine commitLoop_rule (I := SameLoads s) (fun h _ => h.trans ?_) n (.refl s)
  exact ⟨rfl, rfl, rfl, .refl _⟩

theorem commitLoop_flags [CachePrefetcher P] (n : ℕ) (h : Conserved cfg env s) :
    (s.commitLoop cfg n).flags cfg = s.flags cfg := by
  refine (commitLoop_rule (I := fun s' => Conserved cfg env s' ∧
    s'.flags cfg = s.flags cfg) ?_ n ⟨h, rfl⟩).2
  intro s' ⟨hs', hflags⟩ hdone
  have hcommit := (conserved_invariant cfg env fun _ => True).step hs'
    (.commits s' hdone trivial)
  refine ⟨hcommit, ?_⟩
  rw [← hflags, flags, flags, hs'.represents.dispatched_commitOne (headDone_iff.mp hdone).1]

theorem dispatchLoop_sameLoads (cfg : Config P B) (n : ℕ) (s : Sim P B) :
    SameLoads s (s.dispatchLoop cfg n).2 := by
  refine dispatchLoop_rule (fun {s₁ op rest} h _ _ => h.trans ?_) n (.refl s)
  unfold dispatchOne
  cases iqTarget op <;> exact ⟨rfl, rfl, rfl, .refl _⟩

theorem leftQueue_of_waiting {op : OpEntry} (h : op.executed = false) :
    leftQueue op = false := by
  rw [leftQueue, Iq.awaits, h, Bool.not_false, Bool.and_true, Bool.and_not_self]

/-- An op that is dispatched has not left its queue. -/
theorem dispatchOne_flags (h : Represents cfg s) {op : OpEntry}
    (hfree : s.dispatchBlock cfg op = .none) (n : ℕ) :
    (n, true) ∈ (s.dispatchOne cfg op).flags cfg ↔ (n, true) ∈ s.flags cfg := by
  have hnew : leftQueue (s.dispatchedOp op) = false := leftQueue_of_waiting rfl
  rw [flags, dispatched, dispatchOne_hist, h.window_dispatchOne hfree, ← List.append_assoc,
    List.map_append, List.map_singleton, hnew, List.mem_append, List.mem_singleton]
  refine or_iff_left fun heq => ?_
  cases congrArg Prod.snd heq

theorem dispatchLoop_flags [CachePrefetcher P] (n : ℕ) (h : Conserved cfg env s) (m : ℕ) :
    (m, true) ∈ (s.dispatchLoop cfg n).2.flags cfg ↔ (m, true) ∈ s.flags cfg := by
  refine (dispatchLoop_rule (I := fun s' => Conserved cfg env s' ∧
    ((m, true) ∈ s'.flags cfg ↔ (m, true) ∈ s.flags cfg)) ?_ n ⟨h, Iff.rfl⟩).2
  intro s' op rest ⟨hs', hflags⟩ hqueue hfree
  have hop := (conserved_invariant cfg env fun _ => True).step hs'
    (.dispatches s' op rest hqueue hfree)
  exact ⟨hop, (dispatchOne_flags hs'.represents hfree m).trans hflags⟩

section Fetch

theorem setMem_sameLoads {mem : MemSubsystem P} (h : s.mem.dcache.SameDemands mem.dcache) :
    SameLoads s (s.setMem mem) :=
  ⟨rfl, rfl, rfl, h⟩

theorem setFetchStall_sameLoads (s : Sim P B) (stallUntil : ℕ) (reason : FetchStallReason) :
    SameLoads s (s.setFetchStall stallUntil reason) := by
  unfold setFetchStall
  split <;> exact ⟨rfl, rfl, rfl, .refl _⟩

theorem frontendRequeueTraceInst_sameLoads (s : Sim P B) (inst : TraceInst) :
    SameLoads s (s.frontendRequeueTraceInst inst) := by
  unfold frontendRequeueTraceInst
  split <;> exact ⟨rfl, rfl, rfl, .refl _⟩

theorem frontendAcquireTraceInst_sameLoads (env : Env) (s : Sim P B) :
    SameLoads s (s.frontendAcquireTraceInst env).2 := by
  unfold frontendAcquireTraceInst refCpuStep
  split
  · exact ⟨rfl, rfl, rfl, .refl _⟩
  · dsimp only
    split <;> exact ⟨rfl, rfl, rfl, .refl _⟩

variable [BranchPredictor B]

theorem deliverInst_sameLoads (s : Sim P B) (inst : TraceInst) :
    SameLoads s (s.deliverInst cfg env inst).2 := by
  have hpredicted := deliverInst_predicted cfg env s inst
  obtain ⟨profiler, bp, randomCalls, stallUntil, stallReason, -, heq⟩ :=
    deliverInst_eq cfg env s inst
  rw [heq] at hpredicted ⊢
  refine ⟨rfl, rfl, ?_, .refl _⟩
  change profiler.stats.stlfHits = s.profiler.stats.stlfHits
  cases hpredicted <;> rfl

variable [CachePrefetcher P]

omit [BranchPredictor B] in
/-- An instruction fetch makes no demand on the D-cache. -/
theorem checkIcache_sameLoads (s : Sim P B) (inst : TraceInst) (hint : BoundReason) :
    SameLoads s (s.checkIcache cfg inst hint).2.1 := by
  obtain ⟨r, l1', llc', haccess, -⟩ :=
    MemSubsystem.accessIcache_spec s.mem inst.pc s.totalCycles
  have hmem : SameLoads s (s.setMem { s.mem with icache := l1', llc := llc' }) :=
    setMem_sameLoads (.refl _)
  unfold checkIcache
  rw [haccess]
  dsimp only
  split
  · exact hmem.trans (frontendRequeueTraceInst_sameLoads _ inst)
  · split
    · exact (hmem.trans (setFetchStall_sameLoads _ _ _)).trans
        (frontendRequeueTraceInst_sameLoads _ inst)
    · exact hmem.trans (setMem_sameLoads
        (MemSubsystem.enqueuePrefetch_sameDemands cfg.mem _ false inst.pc inst.pc true))

omit [BranchPredictor B] in
theorem admitInst_sameLoads (s : Sim P B) (inst : TraceInst) (line : BitVec 32)
    (first : Bool) (hint : BoundReason) :
    SameLoads s (s.admitInst cfg inst line first hint).2.1 := by
  unfold admitInst
  split
  · exact checkIcache_sameLoads s inst hint
  · split
    · exact (setFetchStall_sameLoads _ _ _).trans (frontendRequeueTraceInst_sameLoads _ inst)
    · exact .refl s

theorem fetchStage_sameLoads (s : Sim P B) : SameLoads s (s.fetchStage cfg env) := by
  unfold fetchStage
  split
  · exact (fetchLoop_rule cfg env
      (fun {s'} h => SameLoads.trans h (frontendAcquireTraceInst_sameLoads env s'))
      (fun {s'} inst line first hint h =>
        h.trans (admitInst_sameLoads s' inst line first hint))
      (fun {s'} inst h => h.trans (deliverInst_sameLoads s' inst))
      cfg.fetchBandwidth 0 true .none (.refl s)).trans ⟨rfl, rfl, rfl, .refl _⟩
  · exact ⟨rfl, rfl, rfl, .refl _⟩

theorem fetchStage_flags (s : Sim P B) :
    (s.fetchStage cfg env).flags cfg = s.flags cfg := by
  refine fetchStage_rule (I := fun s' => s'.flags cfg = s.flags cfg) ?_ ?_ rfl
  · intro s₁ s₂ h hturn
    obtain ⟨hpipe, -⟩ := hturn.samePipe
    obtain ⟨hretired, -⟩ := hturn.scoreboard
    rw [← h, flags, flags, dispatched, dispatched, window, window, hretired, hpipe.slots,
      hpipe.rob]
  · intro s₁ hint h
    exact h

end Fetch

/-! ### The issue stage -/

section Issue

variable [CachePrefetcher P] {i : ℕ}

omit [CachePrefetcher P] in
theorem leftQueue_of_awaits {op : OpEntry} (h : Iq.ldu.awaits op = true) :
    leftQueue op = false := by
  rw [leftQueue, h, Bool.not_true, Bool.and_false]

omit [CachePrefetcher P] in
theorem mem_flags_iff {n : ℕ} :
    (n, true) ∈ s.flags cfg
      ↔ (n, true) ∈ s.hist.retired.map (fun op => (op.entryId, leftQueue op)) ∨
        ∃ j ∈ s.slots cfg, (s.rob j).entryId = n ∧ leftQueue (s.rob j) = true := by
  rw [flags, dispatched, List.map_append, List.mem_append, window, List.map_map]
  refine or_congr_right ?_
  simp only [List.mem_map, Function.comp_apply, Prod.mk.injEq]

/-- What an attempt leaves of the flags, if it is no load that leaves its queue. -/
theorem Touched.flags_eq {op' : OpEntry} (ht : Touched cfg s i op' s')
    (hid : op'.entryId = (s.rob i).entryId) (hleft : leftQueue op' = leftQueue (s.rob i))
    (q : Iq) (l : List ℕ) : (s'.setIq q l).flags cfg = s.flags cfg := by
  have hwindow := ht.map_window (f := fun op => (op.entryId, leftQueue op))
    (congrArg₂ Prod.mk hid hleft) q l
  rw [flags, flags, dispatched, dispatched, List.map_append, List.map_append, hwindow,
    setIq_hist]
  cases ht
  rfl

/-- The flags after a load has left its queue. -/
theorem Touched.flags_left {op' : OpEntry} (ht : Touched cfg s i op' s')
    (hid : op'.entryId = (s.rob i).entryId) (hslot : i ∈ s.slots cfg)
    (hwaits : leftQueue (s.rob i) = false) (hleft : leftQueue op' = true) (q : Iq)
    (l : List ℕ) (n : ℕ) :
    (n, true) ∈ (s'.setIq q l).flags cfg
      ↔ (n, true) ∈ s.flags cfg ∨ n = (s.rob i).entryId := by
  have hretired : (s'.setIq q l).hist.retired = s.hist.retired := by
    rw [setIq_hist]
    cases ht
    rfl
  rw [mem_flags_iff, mem_flags_iff, hretired, ht.slots, setIq_rob, ht.rob, or_assoc]
  refine or_congr_right ?_
  constructor
  · rintro ⟨j, hj, hentry, hflag⟩
    by_cases hji : j = i
    · rw [hji, Function.update_self] at hentry
      exact Or.inr (hentry.symm.trans hid)
    · rw [Function.update_of_ne hji] at hentry hflag
      exact Or.inl ⟨j, hj, hentry, hflag⟩
  · rintro (⟨j, hj, hentry, hflag⟩ | rfl)
    -- the load in slot `i` had not left its queue
    · have hji : j ≠ i := by
        rintro rfl
        exact Bool.false_ne_true (hwaits.symm.trans hflag)
      exact ⟨j, hj, by rwa [Function.update_of_ne hji], by rwa [Function.update_of_ne hji]⟩
    · exact ⟨i, hslot, by rwa [Function.update_self], by rwa [Function.update_self]⟩

/-- **What an attempt does to the flags.**  A load that leaves its queue gets its flag,
and nothing else changes. -/
theorem Outcome.flags_iff {q : Iq} {ok : Bool} (h : Outcome cfg s i q s' ok)
    (hr : Represents cfg s) (hi : i ∈ s.iq q) (l : List ℕ) (n : ℕ) :
    (n, true) ∈ (s'.setIq q l).flags cfg
      ↔ (n, true) ∈ s.flags cfg ∨ (q = .ldu ∧ ok = true) ∧ n = (s.rob i).entryId := by
  obtain ⟨hslot, haw⟩ := hr.mem_of_mem_iq hi
  obtain ⟨op', ht, hinst, hid, hfu, -, heffect⟩ := h.effect (hr.live i hslot) haw
  have htarget : iqTarget op' = iqTarget (s.rob i) := iqTarget_congr hinst hfu
  have hldu := heffect .ldu
  by_cases hleaves : q = .ldu ∧ ok = true
  · obtain ⟨rfl, rfl⟩ := hleaves
    have hleft : leftQueue op' = true := by
      rw [leftQueue, hldu, htarget, Iq.target_of_awaits haw]
      simp [Iq.target]
    rw [ht.flags_left hid hslot (leftQueue_of_awaits haw) hleft]
    simp
  · have hsame : leftQueue op' = leftQueue (s.rob i) := by
      have hkeeps : (ok && decide (Iq.ldu = q)) = false := by
        rw [Bool.and_eq_false_iff, decide_eq_false_iff_not]
        by_cases hok : ok = true
        · exact Or.inr fun hq => hleaves ⟨hq.symm, hok⟩
        · exact Or.inl (Bool.eq_false_iff.mpr hok)
      rw [leftQueue, leftQueue, htarget, hldu, hkeeps, Bool.not_false, Bool.and_true]
    rw [ht.flags_eq hid hsame]
    simp [hleaves]

omit [CachePrefetcher P] in
/-- A load that waits in its queue has no flag. -/
theorem Conserved.not_mem_flags (hc : Conserved cfg env s) (hi : i ∈ s.iq .ldu) :
    ((s.rob i).entryId, true) ∉ s.flags cfg := by
  obtain ⟨hslot, haw⟩ := hc.represents.mem_of_mem_iq hi
  intro hmem
  obtain ⟨op, hop, heq⟩ := List.mem_map.mp hmem
  rw [Prod.mk.injEq] at heq
  have hpipe : ∀ op ∈ s.dispatched cfg, op ∈ s.pipeline cfg := by
    intro op hop
    rw [pipeline_eq_dispatched]
    exact List.mem_append_left _ hop
  -- the numbers are distinct, so it is the same load
  have hsame := hc.eq_of_entryId (hpipe op hop)
    (hpipe (s.rob i) (List.mem_append_right _ (List.mem_map_of_mem hslot))) heq.1
  rw [hsame, leftQueue_of_awaits haw] at heq
  cases heq.2

omit [CachePrefetcher P] in
theorem setIq_sameLoads (s : Sim P B) (q : Iq) (l : List ℕ) : SameLoads s (s.setIq q l) := by
  cases q <;> exact ⟨rfl, rfl, rfl, .refl _⟩

omit [CachePrefetcher P] in
theorem setIq_flags (s : Sim P B) (q : Iq) (l : List ℕ) :
    (s.setIq q l).flags cfg = s.flags cfg := by
  cases q <;> rfl

theorem Touched.loadProfileBaseline {op' : OpEntry} (h : Touched cfg s i op' s') :
    s'.loadProfileBaseline = s.loadProfileBaseline := by
  cases h
  rfl

/-- Only loads are profiled. -/
theorem attempt_sameLoads {q : Iq} (hq : q ≠ .ldu) (s : Sim P B) (i : ℕ) :
    SameLoads s (attempt cfg q s i).1 := by
  refine attempt_rule hq cfg (.refl s) (fun t => ?_)
    fun _ _ _ _ _ _ => ⟨rfl, rfl, rfl, .refl _⟩
  rw [markLoadExecuted_eq]
  exact ⟨rfl, rfl, rfl, .refl _⟩

theorem loadRecords_waits (h : (lduAttempt cfg s i).1.loadProfileStats = s.loadProfileStats) :
    loadRecords cfg s i = [] := by
  rw [loadRecords, h, Nat.sub_self]
  rfl

theorem loadRecords_left {dep stlf l1Hit : Bool}
    (h : Recorded s.loadProfileStats (lduAttempt cfg s i).1.loadProfileStats dep stlf l1Hit) :
    loadRecords cfg s i = [(s.rob i).entryId] := by
  rw [loadRecords, h.total, Nat.add_sub_cancel_left]
  rfl

omit [CachePrefetcher P] in
/-- A load that leaves its queue is entered once. -/
theorem Ledger.enter (h : Ledger cfg s log) {n : ℕ} (hnew : (n, true) ∉ s.flags cfg)
    (hflags : ∀ m, (m, true) ∈ s'.flags cfg ↔ (m, true) ∈ s.flags cfg ∨ m = n)
    {dep stlf l1Hit : Bool}
    (hrecorded : Recorded s.loadProfileStats s'.loadProfileStats dep stlf l1Hit)
    (hhit : s'.mem.dcache.counters.hit
      = s.mem.dcache.counters.hit + if l1Hit then 1 else 0)
    (hdemands : s'.mem.dcache.demands = s.mem.dcache.demands + if stlf then 0 else 1)
    (hbaseline : s'.loadProfileBaseline = s.loadProfileBaseline)
    (hstlf : s'.profiler.stats.stlfHits
      = s.profiler.stats.stlfHits + if stlf then 1 else 0) :
    Ledger cfg s' (log ++ [n]) where
  nodup := by
    refine h.nodup.append (List.nodup_singleton n) ?_
    rw [List.disjoint_singleton, h.mem]
    exact hnew
  mem m := by
    rw [List.mem_append, List.mem_singleton, h.mem, hflags]
  total := by rw [hrecorded.total, h.total, List.length_append, List.length_singleton]
  l1Hit := by rw [hrecorded.l1Hit, hhit, h.l1Hit]
  served := by
    have hserved := h.served
    rw [hrecorded.total, hrecorded.stlf, hdemands]
    cases stlf <;> simp <;> omega
  stlf := by
    have hcount := h.stlf
    rw [hrecorded.stlf, hbaseline, hstlf]
    omega

/-- **An attempt to issue a load** and its entry in the log. -/
theorem Ledger.lduAttempt (hprofile : cfg.enableDependentLoadProfiling = true)
    (h : Ledger cfg s log) {last : Option ℕ} (hmem : s.mem.Roomy last)
    (hnew : ((s.rob i).entryId, true) ∉ s.flags cfg)
    (hflags : ∀ n, (n, true) ∈ (lduAttempt cfg s i).1.flags cfg
      ↔ (n, true) ∈ s.flags cfg ∨ (lduAttempt cfg s i).2 = true ∧ n = (s.rob i).entryId) :
    Ledger cfg (lduAttempt cfg s i).1 (log ++ loadRecords cfg s i) := by
  have hcounted := lduAttempt_counted hprofile s i
  obtain ⟨op', ht, -⟩ := (lduAttempt_outcome cfg s i).outcome.touched
  have hbaseline := ht.loadProfileBaseline
  rcases hok : (Sim.lduAttempt cfg s i).2 with - | -
  · rw [hok] at hcounted
    cases hcounted with
    | waits stats stlfHits hsame =>
      have hdcache : s.mem.dcache.SameDemands (Sim.lduAttempt cfg s i).1.mem.dcache := by
        rcases hsame with hsame | ⟨r, hblocked, haccess⟩
        · rw [hsame]
          exact .refl _
        -- the first level refused it, so it has counted no demand
        · have hdemands := MemSubsystem.accessDcacheLoad_demands hmem haccess
          rwa [if_pos hblocked] at hdemands
      rw [loadRecords_waits stats, List.append_nil]
      refine h.same ⟨stats, hbaseline, stlfHits, hdcache⟩ fun n => ?_
      rw [hflags, hok]
      exact or_iff_left fun hn => Bool.false_ne_true hn.1
  · have hflags' : ∀ n, (n, true) ∈ (Sim.lduAttempt cfg s i).1.flags cfg
        ↔ (n, true) ∈ s.flags cfg ∨ n = (s.rob i).entryId := by
      intro n
      rw [hflags, hok, and_iff_right rfl]
    rw [hok] at hcounted
    cases hcounted with
    | forwards stats stlfHits hsame =>
      rw [loadRecords_left stats]
      refine h.enter hnew hflags' stats ?_ ?_ hbaseline stlfHits <;> rw [hsame] <;> rfl
    | accesses r mem served access stats stlfHits mem' =>
      have hdemands := MemSubsystem.accessDcacheLoad_demands hmem access
      rw [served, if_neg Bool.false_ne_true] at hdemands
      obtain ⟨pc, addr, hit, hmem'⟩ := mem'
      have hsame := MemSubsystem.enqueuePrefetch_sameDemands cfg.mem mem true pc addr hit
      rw [← hmem'] at hsame
      rw [loadRecords_left stats]
      exact h.enter hnew hflags' stats (hsame.hit.trans hdemands.2)
        (hsame.demands.trans hdemands.1) hbaseline stlfHits

/-- What holds between the attempts of an issue stage. -/
structure Issuing (cfg : Config P B) (env : Env) (s : Sim P B) (log : List ℕ) : Prop where
  conserved : Conserved cfg env s
  roomy : s.mem.Roomy (some s.totalCycles)
  ledger : Ledger cfg s log

/-- The records of an attempt from any queue. -/
def recordsOf (cfg : Config P B) : Iq → Sim P B → ℕ → List ℕ
  | .ldu => loadRecords cfg
  | _ => fun _ _ => []

/-- What an attempt does to the log, with the queues put aside. -/
theorem Ledger.attempt (hprofile : cfg.enableDependentLoadProfiling = true)
    (h : Ledger cfg s log) {last : Option ℕ} (hmem : s.mem.Roomy last) {q : Iq}
    (hnew : q = .ldu → ((s.rob i).entryId, true) ∉ s.flags cfg)
    (hflags : ∀ n, (n, true) ∈ (attempt cfg q s i).1.flags cfg
      ↔ (n, true) ∈ s.flags cfg ∨
        (q = .ldu ∧ (attempt cfg q s i).2 = true) ∧ n = (s.rob i).entryId) :
    Ledger cfg (attempt cfg q s i).1 (log ++ recordsOf cfg q s i) := by
  by_cases hq : q = .ldu
  · subst hq
    simp only [true_and] at hflags
    exact h.lduAttempt hprofile hmem (hnew rfl) hflags
  · have hrecords : recordsOf cfg q s i = [] := by
      cases q <;> first | rfl | exact absurd rfl hq
    rw [hrecords, List.append_nil]
    refine h.same (attempt_sameLoads hq s i) fun n => ?_
    rw [hflags]
    exact or_iff_left fun hn => hq hn.1.1

/-- The invariant of the loop over queue `q`. -/
theorem Issuing.attempt (hprofile : cfg.enableDependentLoadProfiling = true) {q : Iq}
    {kept rest : List ℕ} (h : Issuing cfg env (s.setIq q (kept ++ i :: rest)) log) :
    ((attempt cfg q s i).2 = true →
      Issuing cfg env ((attempt cfg q s i).1.setIq q (kept ++ rest))
        (log ++ recordsOf cfg q s i)) ∧
    ((attempt cfg q s i).2 = false →
      Issuing cfg env ((attempt cfg q s i).1.setIq q (kept ++ i :: rest))
        (log ++ recordsOf cfg q s i)) := by
  have hqueue : (s.setIq q (kept ++ i :: rest)).iq q = kept ++ i :: rest := by simp
  have hi : i ∈ (s.setIq q (kept ++ i :: rest)).iq q := by
    rw [hqueue]
    exact List.mem_append_right _ List.mem_cons_self
  have houtcome := (attempt_outcome cfg q s i).setIq q (kept ++ i :: rest)
  have hinv := conserved_invariant cfg env fun _ => True
  -- the subsystem and the ledger do not look at the queues
  have hmem : s.mem.Roomy (some s.totalCycles) := by
    have hm := h.roomy
    rwa [setIq_mem, setIq_totalCycles] at hm
  have hmem' : (Sim.attempt cfg q s i).1.mem.Roomy
      (some (Sim.attempt cfg q s i).1.totalCycles) := by
    obtain ⟨op', ht, -⟩ := (attempt_outcome cfg q s i).touched
    exact ht.memDuring.memoryAt MemSubsystem.roomy_runInvariant hmem
  have hledger : Ledger cfg s log := by
    have hl := h.ledger.same (setIq_sameLoads _ q (s.iq q)) fun n => by rw [setIq_flags]
    rwa [setIq_setIq, setIq_self] at hl
  have hnext : Ledger cfg (Sim.attempt cfg q s i).1 (log ++ recordsOf cfg q s i) := by
    refine hledger.attempt hprofile hmem ?_ fun n => ?_
    · rintro rfl
      have hnew := h.conserved.not_mem_flags hi
      rwa [setIq_flags, setIq_rob] at hnew
    · have hflags := houtcome.flags_iff h.conserved.represents hi [] n
      rwa [setIq_setIq, setIq_flags, setIq_flags, setIq_rob] at hflags
  have hset : ∀ l, Ledger cfg ((Sim.attempt cfg q s i).1.setIq q l)
      (log ++ recordsOf cfg q s i) := fun l =>
    hnext.same (setIq_sameLoads _ q l) fun n => by rw [setIq_flags]
  have hmemSet : ∀ l, ((Sim.attempt cfg q s i).1.setIq q l).mem.Roomy
      (some ((Sim.attempt cfg q s i).1.setIq q l).totalCycles) := by
    intro l
    rwa [setIq_mem, setIq_totalCycles]
  constructor
  · intro hok
    rw [hok] at houtcome
    have hc := hinv.step h.conserved (.issues _ q kept i rest _ hqueue houtcome)
    rw [setIq_setIq] at hc
    exact ⟨hc, hmemSet _, hset _⟩
  · intro hok
    rw [hok] at houtcome
    exact ⟨hinv.step h.conserved (.waits _ q i _ hi houtcome), hmemSet _, hset _⟩

/-- The loop over one queue. -/
theorem Issuing.issueIq (hprofile : cfg.enableDependentLoadProfiling = true)
    (h : Issuing cfg env s log) (q : Iq) :
    Issuing cfg env (s.issueIq cfg q)
      (log ++ scanLog (Sim.attempt cfg q) (recordsOf cfg q) (units cfg q) (s.iq q) s) := by
  have hstart : Issuing cfg env (s.setIq q ([] ++ s.iq q)) log := by
    rwa [List.nil_append, setIq_self]
  obtain ⟨kept, rest, hqueue, hscan⟩ := scanLog_rule
    (I := fun kept rest s log => Issuing cfg env (s.setIq q (kept ++ rest)) log)
    (fun kept i rest s log hs => by
      obtain ⟨hok, hfail⟩ := hs.attempt hprofile
      refine ⟨hok, fun hf => ?_⟩
      rw [List.append_assoc, List.singleton_append]
      exact hfail hf)
    (units cfg q) [] (s.iq q) s log hstart
  rw [List.nil_append] at hqueue
  unfold Sim.issueIq
  rwa [← hqueue] at hscan

theorem scanLog_recordsOf {q : Iq} (hq : q ≠ .ldu) (w : ℕ) (queue : List ℕ) (s : Sim P B) :
    scanLog (Sim.attempt cfg q) (recordsOf cfg q) w queue s = [] := by
  refine scanLog_empty (fun s i => ?_) w queue s
  cases q <;> first | rfl | exact absurd rfl hq

/-- **The issue stage** adds the loads it records to the log. -/
theorem Issuing.issueStage (hprofile : cfg.enableDependentLoadProfiling = true)
    (h : Issuing cfg env s log) :
    Issuing cfg env (s.issueStage cfg) (log ++ loadEvents cfg .issue s) := by
  have halu := h.issueIq hprofile .alu
  rw [scanLog_recordsOf (q := .alu) (by decide), List.append_nil] at halu
  have hldu := halu.issueIq hprofile .ldu
  have hsta := hldu.issueIq hprofile .sta
  rw [scanLog_recordsOf (q := .sta) (by decide), List.append_nil] at hsta
  have hstd := hsta.issueIq hprofile .std
  rw [scanLog_recordsOf (q := .std) (by decide), List.append_nil] at hstd
  have hbru := hstd.issueIq hprofile .bru
  rw [scanLog_recordsOf (q := .bru) (by decide), List.append_nil] at hbru
  rw [issueStage_eq]
  exact hbru

end Issue

/-! ### Runs -/

section Runs

variable [CachePrefetcher P] [BranchPredictor B]

/-- Only the issue stage counts a load. -/
theorem Ledger.stage (h : Ledger cfg s log) (hconserved : Conserved cfg env s) {b : Boundary}
    (hb : b ≠ .issue) : Ledger cfg (stage cfg env b s) log := by
  cases b with
  | issue => exact absurd rfl hb
  -- no other stage serves a load, and ops move without changing their flags
  | returns =>
    exact h.same ⟨rfl, rfl, rfl, Cache.processReturns_sameDemands _ _ _⟩ fun n => Iff.rfl
  | advance => exact h.advanceCycle
  | commit =>
    have hloop : Conserved cfg env { s with instsBefore := s.instructionsRetired } :=
      hconserved.of_same (hconserved.represents.of_same ⟨rfl, rfl, rfl, rfl, fun q => by
        cases q <;> rfl, rfl⟩ fun op hop => Or.inl hop) ⟨rfl, id, rfl, rfl, rfl, rfl⟩ rfl
    have hsame := commitLoop_sameLoads cfg cfg.commitWidth
      { s with instsBefore := s.instructionsRetired }
    have hflags := commitLoop_flags cfg.commitWidth hloop
    refine h.same ⟨hsame.stats, hsame.baseline, hsame.stlfHits, hsame.dcache⟩ fun n => ?_
    exact iff_of_eq (congrArg ((n, true) ∈ ·) hflags)
  | dispatch =>
    have hsame := dispatchLoop_sameLoads cfg cfg.dispatchWidth s
    exact h.same ⟨hsame.stats, hsame.baseline, hsame.stlfHits, hsame.dcache⟩
      (dispatchLoop_flags cfg.dispatchWidth hconserved)
  | decode => exact h.same ⟨rfl, rfl, rfl, .refl _⟩ fun n => Iff.rfl
  | fetch =>
    refine h.same (fetchStage_sameLoads s) fun n => ?_
    rw [Sim.stage, fetchStage_flags]
  | service =>
    exact h.same ⟨rfl, rfl, rfl, MemSubsystem.servicePrefetchQueues_sameDemands _ _ _⟩
      fun n => Iff.rfl
  | account =>
    obtain ⟨-, -, -, hstats⟩ := account_profiler s
    exact h.same ⟨rfl, rfl, congrArg ProfilerStats.stlfHits hstats, .refl _⟩ fun n => Iff.rfl

/-- **The ledger** is kept at every boundary of every run. -/
theorem Observed.ledger (hprofile : cfg.enableDependentLoadProfiling = true)
    (hample : cfg.mem.Ample) {b : Boundary} (h : Observed cfg env (loadEvents cfg) b s log) :
    Ledger cfg s log := by
  induction h with
  | start =>
    refine ⟨List.nodup_nil, fun n => ?_, rfl, rfl, rfl, rfl⟩
    exact iff_of_false List.not_mem_nil List.not_mem_nil
  | @step b s log hs _ ih =>
    have hconserved := hs.reach.invariant (conserved_invariant cfg env _)
      (commitsIn_true cfg env)
    by_cases hb : b = .issue
    · subst hb
      have hissuing : Issuing cfg env s log := ⟨hconserved, hs.reach.roomy hample, ih⟩
      exact (hissuing.issueStage hprofile).ledger
    · have hevents : loadEvents cfg b s = [] := by
        cases b <;> first | rfl | exact absurd rfl hb
      rw [hevents, List.append_nil]
      exact ih.stage hconserved hb

omit [CachePrefetcher P] [BranchPredictor B] in
/-- A load is in its queue as long as it has no flag. -/
theorem leftQueue_iff (h : Scoreboard cfg env s) {op : OpEntry} (hop : op ∈ s.dispatched cfg)
    (hload : iqTarget op = .ldu) :
    leftQueue op = true ↔ ∀ j ∈ s.lduIq, (s.rob j).entryId ≠ op.entryId := by
  have hr := h.conserved.represents
  have hmember : ∀ {op}, op ∈ s.dispatched cfg → op ∈ s.pipeline cfg := by
    intro op hop
    rw [pipeline_eq_dispatched]
    exact List.mem_append_left _ hop
  constructor
  -- an id names one op, so the one in the queue would be this one
  · intro hleft j hj hid
    obtain ⟨hslot, haw⟩ := hr.mem_of_mem_iq (q := .ldu) hj
    have hrob : s.rob j ∈ s.dispatched cfg :=
      List.mem_append_right _ (List.mem_map_of_mem hslot)
    have heq := h.conserved.eq_of_entryId (hmember hrob) (hmember hop) hid
    rw [heq] at haw
    exact Bool.false_ne_true ((leftQueue_of_awaits haw).symm.trans hleft)
  · intro hleft
    -- a load that waits is in the window, and hence in its queue
    have hexec : Iq.ldu.awaits op = false := by
      rw [dispatched, List.mem_append] at hop
      rcases hop with hretired | hwindow
      · rw [Iq.awaits, (h.retired op hretired).1, Bool.not_true, Bool.and_false]
      · obtain ⟨j, hj, rfl⟩ := List.mem_map.mp hwindow
        rw [Bool.eq_false_iff]
        intro haw
        refine hleft j ?_ rfl
        change j ∈ s.iq .ldu
        rw [hr.queue, List.mem_filter]
        exact ⟨hj, haw⟩
    rw [leftQueue, hexec, hload]
    rfl

/-- **Load profile and cache statistics agree**, with profiling on and enough MSHRs in
the last level, in every state after an issue stage.  Every load that has left its queue
has been recorded once, nothing else has been, and the three counts agree. -/
theorem load_profile_agrees (cfg : Config P B) (env : Env)
    (hprofile : cfg.enableDependentLoadProfiling = true) (hample : cfg.mem.Ample)
    {s : Sim P B} {log : List ℕ} (h : Observed cfg env (loadEvents cfg) .dispatch s log) :
    (∀ op ∈ s.dispatched cfg, iqTarget op = .ldu →
      log.count op.entryId =
        if ∀ j ∈ s.lduIq, (s.rob j).entryId ≠ op.entryId then 1 else 0) ∧
    (∀ n ∈ log, ∃ op ∈ s.dispatched cfg, op.entryId = n ∧ iqTarget op = .ldu) ∧
    s.loadProfileStats.total = log.length ∧
    s.loadProfileStats.l1Hit = s.mem.dcache.counters.hit ∧
    s.loadProfileStats.total =
      s.loadProfileStats.stlf + s.mem.dcache.counters.hit +
        s.mem.dcache.counters.missNew + s.mem.dcache.counters.missMerged ∧
    s.loadProfileBaseline.stlf ≤ s.loadProfileStats.stlf ∧
    s.loadProfileStats.stlf - s.loadProfileBaseline.stlf = s.profiler.stats.stlfHits := by
  have hledger := h.ledger hprofile hample
  have hscore := h.reach.invariant (scoreboard_invariant cfg env _) (commitsIn_true cfg env)
  have hserved := hledger.served
  have hstlf := hledger.stlf
  refine ⟨?_, ?_, hledger.total, hledger.l1Hit, ?_, ?_, ?_⟩
  · intro op hop hload
    -- an id is logged exactly if its op has left the queue
    have hmem : op.entryId ∈ log ↔ leftQueue op = true := by
      rw [hledger.mem, flags, List.mem_map]
      constructor
      · rintro ⟨op', hop', heq⟩
        rw [Prod.mk.injEq] at heq
        have hsame : op' = op := hscore.conserved.eq_of_entryId
          (by rw [pipeline_eq_dispatched]; exact List.mem_append_left _ hop')
          (by rw [pipeline_eq_dispatched]; exact List.mem_append_left _ hop) heq.1
        rw [← hsame, heq.2]
      · intro hleft
        exact ⟨op, hop, by rw [hleft]⟩
    rw [hledger.nodup.count]
    exact if_congr (hmem.trans (leftQueue_iff hscore hop hload)) rfl rfl
  · intro n hn
    obtain ⟨op, hop, heq⟩ := List.mem_map.mp ((hledger.mem n).mp hn)
    rw [Prod.mk.injEq, leftQueue, Bool.and_eq_true, decide_eq_true_eq] at heq
    exact ⟨op, hop, heq.1, heq.2.1⟩
  · rw [Cache.demands] at hserved
    omega
  · omega
  · omega

end Runs

/-- After the second of two loads has issued, both have been recorded, and both are
demands on the D-cache. -/
theorem load_profile_agrees_pointer :
    ∃ s log, Observed shippedConfig pointerTrace (loadEvents shippedConfig) .dispatch s log ∧
      s.loadProfileStats.total = 2 ∧ log.length = 2 ∧ s.mem.dcache.demands = 2 := by
  have hrun : (runFor shippedConfig pointerTrace 270 (Sim.new shippedConfig)).any (fun s =>
      decide (s.running = true ∧
        (s.upTo shippedConfig pointerTrace .dispatch).loadProfileStats.total = 2 ∧
        (s.upTo shippedConfig pointerTrace .dispatch).loadProfileStats.stlf = 0)) = true := by
    decide +kernel
  obtain ⟨s, hs, htest⟩ := exists_reach hrun
  obtain ⟨hrunning, htotal, hstlf⟩ := of_decide_eq_true htest
  obtain ⟨log, hlog⟩ := (hs.upTo hrunning .dispatch).observed (loadEvents shippedConfig)
  obtain ⟨-, -, hlength, -, hserved, -⟩ :=
    load_profile_agrees shippedConfig pointerTrace rfl backed_shipped.ample hlog
  refine ⟨_, log, hlog, htotal, hlength.symm.trans htotal, ?_⟩
  rw [Cache.demands]
  omega

end Sim

end TraceSim
