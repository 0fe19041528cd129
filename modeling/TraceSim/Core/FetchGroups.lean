/-
TraceSim/Core/FetchGroups.lean

Fetch groups.

The instructions fetched in one cycle are a group: they are no more than the fetch
bandwidth, they share a line that has hit, and only the last of them can end the group.
What redirects the fetch stream stalls it; the stall is kept as a maximum, so no other
reason for a stall shortens it.  The log has the ops as they are fetched, oldest first;
`Fetched` is what holds of them between the stages, and `Grouping` inside the loop.
-/
import TraceSim.Core.Memory
import TraceSim.Core.Observation
import TraceSim.Core.Conservation
import TraceSim.Frontend.FetchLog

namespace TraceSim

open Relation

/-! ### The log -/

/-- A fetched op, with the flag for a wrong prediction. -/
abbrev Delivery := OpEntry × Bool

/-- The op ends its group. -/
def Delivery.endsGroup (d : Delivery) : Bool := d.1.inst.endsGroup d.2

/-- From cycle `t` on the stall that the op causes is over. -/
structure Delivery.Resumes (d : Delivery) (t : ℕ) : Prop where
  mispredicted : d.2 = true → d.1.fetchCycle + branchMispredictPenalty ≤ t
  redirected : d.1.inst.redirects d.2 = true → d.1.fetchCycle + fetchRedirectLatency ≤ t

theorem Delivery.Resumes.mono {d : Delivery} {t t' : ℕ} (h : d.Resumes t) (hle : t ≤ t') :
    d.Resumes t' where
  mispredicted hd := (h.mispredicted hd).trans hle
  redirected hd := (h.redirected hd).trans hle

/-- The fetched ops of a log. -/
def deliveries (log : List FetchEvent) : List Delivery :=
  log.filterMap fun
    | .delivered op mispredicted => some (op, mispredicted)
    | _ => none

@[simp] theorem deliveries_append (log log' : List FetchEvent) :
    deliveries (log ++ log') = deliveries log ++ deliveries log' :=
  List.filterMap_append

/-- In cycle `t` the line `line` has hit. -/
def LineHit (lineSize : BitVec 32) (log : List FetchEvent) (t : ℕ) (line : BitVec 32) : Prop :=
  ∃ pc r, FetchEvent.access pc t r ∈ log ∧ r.hits = true ∧ lineAddr pc lineSize = line

theorem LineHit.append {lineSize line : BitVec 32} {log : List FetchEvent} {t : ℕ}
    (h : LineHit lineSize log t line) (log' : List FetchEvent) :
    LineHit lineSize (log ++ log') t line := by
  obtain ⟨pc, r, hmem, hr⟩ := h
  exact ⟨pc, r, List.mem_append_left _ hmem, hr⟩

namespace Sim

variable {P B : Type} {cfg : Config P B} {env : Env} {s s' s'' : Sim P B}
  {log : List FetchEvent}

@[simp] theorem deliveries_accessEvents [CachePrefetcher P] (s : Sim P B) (inst : TraceInst)
    (first : Bool) : deliveries (s.accessEvents inst first) = [] := by
  unfold accessEvents
  split <;> rfl

/-- The events of a stage; only the fetch stage has some. -/
def fetchEvents [CachePrefetcher P] [BranchPredictor B] (cfg : Config P B) (env : Env) :
    Boundary → Sim P B → List FetchEvent
  | .fetch, s =>
      if s.frontendCanFetch cfg then fetchLoopEvents cfg env cfg.fetchBandwidth s 0 true .none
      else []
  | _, _ => []

/-! ### What holds of the fetched ops -/

/-- What holds of the ops fetched so far, all of them before cycle `limit`. -/
structure Fetched (cfg : Config P B) (limit : ℕ) (s : Sim P B) (log : List FetchEvent) :
    Prop where
  pipeline : (s.pipeline cfg).map OpEntry.ident = (deliveries log).map fun d => d.1.ident
  cycles : ∀ d ∈ deliveries log, d.1.fetchCycle < limit
  resumes : ∀ d ∈ deliveries log, d.Resumes s.fetchStallUntil
  ordered : (deliveries log).Pairwise fun d d' =>
    (d.endsGroup = true → d.1.fetchCycle < d'.1.fetchCycle) ∧ d.Resumes d'.1.fetchCycle
  width : ∀ t, (deliveries log).countP (fun d => d.1.fetchCycle = t) ≤ cfg.fetchBandwidth
  lines : ∀ d ∈ deliveries log,
    LineHit cfg.mem.icache.lineSize log d.1.fetchCycle
      (lineAddr d.1.inst.pc cfg.mem.icache.lineSize) ∧
    ∀ d' ∈ deliveries log, d'.1.fetchCycle = d.1.fetchCycle →
      lineAddr d'.1.inst.pc cfg.mem.icache.lineSize
        = lineAddr d.1.inst.pc cfg.mem.icache.lineSize

theorem Fetched.same {limit limit' : ℕ} (h : Fetched cfg limit s log) (hle : limit ≤ limit')
    (hpipe : (s'.pipeline cfg).map OpEntry.ident = (s.pipeline cfg).map OpEntry.ident)
    (hstall : s.fetchStallUntil ≤ s'.fetchStallUntil) : Fetched cfg limit' s' log where
  pipeline := hpipe.trans h.pipeline
  cycles d hd := (h.cycles d hd).trans_le hle
  resumes d hd := (h.resumes d hd).mono hstall
  ordered := h.ordered
  width := h.width
  lines := h.lines

/-- Events that deliver nothing. -/
theorem Fetched.quiet {limit : ℕ} (h : Fetched cfg limit s log) {events : List FetchEvent}
    (hnone : deliveries events = []) : Fetched cfg limit s (log ++ events) := by
  have heq : deliveries (log ++ events) = deliveries log := by
    rw [deliveries_append, hnone, List.append_nil]
  refine ⟨heq ▸ h.pipeline, heq ▸ h.cycles, heq ▸ h.resumes, heq ▸ h.ordered,
    heq ▸ h.width, ?_⟩
  rw [heq]
  intro d hd
  exact ⟨(h.lines d hd).1.append _, (h.lines d hd).2⟩

/-- A delivery in cycle `t`. -/
theorem Fetched.deliver {t : ℕ} (h : Fetched cfg (t + 1) s log) {events : List FetchEvent}
    {d : Delivery} (hevents : deliveries events = [d]) (ht : d.1.fetchCycle = t)
    (hpipe : (s'.pipeline cfg).map OpEntry.ident
      = (s.pipeline cfg).map OpEntry.ident ++ [d.1.ident])
    (hcan : s.fetchStallUntil ≤ t) (hstall : s.fetchStallUntil ≤ s'.fetchStallUntil)
    (hresumes : d.Resumes s'.fetchStallUntil)
    (hgoes : ∀ d' ∈ deliveries log, d'.1.fetchCycle = t → d'.endsGroup = false)
    (hwidth : (deliveries log).countP (fun d' => d'.1.fetchCycle = t) < cfg.fetchBandwidth)
    (hhit : LineHit cfg.mem.icache.lineSize (log ++ events) t
      (lineAddr d.1.inst.pc cfg.mem.icache.lineSize))
    (hline : ∀ d' ∈ deliveries log, d'.1.fetchCycle = t →
      lineAddr d'.1.inst.pc cfg.mem.icache.lineSize
        = lineAddr d.1.inst.pc cfg.mem.icache.lineSize) :
    Fetched cfg (t + 1) s' (log ++ events) := by
  have heq : deliveries (log ++ events) = deliveries log ++ [d] := by
    rw [deliveries_append, hevents]
  have hcases {d' : Delivery} (hd' : d' ∈ deliveries (log ++ events)) :
      d' ∈ deliveries log ∨ d' = d := by
    rw [heq, List.mem_append, List.mem_singleton] at hd'
    exact hd'
  refine ⟨?_, fun d' hd' => ?_, fun d' hd' => ?_, ?_, fun u => ?_, fun d' hd' => ?_⟩
  · rw [hpipe, h.pipeline, heq, List.map_append]
    rfl
  · rcases hcases hd' with hd' | rfl
    · exact h.cycles d' hd'
    · omega
  · rcases hcases hd' with hd' | rfl
    · exact (h.resumes d' hd').mono hstall
    · exact hresumes
  · rw [heq, List.pairwise_append]
    refine ⟨h.ordered, List.pairwise_singleton _ _, fun d' hd' d'' hd'' => ?_⟩
    obtain rfl := List.mem_singleton.mp hd''
    refine ⟨fun hends => ?_, ?_⟩
    -- what ends its group was fetched in an earlier cycle
    · have hlt := h.cycles d' hd'
      have hne : d'.1.fetchCycle ≠ t := by
        intro heq
        exact Bool.false_ne_true ((hgoes d' hd' heq).symm.trans hends)
      omega
    · rw [ht]
      exact (h.resumes d' hd').mono hcan
  · rw [heq, List.countP_append, List.countP_singleton]
    by_cases hu : u = t
    · subst hu
      rw [if_pos (by simpa using ht)]
      exact hwidth
    · rw [if_neg (by simpa [ht] using Ne.symm hu)]
      exact h.width u
  · have hnew : d'.1.fetchCycle = t →
        lineAddr d'.1.inst.pc cfg.mem.icache.lineSize
          = lineAddr d.1.inst.pc cfg.mem.icache.lineSize := by
      intro hcycle
      rcases hcases hd' with hd' | rfl
      · exact hline d' hd' hcycle
      · rfl
    by_cases hcycle : d'.1.fetchCycle = t
    · refine ⟨by rw [hcycle, hnew hcycle]; exact hhit, fun d'' hd'' hsame => ?_⟩
      rw [hnew hcycle]
      rcases hcases hd'' with hd'' | rfl
      · exact hline d'' hd'' (hsame.trans hcycle)
      · rfl
    -- a group of an earlier cycle stays as it was
    · have hold : d' ∈ deliveries log := by
        rcases hcases hd' with hd' | rfl
        · exact hd'
        · exact absurd ht hcycle
      refine ⟨(h.lines d' hold).1.append _, fun d'' hd'' hsame => ?_⟩
      rcases hcases hd'' with hd'' | rfl
      · exact (h.lines d' hold).2 d'' hd'' hsame
      · exact absurd (hsame.symm.trans ht) hcycle

section Pipeline

variable {limit : ℕ}

/-- Every op of the pipeline has been delivered. -/
theorem Fetched.exists_delivery (h : Fetched cfg limit s log) {op : OpEntry}
    (hop : op ∈ s.pipeline cfg) :
    ∃ d ∈ deliveries log, d.1.inst = op.inst ∧ d.1.entryId = op.entryId ∧
      d.1.fetchCycle = op.fetchCycle := by
  have hmem : op.ident ∈ (s.pipeline cfg).map OpEntry.ident := List.mem_map_of_mem hop
  rw [h.pipeline, List.mem_map] at hmem
  obtain ⟨d, hd, hident⟩ := hmem
  rw [OpEntry.ident, OpEntry.ident, Prod.mk.injEq, Prod.mk.injEq] at hident
  exact ⟨d, hd, hident⟩

theorem Fetched.pairwise_ids (h : Fetched cfg limit s log) (hconserved : Conserved cfg env s) :
    (deliveries log).Pairwise fun d d' => d.1.entryId < d'.1.entryId := by
  have hpairs : ((s.pipeline cfg).map OpEntry.ident).Pairwise fun p p' => p.2.1 < p'.2.1 :=
    List.pairwise_map.mpr hconserved.pairwise_ids
  rw [h.pipeline, List.pairwise_map] at hpairs
  exact hpairs

/-- A group is no larger than the fetch bandwidth. -/
theorem Fetched.countP_pipeline (h : Fetched cfg limit s log) (t : ℕ) :
    (s.pipeline cfg).countP (fun op => op.fetchCycle = t) ≤ cfg.fetchBandwidth := by
  have hmap := congrArg (List.countP fun p => p.2.2 = t) h.pipeline
  rw [List.countP_map, List.countP_map] at hmap
  exact hmap.trans_le (h.width t)

/-- A group is in one line, which has hit. -/
theorem Fetched.exists_line (h : Fetched cfg limit s log) {i : OpEntry}
    (hi : i ∈ s.pipeline cfg) :
    ∃ line, LineHit cfg.mem.icache.lineSize log i.fetchCycle line ∧
      ∀ j ∈ s.pipeline cfg, j.fetchCycle = i.fetchCycle →
        lineAddr j.inst.pc cfg.mem.icache.lineSize = line := by
  obtain ⟨d, hd, -, -, hcycle⟩ := h.exists_delivery hi
  obtain ⟨hhit, hline⟩ := h.lines d hd
  refine ⟨_, hcycle ▸ hhit, fun j hj hsame => ?_⟩
  obtain ⟨d', hd', hinst', -, hcycle'⟩ := h.exists_delivery hj
  rw [← hinst']
  exact hline d' hd' (hcycle'.trans (hsame.trans hcycle.symm))

end Pipeline

/-! ### The fetch loop -/

section Loop

variable [CachePrefetcher P]

theorem icacheLineSize_of_during {t : ℕ} {m m' : MemSubsystem P}
    (h : MemSubsystem.During cfg.mem t m m') : m'.icacheLineSize = m.icacheLineSize := by
  obtain ⟨ops, hops, -, rfl⟩ := h
  have hshape := (MemSubsystem.sameShape_runInvariant m).execs cfg.mem hops
    (MemSubsystem.SameShape.refl m)
  exact (hshape.l1 .icache).lineSize

/-- Before a turn with `n` turns left. -/
structure Grouping (cfg : Config P B) (n : ℕ) (s : Sim P B) (line : BitVec 32) (first : Bool)
    (log : List FetchEvent) : Prop extends Fetched cfg (s.totalCycles + 1) s log where
  lineSize : s.mem.icacheLineSize = cfg.mem.icache.lineSize
  room : (deliveries log).countP (fun d => d.1.fetchCycle = s.totalCycles) + n
    ≤ cfg.fetchBandwidth
  fresh : first = true → ∀ d ∈ deliveries log, d.1.fetchCycle ≠ s.totalCycles
  hit : first = false → LineHit cfg.mem.icache.lineSize log s.totalCycles line
  group : ∀ d ∈ deliveries log, d.1.fetchCycle = s.totalCycles →
    lineAddr d.1.inst.pc cfg.mem.icache.lineSize = line ∧ d.endsGroup = false

omit [CachePrefetcher P] in
theorem Acquired.pipeline {inst : TraceInst} {s₁ : Sim P B} (h : Acquired env s inst s₁)
    (cfg : Config P B) :
    s₁.pipeline cfg = s.pipeline cfg ∧ s₁.fetchStallUntil = s.fetchStallUntil ∧
      s₁.totalCycles = s.totalCycles ∧ s₁.mem = s.mem ∧ s₁.nextEntryId = s.nextEntryId := by
  obtain ⟨buffer, cpu, rfl⟩ := h.frame
  exact ⟨rfl, rfl, rfl, rfl, rfl⟩

/-- A refused instruction leaves the fetched ops as they are. -/
theorem admitInst_refused_pipeline {inst : TraceInst} {line : BitVec 32} {first : Bool}
    {hint : BoundReason} (h : (s.admitInst cfg inst line first hint).1 = false) :
    (s.admitInst cfg inst line first hint).2.1.pipeline cfg = s.pipeline cfg ∧
      (s.admitInst cfg inst line first hint).2.1.totalCycles = s.totalCycles := by
  obtain ⟨mem, u, r, -, heq⟩ := admitInst_refused cfg h
  rw [heq]
  unfold frontendRequeueTraceInst
  split <;> exact ⟨rfl, rfl⟩

variable [BranchPredictor B]

omit [CachePrefetcher P] in
/-- A delivered op is the youngest of the pipeline. -/
theorem deliverInst_pipeline (cfg : Config P B) (env : Env) (s : Sim P B)
    (inst : TraceInst) :
    ((s.deliverInst cfg env inst).2.pipeline cfg).map OpEntry.ident
        = (s.pipeline cfg).map OpEntry.ident ++ [(s.fetchedOp inst).ident] ∧
      (s.deliverInst cfg env inst).2.totalCycles = s.totalCycles ∧
      (s.deliverInst cfg env inst).2.mem = s.mem := by
  obtain ⟨profiler, bp, rc, u, r, -, heq⟩ := deliverInst_eq cfg env s inst
  rw [heq]
  refine ⟨?_, rfl, rfl⟩
  have hpipe : s.hist.retired ++ s.window cfg ++ s.fetchQueue
      ++ (s.instBuffer ++ [s.fetchedOp inst]) = s.pipeline cfg ++ [s.fetchedOp inst] :=
    (List.append_assoc _ _ _).symm
  exact (congrArg (List.map OpEntry.ident) hpipe).trans List.map_append

omit [BranchPredictor B] in
/-- An instruction that is let in is in the line of the group, and that line has hit. -/
theorem Grouping.admitted {n : ℕ} {line : BitVec 32} {first : Bool} {inst : TraceInst}
    {s₁ : Sim P B} {hint : BoundReason} (h : Grouping cfg n s line first log)
    (hmem : s₁.mem = s.mem) (hcycles : s₁.totalCycles = s.totalCycles)
    (hadmitted : (s₁.admitInst cfg inst line first hint).1 = true)
    (events : List FetchEvent) :
    LineHit cfg.mem.icache.lineSize (log ++ (s₁.accessEvents inst first ++ events))
        s.totalCycles (lineAddr inst.pc cfg.mem.icache.lineSize) ∧
      (∀ d ∈ deliveries log, d.1.fetchCycle = s.totalCycles →
        lineAddr d.1.inst.pc cfg.mem.icache.lineSize
          = lineAddr inst.pc cfg.mem.icache.lineSize) ∧
      (if first then lineAddr inst.pc s₁.mem.icacheLineSize else line)
        = lineAddr inst.pc cfg.mem.icache.lineSize := by
  have hsize : s₁.mem.icacheLineSize = cfg.mem.icache.lineSize := by rw [hmem, h.lineSize]
  have hadmits := admitInst_line cfg hadmitted
  cases first with
  | true =>
    refine ⟨⟨inst.pc, _, List.mem_append_right _ (List.mem_append_left _ ?_), hadmits, rfl⟩,
      fun d hd hcycle => absurd hcycle (h.fresh rfl d hd), ?_⟩
    · rw [accessEvents, if_pos rfl, hcycles]
      exact List.mem_singleton_self _
    · rw [if_pos rfl, hsize]
  | false =>
    rw [if_neg Bool.false_ne_true, hsize] at hadmits
    rw [hadmits]
    exact ⟨(h.hit rfl).append _, fun d hd hcycle => (h.group d hd hcycle).1, rfl⟩

/-- **A turn that delivers.** -/
theorem Grouping.deliver {n : ℕ} {line : BitVec 32} {first : Bool} {inst : TraceInst}
    {s₁ s₂ : Sim P B} {hint : BoundReason} (h : Grouping cfg (n + 1) s line first log)
    (hcan : s.frontendCanFetch cfg = true) (hacquired : Acquired env s inst s₁)
    (hadmitted : (s₁.admitInst cfg inst line first hint).1 = true)
    (heq : (s₁.admitInst cfg inst line first hint).2.1 = s₂) :
    if (s₂.deliverInst cfg env inst).1.stopFetch then
      Fetched cfg ((s₂.deliverInst cfg env inst).2.totalCycles + 1)
        (s₂.deliverInst cfg env inst).2 (log ++ (s₁.accessEvents inst first
          ++ [.delivered (s₂.fetchedOp inst) (s₂.mispredicts cfg env inst)]))
    else
      Grouping cfg n (s₂.deliverInst cfg env inst).2
        (if first then lineAddr inst.pc s₁.mem.icacheLineSize else line) false
        (log ++ (s₁.accessEvents inst first
          ++ [.delivered (s₂.fetchedOp inst) (s₂.mispredicts cfg env inst)])) := by
  obtain ⟨hpipe₁, hstall₁, hcycles₁, hmem₁, -⟩ := hacquired.pipeline cfg
  obtain ⟨mem, hduring, hset⟩ := admitInst_admitted cfg hadmitted
  obtain rfl : s₁.setMem mem = s₂ := hset.symm.trans heq
  -- until the record is delivered the pipeline, the stall and the clock stand
  have hpipe₂ : (s₁.setMem mem).pipeline cfg = s.pipeline cfg := hpipe₁
  have hstall₂ : (s₁.setMem mem).fetchStallUntil = s.fetchStallUntil := hstall₁
  have hcycles₂ : (s₁.setMem mem).totalCycles = s.totalCycles := hcycles₁
  have hsize₁ : s₁.mem.icacheLineSize = cfg.mem.icache.lineSize := by rw [hmem₁, h.lineSize]
  have hsize₂ : mem.icacheLineSize = cfg.mem.icache.lineSize := by
    rw [icacheLineSize_of_during hduring, hsize₁]
  obtain ⟨hstop, hstall, hmiss, hredirect⟩ := deliverInst_stop cfg env (s₁.setMem mem) inst
  obtain ⟨hpipe, hcycles, hmem⟩ := deliverInst_pipeline cfg env (s₁.setMem mem) inst
  generalize (s₁.setMem mem).mispredicts cfg env inst = m at hstop hmiss hredirect ⊢
  generalize (s₁.setMem mem).deliverInst cfg env inst = r
    at hstop hstall hmiss hredirect hpipe hcycles hmem ⊢
  obtain ⟨hhit, hline, hnewLine⟩ := h.admitted hmem₁ hcycles₁ hadmitted
    [.delivered ((s₁.setMem mem).fetchedOp inst) m]
  have hevents : deliveries (s₁.accessEvents inst first
      ++ [.delivered ((s₁.setMem mem).fetchedOp inst) m])
      = [((s₁.setMem mem).fetchedOp inst, m)] := by
    rw [deliveries_append, deliveries_accessEvents]
    rfl
  have hroom := h.room
  have hfetched : Fetched cfg (s.totalCycles + 1) r.2 (log ++ (s₁.accessEvents inst first
      ++ [.delivered ((s₁.setMem mem).fetchedOp inst) m])) := by
    refine h.toFetched.deliver hevents hcycles₂ (hpipe₂ ▸ hpipe) (stall_le_of_canFetch hcan)
      (hstall₂ ▸ hstall) ⟨hmiss, hredirect⟩ (fun d hd hcycle => (h.group d hd hcycle).2)
      (by omega) hhit hline
  have hcycles' : r.2.totalCycles = s.totalCycles := hcycles.trans hcycles₂
  -- the group ends with this record, or counts it and goes on
  rcases hends : r.1.stopFetch with - | -
  swap
  · rw [if_pos rfl, hcycles']
    exact hfetched
  rw [if_neg Bool.false_ne_true]
  rw [hnewLine]
  refine ⟨hcycles' ▸ hfetched, ?_, ?_, nofun, fun _ => hcycles' ▸ hhit,
    fun d hd hcycle => ?_⟩
  · rw [hmem]
    exact hsize₂
  · have hnew : ((s₁.setMem mem).fetchedOp inst).fetchCycle = s.totalCycles := hcycles₂
    rw [deliveries_append, hevents, List.countP_append, List.countP_singleton, hcycles',
      if_pos (decide_eq_true hnew)]
    omega
  · rw [hcycles'] at hcycle
    rw [deliveries_append, hevents, List.mem_append, List.mem_singleton] at hd
    rcases hd with hd | rfl
    · exact ⟨hline d hd hcycle, (h.group d hd hcycle).2⟩
    · exact ⟨rfl, hstop.symm.trans hends⟩

/-- **The fetch loop** from the start of a group. -/
theorem fetchLoop_fetched (h : Grouping cfg cfg.fetchBandwidth s 0 true log) :
    Fetched cfg (s.totalCycles + 1) (fetchLoop cfg env cfg.fetchBandwidth s 0 true .none).1
      (log ++ fetchLoopEvents cfg env cfg.fetchBandwidth s 0 true .none) := by
  have hcycles : (fetchLoop cfg env cfg.fetchBandwidth s 0 true .none).1.totalCycles
      = s.totalCycles := by
    have hturns := fetchLoop_steps cfg env cfg.fetchBandwidth s 0 true .none
    exact (fetchTurns_memDuring hturns).totalCycles
  have hloop := fetchLoopEvents_rule cfg env
    (J := fun n s line first log => Grouping cfg n s line first log)
    (F := fun s log => Fetched cfg (s.totalCycles + 1) s log)
    (fun hJ => hJ.toFetched)
    (fun hJ => hJ.toFetched.same (Nat.le_refl _) rfl (Nat.le_refl _))
    (fun {n s line first log inst s₁ hint} hJ hcan hacquired hrefused => ?_)
    (fun hJ hcan hacquired hadmitted heq => hJ.deliver hcan hacquired hadmitted heq)
    cfg.fetchBandwidth s 0 true .none log h
  · rwa [hcycles] at hloop
  · obtain ⟨hpipe₁, hstall₁, hcycles₁, -⟩ := hacquired.pipeline cfg
    obtain ⟨hpipe, hcycles⟩ := admitInst_refused_pipeline hrefused
    have hstall := admitInst_stall cfg s₁ inst line first hint
    rw [hcycles, hcycles₁]
    refine (hJ.toFetched.same (Nat.le_refl _) ?_ (hstall₁ ▸ hstall)).quiet ?_
    · rw [hpipe, hpipe₁]
    · rw [deliveries_append, deliveries_accessEvents]
      rfl

end Loop

/-! ### Stages -/

section Stages

/-- The front end of `s'` is as that of `s`, up to the ops on their way. -/
structure SameFrontEnd (s s' : Sim P B) : Prop where
  nextEntryId : s'.nextEntryId = s.nextEntryId
  preFetchBuffer : s'.preFetchBuffer = s.preFetchBuffer
  fetchStallUntil : s'.fetchStallUntil = s.fetchStallUntil

theorem SameFrontEnd.refl (s : Sim P B) : SameFrontEnd s s := ⟨rfl, rfl, rfl⟩

theorem SameFrontEnd.trans (h : SameFrontEnd s s') (h' : SameFrontEnd s' s'') :
    SameFrontEnd s s'' where
  nextEntryId := h'.nextEntryId.trans h.nextEntryId
  preFetchBuffer := h'.preFetchBuffer.trans h.preFetchBuffer
  fetchStallUntil := h'.fetchStallUntil.trans h.fetchStallUntil

variable [CachePrefetcher P] [BranchPredictor B]

/-- Only the fetch stage moves the front end on. -/
theorem stage_sameFrontEnd (cfg : Config P B) (env : Env) {b : Boundary} (hb : b ≠ .fetch)
    (s : Sim P B) : SameFrontEnd s (stage cfg env b s) := by
  cases b with
  | fetch => exact absurd rfl hb
  | advance =>
    unfold stage advanceCycle
    dsimp only
    split_ifs <;> exact ⟨rfl, rfl, rfl⟩
  | commit =>
    have hloop : SameFrontEnd s
        (commitLoop cfg cfg.commitWidth { s with instsBefore := s.instructionsRetired }) :=
      commitLoop_rule (I := SameFrontEnd s) (fun h _ => h.trans ⟨rfl, rfl, rfl⟩) _
        ⟨rfl, rfl, rfl⟩
    exact ⟨hloop.nextEntryId, hloop.preFetchBuffer, hloop.fetchStallUntil⟩
  | issue =>
    refine issueStage_rule (I := SameFrontEnd s) (fun h ht => h.trans ?_)
      (fun q l h => h.trans ?_) (.refl s)
    · cases ht
      exact ⟨rfl, rfl, rfl⟩
    · cases q <;> exact ⟨rfl, rfl, rfl⟩
  | dispatch =>
    have hloop : SameFrontEnd s (dispatchLoop cfg cfg.dispatchWidth s).2 := by
      refine dispatchLoop_rule (I := SameFrontEnd s)
        (fun {s₁ op rest} h _ _ => h.trans ?_) _ (.refl s)
      unfold dispatchOne
      cases iqTarget op <;> exact ⟨rfl, rfl, rfl⟩
    exact ⟨hloop.nextEntryId, hloop.preFetchBuffer, hloop.fetchStallUntil⟩
  | _ => exact ⟨rfl, rfl, rfl⟩

/-- The first cycle in which nothing has been fetched at the boundary. -/
def fetchLimit : Boundary → Sim P B → ℕ
  | .service, s => s.totalCycles + 1
  | .account, s => s.totalCycles + 1
  | _, s => s.totalCycles

/-- No stage but the fetch stage moves the limit. -/
theorem fetchLimit_stage (cfg : Config P B) (env : Env) {b : Boundary} (hb : b ≠ .fetch)
    (s : Sim P B) : s.fetchLimit b ≤ (stage cfg env b s).fetchLimit b.next := by
  by_cases haccount : b = .account
  · subst haccount
    exact Nat.le_refl _
  · have hcycles := stage_totalCycles cfg env haccount s
    cases b with
    | fetch => exact absurd rfl hb
    | account => exact absurd rfl haccount
    | service => exact (congrArg (· + 1) hcycles).ge
    | _ => exact hcycles.ge

theorem Reach.icacheLineSize {b : Boundary} (h : Reach cfg env b s) :
    s.mem.icacheLineSize = cfg.mem.icache.lineSize := by
  have hmem := h.memory (MemSubsystem.sameShape_runInvariant (MemSubsystem.new cfg.mem))
    (MemSubsystem.SameShape.refl _)
  have hshape : (MemSubsystem.new cfg.mem).SameShape s.mem := by
    cases b with
    | returns => exact hmem.choose_spec.2
    | _ => exact hmem
  exact (hshape.l1 .icache).lineSize

/-- **The fetched ops of every run.** -/
theorem Observed.fetched {b : Boundary} (h : Observed cfg env (fetchEvents cfg env) b s log) :
    Fetched cfg (s.fetchLimit b) s log := by
  induction h with
  | start =>
    refine ⟨rfl, fun d hd => ?_, fun d hd => ?_, List.Pairwise.nil, fun t => Nat.zero_le _,
      fun d hd => ?_⟩ <;> exact absurd hd List.not_mem_nil
  | @step b s log hs _ ih =>
    by_cases hb : b = .fetch
    · subst hb
      change Fetched cfg ((s.fetchStage cfg env).totalCycles + 1) (s.fetchStage cfg env)
        (log ++ if s.frontendCanFetch cfg then
          fetchLoopEvents cfg env cfg.fetchBandwidth s 0 true .none else [])
      rw [(fetchStage_memDuring cfg env s).totalCycles]
      unfold fetchStage
      rcases hcan : s.frontendCanFetch cfg with - | -
      · rw [if_neg Bool.false_ne_true, if_neg Bool.false_ne_true, List.append_nil]
        exact ih.same (Nat.le_succ _) rfl (Nat.le_refl _)
      · rw [if_pos rfl, if_pos rfl]
        -- nothing has been fetched in this cycle yet
        have hold : ∀ d ∈ deliveries log, d.1.fetchCycle ≠ s.totalCycles :=
          fun d hd => Nat.ne_of_lt (ih.cycles d hd)
        have hnone : (deliveries log).countP (fun d => d.1.fetchCycle = s.totalCycles) = 0 :=
          List.countP_eq_zero.mpr fun d hd => by simpa using hold d hd
        have hgroup : Grouping cfg cfg.fetchBandwidth s 0 true log :=
          ⟨ih.same (Nat.le_succ _) rfl (Nat.le_refl _), hs.reach.icacheLineSize,
            by rw [hnone, Nat.zero_add], fun _ => hold, nofun,
            fun d hd hcycle => absurd hcycle (hold d hd)⟩
        exact (fetchLoop_fetched hgroup).same (Nat.le_refl _) rfl (Nat.le_refl _)
    · have hevents : fetchEvents cfg env b s = [] := by
        cases b <;> first | rfl | exact absurd rfl hb
      have hconserved := hs.reach.invariant (conserved_invariant cfg env fun _ => True)
        (commitsIn_true cfg env)
      have hfront := stage_sameFrontEnd cfg env hb s
      have hpipe := hconserved.pipeline_eq
        (stage_steps cfg env (fun _ => True) b s fun _ _ _ _ => trivial) hfront.nextEntryId
      rw [hevents, List.append_nil]
      exact ih.same (fetchLimit_stage cfg env hb s) hpipe (Nat.le_of_eq
        hfront.fetchStallUntil.symm)

/-! ### Fetch groups -/

/-- The op was a branch that was predicted wrongly. -/
def Mispredicted (log : List FetchEvent) (op : OpEntry) : Prop :=
  ∃ d ∈ deliveries log, d.1.entryId = op.entryId ∧ d.2 = true

theorem mispredicted_iff
    (hids : (deliveries log).Pairwise fun d d' => d.1.entryId < d'.1.entryId) {d : Delivery}
    (hd : d ∈ deliveries log) {op : OpEntry} (hid : d.1.entryId = op.entryId) :
    Mispredicted log op ↔ d.2 = true := by
  constructor
  · rintro ⟨e, he, heq, hflag⟩
    have hsame : e = d := List.inj_on_of_nodup_map (f := fun d : Delivery => d.1.entryId)
      (List.pairwise_map.mpr (hids.imp Nat.ne_of_lt)) he hd (heq.trans hid.symm)
    rw [← hsame, hflag]
  · intro hflag
    exact ⟨d, hd, hid, hflag⟩

/-- What does not end its group. -/
theorem Delivery.goesOn {d : Delivery} (h : d.endsGroup = false) :
    d.1.inst.isTrap = false ∧ d.1.inst.isJump = false ∧
      ¬ (d.1.inst.isBranch = true ∧ d.1.inst.branchTaken = true) ∧ d.2 = false := by
  simp only [Delivery.endsGroup, TraceInst.endsGroup, Bool.or_eq_false_iff] at h
  obtain ⟨⟨⟨htrap, hflag⟩, htaken⟩, hjump⟩ := h
  refine ⟨htrap, hjump, fun hbranch => ?_, hflag⟩
  rw [hbranch.1, hbranch.2] at htaken
  cases htaken

/-- **Fetch groups.**  In every run and for every predictor, no more instructions than the
fetch bandwidth are fetched in one cycle, all in one line that hits in that cycle; and of
two instructions fetched one after the other, the first does not end its group if they
are fetched in one cycle, and its stall is over when the second is fetched. -/
theorem fetch_groups (cfg : Config P B) (env : Env) {b : Boundary} {s : Sim P B}
    {log : List FetchEvent} (h : Observed cfg env (fetchEvents cfg env) b s log) :
    (∀ t, (s.pipeline cfg).countP (fun op => op.fetchCycle = t) ≤ cfg.fetchBandwidth) ∧
    (∀ i ∈ s.pipeline cfg, ∃ line, LineHit cfg.mem.icache.lineSize log i.fetchCycle line ∧
      ∀ j ∈ s.pipeline cfg, j.fetchCycle = i.fetchCycle →
        lineAddr j.inst.pc cfg.mem.icache.lineSize = line) ∧
    ∀ i ∈ s.pipeline cfg, ∀ j ∈ s.pipeline cfg, j.entryId = i.entryId + 1 →
      (i.fetchCycle = j.fetchCycle →
        i.inst.isTrap = false ∧ i.inst.isJump = false ∧
          ¬ (i.inst.isBranch = true ∧ i.inst.branchTaken = true) ∧ ¬ Mispredicted log i) ∧
      (Mispredicted log i → i.fetchCycle + branchMispredictPenalty ≤ j.fetchCycle) ∧
      (i.inst.isJump = true ∨
          i.inst.isBranch = true ∧ i.inst.branchTaken = true ∧ ¬ Mispredicted log i →
        i.fetchCycle + fetchRedirectLatency ≤ j.fetchCycle) := by
  have hfetched := h.fetched
  have hconserved := h.reach.invariant (conserved_invariant cfg env fun _ => True)
    (commitsIn_true cfg env)
  have hids := hfetched.pairwise_ids hconserved
  refine ⟨hfetched.countP_pipeline, fun i hi => hfetched.exists_line hi,
    fun i hi j hj hnext => ?_⟩
  -- each op has its delivery, and the ids order the deliveries
  obtain ⟨d, hd, hinst, hid, hcycle⟩ := hfetched.exists_delivery hi
  obtain ⟨d', hd', -, hid', hcycle'⟩ := hfetched.exists_delivery hj
  obtain ⟨hends, hresumes⟩ := pairwise_of_lt hids hfetched.ordered hd hd' (by omega)
  rw [mispredicted_iff hids hd hid, ← hinst, ← hcycle, ← hcycle']
  refine ⟨fun hsame => ?_, hresumes.mispredicted, fun hredirects => hresumes.redirected ?_⟩
  · have hgoes : d.endsGroup = false := by
      rw [Bool.eq_false_iff]
      intro hstops
      have hlt := hends hstops
      omega
    obtain ⟨htrap, hjump, htaken, hflag⟩ := Delivery.goesOn hgoes
    exact ⟨htrap, hjump, htaken, ne_true_of_eq_false hflag⟩
  · rw [TraceInst.redirects, Bool.or_eq_true]
    rcases hredirects with hjump | ⟨hbranch, htaken, hright⟩
    · exact Or.inr hjump
    · refine Or.inl ?_
      rw [hbranch, htaken, Bool.eq_false_iff.mpr hright]
      rfl

end Stages

/-- A jump, and an instruction in the same line. -/
def jumpTrace : Env :=
  ofTrace
    [{ pc := 0x80000000, opcode := 0b1101111, rd := 1 },
      { pc := 0x80000008, opcode := 0b0010011, rd := 2 }]

theorem fetch_groups_jumpTrace :
    ∃ s log, Observed shippedConfig jumpTrace (fetchEvents shippedConfig jumpTrace) .returns
        s log ∧
      ∃ i ∈ s.pipeline shippedConfig, ∃ j ∈ s.pipeline shippedConfig,
        i.inst.isJump = true ∧ j.entryId = i.entryId + 1 ∧
          i.fetchCycle + fetchRedirectLatency ≤ j.fetchCycle := by
  have hrun : (runFor shippedConfig jumpTrace 136 (Sim.new shippedConfig)).any (fun s =>
      decide (∃ i ∈ s.pipeline shippedConfig, ∃ j ∈ s.pipeline shippedConfig,
        i.inst.isJump = true ∧ j.entryId = i.entryId + 1)) = true := by
    decide +kernel
  obtain ⟨s, hs, htest⟩ := exists_reach hrun
  obtain ⟨i, hi, j, hj, hjump, hnext⟩ := of_decide_eq_true htest
  obtain ⟨log, hlog⟩ := hs.observed (fetchEvents shippedConfig jumpTrace)
  obtain ⟨-, -, hpairs⟩ := fetch_groups shippedConfig jumpTrace hlog
  exact ⟨s, log, hlog, i, hi, j, hj, hjump, hnext,
    (hpairs i hi j hj hnext).2.2 (Or.inl hjump)⟩

end Sim

end TraceSim
