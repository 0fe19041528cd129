/-
TraceSim/Core/Jumps.lean

What a jump costs.

The reference CPU hands a jump over as a taken branch, so the front end predicts its
direction like that of a branch; then the block for jumps asks for the stall of a
redirection.  A stall is kept as a maximum, so if the prediction was wrong the stall
of the misprediction stays: the jump costs a redirection exactly if the predictor
foresees that it is taken (`jump_redirects_iff`).
-/
import TraceSim.Core.Steps
import TraceSim.Frontend.FetchLog
import TraceSim.Ref.Bookkeeping

namespace TraceSim

namespace Sim

variable {P B : Type}

/-! ### Stalls -/

theorem setFetchStall_of_lt {s : Sim P B} {t : ℕ} (r : FetchStallReason)
    (h : s.fetchStallUntil < t) :
    s.setFetchStall t r = { s with fetchStallUntil := t, fetchStallReason := r } :=
  if_pos h

theorem setFetchStall_of_le {s : Sim P B} {t : ℕ} (r : FetchStallReason)
    (h : t ≤ s.fetchStallUntil) : s.setFetchStall t r = s :=
  if_neg (Nat.not_lt.mpr h)

theorem redirectFetch_eq (s : Sim P B) :
    s.redirectFetch = s.setFetchStall (s.totalCycles + fetchRedirectLatency) .fetchRedirect :=
  if_pos (by decide)

/-- After an instruction fetched in cycle `c` the front end waits for the redirection
and for nothing else. -/
structure CostsRedirect (c : ℕ) (s : Sim P B) : Prop where
  stall : s.fetchStallUntil = c + fetchRedirectLatency
  reason : s.fetchStallReason = .fetchRedirect
  notMispredicted : s.fetchStallReason ≠ .branchMispredict

/-! ### One delivery -/

section

variable [BranchPredictor B] (cfg : Config P B) (env : Env)

/-- The predictor foresees that the instruction at `pc` jumps. -/
def foresees (s : Sim P B) (pc : BitVec 32) : Bool := (BranchPredictor.predict s.bp pc).1.taken

variable {cfg} {s : Sim P B} {inst : TraceInst}

/-- The predictor of the configuration is asked, and the stall is left alone. -/
theorem predictBranch_foresees (inst : TraceInst)
    (horacle : branchPredictorUsesOracle cfg.bpType = false) :
    (s.predictBranch cfg env inst).1 = s.foresees inst.pc ∧
      (s.predictBranch cfg env inst).2.fetchStallUntil = s.fetchStallUntil ∧
      (s.predictBranch cfg env inst).2.totalCycles = s.totalCycles := by
  rw [predictBranch, horacle]
  exact ⟨rfl, rfl, rfl⟩

/-- The stall after a taken branch, where none is active. -/
theorem fetchBranch_taken (horacle : branchPredictorUsesOracle cfg.bpType = false)
    (hstall : s.fetchStallUntil ≤ s.totalCycles) (htaken : inst.branchTaken = true)
    (stop : FetchStop) :
    (s.fetchBranch cfg env inst stop).2.totalCycles = s.totalCycles ∧
      if s.foresees inst.pc then
        (s.fetchBranch cfg env inst stop).2.fetchStallUntil
            = s.totalCycles + fetchRedirectLatency ∧
          (s.fetchBranch cfg env inst stop).2.fetchStallReason = .fetchRedirect
      else
        (s.fetchBranch cfg env inst stop).2.fetchStallUntil
            = s.totalCycles + branchMispredictPenalty ∧
          (s.fetchBranch cfg env inst stop).2.fetchStallReason = .branchMispredict := by
  obtain ⟨hpred, huntil, hcycles⟩ := predictBranch_foresees env
    (s := s.setProfiler s.profiler.incTotalBranches) inst horacle
  change _ = s.foresees inst.pc at hpred
  change _ = s.fetchStallUntil at huntil
  change _ = s.totalCycles at hcycles
  unfold fetchBranch
  dsimp only
  generalize (s.setProfiler s.profiler.incTotalBranches).predictBranch cfg env inst = pred
    at hpred huntil hcycles
  -- both stalls end later than one that is over, so they are taken
  have hpenalty : pred.2.fetchStallUntil < pred.2.totalCycles + branchMispredictPenalty := by
    rw [huntil, hcycles, branchMispredictPenalty]
    omega
  have hlatency : (pred.2.setProfiler pred.2.profiler.incCorrectBranches).fetchStallUntil
      < (pred.2.setProfiler pred.2.profiler.incCorrectBranches).totalCycles
        + fetchRedirectLatency := by
    show pred.2.fetchStallUntil < pred.2.totalCycles + fetchRedirectLatency
    rw [huntil, hcycles, fetchRedirectLatency]
    omega
  rw [hpred, htaken]
  rcases s.foresees inst.pc with - | -
  · rw [if_pos Bool.false_ne_true, if_neg Bool.false_ne_true,
      setFetchStall_of_lt .branchMispredict hpenalty]
    exact ⟨hcycles, congrArg (· + branchMispredictPenalty) hcycles, rfl⟩
  · rw [if_neg (not_not.mpr rfl), if_pos rfl, if_pos rfl, redirectFetch_eq,
      setFetchStall_of_lt .fetchRedirect hlatency]
    exact ⟨hcycles, congrArg (· + fetchRedirectLatency) hcycles, rfl⟩

/-- **The stall after a jump**, where none is active. -/
theorem deliverInst_jump (horacle : branchPredictorUsesOracle cfg.bpType = false)
    (hstall : s.fetchStallUntil ≤ s.totalCycles) (hjump : inst.isJump = true)
    (hbranch : inst.isBranch = true) (htaken : inst.branchTaken = true) :
    CostsRedirect s.totalCycles (s.deliverInst cfg env inst).2 ↔ s.foresees inst.pc = true := by
  have hopcode : inst.opcode = 0b1101111 ∨ inst.opcode = 0b1100111 := of_decide_eq_true hjump
  obtain ⟨hcycles, hcost⟩ := fetchBranch_taken env
    (s := { s with nextEntryId := s.nextEntryId + 1 }) horacle hstall htaken
    { stopFetch := inst.isTrap }
  have hdeliver : (s.deliverInst cfg env inst).2
      = ({ s with nextEntryId := s.nextEntryId + 1 }.fetchBranch cfg env inst
          { stopFetch := inst.isTrap }).2.redirectFetch.pushInstBuffer (s.fetchedOp inst) := by
    unfold deliverInst fetchControl
    dsimp only
    rw [if_pos hopcode, if_pos hbranch]
  rw [hdeliver, redirectFetch_eq]
  change (if s.foresees inst.pc = true then _ else _) at hcost
  change _ = s.totalCycles at hcycles
  generalize ({ s with nextEntryId := s.nextEntryId + 1 }.fetchBranch cfg env inst
    { stopFetch := inst.isTrap }).2 = after at hcycles hcost
  rcases hfore : s.foresees inst.pc with - | -
  · -- the stall of the misprediction is the longer one
    rw [hfore, if_neg Bool.false_ne_true] at hcost
    obtain ⟨huntil, hreason⟩ := hcost
    have hle : after.totalCycles + fetchRedirectLatency ≤ after.fetchStallUntil := by
      rw [huntil, hcycles]
      exact Nat.add_le_add_left (by decide) _
    rw [setFetchStall_of_le _ hle]
    refine iff_of_false (fun h => h.notMispredicted hreason) Bool.false_ne_true
  · rw [hfore, if_pos rfl] at hcost
    obtain ⟨huntil, hreason⟩ := hcost
    have hle : after.totalCycles + fetchRedirectLatency ≤ after.fetchStallUntil := by
      rw [huntil, hcycles]
    rw [setFetchStall_of_le _ hle]
    have hkept : (after.pushInstBuffer (s.fetchedOp inst)).fetchStallReason = .fetchRedirect :=
      hreason
    exact iff_of_true ⟨huntil, hkept, by rw [hkept]; decide⟩ rfl

end

/-! ### The deliveries of a run -/

section

variable [CachePrefetcher P] [BranchPredictor B]

/-- The records that `fetchLoop` delivers, each with the state it is delivered in. -/
def fetchLoopDeliveries (cfg : Config P B) (env : Env) :
    ℕ → Sim P B → BitVec 32 → Bool → BoundReason → List (Sim P B × TraceInst)
  | 0, _, _, _, _ => []
  | n + 1, s, currentLineAddr, firstInGroup, hint =>
      if !s.frontendCanFetch cfg then []
      else if s.frontendTraceExhausted then []
      else
        match s.frontendAcquireTraceInst env with
        | (none, _) => []
        | (some inst, s) =>
            let admitted := s.admitInst cfg inst currentLineAddr firstInGroup hint
            if !admitted.1 then []
            else
              let deliver := admitted.2.1.deliverInst cfg env inst
              (admitted.2.1, inst) ::
                if deliver.1.stopFetch then []
                else
                  let instLine := lineAddr inst.pc s.mem.icacheLineSize
                  fetchLoopDeliveries cfg env n deliver.2
                    (if firstInGroup then instLine else currentLineAddr) false admitted.2.2

/-- The deliveries of a fetch stage. -/
def fetchDeliveries (cfg : Config P B) (env : Env) (s : Sim P B) : List (Sim P B × TraceInst) :=
  if s.frontendCanFetch cfg then fetchLoopDeliveries cfg env cfg.fetchBandwidth s 0 true .none
  else []

variable {cfg : Config P B} {env : Env}

/-- What holds of the delivery of `inst` in state `u`, by a loop from `s` that ends
in `final`: no stall is active, the cycle is that of the loop, and the loop ends
with a delivery that ends the group. -/
structure DeliveredIn (cfg : Config P B) (env : Env) (s final u : Sim P B) (inst : TraceInst) :
    Prop where
  canFetch : u.fetchStallUntil ≤ u.totalCycles
  cycle : u.totalCycles = s.totalCycles
  last : (u.deliverInst cfg env inst).1.stopFetch = true →
    final = (u.deliverInst cfg env inst).2

omit [CachePrefetcher P] [BranchPredictor B] in
/-- An acquired record is a buffered one or one of the stream. -/
theorem Acquired.record {p : TraceInst → Prop} (hstream : ∀ n, p (env.stream n))
    {s s₁ : Sim P B} {inst : TraceInst} (hbuffer : ∀ i ∈ s.preFetchBuffer, p i)
    (h : Acquired env s inst s₁) : p inst ∧ ∀ i ∈ s₁.preFetchBuffer, p i := by
  cases h with
  | buffered _ rest front =>
    rw [front] at hbuffer
    exact ⟨hbuffer inst List.mem_cons_self, fun i hi => hbuffer i (List.mem_cons_of_mem _ hi)⟩
  | stepped empty running goes => exact ⟨hstream _, hbuffer⟩

/-- **The rule for deliveries**, for what holds of every record of the stream. -/
theorem mem_fetchLoopDeliveries {p : TraceInst → Prop} (hstream : ∀ n, p (env.stream n))
    {n : ℕ} {s : Sim P B} {line : BitVec 32} {first : Bool} {hint : BoundReason}
    {u : Sim P B} {inst : TraceInst} (hbuffer : ∀ i ∈ s.preFetchBuffer, p i)
    (h : (u, inst) ∈ fetchLoopDeliveries cfg env n s line first hint) :
    DeliveredIn cfg env s (fetchLoop cfg env n s line first hint).1 u inst ∧ p inst := by
  induction n generalizing s line first hint with
  | zero => cases h
  | succ n ih =>
    rw [fetchLoopDeliveries] at h
    rw [fetchLoop]
    rcases hfetch : s.frontendCanFetch cfg with - | -
    -- neither a stalled front end nor an exhausted trace delivers
    · rw [hfetch, Bool.not_false, if_pos rfl] at h
      cases h
    rcases hexhausted : s.frontendTraceExhausted with - | -
    swap
    · rw [hfetch, hexhausted, Bool.not_true, if_neg Bool.false_ne_true, if_pos rfl] at h
      cases h
    rw [hfetch, hexhausted, Bool.not_true, if_neg Bool.false_ne_true,
      if_neg Bool.false_ne_true] at h
    rw [Bool.not_true, if_neg Bool.false_ne_true, if_neg Bool.false_ne_true]
    rcases frontendAcquireTraceInst_cases env s hexhausted with
      ⟨i, s₁, hacq, hacquired⟩ | ⟨-, -, -, hacq⟩
    swap
    · rw [hacq] at h
      cases h
    rw [hacq] at h ⊢
    dsimp only at h ⊢
    obtain ⟨hi, hbuffer₁⟩ := hacquired.record hstream hbuffer
    obtain ⟨buffer, cpu, hs₁⟩ := hacquired.frame
    rcases e : (s₁.admitInst cfg i line first hint).1 with - | -
    · rw [e, Bool.not_false, if_pos rfl] at h
      cases h
    obtain ⟨mem, -, hadmitted⟩ := admitInst_admitted cfg e
    rw [e, Bool.not_true, if_neg Bool.false_ne_true] at h
    rw [Bool.not_true, if_neg Bool.false_ne_true]
    -- admitting a record moves neither the stall nor the clock
    have hcan : s.fetchStallUntil ≤ s.totalCycles := stall_le_of_canFetch hfetch
    have hstall : (s₁.admitInst cfg i line first hint).2.1.fetchStallUntil
        = s.fetchStallUntil := by
      rw [hadmitted, hs₁]
      rfl
    have hcycle : (s₁.admitInst cfg i line first hint).2.1.totalCycles = s.totalCycles := by
      rw [hadmitted, hs₁]
      rfl
    rcases List.mem_cons.mp h with heq | hrest
    -- the delivery of this turn
    · obtain ⟨rfl, rfl⟩ := Prod.mk.inj heq
      refine ⟨⟨by rw [hstall, hcycle]; exact hcan, hcycle, fun hstop => ?_⟩, hi⟩
      rw [if_pos hstop]
    -- one of a later turn, which this turn's delivery has not stopped
    · by_cases hstop : ((s₁.admitInst cfg i line first hint).2.1.deliverInst cfg env
          i).1.stopFetch = true
      · rw [if_pos hstop] at hrest
        cases hrest
      rw [if_neg hstop] at hrest ⊢
      obtain ⟨profiler, bp, randomCalls, stallUntil, stallReason, -, hdeliver⟩ :=
        deliverInst_eq cfg env (s₁.admitInst cfg i line first hint).2.1 i
      have hbuffer₂ : ∀ j ∈ ((s₁.admitInst cfg i line first hint).2.1.deliverInst cfg env
          i).2.preFetchBuffer, p j := by
        rw [hdeliver, hadmitted]
        exact hbuffer₁
      obtain ⟨hdelivered, hp⟩ := ih hbuffer₂ hrest
      refine ⟨⟨hdelivered.canFetch, ?_, hdelivered.last⟩, hp⟩
      rw [hdelivered.cycle, hdeliver]
      exact hcycle

omit [BranchPredictor B] in
/-- What holds of the stream holds of the buffered record. -/
theorem buffered_invariant {p : TraceInst → Prop} (hstream : ∀ n, p (env.stream n))
    (C : Sim P B → Prop) :
    StepInvariant cfg env C fun s => ∀ i ∈ s.preFetchBuffer, p i where
  new := nofun
  step {s s'} h hstep := by
    -- only the fetch stage touches the buffer
    cases hstep with
    | quiet _ hquiet =>
      cases hquiet
      exact h
    | commits hdone allowed => exact h
    | waits q i _ hmem houtcome =>
      obtain ⟨op', ht, -⟩ := houtcome.touched
      cases ht
      exact h
    | issues q kept i rest s₁ hqueue houtcome =>
      obtain ⟨op', ht, -⟩ := houtcome.touched
      cases ht
      cases q <;> exact h
    | dispatches op rest hqueue hfree =>
      unfold dispatchOne
      cases iqTarget op <;> exact h
    | decodes op rest hbuffer hroom => exact h
    | fetches _ hturn =>
      cases hturn with
      | ended empty running last => exact h
      | requeued inst s₁ acquired mem during stallUntil stallReason =>
        obtain ⟨hinst, hbuffer⟩ := acquired.record hstream h
        unfold frontendRequeueTraceInst
        split
        · intro i hi
          have hi' : i ∈ s₁.preFetchBuffer ++ [inst] := hi
          rcases List.mem_append.mp hi' with hi' | hi'
          · exact hbuffer i hi'
          · rw [List.mem_singleton.mp hi']
            exact hinst
        · exact hbuffer
      | delivered inst s₁ acquired room mem during profiler counters bp rc stallUntil reason =>
        exact (acquired.record hstream h).2

/-- A record that the reference CPU returns. -/
def ReturnedByCpu (inst : TraceInst) : Prop := ∃ s s' : Ref.Cpu, s.step = some (inst, s')

/-- **The cost of a jump.**  In every run with a predictor of its own, a jump that does
not trap costs a redirection and nothing else exactly if the predictor, in the state it
has been trained to by then, foresees that the jump is taken. -/
theorem jump_redirects_iff (horacle : branchPredictorUsesOracle cfg.bpType = false)
    (hcpu : ∀ n, ReturnedByCpu (env.stream n)) {s : Sim P B} (h : Reach cfg env .fetch s)
    {u : Sim P B} {inst : TraceInst} (hfetched : (u, inst) ∈ s.fetchDeliveries cfg env)
    (hjump : inst.isJump = true) (htrap : inst.isTrap = false) :
    CostsRedirect s.totalCycles (stage cfg env .fetch s) ↔ u.foresees inst.pc = true := by
  have hbuffer := h.invariant (buffered_invariant hcpu fun _ => True) (commitsIn_true cfg env)
  rw [fetchDeliveries] at hfetched
  split_ifs at hfetched with hfetch
  · obtain ⟨hdelivered, r, r', hstep⟩ := mem_fetchLoopDeliveries hcpu hbuffer hfetched
    obtain ⟨hbranch, htaken⟩ := Ref.step_jump hstep (of_decide_eq_true hjump) htrap
    have hends : (u.deliverInst cfg env inst).1.stopFetch = true := by
      rw [(deliverInst_stop cfg env u inst).1, TraceInst.endsGroup, hjump, Bool.or_true]
    have hstage : stage cfg env .fetch s
        = (u.deliverInst cfg env inst).2.setFrontendBoundHint
            (fetchLoop cfg env cfg.fetchBandwidth s 0 true .none).2 := by
      show s.fetchStage cfg env = _
      rw [fetchStage, if_pos hfetch, ← hdelivered.last hends]
    rw [hstage, ← deliverInst_jump env horacle hdelivered.canFetch hjump hbranch htaken,
      hdelivered.cycle]
    exact ⟨fun h => ⟨h.stall, h.reason, h.notMispredicted⟩,
      fun h => ⟨h.stall, h.reason, h.notMispredicted⟩⟩
  · cases hfetched

/-- What a test finds of the deliveries after `n` iterations is found in a run. -/
theorem exists_delivered {n : ℕ} (test : Sim P B → Sim P B × TraceInst → Bool)
    (h : (runFor cfg env n (Sim.new cfg)).any (fun s =>
      s.running && ((s.upTo cfg env .fetch).fetchDeliveries cfg env).any
        (test (s.upTo cfg env .fetch))) = true) :
    ∃ s u inst, Reach cfg env .fetch s ∧ (u, inst) ∈ s.fetchDeliveries cfg env ∧
      test s (u, inst) = true := by
  obtain ⟨s₀, hreach, hfound⟩ := exists_reach h
  rw [Bool.and_eq_true, List.any_eq_true] at hfound
  obtain ⟨hrun, ⟨u, inst⟩, hmem, htest⟩ := hfound
  exact ⟨_, u, inst, hreach.upTo hrun .fetch, hmem, htest⟩

end

/-- The record of a jump at the reset vector to itself. -/
def jumpRecord : TraceInst :=
  { pc := 0x80000000, opcode := 0b1101111, isBranch := true, branchTaken := true
    target := 0x80000000 }

/-- The trace of the program whose only instruction is that jump. -/
def selfJump : Env := { stream := fun _ => jumpRecord }

theorem selfJump_returned (n : ℕ) : ReturnedByCpu (selfJump.stream n) := by
  have hrun : (Ref.Cpu.machineOf 0x0000006f).step.map Prod.fst = some jumpRecord := by
    decide +kernel
  obtain ⟨⟨t, s'⟩, hstep, ht⟩ := Option.map_eq_some_iff.mp hrun
  obtain rfl : t = jumpRecord := ht
  exact ⟨_, s', hstep⟩

/-- The counters start on the side of taken branches, so gshare foresees the first
jump. -/
theorem jump_redirects_iff_selfJump :
    ∃ s, Reach shippedConfig selfJump .fetch s ∧
      CostsRedirect s.totalCycles (stage shippedConfig selfJump .fetch s) := by
  have hrun : (runFor shippedConfig selfJump 132 (Sim.new shippedConfig)).any (fun s =>
      s.running && ((s.upTo shippedConfig selfJump .fetch).fetchDeliveries shippedConfig
        selfJump).any (fun d => d.2.isJump && !d.2.isTrap && d.1.foresees d.2.pc)) = true := by
    decide +kernel
  obtain ⟨s, u, inst, hs, hmem, htest⟩ :=
    exists_delivered (fun _ d => d.2.isJump && !d.2.isTrap && d.1.foresees d.2.pc) hrun
  rw [Bool.and_eq_true, Bool.and_eq_true, Bool.not_eq_true'] at htest
  obtain ⟨⟨hjump, htrap⟩, hfore⟩ := htest
  exact ⟨s, hs, (jump_redirects_iff (by decide) selfJump_returned hs hmem hjump htrap).mpr hfore⟩

/-- The configuration with the predictor that foresees no taken branch. -/
def notTakenConfig : Config BuiltinPrefetcher BuiltinPredictor :=
  { shippedConfig with bpType := .alwaysNotTaken, bp := makeBranchPredictor .alwaysNotTaken }

/-- There a jump costs a misprediction. -/
theorem jump_mispredicted :
    branchPredictorUsesOracle notTakenConfig.bpType = false ∧
      (∀ n, ReturnedByCpu (selfJump.stream n)) ∧
    ∃ s u inst, Reach notTakenConfig selfJump .fetch s ∧
      (u, inst) ∈ s.fetchDeliveries notTakenConfig selfJump ∧
      inst.isJump = true ∧ inst.isTrap = false ∧
      (stage notTakenConfig selfJump .fetch s).fetchStallReason = .branchMispredict ∧
      ¬ CostsRedirect s.totalCycles (stage notTakenConfig selfJump .fetch s) := by
  have hrun : (runFor notTakenConfig selfJump 132 (Sim.new notTakenConfig)).any (fun s =>
      s.running && ((s.upTo notTakenConfig selfJump .fetch).fetchDeliveries notTakenConfig
        selfJump).any (fun d => d.2.isJump && !d.2.isTrap &&
          decide ((stage notTakenConfig selfJump .fetch
            (s.upTo notTakenConfig selfJump .fetch)).fetchStallReason = .branchMispredict)))
        = true := by
    decide +kernel
  obtain ⟨s, u, inst, hs, hmem, htest⟩ := exists_delivered
    (fun s d => d.2.isJump && !d.2.isTrap &&
      decide ((stage notTakenConfig selfJump .fetch s).fetchStallReason = .branchMispredict)) hrun
  rw [Bool.and_eq_true, Bool.and_eq_true, Bool.not_eq_true', decide_eq_true_eq] at htest
  obtain ⟨⟨hjump, htrap⟩, hreason⟩ := htest
  exact ⟨by decide, selfJump_returned, s, u, inst, hs, hmem, hjump, htrap, hreason,
    fun h => h.notMispredicted hreason⟩

end Sim

end TraceSim
