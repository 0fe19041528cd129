/-
TraceSim/Core/StoreQueue.lean

The store queue and the loads that scan it.

Dispatch puts an op in `store_indices` when it goes to the store queues, commit pops
the front whenever the head is flagged as a store.  The two agree except for a store
that traps: it is in no store queue, and if younger stores were dispatched behind
it, its commit pops the entry of one of them.  `PopsOwn` says that this does not
happen; in the runs in which it holds at every commit, and only in those, the queue
is exact (`storeQueue_exact_iff`).
-/
import TraceSim.Core.IssueQueues

namespace TraceSim

open Sim

namespace Sim

variable {P B : Type} {cfg : Config P B} {env : Env} {s s' : Sim P B}

/-! ### The store queue -/

/-- The slots of the reorder buffer whose ops went to the store queues, oldest
first. -/
def storeSlots (cfg : Config P B) (s : Sim P B) : List ℕ :=
  (s.slots cfg).filter fun i => decide (iqTarget (s.rob i) = .store)

/-- The commit of the head takes out of the store queue what dispatch put in. -/
def PopsOwn (s : Sim P B) : Prop :=
  (s.rob s.robHead).inst.isStore = true →
    iqTarget (s.rob s.robHead) = .store ∨ s.storeIndices = []

/-- The store queue holds the stores of the reorder buffer. -/
structure StoresExact (cfg : Config P B) (s : Sim P B) : Prop where
  represents : Represents cfg s
  exact : s.storeIndices = s.storeSlots cfg

theorem tail_eq_self_iff {α : Type*} {l : List α} : l.tail = l ↔ l = [] := by
  cases l with
  | nil => simp
  | cons a l => simp

/-- A commit takes the head out of the stores, if it is one. -/
theorem Represents.storeSlots_pop (h : Represents cfg s) (hcount : 0 < s.robCount) :
    s.storeSlots cfg
      = (if iqTarget (s.rob s.robHead) = .store then [s.robHead] else [])
        ++ (s.commitOne cfg).storeSlots cfg := by
  rw [storeSlots, h.slots_pop hcount, List.filter_cons]
  split_ifs <;> simp_all [storeSlots, Sim.commitOne]

/-- A commit keeps the store queue exact exactly when it pops its own entry. -/
theorem StoresExact.commitOne_iff (h : StoresExact cfg s) (hdone : s.headDone = true) :
    (s.commitOne cfg).storeIndices = (s.commitOne cfg).storeSlots cfg ↔ PopsOwn s := by
  have hslots := h.represents.storeSlots_pop (headDone_iff.mp hdone).1
  have hindices : (s.commitOne cfg).storeIndices
      = if (s.rob s.robHead).inst.isStore then s.storeIndices.tail else s.storeIndices := rfl
  unfold PopsOwn
  rw [hindices, h.exact, hslots]
  -- the head leaves the slots; the queue loses its front if the head is a store
  by_cases ht : iqTarget (s.rob s.robHead) = .store
  · simp [ht, (iqTarget_eq_store_iff.mp ht).2.2.2]
  · rcases hst : (s.rob s.robHead).inst.isStore with - | -
    · simp [ht]
    · simp [ht, tail_eq_self_iff]

theorem iqTarget_dispatchedOp_store {op : OpEntry} :
    iqTarget (s.dispatchedOp op) = .store ↔ iqTarget op = .store := by
  rw [iqTarget_dispatchedOp]
  split_ifs with h
  · simp [h]
  · rfl

/-- A dispatch appends the slot to the stores for an op of the store queues. -/
theorem Represents.storeSlots_dispatchOne (h : Represents cfg s) {op : OpEntry}
    (hfree : s.dispatchBlock cfg op = .none) :
    (s.dispatchOne cfg op).storeSlots cfg
      = s.storeSlots cfg ++ if iqTarget op = .store then [s.robTail] else [] := by
  rw [storeSlots, storeSlots, h.slots_dispatchOne, List.filter_append,
    List.filter_singleton, dispatchOne_rob, Function.update_self, ← dispatchOne_rob]
  congr 1
  · refine List.filter_congr fun i hi => ?_
    rw [h.dispatchOne_rob_slot hfree hi]
  · by_cases ht : iqTarget op = .store <;> simp [iqTarget_dispatchedOp_store, ht]

/-- A dispatch appends the slot to the store queue for an op of the store queues. -/
theorem StoresExact.dispatches (h : StoresExact cfg s) {op : OpEntry}
    {rest : List OpEntry} (hqueue : s.fetchQueue = op :: rest)
    (hfree : s.dispatchBlock cfg op = .none) : StoresExact cfg (s.dispatchOne cfg op) := by
  refine ⟨h.represents.dispatches hqueue hfree, ?_⟩
  rw [dispatchOne_storeIndices, h.exact, h.represents.storeSlots_dispatchOne hfree]

section

variable [CachePrefetcher P]

/-- An attempt leaves the stores and their queue alone. -/
theorem Outcome.stores {i : ℕ} {q : Iq} {ok : Bool} (h : Outcome cfg s i q s' ok)
    (l : List ℕ) :
    (s'.setIq q l).storeIndices = s.storeIndices ∧
      (s'.setIq q l).storeSlots cfg = s.storeSlots cfg := by
  obtain ⟨op', ht, hinst, -, hunit⟩ := h.touched
  constructor
  · rw [setIq_storeIndices]
    cases ht
    rfl
  rw [storeSlots, storeSlots, ht.slots, setIq_rob, ht.rob]
  refine List.filter_congr fun j _ => ?_
  by_cases hj : j = i
  · rw [hj, Function.update_self, iqTarget_congr hinst hunit]
  · rw [Function.update_of_ne hj]

theorem StoresExact.attempt {i : ℕ} {q : Iq} {ok : Bool} {l : List ℕ}
    (h : StoresExact cfg s) (ho : Outcome cfg s i q s' ok)
    (hr : Represents cfg (s'.setIq q l)) : StoresExact cfg (s'.setIq q l) := by
  obtain ⟨hindices, hslots⟩ := ho.stores l
  exact ⟨hr, by rw [hindices, h.exact, hslots]⟩

/-- **Every step** of a run whose commits pop their own entries keeps the store
queue exact. -/
theorem storesExact_invariant (cfg : Config P B) (env : Env) :
    StepInvariant cfg env PopsOwn (StoresExact cfg) where
  new := ⟨represents_new cfg, rfl⟩
  step {s s'} h hstep := by
    have hr := (represents_invariant cfg env PopsOwn).step h.represents hstep
    have hsame : SamePipe s s' → StoresExact cfg s' := fun hpipe =>
      ⟨hr, by rw [hpipe.storeIndices, storeSlots, hpipe.slots, hpipe.rob, h.exact]; rfl⟩
    cases hstep with
    | quiet _ hquiet => exact hsame hquiet.samePipe
    | commits hdone hpops => exact ⟨hr, (h.commitOne_iff hdone).mpr hpops⟩
    | waits q i _ hmem houtcome =>
      have hattempt := h.attempt houtcome (l := s'.iq q)
      rw [setIq_self] at hattempt
      exact hattempt hr
    | issues q kept i rest s₁ hqueue houtcome => exact h.attempt houtcome hr
    | dispatches op rest hqueue hfree => exact h.dispatches hqueue hfree
    | decodes op rest hbuffer hroom =>
      exact hsame ⟨rfl, rfl, rfl, rfl, fun q => by cases q <;> rfl, rfl⟩
    | fetches _ hturn => exact hsame hturn.samePipe.1

variable [BranchPredictor B]

/-- **When the store queue is exact**: at every boundary and between the commits of
every run, if and only if every commit pops its own entry. -/
theorem storeQueue_exact_iff (cfg : Config P B) (env : Env) :
    ((∀ b s, Reach cfg env b s → s.storeIndices = s.storeSlots cfg) ∧
      ∀ s k, Reach cfg env .commit s → k ≤ cfg.commitWidth →
        (s.commitTurn cfg k).storeIndices = (s.commitTurn cfg k).storeSlots cfg) ↔
    ∀ s k, Reach cfg env .commit s → k < cfg.commitWidth →
      (s.commitTurn cfg k).headDone = true → (s.commitTurn cfg k).PopsOwn := by
  constructor
  · rintro ⟨-, hturns⟩ s k hs hk hdone
    have hr := Reach.commitTurn (represents_invariant cfg env _) (commitsIn_true cfg env)
      hs hk.le
    -- exact before and after the turn, so the turn pops its own entry
    have hbefore : StoresExact cfg (s.commitTurn cfg k) := ⟨hr, hturns s k hs hk.le⟩
    refine (hbefore.commitOne_iff hdone).mp ?_
    have hafter := hturns s (k + 1) hs hk
    rwa [commitTurn_succ, if_pos hdone] at hafter
  · intro hpops
    have hC : CommitsIn cfg env PopsOwn := hpops
    exact ⟨fun b s hs => (hs.invariant (storesExact_invariant cfg env) hC).exact,
      fun s k hs hk =>
        (Reach.commitTurn (storesExact_invariant cfg env) hC hs hk).exact⟩

end

/-- The commit of the store that traps takes the store behind it out of the queue. -/
theorem storeQueue_loses_store :
    ∃ s, Reach shippedConfig storeTrace .returns s ∧
      s.storeSlots shippedConfig = [1] ∧ s.storeIndices = [] := by
  have hrun : (runFor shippedConfig storeTrace 137 (Sim.new shippedConfig)).any (fun s =>
      decide (s.storeSlots shippedConfig = [1] ∧ s.storeIndices = [])) = true := by
    decide +kernel
  obtain ⟨s, hs, htest⟩ := exists_reach hrun
  exact ⟨s, hs, of_decide_eq_true htest⟩

/-! ### Loads -/

/-- The op in slot `j` is an older store to the word that the op in slot `i`
loads. -/
def StoreBefore (cfg : Config P B) (s : Sim P B) (i j : ℕ) : Prop :=
  j ∈ s.slots cfg ∧ (s.rob j).entryId < (s.rob i).entryId ∧
    (s.rob j).inst.isStore = true ∧ (s.rob j).inst.isTrap = false ∧
    (s.rob j).inst.memAddr = (s.rob i).inst.memAddr

instance (cfg : Config P B) (s : Sim P B) (i j : ℕ) : Decidable (StoreBefore cfg s i j) :=
  inferInstanceAs (Decidable (_ ∧ _ ∧ _ ∧ _ ∧ _))

/-- The test of the oracle scan on a slot of the store queue. -/
def olderSame (rob : ℕ → OpEntry) (op : OpEntry) (j : ℕ) : Bool :=
  decide ((rob j).entryId < op.entryId) && decide ((rob j).inst.memAddr = op.inst.memAddr)

/-- **The oracle scan** of a store queue in program order finds the youngest older
store to the same word. -/
theorem scanStores_oracle {rob : ℕ → OpEntry} {op : OpEntry} {l : List ℕ}
    (hl : l.Pairwise fun i j => (rob i).entryId < (rob j).entryId) (src : Option ℕ) :
    scanStores .oracleStlf rob op l src
      = (false, (l.filter (olderSame rob op)).getLast?.or src) := by
  induction l generalizing src with
  | nil => rfl
  | cons j l ih =>
    obtain ⟨hj, hl⟩ := List.pairwise_cons.mp hl
    rw [scanStores]
    dsimp only
    split_ifs with hage haddr
    -- the scan breaks off: all that follow are younger than `j`
    · have hnone : (j :: l).filter (olderSame rob op) = [] := by
        refine List.filter_eq_nil_iff.mpr fun k hk => ?_
        have hle : (rob j).entryId ≤ (rob k).entryId := by
          rcases List.mem_cons.mp hk with rfl | hk
          · exact le_rfl
          · exact (hj k hk).le
        simp only [olderSame, Bool.and_eq_true, decide_eq_true_eq, not_and]
        omega
      rw [hnone]
      rfl
    -- `j` replaces the candidate
    · have hpass : olderSame rob op j = true := by simp [olderSame, haddr]; omega
      rw [ih hl, List.filter_cons_of_pos hpass, List.getLast?_cons]
      cases (l.filter (olderSame rob op)).getLast? <;> rfl
    · have hfail : olderSame rob op j = false := by simp [olderSame, haddr]
      rw [ih hl, List.filter_cons_of_neg (by simp [hfail])]

/-- What the scan of an exact store queue selects from. -/
theorem StoresExact.mem_candidates (h : StoresExact cfg s)
    (hwf : ∀ i ∈ s.slots cfg, (s.rob i).inst.WellFormed) (i j : ℕ) :
    j ∈ s.storeIndices.filter (olderSame s.rob (s.rob i)) ↔ StoreBefore cfg s i j := by
  rw [h.exact, storeSlots, List.mem_filter, List.mem_filter, olderSame, Bool.and_eq_true]
  simp only [decide_eq_true_eq]
  constructor
  · rintro ⟨⟨hj, ht⟩, hage, haddr⟩
    obtain ⟨htrap, -, -, hstore⟩ := iqTarget_eq_store_iff.mp ht
    exact ⟨hj, hage, hstore, htrap, haddr⟩
  · rintro ⟨hj, hage, hstore, htrap, haddr⟩
    exact ⟨⟨hj, (h.represents.live j hj).store (hwf j hj) htrap hstore⟩, hage, haddr⟩

/-- What an exact store queue answers to a load. -/
theorem StoresExact.olderStores_eq (h : StoresExact cfg s)
    (hordered : (s.slots cfg).Pairwise fun i j => (s.rob i).entryId < (s.rob j).entryId)
    (hmodel : cfg.memDepModel = .oracleStlf) (i : ℕ) :
    s.olderStores cfg i
      = (false, (s.storeIndices.filter (olderSame s.rob (s.rob i))).getLast?) := by
  have hindices : s.storeIndices.Pairwise fun i j => (s.rob i).entryId < (s.rob j).entryId := by
    rw [h.exact]
    exact hordered.filter _
  rw [olderStores, hmodel, scanStores_oracle hindices, Option.or_none]

/-- An exact store queue answers with the youngest older store to the word. -/
theorem StoresExact.youngest (h : StoresExact cfg s) (hc : Conserved cfg env s)
    (hstream : ∀ n, (env.stream n).WellFormed) (hmodel : cfg.memDepModel = .oracleStlf)
    (i : ℕ) :
    (∀ j, StoreBefore cfg s i j →
      (∀ j', StoreBefore cfg s i j' → (s.rob j').entryId ≤ (s.rob j).entryId) →
      s.olderStores cfg i = (false, some j)) ∧
    ((∀ j, ¬ StoreBefore cfg s i j) → s.olderStores cfg i = (false, none)) := by
  have hmem := h.mem_candidates (hc.forall_slots hstream) i
  rw [h.olderStores_eq hc.pairwise_slots hmodel i]
  refine ⟨fun j hj hmax => ?_, fun hnone => ?_⟩
  · have hordered : (s.storeIndices.filter (olderSame s.rob (s.rob i))).Pairwise
        fun i j => (s.rob i).entryId < (s.rob j).entryId := by
      rw [h.exact]
      exact (hc.pairwise_slots.filter _).filter _
    rw [getLast?_eq_of_max hordered ((hmem j).mpr hj) fun j' hj' =>
      hmax j' ((hmem j').mp hj')]
  · rw [List.eq_nil_iff_forall_not_mem.mpr fun j hj => hnone j ((hmem j).mp hj)]
    rfl

section

variable [CachePrefetcher P] [BranchPredictor B]

/-- **Loads do not bypass older stores**, in every run whose commits pop their own
entries of the store queue.  A load that leaves its queue is completed in the next
cycle by the youngest older store to the word, which has its data, and the data
cache is not accessed; if there is no such store, the load is what the data cache
answers. -/
theorem loads_forwarded (cfg : Config P B) (env : Env)
    (hmodel : cfg.memDepModel = .oracleStlf) (hstream : ∀ n, (env.stream n).WellFormed)
    (hpops : CommitsIn cfg env PopsOwn) {s : Sim P B} {i : ℕ}
    (h : Issues cfg env .ldu s i) :
    (∀ j, StoreBefore cfg s i j →
      (∀ j', StoreBefore cfg s i j' → (s.rob j').entryId ≤ (s.rob j).entryId) →
      (s.rob j).stdDone = true ∧ (s.rob j).stdCycle ≤ s.totalCycles ∧
      ((lduAttempt cfg s i).1.rob i).executed = true ∧
      ((lduAttempt cfg s i).1.rob i).executeCycle = s.totalCycles + 1 ∧
      (lduAttempt cfg s i).1.mem = s.mem) ∧
    ((∀ j, ¬ StoreBefore cfg s i j) →
      ∃ r mem, s.mem.accessDcacheLoad (s.rob i).inst.memAddr s.totalCycles = (r, mem) ∧
        r.blocked = false ∧
        ((lduAttempt cfg s i).1.rob i).executed = true ∧
        ((lduAttempt cfg s i).1.rob i).executeCycle = r.readyCycle ∧
        (lduAttempt cfg s i).1.mem
          = mem.enqueuePrefetch cfg.mem true (s.rob i).inst.pc (s.rob i).inst.memAddr
            r.l1Hit) := by
  obtain ⟨hok, kept, rest, hexact, hc⟩ :=
    h.invariant ((storesExact_invariant cfg env).and (conserved_invariant cfg env PopsOwn))
      hpops
  obtain ⟨hsome, hnone⟩ := hexact.youngest hc hstream hmodel i
  have hout := lduAttempt_outcome cfg s i
  rw [show (lduAttempt cfg s i).2 = true from hok] at hout
  -- the load has left its queue: it was forwarded or it was served
  generalize (lduAttempt cfg s i).1 = s' at hout ⊢
  cases hout with
  | forwarded sources src dep stlf data time op' same executed cycle stats =>
    refine ⟨fun j hj hmax => ?_, fun hj => ?_⟩
    · have hdep := dep.symm.trans (hsome j hj hmax)
      simp only [Prod.mk.injEq, Option.some.injEq, true_and] at hdep
      subst hdep
      refine ⟨data, time, ?_, ?_, rfl⟩
      · simpa using executed
      · simpa using cycle
    · exact absurd (dep.symm.trans (hnone hj)) (by simp)
  | accessed sources dep r mem access served op' same executed cycle stats =>
    refine ⟨fun j hj hmax => ?_, fun _ => ⟨r, mem, access, served, ?_, ?_, ?_⟩⟩
    · exact absurd (dep.symm.trans (hsome j hj hmax)) (by simp)
    · simpa using executed
    · simpa using cycle
    · rw [same.inst]

/-- A store that does not trap pops its own entry. -/
theorem commitsIn_popsOwn (cfg : Config P B) {env : Env}
    (hstream : ∀ n, (env.stream n).WellFormed ∧
      ((env.stream n).isStore = true → (env.stream n).isTrap = false)) :
    CommitsIn cfg env PopsOwn := by
  intro s k hs hk hdone hstore
  have hc := Reach.commitTurn (conserved_invariant cfg env _) (commitsIn_true cfg env) hs hk.le
  have hhead : (s.commitTurn cfg k).robHead ∈ (s.commitTurn cfg k).slots cfg := by
    rw [hc.represents.slots_pop (headDone_iff.mp hdone).1]
    exact List.mem_cons_self
  obtain ⟨hwf, htrap⟩ := hc.forall_slots (p := fun inst => inst.WellFormed ∧
    (inst.isStore = true → inst.isTrap = false)) hstream _ hhead
  exact Or.inl ((hc.represents.live _ hhead).store hwf (htrap hstore) hstore)

end

/-- A load that misses, a store behind it, and a load of the same word. -/
def forwardTrace : Env :=
  ofTrace
    [{ pc := 0x80000000, opcode := 0b0000011, rd := 5, rs1 := 12, isLoad := true
       memAddr := 0x80002000 },
      { pc := 0x80000004, opcode := 0b0100011, rs1 := 12, rs2 := 11, isStore := true
        memAddr := 0x80001000 },
      { pc := 0x80000008, opcode := 0b0000011, rd := 6, rs1 := 12, isLoad := true
        memAddr := 0x80001000 }]

theorem forwardTrace_wellFormed (n : ℕ) : (forwardTrace.stream n).WellFormed :=
  ofTrace_stream (p := TraceInst.WellFormed) (by decide) (by decide) n

theorem forwardTrace_popsOwn : CommitsIn shippedConfig forwardTrace PopsOwn :=
  commitsIn_popsOwn shippedConfig fun n =>
    ⟨forwardTrace_wellFormed n,
      ofTrace_stream (p := fun inst => inst.isStore = true → inst.isTrap = false)
        (by decide) (by decide) n⟩

theorem loads_forwarded_forwardTrace :
    ∃ s, Issues shippedConfig forwardTrace .ldu s 2 ∧ s.totalCycles = 136 ∧
      StoreBefore shippedConfig s 2 1 ∧ (s.rob 1).stdCycle ≤ s.totalCycles ∧
      ((lduAttempt shippedConfig s 2).1.rob 2).executeCycle = s.totalCycles + 1 ∧
      (lduAttempt shippedConfig s 2).1.mem = s.mem := by
  have hrun : (runFor shippedConfig forwardTrace 136 (Sim.new shippedConfig)).any (fun s =>
      s.running && (s.issuesOf shippedConfig forwardTrace .ldu).any fun p =>
        decide (p.2 = 2 ∧ p.1.totalCycles = 136 ∧ StoreBefore shippedConfig p.1 2 1 ∧
          ∀ j ∈ p.1.slots shippedConfig, StoreBefore shippedConfig p.1 2 j →
            (p.1.rob j).entryId ≤ (p.1.rob 1).entryId)) = true := by
    decide +kernel
  obtain ⟨s, i, hs, htest⟩ := exists_issues hrun
  obtain ⟨rfl, htime, hbefore, hmax⟩ := of_decide_eq_true htest
  obtain ⟨-, hcycle, -, hdone, hmem⟩ :=
    (loads_forwarded shippedConfig forwardTrace rfl forwardTrace_wellFormed
      forwardTrace_popsOwn hs).1 1 hbefore fun j hj => hmax j hj.1 hj
  exact ⟨s, hs, htime, hbefore, hcycle, hdone, hmem⟩

/-- Behind a store that traps, a load leaves its queue while an older store to the
word has no data. -/
theorem load_bypasses_store :
    ∃ s, Issues shippedConfig storeTrace .ldu s 2 ∧ StoreBefore shippedConfig s 2 1 ∧
      (s.rob 1).stdDone = false := by
  have hrun : (runFor shippedConfig storeTrace 136 (Sim.new shippedConfig)).any (fun s =>
      s.running && (s.issuesOf shippedConfig storeTrace .ldu).any fun p =>
        decide (p.2 = 2 ∧ StoreBefore shippedConfig p.1 2 1 ∧
          (p.1.rob 1).stdDone = false)) = true := by
    decide +kernel
  obtain ⟨s, i, hs, htest⟩ := exists_issues hrun
  obtain ⟨rfl, hbefore, hdata⟩ := of_decide_eq_true htest
  exact ⟨s, hs, hbefore, hdata⟩

end Sim

end TraceSim
