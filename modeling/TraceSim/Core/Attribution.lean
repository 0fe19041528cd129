/-
TraceSim/Core/Attribution.lean

Which bucket a cycle without retirement is charged to.

Commit classifies what holds the head back, dispatch overrides the class when it
meets a full resource, and the profiler charges the bucket of the result.  A cycle
in which the head is a load that waits on memory is therefore charged to the memory
exactly if dispatch finds room for all it looks at (`memory_bound_iff`).
-/
import TraceSim.Core.IssueQueues

namespace TraceSim

namespace Sim

variable {P B : Type} {cfg : Config P B} {env : Env} {s s' : Sim P B}

/-! ### When dispatch meets no stall -/

/-- Dispatch finds room for every op it looks at. -/
def DispatchFits (cfg : Config P B) (n : ℕ) (s : Sim P B) : Prop :=
  ∀ before op after, s.fetchQueue = before ++ op :: after → before.length < n →
    Dispatchable cfg s before op

/-- What an op finds once another has been dispatched. -/
theorem dispatchable_dispatchOne (op op' : OpEntry) (before : List OpEntry) :
    Dispatchable cfg (s.dispatchOne cfg op) before op'
      ↔ Dispatchable cfg s (op :: before) op' := by
  have hrob : s.robCount + 1 + before.length = s.robCount + (op :: before).length := by
    rw [List.length_cons]
    omega
  have hiq : ∀ q, ((s.dispatchOne cfg op).iq q).length
        + before.countP (fun op => enters op q)
      = (s.iq q).length + (op :: before).countP (fun op => enters op q) := by
    intro q
    rw [dispatchOne_iq, List.length_append, List.countP_cons]
    cases enters op q <;> simp
    omega
  constructor
  · rintro ⟨hr, ht, hq⟩
    rw [dispatchOne_robCount, hrob] at hr ht
    exact ⟨hr, ht, fun q hc => hiq q ▸ hq q hc⟩
  · rintro ⟨hr, ht, hq⟩
    refine ⟨?_, ?_, fun q hc => (hiq q).symm ▸ hq q hc⟩
    · rwa [dispatchOne_robCount, hrob]
    · rwa [dispatchOne_robCount, hrob]

/-- **The dispatch loop** meets no stall exactly if there is room for all it looks
at. -/
theorem dispatchLoop_none_iff (n : ℕ) (s : Sim P B) :
    (s.dispatchLoop cfg n).1 = .none ↔ DispatchFits cfg n s := by
  induction n generalizing s with
  | zero => exact iff_of_true rfl fun _ _ _ _ hn => absurd hn (Nat.not_lt_zero _)
  | succ n ih =>
    rw [dispatchLoop]
    rcases e : s.fetchQueue with - | ⟨op, rest⟩
    · refine iff_of_true rfl fun before op after hqueue _ => ?_
      rw [e] at hqueue
      simp at hqueue
    · dsimp only
      have hrest : (s.dispatchOne cfg op).fetchQueue = rest := by
        rw [dispatchOne_fetchQueue, e, List.tail_cons]
      split_ifs with hfree
      · rw [ih]
        constructor
        -- the op at the front fits; the others are those after its dispatch
        · intro h before op' after hqueue hn
          rw [e] at hqueue
          rcases before with - | ⟨x, before⟩
          · rw [List.nil_append, List.cons.injEq] at hqueue
            exact hqueue.1 ▸ dispatchBlock_eq_none_iff.mp hfree
          · rw [List.cons_append, List.cons.injEq] at hqueue
            obtain ⟨rfl, hqueue⟩ := hqueue
            exact (dispatchable_dispatchOne op op' before).mp
              (h before op' after (hrest.trans hqueue) (Nat.lt_of_succ_lt_succ hn))
        · intro h before op' after hqueue hn
          rw [hrest] at hqueue
          exact (dispatchable_dispatchOne op op' before).mpr
            (h (op :: before) op' after (by rw [e, hqueue]; rfl) (Nat.succ_lt_succ hn))
      · refine iff_of_false hfree fun h => hfree ?_
        exact dispatchBlock_eq_none_iff.mpr (h [] op rest e (Nat.succ_pos n))

/-- Dispatch never blames the memory. -/
theorem dispatchBlock_ne_memoryWait (cfg : Config P B) (s : Sim P B) (op : OpEntry) :
    s.dispatchBlock cfg op ≠ .memoryWait := by
  unfold dispatchBlock
  split_ifs <;> simp

theorem dispatchLoop_ne_memoryWait (n : ℕ) (s : Sim P B) :
    (s.dispatchLoop cfg n).1 ≠ .memoryWait := by
  induction n generalizing s with
  | zero =>
    intro h
    cases h
  | succ n ih =>
    rw [dispatchLoop]
    rcases s.fetchQueue with - | ⟨op, rest⟩
    · intro h
      cases h
    · dsimp only
      split_ifs
      · exact ih _
      · exact dispatchBlock_ne_memoryWait cfg s op

/-! ### What the later stages leave alone -/

/-- The locals of the loop body are the same in `s` and `s'`. -/
structure SameLocals (s s' : Sim P B) : Prop where
  instructionsRetired : s'.instructionsRetired = s.instructionsRetired
  instsBefore : s'.instsBefore = s.instsBefore
  commitStall : s'.commitStall = s.commitStall
  backendStall : s'.backendStall = s.backendStall

theorem SameLocals.refl (s : Sim P B) : SameLocals s s := ⟨rfl, rfl, rfl, rfl⟩

theorem SameLocals.trans {s s' s'' : Sim P B} (h : SameLocals s s')
    (h' : SameLocals s' s'') : SameLocals s s'' where
  instructionsRetired := h'.instructionsRetired.trans h.instructionsRetired
  instsBefore := h'.instsBefore.trans h.instsBefore
  commitStall := h'.commitStall.trans h.commitStall
  backendStall := h'.backendStall.trans h.backendStall

theorem dispatchLoop_locals (cfg : Config P B) (n : ℕ) (s : Sim P B) :
    SameLocals s (s.dispatchLoop cfg n).2 := by
  refine dispatchLoop_rule (fun {s₁ op rest} h _ _ => h.trans ?_) n (.refl s)
  unfold dispatchOne
  cases iqTarget op <;> exact ⟨rfl, rfl, rfl, rfl⟩

section

variable [CachePrefetcher P]

theorem Touched.locals {i : ℕ} {op' : OpEntry} (h : Touched cfg s i op' s') :
    SameLocals s s' := by
  cases h
  exact ⟨rfl, rfl, rfl, rfl⟩

theorem issueStage_locals (cfg : Config P B) (s : Sim P B) :
    SameLocals s (s.issueStage cfg) := by
  refine issueStage_rule (fun h ht => h.trans ht.locals) (fun q l h => h.trans ?_) (.refl s)
  cases q <;> exact ⟨rfl, rfl, rfl, rfl⟩

theorem FetchStep.locals (h : FetchStep cfg env s s') : SameLocals s s' := by
  cases h.frame
  exact ⟨rfl, rfl, rfl, rfl⟩

theorem fetchStage_locals [BranchPredictor B] (env : Env) (s : Sim P B) :
    SameLocals s (s.fetchStage cfg env) :=
  fetchStage_rule (fun h hturn => h.trans hturn.locals)
    (fun _ h => h.trans ⟨rfl, rfl, rfl, rfl⟩) (.refl s)

end

/-! ### The bucket -/

/-- The bucket `b` is charged with a cycle, and no other is. -/
def Charged (s s' : Sim P B) (b : TopDownBucket) : Prop :=
  ∀ b', s'.profiler.topdownCounters b'
    = s.profiler.topdownCounters b' + if b' = b then 1 else 0

theorem Charged.unique {b b' : TopDownBucket} (h : Charged s s' b) (h' : Charged s s' b') :
    b = b' := by
  by_contra hne
  have hb := (h b).symm.trans (h' b)
  rw [if_pos rfl, if_neg hne] at hb
  omega

/-- The end of the loop body charges the bucket of the stall. -/
theorem account_charged (s : Sim P B) :
    Charged s s.account
      (Profiler.bucketOf (decide (s.instructionsRetired > s.instsBefore))
        s.fetchStallReason (decide (s.totalCycles + 1 < s.fetchStallUntil))
        s.backendStall) := by
  intro b
  unfold account Profiler.markCycle
  dsimp only
  split_ifs <;> rfl

theorem bucketOf_memoryBound_iff (feReason : FetchStallReason) (feActive : Bool)
    (beReason : BackendStallReason) :
    Profiler.bucketOf false feReason feActive beReason = .backendMemoryBound
      ↔ beReason = .memoryWait := by
  unfold Profiler.bucketOf
  cases beReason <;> cases feActive <;> cases feReason <;> decide

/-- No instruction has retired in the iteration, and the head is a load that has
not completed and waits on memory. -/
structure MemoryStalled (s : Sim P B) : Prop where
  retired : s.instructionsRetired = s.instsBefore
  occupied : 0 < s.robCount
  load : (s.rob s.robHead).inst.isLoad = true
  incomplete : (s.rob s.robHead).executed = true →
    s.totalCycles < (s.rob s.robHead).executeCycle
  waiting : (s.rob s.robHead).waitingOnMemory = true

instance (s : Sim P B) : Decidable (MemoryStalled s) :=
  decidable_of_iff
    (s.instructionsRetired = s.instsBefore ∧ 0 < s.robCount ∧
      (s.rob s.robHead).inst.isLoad = true ∧
      ((s.rob s.robHead).executed = true →
        s.totalCycles < (s.rob s.robHead).executeCycle) ∧
      (s.rob s.robHead).waitingOnMemory = true)
    ⟨fun h => ⟨h.1, h.2.1, h.2.2.1, h.2.2.2.1, h.2.2.2.2⟩,
      fun h => ⟨h.retired, h.occupied, h.load, h.incomplete, h.waiting⟩⟩

/-- Commit classifies such a state as a wait on memory. -/
theorem MemoryStalled.classified (h : MemoryStalled s) :
    s.classifyCommitStall (decide (s.instructionsRetired > s.instsBefore))
      = .memoryWait := by
  have hretired : decide (s.instructionsRetired > s.instsBefore) = false :=
    decide_eq_false (by have := h.retired; omega)
  have hoccupied : (s.robCount == 0) = false := by
    have := h.occupied
    simp only [beq_eq_false_iff_ne]
    omega
  unfold classifyCommitStall
  rw [hretired, hoccupied]
  dsimp only
  rw [if_neg (by simp), if_neg, if_pos (by simp [h.load, h.waiting])]
  simp only [Bool.and_eq_true, decide_eq_true_eq, not_and, Nat.not_le]
  exact h.incomplete

section

variable [CachePrefetcher P] [BranchPredictor B]

/-- The stall after dispatch, when commit has blamed the memory. -/
theorem dispatch_backendStall (env : Env) (h : s.commitStall = .memoryWait) :
    (stage cfg env .dispatch s).backendStall = .memoryWait
      ↔ DispatchFits cfg cfg.dispatchWidth s := by
  have hcommit := (dispatchLoop_locals cfg cfg.dispatchWidth s).commitStall
  have hstall : (stage cfg env .dispatch s).backendStall
      = if (s.dispatchLoop cfg cfg.dispatchWidth).1 = .none then .memoryWait
        else (s.dispatchLoop cfg cfg.dispatchWidth).1 := by
    rw [← h, ← hcommit]
    rfl
  rw [hstall, ← dispatchLoop_none_iff]
  split_ifs with hnone
  · exact iff_of_true rfl hnone
  · exact iff_of_false (dispatchLoop_ne_memoryWait _ s) hnone

/-- What the stages after dispatch leave alone. -/
theorem account_locals (cfg : Config P B) (env : Env) (s : Sim P B) :
    SameLocals (stage cfg env .dispatch s)
      (stage cfg env .service (stage cfg env .fetch
        (stage cfg env .decode (stage cfg env .dispatch s)))) := by
  have hdecode : ∀ s : Sim P B, SameLocals s (stage cfg env .decode s) :=
    fun s => ⟨rfl, rfl, rfl, rfl⟩
  have hservice : ∀ s : Sim P B, SameLocals s (stage cfg env .service s) :=
    fun s => ⟨rfl, rfl, rfl, rfl⟩
  exact ((hdecode _).trans (fetchStage_locals env _)).trans (hservice _)

/-- **When a memory stall is charged to the memory.**  In an iteration that retires
nothing and leaves at the head a load waiting on memory, the bucket of the memory
and no other is charged exactly if dispatch then finds room for all it looks at. -/
theorem memory_bound_iff (cfg : Config P B) (env : Env) (s : Sim P B)
    (hstall : MemoryStalled (s.upTo cfg env .issue)) :
    Charged (s.upTo cfg env .account) (s.cycle cfg env) .backendMemoryBound
      ↔ DispatchFits cfg cfg.dispatchWidth (s.upTo cfg env .dispatch) := by
  have hissue := issueStage_locals cfg (s.upTo cfg env .issue)
  have hdispatch := dispatchLoop_locals cfg cfg.dispatchWidth
    (s.upTo cfg env .dispatch)
  have haccount := account_locals cfg env (s.upTo cfg env .dispatch)
  -- the class of the commit stage survives up to dispatch
  have hcommit : (s.upTo cfg env .dispatch).commitStall = .memoryWait :=
    hissue.commitStall.trans hstall.classified
  -- nothing retires between commit and the end of the iteration
  have hretired : (s.upTo cfg env .account).instructionsRetired
      = (s.upTo cfg env .account).instsBefore :=
    calc (s.upTo cfg env .account).instructionsRetired
        = (s.upTo cfg env .issue).instructionsRetired :=
          haccount.instructionsRetired.trans
            (hdispatch.instructionsRetired.trans hissue.instructionsRetired)
      _ = (s.upTo cfg env .issue).instsBefore := hstall.retired
      _ = (s.upTo cfg env .account).instsBefore :=
          (haccount.instsBefore.trans (hdispatch.instsBefore.trans hissue.instsBefore)).symm
  have hcharged := account_charged (s.upTo cfg env .account)
  rw [decide_eq_false (by rw [hretired]; exact lt_irrefl _)] at hcharged
  rw [← dispatch_backendStall env hcommit, ← haccount.backendStall,
    ← bucketOf_memoryBound_iff (s.upTo cfg env .account).fetchStallReason
      (decide ((s.upTo cfg env .account).totalCycles + 1
        < (s.upTo cfg env .account).fetchStallUntil))]
  constructor
  · intro h
    exact hcharged.unique h
  · intro h
    rw [← h]
    exact hcharged

end

/-- A load that misses, and fourteen ALU instructions. -/
def loadTrace : Env :=
  ofTrace
    ({ pc := 0x80000000, opcode := 0b0000011, rd := 5, rs1 := 12, isLoad := true
       memAddr := 0x80002000 } ::
      (List.range 14).map fun n =>
        { pc := 0x80000004 + BitVec.ofNat 32 (4 * n), opcode := 0b0010011, rd := 6 })

theorem memory_bound_iff_loadTrace :
    ∃ s, Reach shippedConfig loadTrace .returns s ∧
      MemoryStalled (s.upTo shippedConfig loadTrace .issue) ∧
      (s.upTo shippedConfig loadTrace .dispatch).fetchQueue.length = 3 ∧
      Charged (s.upTo shippedConfig loadTrace .account) (s.cycle shippedConfig loadTrace)
        .backendMemoryBound := by
  have hrun : (runFor shippedConfig loadTrace 136 (Sim.new shippedConfig)).any (fun s =>
      decide (MemoryStalled (s.upTo shippedConfig loadTrace .issue) ∧
        (s.upTo shippedConfig loadTrace .dispatch).fetchQueue.length = 3 ∧
        ((s.upTo shippedConfig loadTrace .dispatch).dispatchLoop shippedConfig 6).1
          = .none)) = true := by
    decide +kernel
  obtain ⟨s, hs, htest⟩ := exists_reach hrun
  obtain ⟨hstall, hqueue, hnone⟩ := of_decide_eq_true htest
  exact ⟨s, hs, hstall, hqueue, (memory_bound_iff shippedConfig loadTrace s hstall).mpr
    ((dispatchLoop_none_iff 6 _).mp hnone)⟩

/-- A load that misses, and a store to a device, which traps. -/
def trapTrace : Env :=
  ofTrace
    [{ pc := 0x80000000, opcode := 0b0000011, rd := 5, rs1 := 12, isLoad := true
       memAddr := 0x80002000 },
      { pc := 0x80000004, opcode := 0b0100011, rs1 := 10, rs2 := 11, isStore := true
        isTrap := true, memAddr := 0x10000000 }]

/-- The trap that waits behind the load takes the cycle from the memory. -/
theorem trap_hides_memory_stall :
    ∃ s, Reach shippedConfig trapTrace .returns s ∧ s.running = true ∧
      MemoryStalled (s.upTo shippedConfig trapTrace .issue) ∧
      ¬ Charged (s.upTo shippedConfig trapTrace .account) (s.cycle shippedConfig trapTrace)
        .backendMemoryBound := by
  have hrun : (runFor shippedConfig trapTrace 136 (Sim.new shippedConfig)).any (fun s =>
      decide (s.running = true ∧ MemoryStalled (s.upTo shippedConfig trapTrace .issue) ∧
        (s.cycle shippedConfig trapTrace).profiler.topdownCounters .backendMemoryBound
          = (s.upTo shippedConfig trapTrace .account).profiler.topdownCounters
            .backendMemoryBound)) = true := by
    decide +kernel
  obtain ⟨s, hs, htest⟩ := exists_reach hrun
  obtain ⟨hrunning, hstall, hsame⟩ := of_decide_eq_true htest
  refine ⟨s, hs, hrunning, hstall, fun hcharged => ?_⟩
  have hone := hcharged .backendMemoryBound
  rw [hsame, if_pos rfl] at hone
  omega

end Sim

end TraceSim
