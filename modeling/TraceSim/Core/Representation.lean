/-
TraceSim/Core/Representation.lean

The representation invariant of the reorder buffer and the issue queues.

The live slots of the buffer are a ring (`slots`).  Each issue queue is the list
of those slots, oldest first, whose op still has to issue from it
(`Represents.queue`): this one equation says that no queue holds a dead slot, a
slot twice, or one out of order.  Every stage keeps it: a commit removes a head
that no queue waits for, a dispatch appends the tail, and an issue removes from a
queue exactly the slot that no longer awaits it.
-/
import TraceSim.Core.Steps
import TraceSim.Lib.Ring
import TraceSim.Lib.Lists

namespace TraceSim

open Sim

/-! ### Ops in flight -/

/-- What holds of every op in the reorder buffer: dispatch settled its queue, and
a store has executed when both its halves have. -/
structure LiveOp (op : OpEntry) : Prop where
  settled : iqTarget op ≠ .aluReclassified
  executed : iqTarget op = .store → op.executed = (op.staDone && op.stdDone)
  cycle : iqTarget op = .store → op.executed = true →
    op.executeCycle = max op.staCycle op.stdCycle
  unit : op.inst.isLoad = true ∨ op.inst.isStore = true →
    op.fuType = getFuType op.inst.opcode

/-- The op is as the front end made it. -/
structure FreshOp (op : OpEntry) : Prop where
  fetched : op =
    { inst := op.inst, entryId := op.entryId, fetchCycle := op.fetchCycle
      fuType := getFuType op.inst.opcode }

/-- The target of an op depends on its instruction and its unit. -/
theorem iqTarget_congr {op op' : OpEntry} (hinst : op'.inst = op.inst)
    (hfu : op'.fuType = op.fuType) : iqTarget op' = iqTarget op := by
  unfold iqTarget
  rw [hinst, hfu]

/-- An op of the ALU goes to the ALU queue, trap or not. -/
theorem iqTarget_alu {op : OpEntry} (h : op.fuType = .alu) : iqTarget op = .alu := by
  unfold iqTarget
  rw [if_pos (Or.inr h)]

/-- An op goes to the store queues when it is a store and nothing else. -/
theorem iqTarget_eq_store_iff {op : OpEntry} :
    iqTarget op = .store ↔ op.inst.isTrap = false ∧ op.fuType = .lsu ∧
      op.inst.isLoad = false ∧ op.inst.isStore = true := by
  unfold iqTarget
  cases op.fuType <;> cases op.inst.isTrap <;> cases op.inst.isLoad <;>
    cases op.inst.isStore <;> decide

/-- The op that dispatch moves to the ALU is neither load nor store. -/
theorem no_access_of_reclassified {op : OpEntry} (h : iqTarget op = .aluReclassified) :
    op.inst.isLoad = false ∧ op.inst.isStore = false := by
  unfold iqTarget at h
  split_ifs at h with _ _ hload hstore
  exact ⟨Bool.eq_false_iff.mpr hload, Bool.eq_false_iff.mpr hstore⟩

/-- A queue awaits no op that has executed and is well formed. -/
theorem Iq.awaits_executed {op : OpEntry} (h : LiveOp op) (hexec : op.executed = true)
    (q : Iq) : q.awaits op = false := by
  have hstore : iqTarget op = .store → op.staDone = true ∧ op.stdDone = true := by
    intro ht
    have heq := h.executed ht
    rw [hexec, eq_comm, Bool.and_eq_true] at heq
    exact heq
  cases q with
  | alu => simp [awaits, hexec]
  | ldu => simp [awaits, hexec]
  | bru => simp [awaits, hexec]
  | sta =>
    rw [awaits, Bool.and_eq_false_iff, decide_eq_false_iff_not]
    by_cases ht : iqTarget op = .store
    · exact Or.inr (by simp [(hstore ht).1])
    · exact Or.inl ht
  | std =>
    rw [awaits, Bool.and_eq_false_iff, decide_eq_false_iff_not]
    by_cases ht : iqTarget op = .store
    · exact Or.inr (by simp [(hstore ht).2])
    · exact Or.inl ht

/-- The target of the ops in a queue. -/
def Iq.target : Iq → IqTarget
  | .alu => .alu
  | .ldu => .ldu
  | .sta => .store
  | .std => .store
  | .bru => .bru

/-- An op waits in a queue that it was put on. -/
theorem Iq.target_of_awaits {q : Iq} {op : OpEntry} (h : q.awaits op = true) :
    iqTarget op = q.target := by
  cases q <;> simp only [awaits, Bool.and_eq_true, decide_eq_true_eq] at h <;> exact h.1

/-- Two queues hold halves of stores; the others hold whole ops. -/
theorem Iq.target_ne_store {q : Iq} (h : q.isHalf = false) : q.target ≠ .store := by
  cases q <;> simp_all [isHalf, target]

/-- Different queues for whole ops have different targets. -/
theorem Iq.target_injective {q q' : Iq} (h : q.isHalf = false) (hne : q' ≠ q) :
    q.target ≠ q'.target := by
  cases q <;> cases q' <;> simp_all [isHalf, target]

/-- An op that is not a store has one queue to go to. -/
theorem LiveOp.exists_queue {op : OpEntry} (h : LiveOp op) (hne : iqTarget op ≠ .store) :
    ∃ q : Iq, q.isHalf = false ∧ iqTarget op = q.target := by
  have hsettled := h.settled
  rcases e : iqTarget op with - | - | - | - | -
  · exact ⟨.alu, rfl, rfl⟩
  · exact ⟨.bru, rfl, rfl⟩
  · exact ⟨.ldu, rfl, rfl⟩
  · exact absurd e hne
  · exact absurd e hsettled

/-- A whole op waits until it has executed. -/
theorem Iq.awaits_of_isHalf {q : Iq} {op : OpEntry} (hq : q.isHalf = false)
    (ht : iqTarget op = q.target) : q.awaits op = !op.executed := by
  cases q <;> simp_all [Iq.awaits, Iq.target, Iq.isHalf]

/-- No op waits in a queue that it was not put on. -/
theorem Iq.awaits_of_target {q : Iq} {op : OpEntry} (h : iqTarget op ≠ q.target) :
    q.awaits op = false := by
  rw [← Bool.not_eq_true]
  exact fun haw => h (target_of_awaits haw)

/-- The same op with the same progress is awaited by the same queues. -/
theorem Iq.awaits_congr {op op' : OpEntry} (h : SameOp op op')
    (hexec : op'.executed = op.executed) (q : Iq) : q.awaits op' = q.awaits op := by
  have ht := iqTarget_congr h.inst h.fuType
  cases q <;> simp only [awaits, ht, hexec, h.staDone, h.stdDone]

/-- What makes an op a live one does not depend on when its halves are done. -/
theorem LiveOp.of_same {op op' : OpEntry} (hop : LiveOp op) (h : SameOp op op')
    (hexec : op'.executed = op.executed) (hcycle : op'.executeCycle = op.executeCycle) :
    LiveOp op' := by
  have ht := iqTarget_congr h.inst h.fuType
  refine ⟨?_, fun hs => ?_, fun hs he => ?_, fun hmem => ?_⟩
  · rw [ht]
    exact hop.settled
  · rw [hexec, h.staDone, h.stdDone]
    exact hop.executed (ht ▸ hs)
  · rw [hcycle, h.staCycle, h.stdCycle]
    exact hop.cycle (ht ▸ hs) (hexec ▸ he)
  · rw [h.inst] at hmem ⊢
    rw [h.fuType]
    exact hop.unit hmem

/-- Completing the address half of a store. -/
theorem LiveOp.sta {op : OpEntry} (hop : LiveOp op) (ht : iqTarget op = .store) (t : ℕ) :
    LiveOp (finishStore { op with staCycle := t, staDone := true, aguDone := true }
      op.stdDone) := by
  have hexec := hop.executed ht
  unfold finishStore
  rcases e : op.stdDone with - | -
  -- the data half is still to come, so the store has not executed
  · rw [if_neg Bool.false_ne_true]
    have hwaits : op.executed = false := by rw [hexec, e, Bool.and_false]
    exact ⟨hop.settled, fun _ => by simp [hwaits],
      fun _ he => absurd (hwaits.symm.trans he) Bool.false_ne_true, hop.unit⟩
  · rw [if_pos rfl]
    exact ⟨hop.settled, fun _ => by simp, fun _ _ => rfl, hop.unit⟩

/-- Completing the data half of a store. -/
theorem LiveOp.std {op : OpEntry} (hop : LiveOp op) (ht : iqTarget op = .store) (t : ℕ) :
    LiveOp (finishStore { op with stdCycle := t, stdDone := true } op.staDone) := by
  have hexec := hop.executed ht
  unfold finishStore
  rcases e : op.staDone with - | -
  -- the address half is still to come
  · rw [if_neg Bool.false_ne_true]
    have hwaits : op.executed = false := by rw [hexec, e, Bool.false_and]
    exact ⟨hop.settled, fun _ => by simp [hwaits],
      fun _ he => absurd (hwaits.symm.trans he) Bool.false_ne_true, hop.unit⟩
  · rw [if_pos rfl]
    exact ⟨hop.settled, fun _ => by simp, fun _ _ => rfl, hop.unit⟩

/-- Where an op was put does not depend on its progress. -/
theorem iqTarget_finishStore (op : OpEntry) (b : Bool) :
    iqTarget (finishStore op b) = iqTarget op :=
  iqTarget_congr (finishStore_inst op b) (finishStore_fuType op b)

/-- The address part does not change it. -/
theorem iqTarget_sta (op : OpEntry) (t : ℕ) (b b' : Bool) :
    iqTarget { op with staCycle := t, staDone := b, aguDone := b' } = iqTarget op := rfl

/-- Nor does the data part. -/
theorem iqTarget_std (op : OpEntry) (t : ℕ) (b : Bool) :
    iqTarget { op with stdCycle := t, stdDone := b } = iqTarget op := rfl

/-- The end of a store leaves its halves as they are. -/
theorem finishStore_halves (op : OpEntry) (b : Bool) :
    (finishStore op b).staDone = op.staDone ∧ (finishStore op b).stdDone = op.stdDone := by
  unfold finishStore
  split <;> exact ⟨rfl, rfl⟩

namespace Sim

variable {P B : Type}

section

variable [CachePrefetcher P] {cfg : Config P B}

/-- **What an attempt does to the queues' view of the op**: a success takes it out
of its own queue, and nothing else changes. -/
theorem Outcome.effect {s s' : Sim P B} {i : ℕ} {q : Iq} {ok : Bool}
    (h : Outcome cfg s i q s' ok) (hlive : LiveOp (s.rob i))
    (haw : q.awaits (s.rob i) = true) :
    ∃ op', Touched cfg s i op' s' ∧ op'.inst = (s.rob i).inst ∧
      op'.entryId = (s.rob i).entryId ∧ op'.fuType = (s.rob i).fuType ∧ LiveOp op' ∧
      ∀ q', q'.awaits op' = (q'.awaits (s.rob i) && !(ok && decide (q' = q))) := by
  have hmem := MemSubsystem.During.refl cfg.mem s.totalCycles s.mem
  have htarget := Iq.target_of_awaits haw
  cases h with
  | waits _ op' same executed cycle mem during profiler counters =>
    refine ⟨op', .intro mem during profiler s.loadProfileStats s.regReadyTime
      s.hist.lastMark counters, same.inst, same.entryId, same.fuType,
      hlive.of_same same executed cycle, fun q' => ?_⟩
    rw [Iq.awaits_congr same executed, Bool.false_and, Bool.not_false, Bool.and_true]
  | executes _ whole op' same executed mem during profiler counters stats =>
    have ht := iqTarget_congr same.inst same.fuType
    have hlive' : LiveOp op' := by
      have hne : iqTarget op' ≠ .store := by
        rw [ht, htarget]
        exact Iq.target_ne_store whole
      refine ⟨ht ▸ hlive.settled, fun hs => absurd hs hne, fun hs => absurd hs hne,
        fun hmem => ?_⟩
      rw [same.inst] at hmem ⊢
      rw [same.fuType]
      exact hlive.unit hmem
    refine ⟨op', .intro mem during profiler stats _ _ counters, same.inst, same.entryId,
      same.fuType, hlive', fun q' => ?_⟩
    rw [Iq.awaits_executed hlive' executed, Bool.true_and]
    -- no other queue awaited the op before either
    by_cases hq : q' = q
    · simp [hq]
    · have hother : q'.awaits (s.rob i) = false :=
        Iq.awaits_of_target (htarget ▸ Iq.target_injective whole hq)
      rw [hother, Bool.false_and]
  | sta =>
    refine ⟨_, .intro s.mem hmem s.profiler s.loadProfileStats s.regReadyTime
      s.hist.lastMark rfl, finishStore_inst _ _, finishStore_entryId _ _,
      finishStore_fuType _ _, hlive.sta htarget _, fun q' => ?_⟩
    rw [Iq.target] at htarget
    have hhalves := finishStore_halves
      { s.rob i with
        staCycle := s.totalCycles + staLatency, staDone := true, aguDone := true }
      (s.rob i).stdDone
    cases q' <;> simp [Iq.awaits, iqTarget_finishStore, hhalves, iqTarget_sta, htarget]
  | std =>
    refine ⟨_, .intro s.mem hmem s.profiler s.loadProfileStats s.regReadyTime
      s.hist.lastMark rfl, finishStore_inst _ _, finishStore_entryId _ _,
      finishStore_fuType _ _, hlive.std htarget _, fun q' => ?_⟩
    rw [Iq.target] at htarget
    have hhalves := finishStore_halves
      { s.rob i with stdCycle := s.totalCycles + stdLatency, stdDone := true }
      (s.rob i).staDone
    cases q' <;> simp [Iq.awaits, iqTarget_finishStore, hhalves, iqTarget_std, htarget]

end

/-! ### The invariant -/

/-- The live slots of the reorder buffer, oldest first. -/
def slots (cfg : Config P B) (s : Sim P B) : List ℕ :=
  ring cfg.robSize s.robHead s.robCount

/-- The ops in the reorder buffer, oldest first. -/
def window (cfg : Config P B) (s : Sim P B) : List OpEntry := (s.slots cfg).map s.rob

/-- The representation invariant. -/
structure Represents (cfg : Config P B) (s : Sim P B) : Prop where
  count : s.robCount ≤ cfg.robSize
  head : s.robHead % cfg.robSize = s.robHead
  tail : s.robTail = (s.robHead + s.robCount) % cfg.robSize
  queue : ∀ q, s.iq q = (s.slots cfg).filter fun i => q.awaits (s.rob i)
  live : ∀ i ∈ s.slots cfg, LiveOp (s.rob i)
  fresh : ∀ op ∈ s.fetchQueue ++ s.instBuffer, FreshOp op

variable {cfg : Config P B} {s s' : Sim P B}

/-- Everything is empty. -/
theorem represents_new (cfg : Config P B) : Represents cfg (Sim.new cfg) where
  count := Nat.zero_le _
  head := Nat.zero_mod _
  tail := (Nat.zero_mod _).symm
  queue q := by cases q <;> rfl
  live i hi := by cases hi
  fresh op hop := by cases hop

/-- The states `s` and `s'` have the same reorder buffer and queues. -/
structure SamePipe (s s' : Sim P B) : Prop where
  rob : s'.rob = s.rob
  robHead : s'.robHead = s.robHead
  robTail : s'.robTail = s.robTail
  robCount : s'.robCount = s.robCount
  iq : ∀ q, s'.iq q = s.iq q
  storeIndices : s'.storeIndices = s.storeIndices

/-- The reorder buffer holds the same slots. -/
theorem SamePipe.slots (h : SamePipe s s') (cfg : Config P B) :
    s'.slots cfg = s.slots cfg := by
  rw [Sim.slots, Sim.slots, h.robHead, h.robCount]

/-- The representation depends on the pipeline only; new ops may arrive in front of it. -/
theorem Represents.of_same (h : Represents cfg s) (hs : SamePipe s s')
    (hfresh : ∀ op ∈ s'.fetchQueue ++ s'.instBuffer,
      op ∈ s.fetchQueue ++ s.instBuffer ∨ FreshOp op) : Represents cfg s' where
  count := hs.robCount ▸ h.count
  head := hs.robHead ▸ h.head
  tail := by rw [hs.robTail, hs.robHead, hs.robCount, h.tail]
  queue q := by rw [hs.iq, hs.slots, hs.rob, h.queue]
  live i hi := by
    rw [hs.rob]
    exact h.live i (hs.slots cfg ▸ hi)
  fresh op hop := (hfresh op hop).elim (h.fresh op) id

/-- No slot is used twice. -/
theorem Represents.nodup_slots (h : Represents cfg s) : (s.slots cfg).Nodup :=
  nodup_ring h.count

/-- What is in a queue is in the reorder buffer, and waits. -/
theorem Represents.mem_of_mem_iq (h : Represents cfg s) {q : Iq} {i : ℕ}
    (hi : i ∈ s.iq q) : i ∈ s.slots cfg ∧ q.awaits (s.rob i) = true := by
  rw [h.queue] at hi
  exact List.mem_filter.mp hi

/-! ### Commit -/

/-- **A commit** removes the head slot. -/
theorem Represents.slots_pop (h : Represents cfg s) (hcount : 0 < s.robCount) :
    s.slots cfg = s.robHead :: (s.commitOne cfg).slots cfg :=
  ring_pop h.head hcount

/-- The op that is committed is the oldest. -/
theorem Represents.window_pop (h : Represents cfg s) (hcount : 0 < s.robCount) :
    s.window cfg = s.rob s.robHead :: (s.commitOne cfg).window cfg := by
  rw [window, h.slots_pop hcount]
  rfl

/-- The head is there, has executed, and its cycle has come. -/
theorem headDone_iff :
    s.headDone = true ↔ 0 < s.robCount ∧ (s.rob s.robHead).executed = true ∧
      (s.rob s.robHead).executeCycle ≤ s.totalCycles := by
  simp only [headDone, Bool.and_eq_true, decide_eq_true_eq, and_assoc]

/-- Retirement touches no issue queue. -/
theorem commitOne_iq (cfg : Config P B) (s : Sim P B) (q : Iq) :
    (s.commitOne cfg).iq q = s.iq q := by
  cases q <;> rfl

/-- The head that retires is in no queue any more. -/
theorem Represents.commitOne (h : Represents cfg s) (hdone : s.headDone = true) :
    Represents cfg (s.commitOne cfg) := by
  obtain ⟨hcount, hexec, -⟩ := headDone_iff.mp hdone
  have hslots := h.slots_pop hcount
  have hheadLive : LiveOp (s.rob s.robHead) :=
    h.live _ (by rw [hslots]; exact List.mem_cons_self)
  refine ⟨?_, Nat.mod_mod _ _, ?_, fun q => ?_, fun i hi => ?_, h.fresh⟩
  · exact (Nat.sub_le _ _).trans h.count
  · show s.robTail = ((s.robHead + 1) % cfg.robSize + (s.robCount - 1)) % cfg.robSize
    rw [Nat.mod_add_mod, h.tail]
    congr 1
    omega
  -- no queue awaits the head, which has executed
  · rw [commitOne_iq, h.queue, hslots, List.filter_cons_of_neg]
    · rfl
    · simp [Iq.awaits_executed hheadLive hexec]
  · exact h.live i (by rw [hslots]; exact List.mem_cons_of_mem _ hi)

/-! ### Issue -/

section

variable [CachePrefetcher P] {i : ℕ} {op' : OpEntry}

/-- One slot is written. -/
theorem Touched.rob (h : Touched cfg s i op' s') : s'.rob = Function.update s.rob i op' := by
  cases h
  rfl

/-- The queues are as before the attempt. -/
theorem Touched.iq (h : Touched cfg s i op' s') (q : Iq) : s'.iq q = s.iq q := by
  cases h
  cases q <;> rfl

/-- So is the order of the slots. -/
theorem Touched.slots (h : Touched cfg s i op' s') (q : Iq) (l : List ℕ) :
    (s'.setIq q l).slots cfg = s.slots cfg := by
  cases h
  cases q <;> rfl

/-- What an attempt leaves alone in the op, it leaves alone in the buffer. -/
theorem Touched.map_window (h : Touched cfg s i op' s') {α : Type*} {f : OpEntry → α}
    (hf : f op' = f (s.rob i)) (q : Iq) (l : List ℕ) :
    ((s'.setIq q l).window cfg).map f = (s.window cfg).map f := by
  rw [window, window, h.slots, setIq_rob, h.rob, List.map_map, List.map_map]
  refine List.map_congr_left fun j _ => ?_
  by_cases hj : j = i
  · simp [hj, hf]
  · simp [Function.update_of_ne hj]

/-- **An attempt** keeps the invariant, with what is left of the queue. -/
theorem Represents.touched (h : Represents cfg s) (ht : Touched cfg s i op' s')
    (hlive : LiveOp op') {q : Iq} {l : List ℕ}
    (hqueue : l = (s.slots cfg).filter fun j => q.awaits (Function.update s.rob i op' j))
    (hothers : ∀ q', q' ≠ q → q'.awaits op' = q'.awaits (s.rob i)) :
    Represents cfg (s'.setIq q l) := by
  have hslots := ht.slots q l
  -- of the ring nothing moves; of the queues only `q` loses the op
  refine ⟨?_, ?_, ?_, fun q' => ?_, fun j hj => ?_, ?_⟩
  · cases ht
    simpa using h.count
  · cases ht
    simpa using h.head
  · cases ht
    simpa using h.tail
  · rw [hslots, setIq_iq, setIq_rob, ht.rob, ht.iq]
    split_ifs with hq
    · rw [hqueue, hq]
    · rw [h.queue]
      refine List.filter_congr fun j _ => ?_
      by_cases hj : j = i
      · rw [hj, Function.update_self, hothers q' hq]
      · rw [Function.update_of_ne hj]
  · rw [hslots] at hj
    rw [setIq_rob, ht.rob]
    by_cases hji : j = i
    · rw [hji, Function.update_self]
      exact hlive
    · rw [Function.update_of_ne hji]
      exact h.live j hj
  · cases ht
    simpa using h.fresh

/-- An attempt that fails leaves its op waiting. -/
theorem Represents.waits (h : Represents cfg s) {q : Iq} (hi : i ∈ s.iq q)
    (ho : Outcome cfg s i q s' false) : Represents cfg s' := by
  obtain ⟨hslot, haw⟩ := h.mem_of_mem_iq hi
  obtain ⟨op', ht, -, -, -, hlive, heffect⟩ := ho.effect (h.live i hslot) haw
  have hsame : ∀ q' : Iq, q'.awaits op' = q'.awaits (s.rob i) := by simpa using heffect
  have hself := h.touched ht hlive (q := q) (l := s'.iq q) ?_ fun q' _ => hsame q'
  · rwa [setIq_self] at hself
  · rw [ht.iq, h.queue]
    refine List.filter_congr fun j _ => ?_
    by_cases hj : j = i
    · rw [hj, Function.update_self, hsame]
    · rw [Function.update_of_ne hj]

/-- An op that issues leaves its queue, and waits in it no longer. -/
theorem Represents.issues (h : Represents cfg s) {q : Iq} {kept rest : List ℕ}
    (hqueue : s.iq q = kept ++ i :: rest) (ho : Outcome cfg s i q s' true) :
    Represents cfg (s'.setIq q (kept ++ rest)) := by
  have hi : i ∈ s.iq q := by
    rw [hqueue]
    exact List.mem_append_right _ List.mem_cons_self
  obtain ⟨hslot, haw⟩ := h.mem_of_mem_iq hi
  obtain ⟨op', ht, -, -, -, hlive, heffect⟩ := ho.effect (h.live i hslot) haw
  refine h.touched ht hlive (Eq.symm ?_) fun q' hq => ?_
  -- the slot occurs once, so the queue loses exactly this occurrence
  · refine filter_forget h.nodup_slots ((h.queue q).symm.trans hqueue) ?_ fun j hj => ?_
    · rw [Function.update_self, heffect]
      simp
    · rw [Function.update_of_ne hj]
  · rw [heffect]
    simp [hq]

end

/-! ### Dispatch -/

/-- The entry dispatch makes of an op. -/
def dispatchedOp (s : Sim P B) (op : OpEntry) : OpEntry :=
  { op with
    dispatchCycle := s.totalCycles
    executed := false
    fuType := if iqTarget op = .aluReclassified then .alu else op.fuType }

/-- The new op is in the slot at the tail. -/
theorem dispatchOne_rob (cfg : Config P B) (s : Sim P B) (op : OpEntry) :
    (s.dispatchOne cfg op).rob = Function.update s.rob s.robTail (s.dispatchedOp op) := by
  unfold dispatchOne dispatchedOp
  cases e : iqTarget op <;> simp [pushIq, setOp]

/-- Only stores enter the store queue. -/
theorem dispatchOne_storeIndices (cfg : Config P B) (s : Sim P B) (op : OpEntry) :
    (s.dispatchOne cfg op).storeIndices
      = s.storeIndices ++ if iqTarget op = .store then [s.robTail] else [] := by
  unfold dispatchOne
  cases e : iqTarget op <;> simp [pushIq, setOp]

/-- An op that was moved to the ALU is one of the ALU from then on. -/
theorem iqTarget_dispatchedOp (s : Sim P B) (op : OpEntry) :
    iqTarget (s.dispatchedOp op)
      = if iqTarget op = .aluReclassified then .alu else iqTarget op := by
  split_ifs with h
  · exact iqTarget_alu (if_pos h)
  · exact iqTarget_congr rfl (if_neg h)

/-- Dispatch puts the op in the queue. -/
def enters (op : OpEntry) : Iq → Bool
  | .alu => decide (iqTarget op = .alu) || decide (iqTarget op = .aluReclassified)
  | .ldu => decide (iqTarget op = .ldu)
  | .sta => decide (iqTarget op = .store)
  | .std => decide (iqTarget op = .store)
  | .bru => decide (iqTarget op = .bru)

/-- It enters the queues of its target, at the end. -/
theorem dispatchOne_iq (cfg : Config P B) (s : Sim P B) (op : OpEntry) (q : Iq) :
    (s.dispatchOne cfg op).iq q = s.iq q ++ if enters op q then [s.robTail] else [] := by
  unfold dispatchOne
  cases e : iqTarget op <;> cases q <;> simp [pushIq, setOp, iq, enters, e]

/-- A queue awaits an op that has just been dispatched when it was put there. -/
theorem awaits_dispatchedOp (s : Sim P B) {op : OpEntry} (h : FreshOp op) (q : Iq) :
    q.awaits (s.dispatchedOp op) = enters op q := by
  have ht := iqTarget_dispatchedOp s op
  have hhalves : (s.dispatchedOp op).staDone = false ∧ (s.dispatchedOp op).stdDone = false := by
    rw [h.fetched]
    exact ⟨rfl, rfl⟩
  have hexec : (s.dispatchedOp op).executed = false := rfl
  cases e : iqTarget op <;> cases q <;>
    simp [Iq.awaits, enters, ht, e, hhalves, hexec]

/-- A dispatched op is live: it has not executed. -/
theorem liveOp_dispatchedOp (s : Sim P B) {op : OpEntry} (h : FreshOp op) :
    LiveOp (s.dispatchedOp op) := by
  have ht := iqTarget_dispatchedOp s op
  have hsta : (s.dispatchedOp op).staDone = false := by
    rw [h.fetched]
    rfl
  refine ⟨?_, fun _ => ?_, fun _ he => ?_, fun hmem => ?_⟩
  · rw [ht]
    split_ifs with hr
    · decide
    · exact hr
  · rw [hsta]
    rfl
  · exact absurd he Bool.false_ne_true
  -- only an op without a memory access changes its unit
  · have hne : iqTarget op ≠ .aluReclassified := by
      intro hr
      have hno := no_access_of_reclassified hr
      have hmem' : op.inst.isLoad = true ∨ op.inst.isStore = true := hmem
      simp [hno] at hmem'
    have hunit : op.fuType = getFuType op.inst.opcode := by
      rw [h.fetched]
    exact (if_neg hne).trans hunit

/-- Dispatch waits for a free slot. -/
theorem free_of_dispatchBlock {op : OpEntry} (h : s.dispatchBlock cfg op = .none) :
    s.robCount < cfg.robSize := by
  unfold dispatchBlock at h
  split at h
  · cases h
  · omega

/-- The slot is the next one of the ring. -/
theorem Represents.slots_dispatchOne (h : Represents cfg s) (op : OpEntry) :
    (s.dispatchOne cfg op).slots cfg = s.slots cfg ++ [s.robTail] := by
  rw [slots, dispatchOne_robHead, dispatchOne_robCount, ring_push, ← h.tail]
  rfl

/-- A dispatch writes no live slot. -/
theorem Represents.dispatchOne_rob_slot (h : Represents cfg s) {op : OpEntry}
    (hfree : s.dispatchBlock cfg op = .none) {i : ℕ} (hi : i ∈ s.slots cfg) :
    (s.dispatchOne cfg op).rob i = s.rob i := by
  have htail : s.robTail ∉ s.slots cfg :=
    h.tail ▸ tail_notMem_ring (free_of_dispatchBlock hfree)
  rw [dispatchOne_rob, Function.update_of_ne]
  rintro rfl
  exact htail hi

/-- The op that is dispatched becomes the youngest. -/
theorem Represents.window_dispatchOne (h : Represents cfg s) {op : OpEntry}
    (hfree : s.dispatchBlock cfg op = .none) :
    (s.dispatchOne cfg op).window cfg = s.window cfg ++ [s.dispatchedOp op] := by
  rw [window, h.slots_dispatchOne, List.map_append, List.map_singleton, dispatchOne_rob,
    Function.update_self, ← dispatchOne_rob, window]
  congr 1
  exact List.map_congr_left fun i hi => h.dispatchOne_rob_slot hfree hi

/-- **A dispatch** appends the tail. -/
theorem Represents.dispatches (h : Represents cfg s) {op : OpEntry} {rest : List OpEntry}
    (hqueue : s.fetchQueue = op :: rest) (hfree : s.dispatchBlock cfg op = .none) :
    Represents cfg (s.dispatchOne cfg op) := by
  have hcount := free_of_dispatchBlock hfree
  have hfresh : FreshOp op :=
    h.fresh op (List.mem_append_left _ (hqueue ▸ List.mem_cons_self))
  have hslots := h.slots_dispatchOne op
  have hold : ∀ i ∈ s.slots cfg, (s.dispatchOne cfg op).rob i = s.rob i :=
    fun i hi => h.dispatchOne_rob_slot hfree hi
  have hnew : (s.dispatchOne cfg op).rob s.robTail = s.dispatchedOp op := by
    rw [dispatchOne_rob, Function.update_self]
  refine ⟨?_, ?_, ?_, fun q => ?_, fun i hi => ?_, fun op' hop' => ?_⟩
  · rw [dispatchOne_robCount]
    exact hcount
  · rw [dispatchOne_robHead, h.head]
  · rw [dispatchOne_robTail, dispatchOne_robHead, dispatchOne_robCount, h.tail,
      Nat.mod_add_mod, Nat.add_assoc]
  · rw [dispatchOne_iq, hslots, List.filter_append, List.filter_singleton, hnew, h.queue,
      awaits_dispatchedOp s hfresh]
    congr 1
    · exact List.filter_congr fun i hi => by rw [hold i hi]
    -- the new slot passes the filter if and only if it was pushed
    · cases enters op q <;> rfl
  · rw [hslots, List.mem_append, List.mem_singleton] at hi
    rcases hi with hi | rfl
    · rw [hold i hi]
      exact h.live i hi
    · rw [hnew]
      exact liveOp_dispatchedOp s hfresh
  · rw [dispatchOne_fetchQueue, dispatchOne_instBuffer, hqueue] at hop'
    exact h.fresh op' (hqueue ▸ List.mem_cons_of_mem _ hop')

/-! ### Every step -/

/-- Bookkeeping keeps the pipeline. -/
theorem Quiet.samePipe (h : Quiet s s') : SamePipe s s' := by
  cases h
  exact ⟨rfl, rfl, rfl, rfl, fun q => by cases q <;> rfl, rfl⟩

variable [CachePrefetcher P] {env : Env}

/-- Fetching keeps it but for the instruction buffer. -/
theorem FetchStep.samePipe (h : FetchStep cfg env s s') :
    SamePipe s s' ∧ s'.fetchQueue = s.fetchQueue := by
  cases h.frame
  exact ⟨⟨rfl, rfl, rfl, rfl, fun q => by cases q <;> rfl, rfl⟩, rfl⟩

/-- **Every step** keeps the representation invariant. -/
theorem represents_invariant (cfg : Config P B) (env : Env) (C : Sim P B → Prop) :
    StepInvariant cfg env C (Represents cfg) where
  new := represents_new cfg
  step {s s'} h hstep := by
    cases hstep with
    | quiet _ hquiet =>
      refine h.of_same hquiet.samePipe fun op hop => Or.inl ?_
      cases hquiet
      exact hop
    | commits hdone _ => exact h.commitOne hdone
    | waits q i _ hmem houtcome => exact h.waits hmem houtcome
    | issues q kept i rest s₁ hqueue houtcome => exact h.issues hqueue houtcome
    | dispatches op rest hqueue hfree => exact h.dispatches hqueue hfree
    | decodes op rest hbuffer hroom =>
      refine h.of_same ⟨rfl, rfl, rfl, rfl, fun q => by cases q <;> rfl, rfl⟩ fun op' hop => ?_
      rw [List.append_assoc] at hop
      exact Or.inl (hbuffer ▸ hop)
    | fetches _ hturn =>
      obtain ⟨hpipe, hqueue⟩ := hturn.samePipe
      refine h.of_same hpipe fun op hop => ?_
      rcases hturn.instBuffer_cases with hbuffer | ⟨-, inst, hbuffer⟩
      · rw [hqueue, hbuffer] at hop
        exact Or.inl hop
      · rw [hqueue, hbuffer, ← List.append_assoc, List.mem_append, List.mem_singleton] at hop
        refine hop.imp id fun hnew => ?_
        rw [hnew]
        exact ⟨rfl⟩

end Sim

end TraceSim
