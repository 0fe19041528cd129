/-
TraceSim/Core/Backlog.lean

How much is left to do before the head of the reorder buffer can retire.

The scoreboard holds one ready time for each register, so the issue of a younger op can
put off the head once more.  But an op issues from each of its queues once, and while the
head stays, no more ops than the reorder buffer has free slots can join.  This is the
backlog: no step but a commit makes it grow, and every issue makes it fall.  A run that
neither commits nor issues leaves the head and the scoreboard as they were
(`Still`).
-/
import TraceSim.Core.IssueQueues

namespace TraceSim

open Relation

/-- The issue queues, in the order of the issue stage. -/
def Iq.all : List Iq := [.alu, .ldu, .sta, .std, .bru]

/-- The ops of one target wait in two queues at most. -/
theorem Iq.countP_target (t : Sim.IqTarget) :
    Iq.all.countP (fun q => decide (t = q.target)) ≤ 2 := by
  cases t <;> decide

theorem Iq.countP_awaits (op : OpEntry) : Iq.all.countP (fun q => q.awaits op) ≤ 2 := by
  refine le_trans (List.countP_mono_left fun q _ haw => ?_)
    (Iq.countP_target (Sim.iqTarget op))
  exact decide_eq_true (Iq.target_of_awaits haw)

namespace Sim

variable {P B : Type} {cfg : Config P B} {env : Env} {s s' s'' : Sim P B}

/-- The places taken in the issue queues. -/
def waiting (s : Sim P B) : ℕ := (Iq.all.flatMap s.iq).length

/-- How often an op can still issue before the head retires. -/
def backlog (cfg : Config P B) (s : Sim P B) : ℕ :=
  2 * (cfg.robSize - s.robCount) + s.waiting

theorem waiting_congr (h : ∀ q, s'.iq q = s.iq q) : s'.waiting = s.waiting := by
  rw [waiting, waiting, funext h]

theorem Represents.waiting_le (h : Represents cfg s) : s.waiting ≤ 2 * s.robCount := by
  have hsum := length_flatMap_filter_le Iq.all (fun q i => q.awaits (s.rob i))
    (l := s.slots cfg) fun i _ => Iq.countP_awaits (s.rob i)
  simp only [← h.queue] at hsum
  rwa [slots, length_ring] at hsum

/-- The backlog is at most two issues for each slot. -/
theorem Represents.backlog_le (h : Represents cfg s) : s.backlog cfg ≤ 2 * cfg.robSize := by
  have hwaiting := h.waiting_le
  have hcount := h.count
  unfold backlog
  omega

/-! ### Runs that move something -/

/-- Between `s` and `s'` an op retired, or the backlog fell. -/
def Moves (cfg : Config P B) (s s' : Sim P B) : Prop :=
  s.instructionsRetired < s'.instructionsRetired ∨
    s'.instructionsRetired = s.instructionsRetired ∧ s.robCount ≤ s'.robCount ∧
      s'.backlog cfg < s.backlog cfg

/-- Between `s` and `s'` nothing retired and nothing issued: the head of the reorder buffer
and the scoreboard are the same. -/
structure Still (cfg : Config P B) (s s' : Sim P B) : Prop where
  instructionsRetired : s'.instructionsRetired = s.instructionsRetired
  robCount : s.robCount ≤ s'.robCount
  backlog : s'.backlog cfg ≤ s.backlog cfg
  regReadyTime : s'.regReadyTime = s.regReadyTime
  robHead : s'.robHead = s.robHead
  head : 0 < s.robCount → SameOp (s.rob s.robHead) (s'.rob s.robHead) ∧
    (s'.rob s.robHead).executed = (s.rob s.robHead).executed ∧
    (s'.rob s.robHead).executeCycle = (s.rob s.robHead).executeCycle

theorem Still.refl (cfg : Config P B) (s : Sim P B) : Still cfg s s :=
  ⟨rfl, le_rfl, le_rfl, rfl, rfl, fun _ => ⟨SameOp.refl _, rfl, rfl⟩⟩

theorem Still.trans (h : Still cfg s s') (h' : Still cfg s' s'') : Still cfg s s'' where
  instructionsRetired := h'.instructionsRetired.trans h.instructionsRetired
  robCount := h.robCount.trans h'.robCount
  backlog := h'.backlog.trans h.backlog
  regReadyTime := h'.regReadyTime.trans h.regReadyTime
  robHead := h'.robHead.trans h.robHead
  head hcount := by
    obtain ⟨hsame, hexec, hcycle⟩ := h.head hcount
    obtain ⟨hsame', hexec', hcycle'⟩ := h'.head (hcount.trans_le h.robCount)
    rw [h.robHead] at hsame' hexec' hcycle'
    exact ⟨hsame.trans hsame', hexec'.trans hexec, hcycle'.trans hcycle⟩

theorem Moves.trans_still (h : Moves cfg s s') (h' : Still cfg s' s'') : Moves cfg s s'' := by
  rcases h with hlt | ⟨heq, hcount, hlt⟩
  · exact Or.inl (h'.instructionsRetired ▸ hlt)
  · exact Or.inr ⟨h'.instructionsRetired.trans heq, hcount.trans h'.robCount,
      h'.backlog.trans_lt hlt⟩

theorem Still.trans_moves (h : Still cfg s s') (h' : Moves cfg s' s'') : Moves cfg s s'' := by
  rcases h' with hlt | ⟨heq, hcount, hlt⟩
  · exact Or.inl (h.instructionsRetired ▸ hlt)
  · exact Or.inr ⟨heq.trans h.instructionsRetired, h.robCount.trans hcount,
      hlt.trans_le h.backlog⟩

theorem Moves.trans (h : Moves cfg s s') (h' : Moves cfg s' s'') : Moves cfg s s'' := by
  rcases h with hlt | ⟨heq, hcount, hlt⟩
  · rcases h' with hlt' | ⟨heq', -, -⟩
    · exact Or.inl (hlt.trans hlt')
    · exact Or.inl (heq' ▸ hlt)
  · rcases h' with hlt' | ⟨heq', hcount', hlt'⟩
    · exact Or.inl (heq ▸ hlt')
    · exact Or.inr ⟨heq'.trans heq, hcount.trans hcount', hlt'.trans hlt⟩

/-- What one step, and so any number of steps, can do. -/
def Progresses (cfg : Config P B) (s s' : Sim P B) : Prop := Moves cfg s s' ∨ Still cfg s s'

theorem Progresses.trans (h : Progresses cfg s s') (h' : Progresses cfg s' s'') :
    Progresses cfg s s'' := by
  rcases h with h | h <;> rcases h' with h' | h'
  · exact Or.inl (h.trans h')
  · exact Or.inl (h.trans_still h')
  · exact Or.inl (h.trans_moves h')
  · exact Or.inr (h.trans h')

theorem Moves.trans_progresses (h : Moves cfg s s') (h' : Progresses cfg s' s'') :
    Moves cfg s s'' := by
  rcases h' with h' | h'
  · exact h.trans h'
  · exact h.trans_still h'

/-! ### Every step -/

/-- The pipeline is the same but for what is in front of the reorder buffer. -/
theorem SamePipe.still (h : SamePipe s s') (hregs : s'.regReadyTime = s.regReadyTime)
    (hretired : s'.instructionsRetired = s.instructionsRetired) : Still cfg s s' where
  instructionsRetired := hretired
  robCount := h.robCount.ge
  backlog := by
    rw [Sim.backlog, Sim.backlog, h.robCount, waiting_congr h.iq]
  regReadyTime := hregs
  robHead := h.robHead
  head _ := by
    rw [h.rob]
    exact ⟨SameOp.refl _, rfl, rfl⟩

/-- A dispatch takes at most two places in the queues. -/
theorem Represents.waiting_dispatchOne_le (h : Represents cfg s) {op : OpEntry}
    {rest : List OpEntry} (hqueue : s.fetchQueue = op :: rest) :
    (s.dispatchOne cfg op).waiting ≤ s.waiting + 2 := by
  have hfresh : FreshOp op :=
    h.fresh op (List.mem_append_left _ (hqueue ▸ List.mem_cons_self))
  have hlen : ∀ q, ((s.dispatchOne cfg op).iq q).length
      = (s.iq q).length + if q.awaits (s.dispatchedOp op) then 1 else 0 := by
    intro q
    rw [dispatchOne_iq, List.length_append, awaits_dispatchedOp s hfresh]
    split <;> rfl
  rw [waiting, length_flatMap_add_countP Iq.all hlen]
  exact Nat.add_le_add_left (Iq.countP_awaits _) _

/-- A dispatch takes a slot and at most two places in the queues. -/
theorem Represents.still_dispatchOne (h : Represents cfg s) {op : OpEntry}
    {rest : List OpEntry} (hqueue : s.fetchQueue = op :: rest)
    (hfree : s.dispatchBlock cfg op = .none) : Still cfg s (s.dispatchOne cfg op) := by
  have hroom := free_of_dispatchBlock hfree
  have hcount := dispatchOne_robCount cfg s op
  refine ⟨?_, hcount ▸ Nat.le_succ _, ?_, dispatchOne_regReadyTime cfg s op,
    dispatchOne_robHead cfg s op, fun hpos => ?_⟩
  · unfold dispatchOne
    cases iqTarget op <;> rfl
  · have hwaiting := h.waiting_dispatchOne_le hqueue
    unfold Sim.backlog
    omega
  · have hhead : s.robHead ∈ s.slots cfg := by
      rw [h.slots_pop hpos]
      exact List.mem_cons_self
    rw [h.dispatchOne_rob_slot hfree hhead]
    exact ⟨SameOp.refl _, rfl, rfl⟩

variable [CachePrefetcher P]

/-- An op that leaves its queue makes the backlog fall. -/
theorem Outcome.moves {i : ℕ} {q : Iq} (h : Outcome cfg s i q s' true) {kept rest : List ℕ}
    (hqueue : s.iq q = kept ++ i :: rest) : Moves cfg s (s'.setIq q (kept ++ rest)) := by
  obtain ⟨hiq, -⟩ := h.others
  obtain ⟨op', ht, -⟩ := h.touched
  have hsame : s'.robCount = s.robCount ∧ s'.instructionsRetired = s.instructionsRetired := by
    cases ht
    exact ⟨rfl, rfl⟩
  have hretired : (s'.setIq q (kept ++ rest)).instructionsRetired = s'.instructionsRetired := by
    cases q <;> rfl
  refine Or.inr ⟨hretired.trans hsame.2, ?_, ?_⟩
  · rw [setIq_robCount, hsame.1]
  · have hlen := congrArg List.length hqueue
    rw [List.length_append, List.length_cons] at hlen
    rw [Sim.backlog, Sim.backlog, setIq_robCount, hsame.1]
    refine Nat.add_lt_add_left ?_ _
    cases q <;> simp [waiting, Iq.all, List.flatMap_cons, hiq] <;> omega

/-- An attempt that fails leaves every op as it was. -/
theorem Outcome.still {i : ℕ} {q : Iq} (h : Outcome cfg s i q s' false) :
    Still cfg s s' := by
  obtain ⟨hiq, -⟩ := h.others
  have hwaiting := waiting_congr hiq
  cases h with
  | waits _ op' same executed cycle mem during profiler counters =>
    refine ⟨rfl, le_rfl, (congrArg (_ + ·) hwaiting).le, rfl, rfl, fun _ => ?_⟩
    show SameOp (s.rob s.robHead) (Function.update s.rob i op' s.robHead) ∧
      (Function.update s.rob i op' s.robHead).executed = (s.rob s.robHead).executed ∧
      (Function.update s.rob i op' s.robHead).executeCycle = (s.rob s.robHead).executeCycle
    by_cases hi : s.robHead = i
    · rw [hi, Function.update_self]
      exact ⟨same, executed, cycle⟩
    · rw [Function.update_of_ne hi]
      exact ⟨SameOp.refl _, rfl, rfl⟩

/-- **Every step** moves something or leaves the head and the scoreboard alone. -/
theorem Step.progresses {C : Sim P B → Prop} (h : Step cfg env C s s')
    (hr : Represents cfg s) : Progresses cfg s s' := by
  cases h with
  | quiet _ hquiet =>
    refine Or.inr (hquiet.samePipe.still ?_ ?_) <;> cases hquiet <;> rfl
  | commits hdone _ => exact Or.inl (Or.inl (Nat.lt_succ_self _))
  | waits q i _ hmem houtcome => exact Or.inr houtcome.still
  | issues q kept i rest s₁ hqueue houtcome => exact Or.inl (houtcome.moves hqueue)
  | dispatches op rest hqueue hfree => exact Or.inr (hr.still_dispatchOne hqueue hfree)
  | decodes op rest hbuffer hroom =>
    exact Or.inr (SamePipe.still ⟨rfl, rfl, rfl, rfl, fun q => by cases q <;> rfl, rfl⟩ rfl rfl)
  | fetches _ hturn =>
    refine Or.inr (hturn.samePipe.1.still ?_ ?_) <;> cases hturn.frame <;> rfl

theorem Represents.progresses {C : Sim P B → Prop} (hr : Represents cfg s)
    (h : ReflTransGen (Step cfg env C) s s') : Progresses cfg s s' := by
  have hinv := represents_invariant cfg env C
  induction h with
  | refl => exact Or.inr (Still.refl cfg s)
  | tail hsteps hstep ih => exact ih.trans (hstep.progresses (hinv.steps hr hsteps))

end Sim

end TraceSim
