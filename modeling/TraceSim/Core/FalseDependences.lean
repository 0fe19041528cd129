/-
TraceSim/Core/FalseDependences.lean

False dependences.

The cell of a register tells when the op completes that wrote the cell last, and any
writer of the register writes it when it issues.  An op whose producers have all
completed may therefore still find a source not ready: another op, younger than it or
older than the producer, has issued last and has not completed (`passesReady_iff`).
-/
import TraceSim.Core.Dependences

namespace TraceSim

open Relation

namespace Sim

variable {P B : Type} {cfg : Config P B} {env : Env} {s s' : Sim P B} {q : Iq} {i : ℕ}

/-! ### The test -/

/-- The test of the ready times of the sources, before an issue from queue `q`. -/
def passesReady (s : Sim P B) (q : Iq) (i : ℕ) : Bool :=
  (q.sources (s.rob i).inst).all s.isRegisterReady

theorem passesReady_true_iff :
    s.passesReady q i = true ↔
      ∀ r ∈ q.sources (s.rob i).inst, s.regReadyTime r ≤ s.totalCycles := by
  rw [passesReady, List.all_eq_true]
  exact forall₂_congr fun r _ => decide_eq_true_iff

section

variable [CachePrefetcher P]

/-- An op that does not pass the test does not issue. -/
theorem passesReady_of_attempt (h : (attempt cfg q s i).2 = true) :
    s.passesReady q i = true :=
  passesReady_true_iff.mpr fun _ hr => attempt_ready h hr

/-- For all but the loads the test is all there is. -/
theorem attempt_of_passesReady (hq : q ≠ .ldu) (h : s.passesReady q i = true) :
    (attempt cfg q s i).2 = true := by
  rw [passesReady, List.all_eq_true] at h
  cases q with
  | ldu => exact absurd rfl hq
  | sta =>
    have h1 := h (s.rob i).inst.rs1 (by simp [Iq.sources])
    change (staAttempt s i).2 = true
    rw [staAttempt, if_pos h1]
  | std =>
    have h2 := h (s.rob i).inst.rs2 (by simp [Iq.sources])
    change (stdAttempt s i).2 = true
    rw [stdAttempt, if_pos h2]
  | _ =>
    have h1 := h (s.rob i).inst.rs1 (by simp [Iq.sources])
    have h2 := h (s.rob i).inst.rs2 (by simp [Iq.sources])
    change (execAttempt _ s i).2 = true
    simp [execAttempt, h1, h2]

end

/-! ### Cells nobody has written -/

/-- A cell that no op has written is 0, and register 0 has none. -/
structure Unwritten (s : Sim P B) : Prop where
  zero : s.hist.lastMark 0 = none
  cells : ∀ r, s.hist.lastMark r = none → s.regReadyTime r = 0

theorem Unwritten.of_same (h : Unwritten s) (hmarks : s'.hist.lastMark = s.hist.lastMark)
    (hcells : s'.regReadyTime = s.regReadyTime) : Unwritten s' where
  zero := hmarks ▸ h.zero
  cells r hr := by
    rw [hmarks] at hr
    rw [hcells]
    exact h.cells r hr

section

variable [CachePrefetcher P]

theorem Unwritten.attempt {ok : Bool} (h : Unwritten s) (ho : Outcome cfg s i q s' ok) :
    Unwritten s' := by
  cases ho with
  | executes _ whole op' same executed mem during profiler counters stats =>
    by_cases hrd : op'.inst.rd ≠ 0
    · refine ⟨?_, fun r hr => ?_⟩
      · change s.markedBy op' 0 = none
        rw [markedBy, if_pos hrd, Function.update_of_ne (Ne.symm hrd)]
        exact h.zero
      · change s.markedBy op' r = none at hr
        change s.markedTimes op' op'.executeCycle r = 0
        rw [markedBy, if_pos hrd] at hr
        rw [markedTimes, if_pos hrd]
        -- the cell of the destination has been written now
        have hother : r ≠ op'.inst.rd := by
          rintro rfl
          rw [Function.update_self] at hr
          cases hr
        rw [Function.update_of_ne hother] at hr ⊢
        exact h.cells r hr
    · exact h.of_same (if_neg hrd) (if_neg hrd)
  | _ => exact ⟨h.zero, h.cells⟩

theorem unwritten_invariant (cfg : Config P B) (env : Env) (C : Sim P B → Prop) :
    StepInvariant cfg env C Unwritten where
  new := ⟨rfl, fun _ _ => rfl⟩
  step {s s'} h hstep := by
    cases hstep with
    | quiet _ hquiet =>
      cases hquiet
      exact ⟨h.zero, h.cells⟩
    | commits => exact ⟨h.zero, h.cells⟩
    | waits q i _ hmem houtcome => exact h.attempt houtcome
    | issues q kept i rest s₁ hqueue houtcome =>
      have hs := h.attempt houtcome
      exact hs.of_same (congrArg History.lastMark (setIq_hist s₁ q (kept ++ rest)))
        (setIq_regReadyTime s₁ q (kept ++ rest))
    | dispatches op rest hqueue hfree =>
      exact h.of_same (congrArg History.lastMark (dispatchOne_hist cfg s op))
        (dispatchOne_regReadyTime cfg s op)
    | decodes => exact ⟨h.zero, h.cells⟩
    | fetches _ hturn =>
      obtain ⟨-, hmarks, hcells, -⟩ := hturn.scoreboard
      exact h.of_same hmarks hcells

end

/-! ### Who holds an op back -/

/-- The sources of the op in slot `i` are complete: for each of them, the youngest older
writer has executed and is complete, if there is one. -/
def SourcesComplete (cfg : Config P B) (s : Sim P B) (q : Iq) (i : ℕ) : Prop :=
  ∀ r ∈ q.sources (s.rob i).inst, r ≠ 0 → ∀ op, Producer cfg s i r op →
    op.executed = true ∧ op.executeCycle ≤ s.totalCycles

/-- For a source of the op in slot `i`, an op that is not the youngest older writer has
issued after all other writers, and is not complete. -/
def HeldByOther (cfg : Config P B) (s : Sim P B) (q : Iq) (i : ℕ) : Prop :=
  ∃ r ∈ q.sources (s.rob i).inst, r ≠ 0 ∧ ∃ w ∈ s.dispatched cfg,
    s.hist.lastMark r = some w.entryId ∧ ¬ Producer cfg s i r w ∧
      s.totalCycles < w.executeCycle

instance (cfg : Config P B) (s : Sim P B) (q : Iq) (i : ℕ) :
    Decidable (SourcesComplete cfg s q i) :=
  decidable_of_iff
    (∀ r ∈ q.sources (s.rob i).inst, r ≠ 0 → ∀ op ∈ s.pipeline cfg, Producer cfg s i r op →
      op.executed = true ∧ op.executeCycle ≤ s.totalCycles)
    ⟨fun h r hr hr0 op hop => h r hr hr0 op hop.1.1 hop,
      fun h r hr hr0 op _ hop => h r hr hr0 op hop⟩

instance (cfg : Config P B) (s : Sim P B) (q : Iq) (i : ℕ) :
    Decidable (HeldByOther cfg s q i) :=
  inferInstanceAs (Decidable (∃ r ∈ q.sources (s.rob i).inst, r ≠ 0 ∧ _))

theorem passesReady_iff_of_scoreboard (h : Scoreboard cfg env s) (hcells : Unwritten s)
    (hsources : SourcesComplete cfg s q i) :
    s.passesReady q i = true ↔ ¬ HeldByOther cfg s q i := by
  rw [passesReady_true_iff]
  constructor
  · rintro hready ⟨r, hr, -, w, hw, hmark, -, hlate⟩
    -- the cell tells when `w` completes
    obtain ⟨op, hop, hid, -, hcycle⟩ := h.marks r _ hmark
    have hpipe : ∀ op' ∈ s.dispatched cfg, op' ∈ s.pipeline cfg := by
      intro op' hop'
      rw [pipeline_eq_dispatched]
      exact List.mem_append_left _ hop'
    obtain rfl := h.conserved.eq_of_entryId (hpipe op hop) (hpipe w hw) hid
    have hle := hready r hr
    omega
  · intro hfree r hr
    by_contra hlate
    rcases hmark : s.hist.lastMark r with - | n
    · rw [hcells.cells r hmark] at hlate
      exact hlate (Nat.zero_le _)
    · have hr0 : r ≠ 0 := by
        rintro rfl
        rw [hcells.zero] at hmark
        cases hmark
      obtain ⟨w, hw, rfl, -, hcycle⟩ := h.marks r n hmark
      have hnot : ¬ Producer cfg s i r w := by
        intro hproducer
        have hdone := (hsources r hr hr0 w hproducer).2
        omega
      exact hfree ⟨r, hr, hr0, w, hw, hmark, hnot, by omega⟩

/-! ### Runs -/

section

variable [CachePrefetcher P] [BranchPredictor B]

/-- In a run, the op in slot `i` waits in queue `q` in state `s`, at a boundary or when
the loop over the queue gets to it. -/
inductive Waits (cfg : Config P B) (env : Env) (q : Iq) : Sim P B → ℕ → Prop
  | boundary {b : Boundary} {s : Sim P B} {i : ℕ} (h : Reach cfg env b s) (hi : i ∈ s.iq q) :
      Waits cfg env q s i
  | tried {s₀ s : Sim P B} {i : ℕ} (h : Reach cfg env .issue s₀)
      (hi : (s, i) ∈ scanTried (attempt cfg q) (units cfg q)
        ((q.before.foldl (issueIq cfg) s₀).iq q) (q.before.foldl (issueIq cfg) s₀)) :
      Waits cfg env q s i

/-- The invariant holds where an op waits, with the queue as it is at that point. -/
theorem Waits.invariant {C I : Sim P B → Prop} (hI : StepInvariant cfg env C I)
    (hC : CommitsIn cfg env C) (h : Waits cfg env q s i) :
    ∃ l, i ∈ l ∧ I (s.setIq q l) := by
  cases h with
  | boundary h hi =>
    refine ⟨s.iq q, hi, ?_⟩
    rw [setIq_self]
    exact h.invariant hI hC
  | @tried s₀ _ _ h hi =>
    have hstart := hI.steps (h.invariant hI hC) (issueIqs_steps cfg env C s₀ q.before)
    obtain ⟨kept, rest, hscan⟩ := scanTried_rule (scanning_step cfg env C _ q)
      (units cfg q) [] _ _ (scanning_start cfg env C _ q) _ hi
    exact ⟨kept ++ i :: rest, List.mem_append_right _ List.mem_cons_self,
      hI.steps hstart hscan⟩

/-- The attempts on queue `q` in the iteration that starts in `s`. -/
def triesOf (cfg : Config P B) (env : Env) (q : Iq) (s : Sim P B) : List (Sim P B × ℕ) :=
  let s := q.before.foldl (issueIq cfg) (s.upTo cfg env .issue)
  scanTried (attempt cfg q) (units cfg q) (s.iq q) s

/-- What a test finds of the attempts on queue `q` after `n` iterations is found where an
op waits in a run. -/
theorem exists_waits {n : ℕ} {test : Sim P B × ℕ → Bool}
    (h : (runFor cfg env n (Sim.new cfg)).any (fun s =>
      s.running && (s.triesOf cfg env q).any test) = true) :
    ∃ s i, Waits cfg env q s i ∧ test (s, i) = true := by
  obtain ⟨s₀, hreach, hfound⟩ := exists_reach h
  rw [Bool.and_eq_true, List.any_eq_true] at hfound
  obtain ⟨hrun, ⟨s, i⟩, hmem, htest⟩ := hfound
  exact ⟨s, i, .tried (hreach.upTo hrun .issue) hmem, htest⟩

/-- **False dependences.**  In every run, an op that waits in a queue and whose sources
are complete passes the test of the ready times exactly if no op other than the youngest
older writer has been the last to issue of the writers of a source and is not
complete.  No attempt to issue it succeeds without the test, and but for the loads the
test decides the attempt. -/
theorem passesReady_iff (cfg : Config P B) (env : Env) {q : Iq} {s : Sim P B} {i : ℕ}
    (h : Waits cfg env q s i) (hsources : SourcesComplete cfg s q i) :
    (s.passesReady q i = true ↔ ¬ HeldByOther cfg s q i) ∧
      ((attempt cfg q s i).2 = true → s.passesReady q i = true) ∧
      (q ≠ .ldu → s.passesReady q i = true → (attempt cfg q s i).2 = true) := by
  refine ⟨?_, passesReady_of_attempt, attempt_of_passesReady⟩
  obtain ⟨l, -, hboard, hcells⟩ := h.invariant
    ((scoreboard_invariant cfg env _).and (unwritten_invariant cfg env _))
    (commitsIn_true cfg env)
  -- nothing here looks at the queues
  have hsources' : SourcesComplete cfg (s.setIq q l) q i := by
    cases q <;> exact hsources
  have hiff := passesReady_iff_of_scoreboard hboard hcells hsources'
  cases q <;> exact hiff

end

/-- The op in slot 2 of `chainTrace` finds its producer complete, although the load
before has not completed, and issues. -/
theorem passesReady_iff_chainTrace :
    ∃ s, Waits shippedConfig chainTrace .alu s 2 ∧ s.totalCycles = 136 ∧
      (s.rob 0).executeCycle = 270 ∧ s.passesReady .alu 2 = true ∧
      (attempt shippedConfig .alu s 2).2 = true := by
  have hrun : (runFor shippedConfig chainTrace 136 (Sim.new shippedConfig)).any (fun s =>
      decide (2 ∈ s.iq .alu ∧ s.totalCycles = 136 ∧ (s.rob 0).executeCycle = 270 ∧
        SourcesComplete shippedConfig s .alu 2 ∧
        ¬ HeldByOther shippedConfig s .alu 2)) = true := by
    decide +kernel
  obtain ⟨s, hs, htest⟩ := exists_reach hrun
  obtain ⟨hqueue, htime, hload, hsources, hfree⟩ := of_decide_eq_true htest
  have hwaits : Waits shippedConfig chainTrace .alu s 2 := .boundary hs hqueue
  obtain ⟨hiff, -, hissues⟩ := passesReady_iff shippedConfig chainTrace hwaits hsources
  have hpasses := hiff.mpr hfree
  exact ⟨s, hwaits, htime, hload, hpasses, hissues (by decide) hpasses⟩

/-- A store of register 5, and an ALU instruction that writes register 5. -/
def overwriteTrace : Env :=
  ofTrace
    [{ pc := 0x80000000, opcode := 0b0100011, rs1 := 12, rs2 := 5, isStore := true
       memAddr := 0x80001000 },
      { pc := 0x80000004, opcode := 0b0010011, rd := 5, rs1 := 12 }]

/-- The store finds its data not ready, although no older op writes it. -/
theorem store_waits_for_younger :
    ∃ s, Waits shippedConfig overwriteTrace .std s 0 ∧
      SourcesComplete shippedConfig s .std 0 ∧ s.passesReady .std 0 = false := by
  have hrun : (runFor shippedConfig overwriteTrace 135 (Sim.new shippedConfig)).any (fun s =>
      s.running && (s.triesOf shippedConfig overwriteTrace .std).any fun p =>
        decide (p.2 = 0 ∧ SourcesComplete shippedConfig p.1 .std 0 ∧
          p.1.passesReady .std 0 = false)) = true := by
    decide +kernel
  obtain ⟨s, i, hs, htest⟩ := exists_waits hrun
  obtain ⟨rfl, hsources, hfails⟩ := of_decide_eq_true htest
  exact ⟨s, hs, hsources, hfails⟩

end Sim

end TraceSim
