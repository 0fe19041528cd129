/-
TraceSim/Core/Observation.lean

Runs with a log.

What an instruction does in one cycle and what it does in a later one is related by a
log that grows along the run: each stage adds the events an observer sees in it
(`Observed`).  The log does not change the run, and every run has one
(`Reach.observed`).
-/
import TraceSim.Core.Steps

namespace TraceSim

namespace Sim

variable {P B α : Type} [CachePrefetcher P] [BranchPredictor B]

/-- The states of a run with what has been observed in it: `events b s` are the events
of the stage from boundary `b`, in state `s`. -/
inductive Observed (cfg : Config P B) (env : Env) (events : Boundary → Sim P B → List α) :
    Boundary → Sim P B → List α → Prop
  | start : Observed cfg env events .returns (Sim.new cfg) []
  | step {b s log} : Observed cfg env events b s log → (b = .returns → s.running) →
      Observed cfg env events b.next (stage cfg env b s) (log ++ events b s)

variable {cfg : Config P B} {env : Env} {events : Boundary → Sim P B → List α}
  {b : Boundary} {s : Sim P B} {log : List α}

/-- An observed run is a run. -/
theorem Observed.reach (h : Observed cfg env events b s log) : Reach cfg env b s := by
  induction h with
  | start => exact .start
  | step _ hrun ih => exact .step ih hrun

/-- Every run can be observed. -/
theorem Reach.observed (events : Boundary → Sim P B → List α) (h : Reach cfg env b s) :
    ∃ log, Observed cfg env events b s log := by
  induction h with
  | start => exact ⟨[], .start⟩
  | step _ hrun ih =>
    obtain ⟨log, ih⟩ := ih
    exact ⟨_, .step ih hrun⟩

/-- An iteration adds its events to the log. -/
theorem Observed.cycle (h : Observed cfg env events .returns s log) (hrun : s.running) :
    ∃ new, Observed cfg env events .returns (s.cycle cfg env) (log ++ new) := by
  have hadvance := h.step fun _ => hrun
  have hcycle := (((((((hadvance.step nofun).step nofun).step nofun).step nofun).step
    nofun).step nofun).step nofun).step nofun
  simp only [List.append_assoc] at hcycle
  exact ⟨_, hcycle⟩

/-- And the log only grows. -/
theorem Observed.runFor (h : Observed cfg env events .returns s log) {n : ℕ} {s' : Sim P B}
    (hrun : runFor cfg env n s = some s') :
    ∃ new, Observed cfg env events .returns s' (log ++ new) := by
  induction n generalizing s log with
  | zero =>
    rw [Sim.runFor, Option.some.injEq] at hrun
    exact ⟨[], by rwa [List.append_nil, ← hrun]⟩
  | succ n ih =>
    rw [Sim.runFor] at hrun
    split at hrun
    · obtain ⟨new, hcycle⟩ := h.cycle ‹_›
      obtain ⟨new', h'⟩ := ih hcycle hrun
      rw [List.append_assoc] at h'
      exact ⟨_, h'⟩
    · cases hrun

end Sim

end TraceSim
