/-
TraceSim/Lib/Progress.lean

Bounded progress of a deterministic system.

`Within step Q n s` says that the run from `s` meets a state in `Q` after at most `n`
steps; a run may end, and then it has to have met one before.  The rules put a bound
together from its parts: one run after the other (`Within.bind`), a wait until a clock
shows a given time (`Within.wait`), and rounds that each make a rank fall
(`Within.rank`).
-/
import Mathlib.Data.Nat.Basic
import Mathlib.Tactic.Common

namespace TraceSim

variable {σ : Type*}

/-- The run from `s` meets a state in `Q` after at most `n` steps. -/
def Within (step : σ → Option σ) (Q : σ → Prop) : ℕ → σ → Prop
  | 0, s => Q s
  | n + 1, s => Q s ∨ ∃ s', step s = some s' ∧ Within step Q n s'

namespace Within

variable {step : σ → Option σ} {Q Q' I : σ → Prop} {n m : ℕ} {s s' : σ}

theorem now (h : Q s) (n : ℕ) : Within step Q n s := by
  cases n with
  | zero => exact h
  | succ n => exact Or.inl h

theorem next (hstep : step s = some s') (h : Within step Q n s') :
    Within step Q (n + 1) s := Or.inr ⟨s', hstep, h⟩

theorem imp (h : Within step Q n s) (hQ : ∀ s, Q s → Q' s) : Within step Q' n s := by
  induction n generalizing s with
  | zero => exact hQ s h
  | succ n ih =>
    rcases h with h | ⟨s', hstep, h⟩
    · exact now (hQ s h) _
    · exact next hstep (ih h)

theorem mono (h : Within step Q n s) (hle : n ≤ m) : Within step Q m s := by
  induction n generalizing s m with
  | zero => exact now h m
  | succ n ih =>
    rcases h with h | ⟨s', hstep, h⟩
    · exact now h m
    · cases m with
      | zero => exact absurd hle (Nat.not_succ_le_zero n)
      | succ m => exact next hstep (ih h (Nat.le_of_succ_le_succ hle))

/-- One run after the other. -/
theorem bind (h : Within step Q n s) (hQ : ∀ s, Q s → Within step Q' m s) :
    Within step Q' (n + m) s := by
  induction n generalizing s with
  | zero =>
    rw [Nat.zero_add]
    exact hQ s h
  | succ n ih =>
    rw [Nat.succ_add]
    rcases h with h | ⟨s', hstep, h⟩
    · exact (hQ s h).mono (by omega)
    · exact next hstep (ih h)

/-- What holds where `Q` is met, from an invariant of the steps. -/
theorem and_invariant (h : Within step Q n s) (hs : I s)
    (hI : ∀ s s', I s → step s = some s' → I s') :
    Within step (fun s => Q s ∧ I s) n s := by
  induction n generalizing s with
  | zero => exact ⟨h, hs⟩
  | succ n ih =>
    rcases h with h | ⟨s', hstep, h⟩
    · exact now ⟨h, hs⟩ _
    · exact next hstep (ih h (hI s s' hs hstep))

/-- **Waiting.**  If every step from a state in `I` meets the goal or stays in `I` while a
clock moves on by one, the goal is met before the clock shows `T` or `I` holds then. -/
theorem wait (clock : σ → ℕ) {T : ℕ}
    (hround : ∀ s, I s → clock s < T →
      Within step (fun s' => Q s' ∨ (I s' ∧ clock s' = clock s + 1)) 1 s)
    (h : I s) (hT : clock s ≤ T) :
    Within step (fun s' => Q s' ∨ (I s' ∧ clock s' = T)) (T - clock s) s := by
  generalize hleft : T - clock s = left
  induction left generalizing s with
  | zero => exact Or.inr ⟨h, by omega⟩
  | succ left ih =>
    rw [Nat.add_comm]
    refine (hround s h (by omega)).bind fun s' hs' => ?_
    rcases hs' with hs' | ⟨hI, hclock⟩
    · exact now (Q := fun s' => Q s' ∨ (I s' ∧ clock s' = T)) (Or.inl hs') _
    · exact ih hI (by omega) (by omega)

/-- **The ranking rule.**  If from every state of `I` whose rank is positive the goal, or a
state of `I` with a smaller rank, is met within `d` steps, the goal is met within `d` times
the rank. -/
theorem rank (step : σ → Option σ) (rank : σ → ℕ) {d : ℕ} (hzero : ∀ s, I s → rank s = 0 → Q s)
    (hround : ∀ s, I s → 0 < rank s →
      Within step (fun s' => Q s' ∨ (I s' ∧ rank s' < rank s)) d s)
    (h : I s) : Within step Q (d * rank s) s := by
  generalize hrank : rank s = k
  induction k using Nat.strong_induction_on generalizing s with
  | h k ih =>
    rcases Nat.eq_zero_or_pos k with rfl | hpos
    · exact now (hzero s h hrank) _
    have hfirst := hround s h (hrank.symm ▸ hpos)
    have hall : Within step Q (d + d * (k - 1)) s := by
      refine hfirst.bind fun s' hs' => ?_
      rcases hs' with hs' | ⟨hI, hlt⟩
      · exact now hs' _
      · rw [hrank] at hlt
        exact (ih (rank s') hlt hI rfl).mono (Nat.mul_le_mul_left d (by omega))
    rwa [Nat.add_comm, ← Nat.mul_succ, Nat.succ_eq_add_one, Nat.sub_add_cancel hpos] at hall

end Within

end TraceSim
