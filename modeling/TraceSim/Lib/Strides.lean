/-
TraceSim/Lib/Strides.lean

Histories of positions, newest first: the history without consecutive
repetitions, its steps, and how long the newest step has been repeated.

The newest three steps agree exactly if the newest one was repeated at least twice
(`two_le_repeats`).
-/
import Mathlib.Tactic.Common

namespace TraceSim

/-! ### Repetitions -/

section Repeats

variable {α : Type*} [DecidableEq α]

/-- A history with consecutive repetitions removed. -/
def collapse : List α → List α
  | [] => []
  | x :: l => if (collapse l).head? = some x then collapse l else x :: collapse l

/-- How many further elements at the head of a list equal its first one. -/
def repeats : List α → ℕ
  | [] => 0
  | x :: l => (l.takeWhile (· = x)).length

@[simp] theorem repeats_singleton (x : α) : repeats [x] = 0 := rfl

theorem repeats_cons_self (x : α) (l : List α) : repeats (x :: x :: l) = repeats (x :: l) + 1 := by
  simp [repeats]

theorem repeats_cons_of_ne {x y : α} (h : x ≠ y) (l : List α) : repeats (x :: y :: l) = 0 := by
  simp [repeats, h.symm]

/-- Two repetitions are three equal elements. -/
theorem two_le_repeats (l : List α) : 2 ≤ repeats l ↔ ∃ x, l.take 3 = [x, x, x] := by
  match l with
  | [] => simp [repeats]
  | [x] => simp
  | [x, y] =>
      by_cases h : x = y
      · subst h
        simp [repeats_cons_self]
      · simp [repeats_cons_of_ne h]
  | x :: y :: z :: l =>
      by_cases h : x = y
      · subst h
        by_cases hz : x = z
        · subst hz
          simp [repeats_cons_self]
        · simp [repeats_cons_self, repeats_cons_of_ne hz, Ne.symm hz]
      · simp only [repeats_cons_of_ne h, List.take_succ_cons, List.take_zero]
        constructor
        · omega
        · rintro ⟨w, hw⟩
          cases hw
          exact absurd rfl h

end Repeats

/-! ### Steps -/

variable {G : Type*} [Sub G]

/-- The steps between consecutive positions, the newest first. -/
def strides : List G → List G
  | x :: y :: l => (x - y) :: strides (y :: l)
  | _ => []

@[simp] theorem strides_cons_cons (x y : G) (l : List G) :
    strides (x :: y :: l) = (x - y) :: strides (y :: l) := rfl

end TraceSim
