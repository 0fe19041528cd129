/-
TraceSim/Lib/Options.lean

Two runs of a partial function: both end without a result, or both results are
related.
-/
import Mathlib.Tactic.Common

namespace TraceSim

variable {α β γ δ : Type*} {r : α → β → Prop} {q : γ → δ → Prop}

/-- Related first results, and second runs that are related on related inputs. -/
theorem rel_bind {x : Option α} {y : Option β} {f : α → Option γ} {g : β → Option δ}
    (h : Option.Rel r x y) (hf : ∀ a b, r a b → Option.Rel q (f a) (g b)) :
    Option.Rel q (x.bind f) (y.bind g) := by
  cases h with
  | some hab => exact hf _ _ hab
  | none => exact .none

theorem rel_map {x : Option α} {y : Option β} {f : α → γ} {g : β → δ}
    (h : Option.Rel r x y) (hf : ∀ a b, r a b → q (f a) (g b)) :
    Option.Rel q (x.map f) (y.map g) := by
  cases h with
  | some hab => exact .some (hf _ _ hab)
  | none => exact .none

/-- One result for both runs. -/
theorem rel_same {x : Option α} {f : α → Option γ} {g : α → Option δ}
    (hf : ∀ a, x = some a → Option.Rel q (f a) (g a)) :
    Option.Rel q (x.bind f) (x.bind g) := by
  cases x with
  | none => exact .none
  | some a => exact hf a rfl

/-- What is the same in related results is the same in both runs. -/
theorem map_eq_of_rel {f : α → γ} {g : β → γ} {x : Option α} {y : Option β}
    (h : Option.Rel r x y) (hfg : ∀ a b, r a b → f a = g b) : x.map f = y.map g := by
  cases h with
  | some hab => exact congrArg some (hfg _ _ hab)
  | none => rfl

/-- The same test in both runs. -/
theorem rel_ite {p p' : Prop} [Decidable p] [Decidable p'] {x y : α} {x' y' : β} (h : p ↔ p')
    (hx : r x x') (hy : r y y') : r (if p then x else y) (if p' then x' else y') := by
  by_cases hp : p
  · rw [if_pos hp, if_pos (h.mp hp)]
    exact hx
  · rw [if_neg hp, if_neg fun hp' => hp (h.mpr hp')]
    exact hy

/-- The second run has a result if the first has one. -/
theorem rel_some {x : Option α} {y : Option β} (h : Option.Rel r x y) {a : α}
    (ha : x = some a) : ∃ b, y = some b ∧ r a b := by
  cases h with
  | some hab =>
    obtain rfl := Option.some.inj ha
    exact ⟨_, rfl, hab⟩
  | none => cases ha

end TraceSim
