/-
TraceSim/Lib/Rotation.lean

Rotations of a word.

A rotation by `n` moves every bit up by `n` places, around the end (`IsRotation`).  It
has one result and one origin (`IsRotation.unique`, `IsRotation.injective`), a rotation
back by `n` is one by `w - n` (`isRotation_comm`), and two opposite shifts compute it
(`isRotation_or_shifts`).
-/
import Mathlib.Tactic.Common

namespace TraceSim

/-- Bit `k` of `x` is bit `k + n` of `v`, counted around the end. -/
def IsRotation {w : ℕ} (n : ℕ) (x v : BitVec w) : Prop :=
  ∀ k < w, v.getLsbD ((k + n) % w) = x.getLsbD k

variable {w n : ℕ} {x x' v v' : BitVec w}

theorem IsRotation.injective (h : IsRotation n x v) (h' : IsRotation n x' v) : x = x' := by
  apply BitVec.eq_of_getLsbD_eq
  intro k hk
  rw [← h k hk, ← h' k hk]

/-- The place that bit `k` comes from. -/
theorem origin_add {k : ℕ} (hk : k < w) (hn : n ≤ w) : ((k + (w - n)) % w + n) % w = k := by
  rw [Nat.mod_add_mod, Nat.add_assoc, Nat.sub_add_cancel hn, Nat.add_mod_right,
    Nat.mod_eq_of_lt hk]

/-- Rotating back by `n` is rotating by `w - n`. -/
theorem isRotation_comm (hn : n ≤ w) : IsRotation n x v ↔ IsRotation (w - n) v x := by
  constructor
  · intro h k hk
    have hplace : (k + (w - n)) % w < w := Nat.mod_lt _ (by omega)
    rw [← h _ hplace, origin_add hk hn]
  · intro h k hk
    have hplace : (k + n) % w < w := Nat.mod_lt _ (by omega)
    have hback : ((k + n) % w + (w - n)) % w = k := by
      have horigin := origin_add hk (Nat.sub_le w n)
      rwa [Nat.sub_sub_self hn] at horigin
    rw [← h _ hplace, hback]

theorem IsRotation.unique (hn : n ≤ w) (h : IsRotation n x v) (h' : IsRotation n x v') :
    v = v' :=
  ((isRotation_comm hn).mp h).injective ((isRotation_comm hn).mp h')

/-- **Two opposite shifts** rotate. -/
theorem isRotation_or_shifts (hn : n ≤ w) (x : BitVec w) :
    IsRotation n x ((x <<< n) ||| (x >>> (w - n))) := by
  intro k hk
  rw [BitVec.getLsbD_or, BitVec.getLsbD_shiftLeft, BitVec.getLsbD_ushiftRight]
  by_cases hwraps : k + n < w
  · -- the bit is in the left shift, and the right shift has nothing there
    rw [Nat.mod_eq_of_lt hwraps, decide_eq_true hwraps, decide_eq_false (by omega),
      Nat.add_sub_cancel, BitVec.getLsbD_of_ge x (w - n + (k + n)) (by omega)]
    simp
  · have hplace : (k + n) % w = k + n - w := by
      rw [Nat.mod_eq_sub_mod (by omega), Nat.mod_eq_of_lt (by omega)]
    have hlow : k + n - w < n := by omega
    have hbit : w - n + (k + n - w) = k := by omega
    rw [hplace, decide_eq_true hlow, hbit]
    simp

end TraceSim
