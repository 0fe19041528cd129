/-
TraceSim/Lib/Ring.lean

Ring buffers.

A ring buffer of `size` slots with its head at `head` and `count` live slots is
seen as the list `ring size head count` of those slots, oldest first.  A push
appends the slot at the tail, a pop removes the head; as long as the buffer does
not overflow, its slots are distinct and the tail is a free one.
-/
import Mathlib.Data.List.Nodup
import Mathlib.Data.List.Range
import Mathlib.Data.Nat.ModEq

namespace TraceSim

/-- The live slots of a ring buffer, oldest first. -/
def ring (size head count : ℕ) : List ℕ :=
  (List.range count).map fun k => (head + k) % size

variable {size head count : ℕ}

@[simp] theorem ring_zero : ring size head 0 = [] := rfl

@[simp] theorem length_ring : (ring size head count).length = count := by
  simp [ring]

theorem mem_ring {i : ℕ} : i ∈ ring size head count ↔ ∃ k < count, (head + k) % size = i := by
  simp [ring]

/-- **A push** appends the tail. -/
theorem ring_push :
    ring size head (count + 1) = ring size head count ++ [(head + count) % size] := by
  simp [ring, List.range_succ]

/-- **A pop** removes the head. -/
theorem ring_pop (hhead : head % size = head) (h : 0 < count) :
    ring size head count = head :: ring size ((head + 1) % size) (count - 1) := by
  obtain ⟨n, rfl⟩ : ∃ n, count = n + 1 := ⟨count - 1, by omega⟩
  simp only [ring, List.range_succ_eq_map, List.map_cons, List.map_map, Nat.add_zero,
    hhead, Nat.add_sub_cancel, List.cons.injEq, true_and]
  refine List.map_congr_left fun k _ => ?_
  simp only [Function.comp_apply, Nat.mod_add_mod]
  congr 1
  omega

/-- Two offsets below the size give different slots. -/
theorem offset_injective {j k : ℕ} (hj : j < size) (hk : k < size)
    (h : (head + j) % size = (head + k) % size) : j = k := by
  have hmod : j ≡ k [MOD size] := Nat.ModEq.add_left_cancel' head h
  exact hmod.eq_of_lt_of_lt hj hk

/-- The live slots are distinct. -/
theorem nodup_ring (h : count ≤ size) : (ring size head count).Nodup := by
  refine List.Nodup.map_on (fun j hj k hk heq => ?_) List.nodup_range
  rw [List.mem_range] at hj hk
  exact offset_injective (by omega) (by omega) heq

/-- The tail of a buffer that is not full is not live. -/
theorem tail_notMem_ring (h : count < size) :
    (head + count) % size ∉ ring size head count := by
  rw [mem_ring]
  rintro ⟨k, hk, heq⟩
  have hcount := offset_injective (by omega) h heq
  omega

end TraceSim
