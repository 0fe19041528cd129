/-
TraceSim/Lib/Numbering.lean

Numbered keys, and vectors of counts.

A table numbers its keys in the order in which they come, with a counter of `w` bits
that starts at 1.  Until the counter wraps around the numbers are distinct, none is 0
and all are below the counter (`Numbered.insert`, `Numbered.lt_next`).

A vector of counts grows by zeros and is added to at one place at a time; its total
follows (`total_append_zeros`, `total_modify_add`).
-/
import Mathlib.Algebra.Order.BigOperators.Group.List
import Mathlib.Algebra.Order.Ring.Nat
import TraceSim.Lib.Table

namespace TraceSim

/-! ### Numbered keys -/

/-- The keys of the table are numbered from 1 on, and `next` comes next. -/
structure Numbered {α : Type*} [DecidableEq α] {w : ℕ} (t : AList fun _ : α => BitVec w)
    (next : BitVec w) : Prop where
  next_eq : next = BitVec.ofNat w (t.entries.length + 1)
  range : ∀ a n, t.lookup a = some n → 1 ≤ n.toNat ∧ n.toNat ≤ t.entries.length
  distinct : ∀ a b n, t.lookup a = some n → t.lookup b = some n → a = b

namespace Numbered

variable {α : Type*} [DecidableEq α] {w : ℕ} {t : AList fun _ : α => BitVec w}
  {next : BitVec w} {a : α}

theorem empty : Numbered (∅ : AList fun _ : α => BitVec w) (BitVec.ofNat w 1) where
  next_eq := rfl
  range a n h := by
    rw [AList.lookup_empty] at h
    cases h
  distinct a b n h := by
    rw [AList.lookup_empty] at h
    cases h

theorem toNat_next (h : Numbered t next) (hroom : t.entries.length + 1 < 2 ^ w) :
    next.toNat = t.entries.length + 1 := by
  rw [h.next_eq, BitVec.toNat_ofNat, Nat.mod_eq_of_lt hroom]

/-- A new key gets the next number. -/
theorem insert (h : Numbered t next) (ha : a ∉ t) (hroom : t.entries.length + 1 < 2 ^ w) :
    Numbered (t.insert a next) (next + BitVec.ofNat w 1) := by
  have hnext := h.toNat_next hroom
  -- a lookup finds the new key or an old one
  have hlookup : ∀ b n, (t.insert a next).lookup b = some n →
      b = a ∧ n = next ∨ b ≠ a ∧ t.lookup b = some n := by
    intro b n hb
    by_cases hba : b = a
    · rw [hba, AList.lookup_insert, Option.some.injEq] at hb
      exact .inl ⟨hba, hb.symm⟩
    · rw [AList.lookup_insert_ne hba] at hb
      exact .inr ⟨hba, hb⟩
  refine ⟨?_, ?_, ?_⟩
  · rw [length_insert_of_notMem ha, h.next_eq, ← BitVec.ofNat_add]
  · intro b n hb
    rw [length_insert_of_notMem ha]
    rcases hlookup b n hb with ⟨-, rfl⟩ | ⟨-, hold⟩
    · omega
    · have := h.range b n hold
      omega
  · intro b c n hb hc
    rcases hlookup b n hb with ⟨hba, rfl⟩ | ⟨-, holdb⟩
    · rcases hlookup c n hc with ⟨hca, -⟩ | ⟨-, holdc⟩
      · rw [hba, hca]
      · have := h.range c n holdc
        omega
    · rcases hlookup c n hc with ⟨-, rfl⟩ | ⟨-, holdc⟩
      · have := h.range b n holdb
        omega
      · exact h.distinct b c n holdb holdc

/-- The numbers are those below the counter, which may have wrapped around to 0. -/
theorem lt_next (h : Numbered t next) (hroom : t.entries.length < 2 ^ w) {n : BitVec w}
    (ha : t.lookup a = some n) : n ≤ next - BitVec.ofNat w 1 := by
  have hprev : next - BitVec.ofNat w 1 = BitVec.ofNat w t.entries.length := by
    rw [h.next_eq, BitVec.ofNat_add, BitVec.add_sub_cancel]
  rw [hprev, BitVec.le_def, BitVec.toNat_ofNat, Nat.mod_eq_of_lt hroom]
  exact (h.range a n ha).2

end Numbered

/-! ### Totals -/

variable {w : ℕ} {counts : List (BitVec w)} {i : ℕ} {v : BitVec w}

/-- The sum of the counts. -/
def total (counts : List (BitVec w)) : ℕ := (counts.map BitVec.toNat).sum

@[simp] theorem total_cons (n : BitVec w) (counts : List (BitVec w)) :
    total (n :: counts) = n.toNat + total counts := rfl

theorem total_append (counts counts' : List (BitVec w)) :
    total (counts ++ counts') = total counts + total counts' := by
  rw [total, List.map_append, List.sum_append]
  rfl

theorem total_eq_zero (h : ∀ n ∈ counts, n = 0) : total counts = 0 := by
  apply List.sum_eq_zero
  intro k hk
  obtain ⟨n, hn, rfl⟩ := List.mem_map.mp hk
  rw [h n hn]
  rfl

theorem total_append_zeros (counts : List (BitVec w)) (k : ℕ) :
    total (counts ++ List.replicate k 0) = total counts := by
  rw [total_append, total_eq_zero fun n hn => (List.mem_replicate.mp hn).2, Nat.add_zero]

/-- Adding to one count adds to the total, if the count has room. -/
theorem total_modify_add (hi : i < counts.length) (hroom : total counts + v.toNat < 2 ^ w) :
    total (counts.modify i (· + v)) = total counts + v.toNat := by
  induction counts generalizing i with
  | nil => exact absurd hi (Nat.not_lt_zero i)
  | cons n counts ih =>
    rw [total_cons] at hroom ⊢
    cases i with
    | zero =>
      rw [List.modify_zero_cons, total_cons, BitVec.toNat_add_of_lt (by omega)]
      omega
    | succ i =>
      rw [List.modify_succ_cons, total_cons, ih (Nat.lt_of_succ_lt_succ hi) (by omega)]
      omega

/-- The counts that are not 0, each with its place, hold the total. -/
theorem sum_zipIdx_nonzero (counts : List (BitVec w)) (k : ℕ) :
    (((counts.zipIdx k).filterMap fun p =>
        if p.1 > 0 then some (p.2, p.1) else none).map fun p => p.2.toNat).sum
      = total counts := by
  induction counts generalizing k with
  | nil => rfl
  | cons n counts ih =>
    rw [List.zipIdx_cons, total_cons, List.filterMap_cons]
    by_cases hn : n > 0
    · rw [if_pos hn]
      dsimp only
      rw [List.map_cons, List.sum_cons, ih]
    · have hzero : n.toNat = 0 := by
        rw [gt_iff_lt, BitVec.lt_def] at hn
        simpa using hn
      rw [if_neg hn]
      dsimp only
      rw [ih, hzero, Nat.zero_add]

end TraceSim
