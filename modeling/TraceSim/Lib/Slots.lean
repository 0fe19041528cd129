/-
TraceSim/Lib/Slots.lean

A fixed number of slots, and values that arrive one after the other.

Each value takes the slot that a function `choose` picks and displaces what is
there.  Where `choose` picks a slot of least rank and the values that arrive
rank above all others, no arrival displaces another one, and then the order of
the arrivals does not matter: the same values are displaced, and the slots hold
the same values, though not in the same places.
-/
import Mathlib.Data.List.Perm.Basic
import Mathlib.Order.Lattice

namespace TraceSim

namespace Slots

variable {α β : Type*}

/-- The slots after some values have arrived. -/
def place (choose : List α → ℕ) : List α → List α → List α
  | slots, [] => slots
  | slots, x :: xs => place choose (slots.set (choose slots) x) xs

/-- The values that the arrivals displace. -/
def displaced (choose : List α → ℕ) : List α → List α → List α
  | _, [] => []
  | slots, x :: xs =>
      slots[choose slots]?.toList ++ displaced choose (slots.set (choose slots) x) xs

/-- Nothing is lost and nothing is made up. -/
theorem place_append_displaced {choose : List α → ℕ}
    (hlt : ∀ slots, slots ≠ [] → choose slots < slots.length) {slots : List α}
    (hne : slots ≠ []) (xs : List α) :
    (place choose slots xs ++ displaced choose slots xs).Perm (slots ++ xs) := by
  induction xs generalizing slots with
  | nil => exact List.Perm.refl _
  | cons x xs ih =>
    have hslot := hlt slots hne
    have hset := List.set_perm_cons_eraseIdx hslot x
    have hget := List.getElem_cons_eraseIdx_perm hslot
    have hne' : slots.set (choose slots) x ≠ [] := by
      simpa using hne
    rw [place, displaced, List.getElem?_eq_getElem hslot, Option.toList_some]
    generalize slots.set (choose slots) x = slots' at hset hne' ⊢
    generalize slots[choose slots] = old at hget ⊢
    calc place choose slots' xs ++ ([old] ++ displaced choose slots' xs)
        _ |>.Perm (old :: (place choose slots' xs ++ displaced choose slots' xs)) :=
            List.perm_middle
        _ |>.Perm (old :: (slots' ++ xs)) := (ih hne').cons old
        _ |>.Perm (old :: (x :: slots.eraseIdx (choose slots) ++ xs)) :=
            (hset.append_right xs).cons old
        _ |>.Perm (x :: (old :: slots.eraseIdx (choose slots) ++ xs)) := List.Perm.swap _ _ _
        _ |>.Perm (x :: (slots ++ xs)) := (hget.append_right xs).cons x
        _ |>.Perm (slots ++ x :: xs) := List.perm_middle.symm

/-! ### Choosing a slot of least rank -/

variable [LinearOrder β]

/-- `choose` picks a slot by the ranks of the values, one of least rank as long as
no rank is above `now`. -/
structure PicksLeast (rank : α → β) (now : β) (choose : List α → ℕ) : Prop where
  lt : ∀ slots, slots ≠ [] → choose slots < slots.length
  congr : ∀ {s t : List α}, s.map rank = t.map rank → choose s = choose t
  least : ∀ {slots : List α} {x}, (∀ y ∈ slots, rank y ≤ now) →
    slots[choose slots]? = some x → ∀ y ∈ slots, rank x ≤ rank y

/-- A value that ranks below `now`. -/
def old (rank : α → β) (now : β) (x : α) : Option α := if rank x < now then some x else none

variable {rank : α → β} {now : β} {choose : List α → ℕ} {slots slots' xs xs' : List α}

theorem old_eq_some {x y : α} : old rank now x = some y ↔ rank x < now ∧ x = y := by
  rw [old]
  split_ifs with h
  · simp [h]
  · simp [h]

/-- Slots with the same old values rank alike. -/
theorem map_rank_of_map_old (hle : ∀ x ∈ slots, rank x ≤ now) (hle' : ∀ x ∈ slots', rank x ≤ now)
    (h : slots.map (old rank now) = slots'.map (old rank now)) :
    slots.map rank = slots'.map rank := by
  have hrank : ∀ {x}, rank x ≤ now → rank x = (old rank now x).elim now rank := by
    intro x hx
    rw [old]
    split_ifs with hlt
    · rfl
    · exact le_antisymm hx (not_lt.mp hlt)
  have hmap : ∀ {s : List α}, (∀ x ∈ s, rank x ≤ now) →
      s.map rank = (s.map (old rank now)).map fun o => o.elim now rank := by
    intro s hs
    rw [List.map_map]
    exact List.map_congr_left fun x hx => hrank (hs x hx)
  rw [hmap hle, hmap hle', h]

namespace PicksLeast

variable (h : PicksLeast rank now choose)

include h

/-- As long as some value is old, an old value is displaced. -/
theorem displaces_old (hle : ∀ x ∈ slots, rank x ≤ now)
    (hold : 0 < slots.countP fun x => rank x < now) :
    ∃ x, slots[choose slots]? = some x ∧ rank x < now := by
  obtain ⟨y, hy, hlt⟩ := List.countP_pos_iff.mp hold
  have hne : slots ≠ [] := List.ne_nil_of_mem hy
  have hget := List.getElem?_eq_getElem (h.lt slots hne)
  exact ⟨_, hget, lt_of_le_of_lt (h.least hle hget y hy) (of_decide_eq_true hlt)⟩

omit h in
/-- An arrival takes the place of one old value. -/
theorem countP_old_set {i : ℕ} {x y : α} (hget : slots[i]? = some x) (hx : rank x < now)
    (hy : rank y = now) :
    (slots.countP fun x => rank x < now) = ((slots.set i y).countP fun x => rank x < now) + 1 := by
  obtain ⟨hi, hget⟩ := List.getElem?_eq_some_iff.mp hget
  have hset := (List.set_perm_cons_eraseIdx hi y).countP_eq fun x => decide (rank x < now)
  have hall := (List.getElem_cons_eraseIdx_perm hi).countP_eq fun x => decide (rank x < now)
  have hnot : ¬ rank y < now := by
    rw [hy]
    exact lt_irrefl now
  rw [List.countP_cons, decide_eq_false hnot] at hset
  rw [List.countP_cons, hget, decide_eq_true hx] at hall
  rw [← hall, hset]
  rfl

/-- **The displaced values depend on the old values only**, and on the number of arrivals. -/
theorem displaced_congr (hxs : ∀ x ∈ xs, rank x = now) (hxs' : ∀ x ∈ xs', rank x = now)
    (hlen : xs.length = xs'.length) (hle : ∀ x ∈ slots, rank x ≤ now)
    (hle' : ∀ x ∈ slots', rank x ≤ now)
    (heq : slots.map (old rank now) = slots'.map (old rank now))
    (hroom : xs.length ≤ slots.countP fun x => rank x < now) :
    displaced choose slots xs = displaced choose slots' xs' := by
  induction xs generalizing slots slots' xs' with
  | nil =>
    rw [List.length_eq_zero_iff.mp hlen.symm]
    rfl
  | cons x xs ih =>
    cases xs' with
    | nil => cases hlen
    | cons x' xs' =>
      have hx := hxs x List.mem_cons_self
      have hx' := hxs' x' List.mem_cons_self
      have hchoose := h.congr (map_rank_of_map_old hle hle' heq)
      rw [List.length_cons] at hroom
      obtain ⟨y, hget, hy⟩ := h.displaces_old hle (by omega)
      -- the old value is in the same place on both sides
      have hget' : slots'[choose slots]? = some y := by
        have hmap := congrArg (·[choose slots]?) heq
        simp only [List.getElem?_map, hget, Option.map_some] at hmap
        obtain ⟨z, hz, hyz⟩ := Option.map_eq_some_iff.mp hmap.symm
        have hy : old rank now y = some y := old_eq_some.mpr ⟨hy, rfl⟩
        rw [hy] at hyz
        rw [hz, (old_eq_some.mp hyz).2]
      have hcount := countP_old_set hget hy hx
      have hnone : ∀ {z : α}, rank z = now → old rank now z = none := by
        intro z hz
        rw [old, if_neg (by rw [hz]; exact lt_irrefl now)]
      have hset : ∀ {s : List α} {i : ℕ} {z : α}, (∀ x ∈ s, rank x ≤ now) → rank z = now →
          ∀ x ∈ s.set i z, rank x ≤ now := by
        intro s i z hs hz x hmem
        rcases List.mem_or_eq_of_mem_set hmem with hmem | rfl
        · exact hs x hmem
        · exact le_of_eq hz
      rw [displaced, displaced, ← hchoose, hget, hget']
      congr 1
      refine ih (fun z hz => hxs z (List.mem_cons_of_mem _ hz))
        (fun z hz => hxs' z (List.mem_cons_of_mem _ hz)) (Nat.succ.inj hlen) (hset hle hx)
        (hset hle' hx') ?_ (by omega)
      rw [List.map_set, List.map_set, heq, hnone hx, hnone hx']

/-- **The order of the arrivals does not matter**: as many new values as there are
slots, all of them above the old ones, leave the same values in the slots. -/
theorem place_perm (hslots : ∀ x ∈ slots, rank x < now) (hxs : ∀ x ∈ xs, rank x = now)
    (hperm : xs.Perm xs') (hroom : xs.length ≤ slots.length) :
    (place choose slots xs).Perm (place choose slots xs') := by
  rcases eq_or_ne slots [] with rfl | hne
  · have hnil : xs = [] := List.length_eq_zero_iff.mp (by simpa using hroom)
    subst hnil
    rw [List.nil_perm.mp hperm]
  have hxs' : ∀ x ∈ xs', rank x = now := fun x hx => hxs x (hperm.mem_iff.mpr hx)
  have hle : ∀ x ∈ slots, rank x ≤ now := fun x hx => le_of_lt (hslots x hx)
  have hcount : (slots.countP fun x => rank x < now) = slots.length :=
    List.countP_eq_length.mpr fun x hx => decide_eq_true (hslots x hx)
  have hsame : displaced choose slots xs = displaced choose slots xs' :=
    h.displaced_congr hxs hxs' hperm.length_eq hle hle rfl (by omega)
  have hall := place_append_displaced h.lt hne xs
  have hall' := place_append_displaced h.lt hne xs'
  rw [hsame] at hall
  exact (List.perm_append_right_iff _).mp
    ((hall.trans (hperm.append_left slots)).trans hall'.symm)

end PicksLeast

end Slots

end TraceSim
