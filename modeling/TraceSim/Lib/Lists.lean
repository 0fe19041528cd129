/-
TraceSim/Lib/Lists.lean

Facts about overwriting elements of lists, about lists of distinct elements, and about
the last element of a list that passes a test, that Mathlib does not state.
-/
import Mathlib.Data.List.Pairwise
import Mathlib.Data.List.Nodup

namespace TraceSim

variable {α : Type*}

/-- Overwriting an element with one that is unrelated to none of the list keeps
a list pairwise related. -/
theorem pairwise_set {R : α → α → Prop} (hsymm : ∀ {x y}, R x y → R y x) {l : List α}
    (h : l.Pairwise R) {a : α} (ha : ∀ x ∈ l, R a x) (i : ℕ) :
    (l.set i a).Pairwise R := by
  induction l generalizing i with
  | nil => simp
  | cons x l ih =>
    obtain ⟨hx, hl⟩ := List.pairwise_cons.mp h
    have hal : ∀ y ∈ l, R a y := fun y hy => ha y (List.mem_cons_of_mem _ hy)
    cases i with
    | zero => exact List.pairwise_cons.mpr ⟨hal, hl⟩
    | succ i =>
      refine List.pairwise_cons.mpr ⟨fun y hy => ?_, ih hl hal i⟩
      rcases List.mem_or_eq_of_mem_set hy with hy | rfl
      · exact hx y hy
      · exact hsymm (ha x List.mem_cons_self)

/-- How overwriting an element changes the number of those that pass a test. -/
theorem countP_set_add {p : α → Bool} {l : List α} {i : ℕ} (h : i < l.length) (a : α) :
    (l.set i a).countP p + (if p l[i] then 1 else 0)
      = l.countP p + if p a then 1 else 0 := by
  have hpos : p l[i] = true → 0 < l.countP p := fun hp =>
    List.countP_pos_iff.mpr ⟨_, List.getElem_mem h, hp⟩
  rw [List.countP_set h]
  split_ifs with hold hnew
  · have := hpos hold
    omega
  · have := hpos hold
    omega
  · rfl
  · rfl

/-- In a list in increasing order, the last element is the greatest. -/
theorem getLast?_eq_of_max {f : α → ℕ} {l : List α}
    (hl : l.Pairwise fun a b => f a < f b) {a : α} (ha : a ∈ l)
    (hmax : ∀ b ∈ l, f b ≤ f a) : l.getLast? = some a := by
  rcases List.eq_nil_or_concat l with rfl | ⟨l', b, rfl⟩
  · cases ha
  · rw [List.concat_eq_append] at hl ha hmax ⊢
    rw [List.getLast?_append_of_ne_nil _ (List.cons_ne_nil b []), List.getLast?_singleton]
    rcases List.mem_append.mp ha with ha | ha
    · have hlt := (List.pairwise_append.mp hl).2.2 a ha b (List.mem_singleton_self b)
      have hle := hmax b (List.mem_append_right l' (List.mem_singleton_self b))
      omega
    · rw [List.mem_singleton.mp ha]

/-- In a list in increasing order, what is related in the order of the list is related in
the order of its elements. -/
theorem pairwise_of_lt {f : α → ℕ} {R : α → α → Prop} {l : List α}
    (hl : l.Pairwise fun a b => f a < f b) (hR : l.Pairwise R) {a b : α} (ha : a ∈ l)
    (hb : b ∈ l) (hlt : f a < f b) : R a b := by
  obtain ⟨i, hi, rfl⟩ := List.getElem_of_mem ha
  obtain ⟨j, hj, rfl⟩ := List.getElem_of_mem hb
  rcases Nat.lt_trichotomy i j with hij | rfl | hij
  · exact List.pairwise_iff_getElem.mp hR i j hi hj hij
  · exact absurd hlt (Nat.lt_irrefl _)
  · have hgt := List.pairwise_iff_getElem.mp hl j i hj hi hij
    omega

/-! ### Selections from lists of distinct elements -/

/-- A selection loses exactly the element that no longer passes the test. -/
theorem filter_forget {l : List α} (hl : l.Nodup) {p p' : α → Bool} {a : α} {u v : List α}
    (h : l.filter p = u ++ a :: v) (ha : p' a = false)
    (hne : ∀ x, x ≠ a → p' x = p x) : l.filter p' = u ++ v := by
  classical
  have hnodup : (u ++ a :: v).Nodup := h ▸ hl.filter p
  rw [List.nodup_middle, List.nodup_cons, List.mem_append, not_or] at hnodup
  have hsplit : ∀ x, p' x = (p x && decide (x ≠ a)) := by
    intro x
    by_cases hx : x = a
    · simp [hx, ha]
    · simp [hx, hne x hx]
  have hkeep : ∀ w : List α, a ∉ w → w.filter (fun x => decide (x ≠ a)) = w := by
    intro w hw
    refine List.filter_eq_self.mpr fun x hx => ?_
    rw [decide_eq_true_eq]
    rintro rfl
    exact hw hx
  calc l.filter p'
      = (l.filter p).filter fun x => decide (x ≠ a) := by
        rw [List.filter_filter]
        exact List.filter_congr fun x _ => by rw [hsplit, Bool.and_comm]
    _ = u ++ v := by
        rw [h, List.filter_append, List.filter_cons_of_neg (by simp), hkeep u hnodup.1.1,
          hkeep v hnodup.1.2]

/-- An element of two lists, one after the other, is in the first or in the second. -/
theorem append_eq_append_cons {l m u v : List α} {a : α} (h : l ++ m = u ++ a :: v) :
    (∃ w, l = u ++ a :: w ∧ v = w ++ m) ∨ ∃ w, u = l ++ w ∧ m = w ++ a :: v := by
  rcases List.append_eq_append_iff.mp h with ⟨w, hu, hm⟩ | ⟨w, hl, hv⟩
  · exact Or.inr ⟨w, hu, hm⟩
  · rcases List.cons_eq_append_iff.mp hv with ⟨rfl, hm⟩ | ⟨w', rfl, hv'⟩
    · rw [List.append_nil] at hl
      exact Or.inr ⟨[], by rw [hl, List.append_nil], hm⟩
    · exact Or.inl ⟨w', hl, hv'⟩

/-! ### Several selections from one list -/

/-- Lists that get one element longer where a test is passed. -/
theorem length_flatMap_add_countP {ι β : Type*} (qs : List ι) {f g : ι → List β}
    {p : ι → Bool} (h : ∀ q, (g q).length = (f q).length + if p q then 1 else 0) :
    (qs.flatMap g).length = (qs.flatMap f).length + qs.countP p := by
  induction qs with
  | nil => rfl
  | cons q qs ih =>
    rw [List.flatMap_cons, List.flatMap_cons, List.length_append, List.length_append, ih, h q,
      List.countP_cons]
    omega

/-- Where no element passes more than `k` of the tests, the selections have no more than
`k` times as many elements as the list. -/
theorem length_flatMap_filter_le {ι : Type*} (qs : List ι) (p : ι → α → Bool) {k : ℕ}
    {l : List α} (h : ∀ a ∈ l, (qs.countP fun q => p q a) ≤ k) :
    (qs.flatMap fun q => l.filter (p q)).length ≤ k * l.length := by
  induction l with
  | nil =>
    have hnil : (qs.flatMap fun q => [].filter (p q)) = [] :=
      List.flatMap_eq_nil_iff.mpr fun q _ => List.filter_nil
    rw [hnil]
    exact Nat.zero_le _
  | cons a l ih =>
    have hcons : ∀ q, ((a :: l).filter (p q)).length
        = (l.filter (p q)).length + if p q a then 1 else 0 := by
      intro q
      rw [List.filter_cons]
      split <;> rfl
    rw [length_flatMap_add_countP qs hcons, List.length_cons, Nat.mul_succ]
    exact Nat.add_le_add (ih fun b hb => h b (List.mem_cons_of_mem a hb))
      (h a List.mem_cons_self)

/-! ### The last element that gives a value -/

section LastSome

variable {β : Type*} {f : α → Option β}

/-- The value of the last element of `l` that has one. -/
def lastSome (f : α → Option β) (l : List α) : Option β := l.reverse.findSome? f

@[simp] theorem lastSome_nil : lastSome f [] = none := rfl

theorem lastSome_append (l l' : List α) :
    lastSome f (l ++ l') = (lastSome f l').or (lastSome f l) := by
  rw [lastSome, List.reverse_append, List.findSome?_append]
  rfl

@[simp] theorem lastSome_singleton (a : α) : lastSome f [a] = f a := by
  rw [lastSome, List.reverse_singleton, List.findSome?_singleton]

theorem lastSome_concat (l : List α) (a : α) :
    lastSome f (l ++ [a]) = (f a).or (lastSome f l) := by
  rw [lastSome_append, lastSome_singleton]

theorem exists_of_lastSome {l : List α} {b : β} (h : lastSome f l = some b) :
    ∃ a ∈ l, f a = some b := by
  obtain ⟨a, ha, hb⟩ := List.exists_of_findSome?_eq_some h
  exact ⟨a, List.mem_reverse.mp ha, hb⟩

end LastSome

end TraceSim
