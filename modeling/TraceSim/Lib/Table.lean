/-
TraceSim/Lib/Table.lean

Tables as association lists: what Mathlib's `AList` leaves open about
`replace`, sizes and selections, a bound on the size of a table whose keys
occur in other tables, and the number of values that pass a test.
-/
import Mathlib.Data.List.AList
import Mathlib.Data.List.Perm.Basic

namespace TraceSim

variable {α β : Type*} [DecidableEq α]

/-! ### Replacement -/

/-- A replacement is seen under its key, if the key was there. -/
theorem dlookup_kreplace (a b : α) (v : β) (l : List (Sigma fun _ : α => β)) :
    (l.kreplace a v).dlookup b
      = if b = a ∧ a ∈ l.keys then some v else l.dlookup b := by
  induction l with
  | nil => simp [List.kreplace]
  | cons e l ih =>
    obtain ⟨k, u⟩ := e
    by_cases hk : a = k
    · subst hk
      have hrep : List.kreplace a v (⟨a, u⟩ :: l) = ⟨a, v⟩ :: l := by
        simp [List.kreplace]
      rw [hrep]
      by_cases hb : b = a
      · subst hb
        simp
      · simp [hb]
    · have hrep : List.kreplace a v (⟨k, u⟩ :: l) = ⟨k, u⟩ :: l.kreplace a v := by
        simp [List.kreplace, hk]
      rw [hrep]
      by_cases hbk : b = k
      · subst hbk
        simp [Ne.symm hk]
      · simp [List.dlookup_cons_ne, hbk, ih, hk]

/-- The same for tables. -/
theorem lookup_replace (a b : α) (v : β) (s : AList fun _ : α => β) :
    (s.replace a v).lookup b = if b = a ∧ a ∈ s then some v else s.lookup b := by
  have h := dlookup_kreplace a b v s.entries
  by_cases hba : b = a ∧ a ∈ s
  · rw [if_pos hba]
    exact h.trans (if_pos hba)
  · rw [if_neg hba]
    exact h.trans (if_neg hba)

/-! ### Sizes -/

omit [DecidableEq α] in
/-- There are as many keys as entries. -/
theorem length_keys (s : AList fun _ : α => β) : s.keys.length = s.entries.length := by
  simp [AList.keys, List.keys]

/-- A new key makes the table one entry longer. -/
theorem length_insert_of_notMem {a : α} {v : β} {s : AList fun _ : α => β}
    (h : a ∉ s) : (s.insert a v).entries.length = s.entries.length + 1 := by
  rw [AList.entries_insert_of_notMem h, List.length_cons]

/-- And a key that goes makes it one shorter. -/
theorem length_erase_of_mem {a : α} {s : AList fun _ : α => β} (h : a ∈ s) :
    (s.erase a).entries.length + 1 = s.entries.length := by
  have hkey : a ∈ s.keys := AList.mem_keys.mp h
  rw [← length_keys, ← length_keys, AList.keys_erase, List.length_erase_of_mem hkey]
  have hpos : 0 < s.keys.length := List.length_pos_of_mem hkey
  omega

omit [DecidableEq α] in
/-- A table whose keys all occur in one of two others is no larger than the two
together. -/
theorem length_le_add_of_mem_or {γ δ : Type*} {s : AList fun _ : α => β}
    {t : AList fun _ : α => γ} {u : AList fun _ : α => δ}
    (h : ∀ a ∈ s, a ∈ t ∨ a ∈ u) :
    s.entries.length ≤ t.entries.length + u.entries.length := by
  have hsub : s.keys ⊆ t.keys ++ u.keys := by
    intro a ha
    rcases h a (AList.mem_keys.mpr ha) with ht | hu
    · exact List.mem_append_left _ (AList.mem_keys.mp ht)
    · exact List.mem_append_right _ (AList.mem_keys.mp hu)
  have hle := (List.subperm_of_subset s.keys_nodup hsub).length_le
  rw [List.length_append] at hle
  simpa only [length_keys] using hle

/-! ### Selections -/

/-- The keys of the entries a test selects. -/
theorem mem_selected_keys {p : β → Bool} {s : AList fun _ : α => β} {a : α} :
    a ∈ (s.entries.filter fun e => p e.2).map Sigma.fst ↔
      ∃ v, s.lookup a = some v ∧ p v = true := by
  simp only [List.mem_map, List.mem_filter]
  constructor
  · rintro ⟨⟨k, v⟩, ⟨hmem, hp⟩, rfl⟩
    exact ⟨v, AList.mem_lookup_iff.mpr hmem, hp⟩
  · rintro ⟨v, hv, hp⟩
    exact ⟨⟨a, v⟩, ⟨AList.mem_lookup_iff.mp hv, hp⟩, rfl⟩

omit [DecidableEq α] in
/-- Each key is selected once. -/
theorem nodup_selected_keys (p : β → Bool) (s : AList fun _ : α => β) :
    ((s.entries.filter fun e => p e.2).map Sigma.fst).Nodup := by
  have hsub : ((s.entries.filter fun e => p e.2).map Sigma.fst).Sublist
      (s.entries.map Sigma.fst) := List.filter_sublist.map _
  exact hsub.nodup s.keys_nodup

/-! ### Counting values -/

/-- The number of values of a table that pass a test. -/
def countValues (p : β → Bool) (s : AList fun _ : α => β) : ℕ :=
  s.entries.countP fun e => p e.2

omit [DecidableEq α] in
/-- A weaker test selects no fewer values. -/
theorem countValues_mono {p q : β → Bool} (h : ∀ v, p v = true → q v = true)
    (s : AList fun _ : α => β) : countValues p s ≤ countValues q s :=
  List.countP_mono_left fun e _ => h e.2

/-- A new entry counts if its value passes the test. -/
theorem countValues_insert (p : β → Bool) {a : α} {v : β} {s : AList fun _ : α => β}
    (h : a ∉ s) : countValues p (s.insert a v) = countValues p s + if p v then 1 else 0 := by
  rw [countValues, AList.entries_insert_of_notMem h, List.countP_cons, countValues]

/-- An entry that goes had counted if its value passed. -/
theorem countP_kerase (p : β → Bool) {a : α} {v : β} {l : List (Sigma fun _ : α => β)}
    (h : l.dlookup a = some v) :
    (l.countP fun e => p e.2)
      = ((l.kerase a).countP fun e => p e.2) + if p v then 1 else 0 := by
  induction l with
  | nil => simp at h
  | cons e l ih =>
    obtain ⟨k, u⟩ := e
    by_cases hk : a = k
    · subst hk
      obtain rfl : u = v := by simpa using h
      have herase : List.kerase a (⟨a, u⟩ :: l) = l := List.kerase_cons_eq rfl
      rw [herase, List.countP_cons]
    · rw [List.dlookup_cons_ne _ _ hk] at h
      rw [List.kerase_cons_ne hk, List.countP_cons, List.countP_cons, ih h]
      omega

/-- The same for tables. -/
theorem countValues_erase (p : β → Bool) {a : α} {v : β} {s : AList fun _ : α => β}
    (h : s.lookup a = some v) :
    countValues p s = countValues p (s.erase a) + if p v then 1 else 0 :=
  countP_kerase p h

/-- A replacement takes the count of the old value away and adds that of the new one. -/
theorem countP_kreplace (p : β → Bool) {a : α} {u : β} (v : β)
    {l : List (Sigma fun _ : α => β)} (h : l.dlookup a = some u) :
    ((l.kreplace a v).countP fun e => p e.2) + (if p u then 1 else 0)
      = (l.countP fun e => p e.2) + if p v then 1 else 0 := by
  induction l with
  | nil => simp at h
  | cons e l ih =>
    obtain ⟨k, w⟩ := e
    by_cases hk : a = k
    · subst hk
      obtain rfl : w = u := by simpa using h
      have hrep : List.kreplace a v (⟨a, w⟩ :: l) = ⟨a, v⟩ :: l := by
        simp [List.kreplace]
      rw [hrep, List.countP_cons, List.countP_cons]
      dsimp only
      omega
    · rw [List.dlookup_cons_ne _ _ hk] at h
      have hrep : List.kreplace a v (⟨k, w⟩ :: l) = ⟨k, w⟩ :: l.kreplace a v := by
        simp [List.kreplace, hk]
      have hrest := ih h
      rw [hrep, List.countP_cons, List.countP_cons]
      omega

/-- The same for tables. -/
theorem countValues_replace (p : β → Bool) {a : α} {u : β} (v : β)
    {s : AList fun _ : α => β} (h : s.lookup a = some u) :
    countValues p (s.replace a v) + (if p u then 1 else 0)
      = countValues p s + if p v then 1 else 0 :=
  countP_kreplace p v h

end TraceSim
