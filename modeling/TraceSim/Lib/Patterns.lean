/-
TraceSim/Lib/Patterns.lean

Patterns: readers tried at every place of a text.

`scan` goes through a text from the left and tries a pattern at each place; a place
where it fails is one item of text, and after a match the scan goes on behind it.
`findAll` keeps the matches, `remove` keeps the rest.  A pattern that needs a word
(`Needs`) matches nowhere in a text without the word (`Needs.findAll`,
`Needs.remove`).

That a word is missing from a text made of pieces is shown one pair of neighbours at a
time: where `a` neither stands in front of `b` nor ends a piece (`Apart`), the same
holds of the pieces put together (`Apart.flatten`).
-/
import Mathlib.Data.List.Chain
import TraceSim.Lib.ByteReader

namespace TraceSim

/-! ### Pieces of patterns -/

namespace Reader

variable {τ α β : Type}

/-- Read the word `w`. -/
def lit [DecidableEq τ] (w : List τ) : Reader τ Unit := fun input =>
  if w <+: input then some ((), input.drop w.length) else none

/-- Read the longest run of items of a kind, at least one. -/
def many1 (kind : τ → Bool) : Reader τ (List τ) := fun input =>
  if input.takeWhile kind = [] then none
  else some (input.takeWhile kind, input.dropWhile kind)

/-- Read the longest run of items of a kind, which may be empty. -/
def many (kind : τ → Bool) : Reader τ (List τ) := fun input =>
  some (input.takeWhile kind, input.dropWhile kind)

/-- What the reader leaves is the end of its input. -/
def Consumes (p : Reader τ α) : Prop :=
  ∀ input x rest, p.run input = some (x, rest) → rest <:+ input

/-- The reader takes no input without the word `w`. -/
def Needs (w : List τ) (p : Reader τ α) : Prop :=
  ∀ input x rest, p.run input = some (x, rest) → w <:+: input

/-- A literal reads its word from the front. -/
theorem run_lit_iff [DecidableEq τ] {w input rest : List τ} {u : Unit} :
    (lit w).run input = some (u, rest) ↔ input = w ++ rest := by
  show (if w <+: input then some ((), input.drop w.length) else none) = _ ↔ _
  constructor
  · intro h
    split_ifs at h with hw
    obtain ⟨tail, rfl⟩ := hw
    obtain ⟨-, rfl⟩ := Prod.mk.inj (Option.some.inj h)
    rw [List.drop_left]
  · rintro rfl
    rw [if_pos (List.prefix_append w rest), List.drop_left]

/-- It leaves what comes behind. -/
theorem consumes_lit [DecidableEq τ] (w : List τ) : Consumes (lit w) := by
  intro input u rest h
  rw [run_lit_iff.mp h]
  exact List.suffix_append w rest

/-- And needs the word itself. -/
theorem needs_lit [DecidableEq τ] (w : List τ) : Needs w (lit w) := by
  intro input u rest h
  rw [run_lit_iff.mp h]
  exact (List.prefix_append w rest).isInfix

/-- A run leaves what comes behind its last item. -/
theorem consumes_many1 (kind : τ → Bool) : Consumes (many1 kind) := by
  intro input x rest h
  change (if input.takeWhile kind = [] then none
    else some (input.takeWhile kind, input.dropWhile kind)) = some (x, rest) at h
  split_ifs at h
  obtain ⟨-, rfl⟩ := Prod.mk.inj (Option.some.inj h)
  exact List.dropWhile_suffix kind

/-- A value takes nothing. -/
theorem consumes_pure (x : α) : Consumes (pure x : Reader τ α) := by
  intro input y rest h
  obtain ⟨-, rfl⟩ := run_pure_iff.mp h
  exact List.suffix_refl input

/-- Nor does a test. -/
theorem consumes_check (c : Prop) [Decidable c] : Consumes (check c : Reader τ Unit) := by
  intro input u rest h
  obtain ⟨-, rfl⟩ := run_check_iff.mp h
  exact List.suffix_refl input

/-- One part after the other. -/
theorem Consumes.bind {p : Reader τ α} {q : α → Reader τ β} (hp : Consumes p)
    (hq : ∀ x, Consumes (q x)) : Consumes (p >>= q) := by
  intro input y rest h
  obtain ⟨x, mid, hx, hy⟩ := run_bind_iff.mp h
  exact (hq x mid y rest hy).trans (hp input x mid hx)

/-- Either of two parts. -/
theorem Consumes.orElse {p q : Reader τ α} (hp : Consumes p) (hq : Consumes q) :
    Consumes (p <|> q) := by
  intro input x rest h
  rw [StateT.run_orElse, Option.orElse_eq_orElse, Option.orElse_eq_or,
    Option.or_eq_some_iff] at h
  rcases h with h | ⟨-, h⟩
  · exact hp input x rest h
  · exact hq input x rest h

/-- A word the first part of a pattern needs. -/
theorem Needs.bind {w : List τ} {p : Reader τ α} {q : α → Reader τ β} (hp : Needs w p) :
    Needs w (p >>= q) := by
  intro input y rest h
  obtain ⟨x, mid, hx, -⟩ := run_bind_iff.mp h
  exact hp input x mid hx

/-- A word the second part of a pattern needs. -/
theorem Needs.after {w : List τ} {p : Reader τ α} {q : α → Reader τ β} (hp : Consumes p)
    (hq : ∀ x, Needs w (q x)) : Needs w (p >>= q) := by
  intro input y rest h
  obtain ⟨x, mid, hx, hy⟩ := run_bind_iff.mp h
  exact (hq x mid y rest hy).trans (hp input x mid hx).isInfix

/-- A word is needed with every part of it. -/
theorem Needs.mono {v w : List τ} {p : Reader τ α} (hp : Needs w p) (h : v <:+: w) :
    Needs v p :=
  fun input x rest hrun => h.trans (hp input x rest hrun)

/-! ### Scanning -/

/-- Go through the text, trying the pattern at each place; it is told the item in front
of the place, if there is one. -/
def scan (p : Option τ → Reader τ α) (prev : Option τ) : List τ → List (τ ⊕ α)
  | [] => []
  | c :: cs =>
      match (p prev).run (c :: cs) with
      | some (x, rest) =>
          -- a match takes at least one item
          if rest.length ≤ cs.length then
            .inr x :: scan p ((c :: cs).take (cs.length + 1 - rest.length)).getLast? rest
          else .inl c :: scan p (some c) cs
      | none => .inl c :: scan p (some c) cs
termination_by input => input.length
decreasing_by all_goals simp only [List.length_cons]; omega

/-- The matches of a pattern, from left to right. -/
def findAll (p : Option τ → Reader τ α) (input : List τ) : List α :=
  (scan p none input).filterMap Sum.getRight?

/-- The text without the matches of a pattern. -/
def remove (p : Option τ → Reader τ α) (input : List τ) : List τ :=
  (scan p none input).filterMap Sum.getLeft?

section Needs

variable {p : Option τ → Reader τ α} {w : List τ}

/-- In a text without the word no place matches. -/
theorem Needs.scan (hp : ∀ prev, Needs w (p prev)) {input : List τ} (hw : ¬ w <:+: input)
    (prev : Option τ) : Reader.scan p prev input = input.map .inl := by
  induction input generalizing prev with
  | nil =>
      rw [Reader.scan]
      rfl
  | cons c cs ih =>
      have hnone : (p prev).run (c :: cs) = none := by
        rcases e : (p prev).run (c :: cs) with - | ⟨x, rest⟩
        · rfl
        · exact absurd (hp prev _ x rest e) hw
      have hcs : ¬ w <:+: cs := fun h => hw (List.infix_cons h)
      rw [Reader.scan, hnone, List.map_cons]
      exact congrArg _ (ih hcs (some c))

/-- So nothing is found. -/
theorem Needs.findAll (hp : ∀ prev, Needs w (p prev)) {input : List τ}
    (hw : ¬ w <:+: input) : Reader.findAll p input = [] := by
  rw [Reader.findAll, Needs.scan hp hw, List.filterMap_map]
  exact List.filterMap_eq_nil_iff.mpr fun _ _ => rfl

/-- And nothing removed. -/
theorem Needs.remove (hp : ∀ prev, Needs w (p prev)) {input : List τ}
    (hw : ¬ w <:+: input) : Reader.remove p input = input := by
  rw [Reader.remove, Needs.scan hp hw, List.filterMap_map]
  exact List.filterMap_some

end Needs

end Reader

/-! ### Neighbours -/

/-- `a` neither stands in front of `b` nor ends the list. -/
structure Apart {τ : Type} (a b : τ) (l : List τ) : Prop where
  chain : l.IsChain fun x y => x = a → y ≠ b
  last : l.getLast? ≠ some a

namespace Apart

variable {τ : Type} {a b : τ} {l l' : List τ}

instance [DecidableEq τ] : Decidable (Apart a b l) :=
  decidable_of_iff ((l.IsChain fun x y => x = a → y ≠ b) ∧ l.getLast? ≠ some a)
    ⟨fun h => ⟨h.1, h.2⟩, fun h => ⟨h.chain, h.last⟩⟩

/-- The empty text. -/
theorem nil : Apart a b [] := ⟨.nil, nofun⟩

/-- What is apart in two texts is apart in both together, as the first does not end in
`a`. -/
theorem append (h : Apart a b l) (h' : Apart a b l') : Apart a b (l ++ l') := by
  refine ⟨List.isChain_append.mpr ⟨h.chain, h'.chain, ?_⟩, ?_⟩
  · rintro x hx y - rfl
    exact absurd hx h.last
  · rw [List.getLast?_append]
    rcases e : l'.getLast? with - | x
    · exact h.last
    · exact fun hx => h'.last (e.trans hx)

/-- The same for any number of pieces. -/
theorem flatten {ls : List (List τ)} (h : ∀ l ∈ ls, Apart a b l) : Apart a b ls.flatten := by
  induction ls with
  | nil => exact nil
  | cons l ls ih =>
      rw [List.flatten_cons]
      exact (h l List.mem_cons_self).append (ih fun m hm => h m (List.mem_cons_of_mem l hm))

/-- A text without `a` at all. -/
theorem of_notMem (h : a ∉ l) : Apart a b l := by
  refine ⟨?_, fun hlast => h (List.mem_of_getLast? hlast)⟩
  rw [List.isChain_iff_forall_rel_of_append_cons_cons]
  rintro x y l₁ l₂ rfl rfl
  exact absurd (by simp) h

/-- The pair does not occur. -/
theorem not_infix (h : Apart a b l) : ¬ [a, b] <:+: l := by
  intro hab
  have hpair := List.IsChain.infix h.chain hab
  exact List.isChain_pair.mp hpair rfl rfl

end Apart

end TraceSim
