/-
TraceSim/Lib/ByteReader.lean

Readers of a sequence, and little-endian words in a sequence of bytes.

A reader takes what it needs from the front of its input and hands on the rest, or
fails.  Each reader has one equation that says what it accepts: its input is what it
read, in front of what is left (`run_take_iff`, `run_bind_iff`).
-/
import TraceSim.Lib.Bytes

namespace TraceSim

/-! ### Readers -/

/-- A reader of a sequence. -/
abbrev Reader (τ : Type) := StateT (List τ) Option

namespace Reader

variable {τ α β : Type}

/-- Read `n` items. -/
def take (n : ℕ) : Reader τ (List τ) := fun input =>
  if n ≤ input.length then some (input.take n, input.drop n) else none

/-- So many items are read from the front. -/
theorem run_take_iff {n : ℕ} {input x rest : List τ} :
    (take n).run input = some (x, rest) ↔ input = x ++ rest ∧ x.length = n := by
  show (if n ≤ input.length then some (input.take n, input.drop n) else none) = _ ↔ _
  constructor
  · intro h
    split_ifs at h with hn
    obtain ⟨rfl, rfl⟩ := Prod.mk.inj (Option.some.inj h)
    exact ⟨(List.take_append_drop n input).symm, List.length_take_of_le hn⟩
  · rintro ⟨rfl, rfl⟩
    simp

/-- One part after the other. -/
theorem run_bind_iff {p : Reader τ α} {q : α → Reader τ β} {input rest : List τ} {y : β} :
    (p >>= q).run input = some (y, rest)
      ↔ ∃ x mid, p.run input = some (x, mid) ∧ (q x).run mid = some (y, rest) := by
  rw [StateT.run_bind]
  show Option.bind _ _ = _ ↔ _
  rw [Option.bind_eq_some_iff]
  constructor
  · rintro ⟨⟨x, mid⟩, hp, hq⟩
    exact ⟨x, mid, hp, hq⟩
  · rintro ⟨x, mid, hp, hq⟩
    exact ⟨(x, mid), hp, hq⟩

/-- A value reads nothing. -/
theorem run_pure_iff {input rest : List τ} {x y : α} :
    (pure x : Reader τ α).run input = some (y, rest) ↔ x = y ∧ input = rest := by
  rw [StateT.run_pure]
  show some (x, input) = some (y, rest) ↔ _
  rw [Option.some.injEq, Prod.mk.injEq]

/-- Fail where the condition does not hold. -/
def check (p : Prop) [Decidable p] : Reader τ Unit := fun input =>
  if p then some ((), input) else none

/-- A test reads nothing, and fails if it does not hold. -/
theorem run_check_iff {p : Prop} [Decidable p] {input rest : List τ} {u : Unit} :
    (check p).run input = some (u, rest) ↔ p ∧ input = rest := by
  show (if p then some ((), input) else none) = _ ↔ _
  split_ifs with h
  · simp [h]
  · simp [h]

end Reader

/-! ### Little-endian words -/

/-- The word whose bytes are those from place `i` on, low end first. -/
def wordAt (bytes : List (BitVec 8)) (i : ℕ) : BitVec 32 :=
  (bytes.getD i 0).setWidth 32 ||| (bytes.getD (i + 1) 0).setWidth 32 <<< 8
    ||| (bytes.getD (i + 2) 0).setWidth 32 <<< 16 ||| (bytes.getD (i + 3) 0).setWidth 32 <<< 24

/-- The double word whose bytes are those from place `i` on. -/
def doubleAt (bytes : List (BitVec 8)) (i : ℕ) : BitVec 64 := wordAt bytes (i + 4) ++ wordAt bytes i

/-- The bytes of a word, low end first. -/
def bytesOfWord (w : BitVec 32) : List (BitVec 8) :=
  [byteOf w 0, byteOf w 1, byteOf w 2, byteOf w 3]

@[simp] theorem length_bytesOfWord (w : BitVec 32) : (bytesOfWord w).length = 4 := rfl

/-- The bits of a word in little-endian order. -/
theorem getLsbD_wordAt (bytes : List (BitVec 8)) (i j : ℕ) :
    (wordAt bytes i).getLsbD j
      = (decide (j < 32) && (bytes.getD (i + j / 8) 0).getLsbD (j % 8)) := by
  simp only [wordAt, BitVec.getLsbD_or, BitVec.getLsbD_shiftLeft, BitVec.getLsbD_setWidth]
  rcases Nat.lt_or_ge j 32 with hj | hj
  · obtain ⟨k, m, hm, rfl⟩ : ∃ k m, m < 8 ∧ j = 8 * k + m :=
      ⟨j / 8, j % 8, Nat.mod_lt _ (by decide), (Nat.div_add_mod j 8).symm⟩
    have hdiv : (8 * k + m) / 8 = k := by omega
    have hmod : (8 * k + m) % 8 = m := by omega
    have hhigh : ∀ (b : BitVec 8) n, 8 ≤ n → b.getLsbD n = false := fun b n hn =>
      BitVec.getLsbD_of_ge b n hn
    rw [hdiv, hmod]
    obtain rfl | rfl | rfl | rfl : k = 0 ∨ k = 1 ∨ k = 2 ∨ k = 3 := by omega
    · simp [hm, show m < 32 by omega, show m < 16 by omega, show m < 24 by omega]
    · simp [show 8 + m < 32 by omega, show m < 32 by omega, show 8 + m < 16 by omega,
        show 8 + m < 24 by omega]
    · simp [hhigh _ (16 + m) (by omega), show 16 + m < 32 by omega, show m < 32 by omega,
        show 16 + m - 8 = 8 + m by omega, show 8 + m < 32 by omega, show 16 + m < 24 by omega]
    · simp [hhigh _ (24 + m) (by omega), show 24 + m < 32 by omega, show m < 32 by omega,
        show 24 + m - 8 = 16 + m by omega, hhigh _ (16 + m) (by omega), show 16 + m < 32 by omega,
        show 24 + m - 16 = 8 + m by omega, show 8 + m < 32 by omega]
  · simp [show ¬ j < 32 by omega]

/-- A word is read back from its bytes. -/
theorem wordAt_bytesOfWord (w : BitVec 32) : wordAt (bytesOfWord w) 0 = w := by
  apply BitVec.eq_of_getLsbD_eq
  intro j hj
  rw [getLsbD_wordAt, decide_eq_true hj, Bool.true_and]
  have hbyte : (bytesOfWord w).getD (0 + j / 8) 0 = byteOf w (j / 8) := by
    rw [Nat.zero_add]
    obtain hk | hk | hk | hk : j / 8 = 0 ∨ j / 8 = 1 ∨ j / 8 = 2 ∨ j / 8 = 3 := by omega
    all_goals
      rw [hk]
      rfl
  rw [hbyte, getLsbD_byteOf, decide_eq_true (Nat.mod_lt _ (by decide)), Bool.true_and,
    Nat.div_add_mod]

/-- And four bytes from their word. -/
theorem bytesOfWord_wordAt {bytes : List (BitVec 8)} (h : bytes.length = 4) :
    bytesOfWord (wordAt bytes 0) = bytes := by
  have hbyte : ∀ k < 4, byteOf (wordAt bytes 0) k = bytes.getD k 0 := by
    intro k hk
    apply BitVec.eq_of_getLsbD_eq
    intro j hj
    rw [getLsbD_byteOf, getLsbD_wordAt, decide_eq_true hj, decide_eq_true (by omega),
      Bool.true_and, Bool.true_and, show (8 * k + j) / 8 = k by omega,
      show (8 * k + j) % 8 = j by omega, Nat.zero_add]
  obtain ⟨b₀, b₁, b₂, b₃, rfl⟩ := List.length_eq_four.mp h
  rw [bytesOfWord, hbyte 0 (by omega), hbyte 1 (by omega), hbyte 2 (by omega),
    hbyte 3 (by omega)]
  rfl

/-! ### Readers of words -/

namespace Reader

/-- Read a word. -/
def word : Reader (BitVec 8) (BitVec 32) := do
  let bytes ← take 4
  pure (wordAt bytes 0)

/-- A word is read from four bytes at the front. -/
theorem run_word_iff {input rest : List (BitVec 8)} {w : BitVec 32} :
    word.run input = some (w, rest) ↔ input = bytesOfWord w ++ rest := by
  rw [word, run_bind_iff]
  constructor
  · rintro ⟨bytes, mid, htake, hpure⟩
    obtain ⟨rfl, hlen⟩ := run_take_iff.mp htake
    obtain ⟨rfl, rfl⟩ := run_pure_iff.mp hpure
    rw [bytesOfWord_wordAt hlen]
  · rintro rfl
    exact ⟨bytesOfWord w, rest, run_take_iff.mpr ⟨rfl, rfl⟩,
      run_pure_iff.mpr ⟨wordAt_bytesOfWord w, rfl⟩⟩

end Reader

end TraceSim
