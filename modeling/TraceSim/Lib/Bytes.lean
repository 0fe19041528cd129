/-
TraceSim/Lib/Bytes.lean

Words of 32 bits and their bytes.

A byte map is a memory of single bytes.  A value is stored and loaded little-endian,
and after a list of stores a byte is the one that the last store over it wrote there
(`ByteMap.stores_apply`).
-/
import TraceSim.Lib.Lists
import Mathlib.Data.List.Induction
import Mathlib.Tactic.Common

namespace TraceSim

variable {w : ℕ}

/-! ### Bytes of a word -/

/-- Byte `k` of a word, from the low end. -/
def byteOf (v : BitVec 32) (k : ℕ) : BitVec 8 := (v >>> (8 * k)).setWidth 8

theorem getLsbD_byteOf (v : BitVec 32) (k j : ℕ) :
    (byteOf v k).getLsbD j = (decide (j < 8) && v.getLsbD (8 * k + j)) := by
  rw [byteOf, BitVec.getLsbD_setWidth, BitVec.getLsbD_ushiftRight]

/-- The word whose byte `k` is set, and no other. -/
theorem getLsbD_byteMask (k i : ℕ) :
    (0xFF#32 <<< (8 * k)).getLsbD i = (decide (i < 32) && decide (i / 8 = k)) := by
  have hones (j : ℕ) : (0xFF#32).getLsbD j = decide (j < 8) := by
    rw [BitVec.getLsbD_ofNat, show 0xFF = 2 ^ 8 - 1 by rfl, Nat.testBit_two_pow_sub_one]
    grind
  rw [BitVec.getLsbD_shiftLeft, hones]
  grind

/-! ### Byte maps -/

/-- A memory of bytes. -/
abbrev ByteMap (w : ℕ) := BitVec w → BitVec 8

namespace ByteMap

/-- The low `n` bytes of `v` go to the `n` addresses from `a` on. -/
def store (m : ByteMap w) (a : BitVec w) (n : ℕ) (v : BitVec 32) : ByteMap w :=
  fun x => if (x - a).toNat < n then byteOf v (x - a).toNat else m x

/-- A store writes nothing of the value but its low bytes. -/
theorem store_congr {v v' : BitVec 32} {n : ℕ} (h : ∀ k < n, byteOf v k = byteOf v' k)
    (m : ByteMap w) (a : BitVec w) : m.store a n v = m.store a n v' := by
  funext x
  unfold store
  split_ifs with hx
  · exact h _ hx
  · rfl

/-- The value of the `n` bytes from `a` on. -/
def load (m : ByteMap w) (a : BitVec w) : ℕ → BitVec 32
  | 0 => 0
  | n + 1 => m.load a n ||| (m (a + BitVec.ofNat w n)).setWidth 32 <<< (8 * n)

theorem getLsbD_load (m : ByteMap w) (a : BitVec w) {n : ℕ} (hn : n ≤ 4) (i : ℕ) :
    (m.load a n).getLsbD i
      = (decide (i < 8 * n) && (m (a + BitVec.ofNat w (i / 8))).getLsbD (i % 8)) := by
  induction n with
  | zero => simp [load]
  | succ n ih =>
    rw [load, BitVec.getLsbD_or, ih (by omega), BitVec.getLsbD_shiftLeft,
      BitVec.getLsbD_setWidth]
    by_cases hlow : i < 8 * n
    · simp [hlow, show i < 8 * (n + 1) by omega]
    · by_cases hbyte : i < 8 * (n + 1)
      · have hdiv : i / 8 = n := by omega
        have hmod : i % 8 = i - 8 * n := by omega
        simp [hlow, hbyte, hdiv, hmod, show i < 32 by omega, show i - 8 * n < 32 by omega]
      · have hge : 8 ≤ i - 8 * n := by omega
        simp [hlow, hbyte, BitVec.getLsbD_of_ge _ _ hge]

end ByteMap

/-! ### Lists of stores -/

/-- A store of `size` bytes. -/
structure ByteStore (w : ℕ) where
  addr : BitVec w
  size : ℕ
  data : BitVec 32

namespace ByteStore

/-- The store writes the byte at `x`. -/
def covers (st : ByteStore w) (x : BitVec w) : Bool := (x - st.addr).toNat < st.size

/-- The byte that the store writes at `x`. -/
def byteAt (st : ByteStore w) (x : BitVec w) : BitVec 8 := byteOf st.data (x - st.addr).toNat

/-- The byte that the last of the stores over `x` wrote there. -/
def lastWritten (l : List (ByteStore w)) (x : BitVec w) : Option (BitVec 8) :=
  lastSome (fun st => if st.covers x then some (st.byteAt x) else none) l

end ByteStore

namespace ByteMap

/-- The stores of a list, one after the other. -/
def stores (m : ByteMap w) (l : List (ByteStore w)) : ByteMap w :=
  l.foldl (fun m st => m.store st.addr st.size st.data) m

/-- **After a list of stores** a byte is the one last written, or the initial one. -/
theorem stores_apply (m : ByteMap w) (l : List (ByteStore w)) (x : BitVec w) :
    m.stores l x = (ByteStore.lastWritten l x).getD (m x) := by
  induction l using List.reverseRecOn with
  | nil => rfl
  | append_singleton l st ih =>
    rw [stores, List.foldl_append, List.foldl_cons, List.foldl_nil, ← stores,
      ByteStore.lastWritten, lastSome_concat]
    by_cases hover : (x - st.addr).toNat < st.size
    · rw [ByteStore.covers, decide_eq_true hover, store, if_pos hover]
      rfl
    · rw [ByteStore.covers, decide_eq_false hover, store, if_neg hover]
      exact ih

end ByteMap

end TraceSim
