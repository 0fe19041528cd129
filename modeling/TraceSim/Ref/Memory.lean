/-
TraceSim/Ref/Memory.lean

Words in memory.

An access to a word ends the process exactly if the word is out of range, and a word
that was stored is loaded again.  A translation keeps the place in the page.
-/
import TraceSim.Ref.Translate

namespace TraceSim.Ref

/-! ### Addresses -/

/-- An aligned address is that of its word. -/
theorem wordAddr_of_aligned {a : BitVec 32} (h : a &&& 3 = 0) : wordAddr a = a := by
  have hparts : (a &&& ~~~3#32) ||| (a &&& 3) = a := maskWrite_self 3 a
  rw [h] at hparts
  exact (BitVec.or_zero).symm.trans hparts

/-- The place of a byte in its word. -/
theorem toNat_place (a : BitVec 32) : (a &&& 3).toNat = a.toNat % 4 :=
  toNat_and_low a (by decide : 2 ≤ 32)

/-- The word has the address rounded down to a multiple of four. -/
theorem toNat_wordAddr (a : BitVec 32) : (wordAddr a).toNat = a.toNat / 4 * 4 :=
  toNat_and_high a 2

/-- RAM is one of the ranges that may be accessed. -/
theorem checkMemRange_of_isRamRange {a : BitVec 32} {size : ℕ} (h : isRamRange a size = true) :
    checkMemRange a size = true := by
  unfold isRamRange at h
  split_ifs at h
  simp [checkMemRange, of_decide_eq_true h]

/-! ### Loads and stores of words -/

namespace Cpu

variable {s u : Cpu}

/-- A load ends the process just if its word is out of range. -/
theorem loadWord_isSome (s : Cpu) (a : BitVec 32) :
    (s.loadWord a).isSome = checkMemRange (wordAddr a) 4 := by
  unfold loadWord
  split_ifs with hram hio
  · rw [checkMemRange_of_isRamRange hram]
    rfl
  · rw [hio]
    rfl
  · rw [Bool.eq_false_iff.mpr hio]
    rfl

/-- So does a store. -/
theorem storeWord_isSome (s : Cpu) (a d : BitVec 32) :
    (s.storeWord a d).isSome = checkMemRange (wordAddr a) 4 := by
  unfold storeWord
  split_ifs with hram hio
  · rw [checkMemRange_of_isRamRange hram]
    rfl
  · rw [hio]
    rfl
  · rw [Bool.eq_false_iff.mpr hio]
    rfl

/-- The part is done. -/
theorem doIf_pos {p : Prop} [Decidable p] (hp : p) (s : Cpu) (f : Cpu → Option Cpu) :
    s.doIf p f = f s :=
  if_pos hp

/-- The part is left out. -/
theorem doIf_neg {p : Prop} [Decidable p] (hp : ¬ p) (s : Cpu) (f : Cpu → Option Cpu) :
    s.doIf p f = some s :=
  if_neg hp

/-- A store of a word changes nothing but memory. -/
theorem storeWord_frame {a d : BitVec 32} (h : s.storeWord a d = some u) :
    u = { s with memory := u.memory, ioWords := u.ioWords } := by
  unfold storeWord at h
  split_ifs at h
  · obtain rfl := Option.some.inj h
    rfl
  · obtain rfl := Option.some.inj h
    rfl

/-- A stored word is loaded again. -/
theorem loadWord_of_storeWord {a d : BitVec 32} (h : s.storeWord a d = some u) :
    u.loadWord a = some d := by
  unfold storeWord at h
  unfold loadWord
  split_ifs at h ⊢
  · obtain rfl := Option.some.inj h
    simp
  · obtain rfl := Option.some.inj h
    simp

/-- A word at an aligned address in range is stored. -/
theorem storeWord_aligned (s : Cpu) {a : BitVec 32} (ha : a &&& 3 = 0)
    (hrange : checkMemRange a 4 = true) (d : BitVec 32) : ∃ u, s.storeWord a d = some u := by
  rw [← Option.isSome_iff_exists, storeWord_isSome, wordAddr_of_aligned ha, hrange]

/-- In range there is a word to load. -/
theorem loadWord_aligned (s : Cpu) {a : BitVec 32} (ha : a &&& 3 = 0)
    (hrange : checkMemRange a 4 = true) : ∃ w, s.loadWord a = some w := by
  rw [← Option.isSome_iff_exists, loadWord_isSome, wordAddr_of_aligned ha, hrange]

end Cpu

/-! ### Translation -/

/-- The bits of the place in the page survive where the other part has none. -/
theorem or_and_page {frame v mask : BitVec 32} (hframe : frame &&& 0xFFF = 0)
    (hmask : mask &&& 0xFFF = 0xFFF) : (frame ||| (v &&& mask)) &&& 0xFFF = v &&& 0xFFF := by
  rw [BitVec.and_or_distrib_right, hframe, BitVec.and_assoc, hmask]
  exact BitVec.zero_or

/-- A frame starts at a page boundary. -/
theorem shiftLeft_and_page (x : BitVec 32) : (x <<< 12) &&& 0xFFF = 0 := by
  apply BitVec.eq_of_toNat_eq
  have hmod : (x <<< 12).toNat &&& (2 ^ 12 - 1) = (x <<< 12).toNat % 2 ^ 12 :=
    Nat.and_two_pow_sub_one_eq_mod _ _
  rw [BitVec.toNat_and]
  refine hmod.trans ?_
  rw [BitVec.toNat_shiftLeft, Nat.shiftLeft_eq]
  change x.toNat * 2 ^ 12 % 2 ^ 32 % 2 ^ 12 = 0
  omega

/-- **A translation keeps the place in the page.** -/
theorem Cpu.va2pa_page {s : Cpu} {v p : BitVec 32} {type : AccessType}
    (h : s.va2pa v type = some (some p)) : p &&& 0xFFF = v &&& 0xFFF := by
  unfold va2pa walkLevel2 at h
  dsimp only at h
  split_ifs at h
  obtain ⟨pte1, -, h⟩ := Option.bind_eq_some_iff.mp h
  split_ifs at h with hinvalid1 hleaf1 hdenied1 hrange
  · cases h
  · cases h
  · -- a superpage
    obtain rfl := Option.some.inj (Option.some.inj h)
    refine or_and_page ?_ (by decide)
    rw [BitVec.and_assoc]
    exact BitVec.and_zero
  · obtain ⟨pte2, -, h⟩ := Option.bind_eq_some_iff.mp h
    split_ifs at h
    · cases h
    · cases h
    · obtain rfl := Option.some.inj (Option.some.inj h)
      exact or_and_page (shiftLeft_and_page _) (by decide)
    · cases h

/-- Translation keeps the alignment, as it keeps the offset in the page. -/
theorem aligned_of_page {p v : BitVec 32} (hpage : p &&& 0xFFF = v &&& 0xFFF)
    (hv : v &&& 3 = 0) : p &&& 3 = 0 := by
  have hmask (x : BitVec 32) : x &&& 3 = (x &&& 0xFFF) &&& 3 := by
    rw [BitVec.and_assoc]
    rfl
  rw [hmask, hpage, ← hmask, hv]

end TraceSim.Ref
