/-
TraceSim/Mem/Residency.lean

No false hits.

A lookup compares the tag in one set.  A hit should mean that the block of the address
itself was filled and not evicted since.  With a power of two as the number of sets, index
and tag determine the block, and this holds in every run.  The index mask of any other
number of sets leaves out a bit that the tag does not have either, so two blocks answer
for each other (`no_false_hits_iff`).
-/
import TraceSim.Mem.CacheRuns
import TraceSim.Mem.Returns

namespace TraceSim

variable {P : Type}

/-- The number of sets, as the constructor computes it. -/
def CacheConfig.numSets (cfg : CacheConfig P) : BitVec 32 := cfg.size / (cfg.assoc * cfg.lineSize)

namespace Cache

variable {c : Cache P} {L : List CacheEvent}

/-- The cache finds the blocks that are resident by its log, and no others. -/
def HitsExact (c : Cache P) (L : List CacheEvent) : Prop :=
  ∀ a, (c.contains a = true ↔ Resident L (c.getBlockAddr a)) ∧
    ∀ t isPrefetch, (c.request a t isPrefetch).1.status = .hit ↔ Resident L (c.getBlockAddr a)

theorem HitsExact.of_contains
    (h : ∀ a, c.contains a = true ↔ Resident L (c.getBlockAddr a)) : c.HitsExact L :=
  fun a => ⟨h a, fun t isPrefetch => (request_hit_iff c a t isPrefetch).trans (h a)⟩

/-! ### Powers of two -/

/-- Where index and tag determine the block, a block that is found is resident. -/
theorem Tracked.hitsExact (h : c.Tracked L) (hp : c.PowerOfTwo) : c.HitsExact L := by
  refine .of_contains fun a => ?_
  obtain ⟨hindex, htag⟩ := split_blockAddr hp a
  constructor
  · intro hcon
    obtain ⟨w, hw⟩ := List.mem_iff_getElem?.mp (contains_iff.mp hcon)
    obtain ⟨b, hb⟩ := h.held hw
    obtain ⟨hkey, hi, hblock⟩ := h.found hb
    have htag' : c.tag a = c.tag b := (Prod.mk.inj (Option.some.inj (hw.symm.trans hkey))).2
    have hsame := (split_iff hp a b).mp ⟨hi.symm, htag'⟩
    rw [hsame, hblock]
    exact ⟨_, w, hb⟩
  · rintro ⟨i, w, hb⟩
    obtain ⟨hkey, rfl, -⟩ := h.found hb
    rw [hindex, htag] at hkey
    exact contains_iff.mpr (List.mem_of_getElem? hkey)

/-! ### No misses in flight -/

/-- A cache that never accepts a miss stays empty. -/
structure Empty (c : Cache P) (L : List CacheEvent) : Prop where
  maxInflight : c.maxInflight = 0
  inflight : c.inflight.entries.length = 0
  contains : ∀ a, c.contains a = false
  resident : ∀ i w, residentAt L i w = none

theorem empty_logInvariant (ok : ℕ → ℕ → Prop) :
    LogInvariant ok fun _ (c : Cache P) L => c.Empty L where
  tick _ h := h
  request {t c L} h addr isPrefetch := by
    have hsame := (request_spec c addr t isPrefetch).1
    exact
      { maxInflight := hsame.maxInflight.trans h.maxInflight
        inflight := hsame.size.trans h.inflight
        contains := fun a => (hsame.contains a).trans (h.contains a)
        resident := fun i w => (residentAt_requestLog c L addr t isPrefetch i w).trans
          (h.resident i w) }
  schedule {t c L} h addr _ _ room _ _ := by
    rw [h.maxInflight] at room
    omega
  returned {t c L b} h hb := by
    have hpos := List.length_pos_of_mem hb
    have hlen : c.inflight.keys.length = 0 := (length_keys _).trans h.inflight
    exact absurd hpos (by omega)

theorem Empty.hitsExact (h : c.Empty L) : c.HitsExact L := by
  refine .of_contains fun a => ⟨fun hcon => ?_, fun ⟨i, w, hb⟩ => ?_⟩
  · rw [h.contains a] at hcon
    cases hcon
  · rw [h.resident i w] at hb
    cases hb

/-! ### Other numbers of sets -/

/-- One less than a number that is no power of two has a zero bit below its highest. -/
theorem exists_zero_bit {n : ℕ} (hn : n ≠ 0) (h : ∀ j, n ≠ 2 ^ j) :
    ∃ j < Nat.log2 n, (n - 1).testBit j = false := by
  by_contra hall
  have hones : ∀ j < Nat.log2 n, (n - 1).testBit j = true := by
    intro j hj
    by_contra hzero
    exact hall ⟨j, hj, Bool.not_eq_true _ ▸ hzero⟩
  have hlow : (n - 1) % 2 ^ Nat.log2 n = 2 ^ Nat.log2 n - 1 := by
    refine Nat.eq_of_testBit_eq fun j => ?_
    rw [Nat.testBit_mod_two_pow, Nat.testBit_two_pow_sub_one]
    by_cases hj : j < Nat.log2 n
    · rw [hones j hj, Bool.and_true]
    · rw [decide_eq_false hj, Bool.false_and]
  have hle : 2 ^ Nat.log2 n ≤ n := Nat.log2_self_le hn
  have hlt : n < 2 ^ (Nat.log2 n + 1) := Nat.lt_log2_self
  rw [Nat.pow_succ] at hlt
  have hne := h (Nat.log2 n)
  have hpos := Nat.two_pow_pos (Nat.log2 n)
  -- all bits below the highest are set, so `n` is the next power of two
  have hquot : (n - 1) / 2 ^ Nat.log2 n = 1 := by
    rw [Nat.div_eq_iff hpos]
    omega
  have hdiv := Nat.div_add_mod (n - 1) (2 ^ Nat.log2 n)
  rw [hquot, hlow] at hdiv
  omega

section Geometry

variable {cfg : CacheConfig P} {k : ℕ}

theorem assoc_pos (hsets : 1 ≤ cfg.numSets.toNat) : 0 < cfg.assoc.toNat := by
  rw [CacheConfig.numSets, BitVec.toNat_udiv, BitVec.toNat_mul] at hsets
  by_contra hzero
  rw [Nat.eq_zero_of_not_pos hzero] at hsets
  simp at hsets

/-- The lines of one way fit into the address space. -/
theorem lines_lt (hline : cfg.lineSize.toNat = 2 ^ k) (hsets : 1 ≤ cfg.numSets.toNat) :
    cfg.numSets.toNat * 2 ^ k < 2 ^ 32 := by
  rw [CacheConfig.numSets, BitVec.toNat_udiv, BitVec.toNat_mul, hline] at hsets ⊢
  have hk : k ≤ 32 := by
    have hlt := cfg.lineSize.isLt
    rw [hline] at hlt
    exact (Nat.pow_lt_pow_iff_right (by decide)).mp hlt |>.le
  -- the product wraps, but to a multiple of the line size
  obtain ⟨q, hq⟩ : 2 ^ k ∣ cfg.assoc.toNat * 2 ^ k % 2 ^ 32 :=
    (Nat.dvd_mod_iff (Nat.pow_dvd_pow 2 hk)).mpr (Nat.dvd_mul_left _ _)
  have hpos : 0 < cfg.assoc.toNat * 2 ^ k % 2 ^ 32 := by
    by_contra hzero
    rw [Nat.eq_zero_of_not_pos hzero, Nat.div_zero] at hsets
    omega
  have hle : 2 ^ k ≤ cfg.assoc.toNat * 2 ^ k % 2 ^ 32 := Nat.le_of_dvd hpos ⟨q, hq⟩
  calc _ ≤ cfg.size.toNat / (cfg.assoc.toNat * 2 ^ k % 2 ^ 32)
          * (cfg.assoc.toNat * 2 ^ k % 2 ^ 32) := Nat.mul_le_mul_left _ hle
    _ ≤ cfg.size.toNat := Nat.div_mul_le_self _ _
    _ < 2 ^ 32 := cfg.size.isLt

/-- Without a power of two, the block at the line `2 ^ j` has the index and the tag of the
block at 0. -/
theorem exists_alias (hline : cfg.lineSize.toNat = 2 ^ k) (hsets : 1 ≤ cfg.numSets.toNat)
    (hpow : ∀ j, cfg.numSets.toNat ≠ 2 ^ j) :
    ∃ a : BitVec 32, a ≠ 0 ∧ cfg.build.getBlockAddr a = a ∧
      cfg.build.index a = cfg.build.index 0 ∧ cfg.build.tag a = cfg.build.tag 0 := by
  obtain ⟨j, hj, hbit⟩ := exists_zero_bit (by omega) hpow
  have hjn : 2 ^ j < cfg.numSets.toNat :=
    lt_of_lt_of_le (Nat.pow_lt_pow_right (by decide) hj) (Nat.log2_self_le (by omega))
  have hlt : 2 ^ j * 2 ^ k < 2 ^ 32 :=
    (Nat.mul_le_mul_right _ hjn.le).trans_lt (lines_lt hline hsets)
  have hnat : (BitVec.ofNat 32 (2 ^ j * 2 ^ k)).toNat = 2 ^ j * 2 ^ k := by
    rw [BitVec.toNat_ofNat, Nat.mod_eq_of_lt hlt]
  have hoffset : cfg.build.offsetBits = k := by
    simp [CacheConfig.build, Cache.new, getBits, hline]
  have hindexBits : cfg.build.indexBits = Nat.log2 cfg.numSets.toNat := rfl
  have hmask : cfg.build.indexMask.toNat = cfg.numSets.toNat - 1 := by
    change (cfg.numSets - 1).toNat = _
    rw [BitVec.toNat_sub_of_le]
    · rfl
    · rw [BitVec.le_def]
      exact hsets
  have hshift : (BitVec.ofNat 32 (2 ^ j * 2 ^ k) >>> k).toNat = 2 ^ j := by
    rw [BitVec.toNat_ushiftRight, hnat, Nat.shiftRight_eq_div_pow,
      Nat.mul_div_cancel _ (Nat.two_pow_pos k)]
  refine ⟨BitVec.ofNat 32 (2 ^ j * 2 ^ k), fun hzero => ?_, ?_, ?_, ?_⟩
  · have hpos : 0 < 2 ^ j * 2 ^ k := Nat.mul_pos (Nat.two_pow_pos j) (Nat.two_pow_pos k)
    rw [hzero] at hnat
    exact absurd hnat.symm hpos.ne'
  · refine BitVec.eq_of_toNat_eq ?_
    refine (toNat_and_not_sub_one _ hline).trans ?_
    rw [hnat, Nat.mul_div_cancel _ (Nat.two_pow_pos k)]
  · -- the mask leaves out bit `j`
    refine BitVec.eq_of_toNat_eq ?_
    rw [index, index, hoffset, BitVec.toNat_and, hshift, hmask, Nat.two_pow_and, hbit]
    simp
  · refine BitVec.eq_of_toNat_eq ?_
    rw [tag, tag, hoffset, hindexBits, toNat_shift_add, hnat,
      Nat.mul_div_cancel _ (Nat.two_pow_pos k),
      Nat.div_eq_of_lt (Nat.pow_lt_pow_right (by decide) hj)]
    simp

/-- The calls that fill the first block. -/
def firstFill : List CacheOp := [.fetch 0 0 false 0 false, .returns 0 default]

/-- The first request of a cache with a free MSHR is a new miss. -/
theorem build_request (hsets : 1 ≤ cfg.numSets.toNat) (hmshr : cfg.mshrSize ≠ 0) :
    (cfg.build.request 0 0 false).1.status = .missNew := by
  cases (request_spec cfg.build 0 0 false).2 with
  | hit hres resident =>
    rw [build_contains (assoc_pos hsets)] at resident
    cases resident
  | merged hres absent pending => cases pending
  | full hres absent idle noRoom =>
    have hzero : cfg.mshrSize.toNat = 0 := Nat.le_zero.mp noRoom
    exact absurd (BitVec.eq_of_toNat_eq hzero) hmshr
  | new hres absent idle room => exact hres

theorem firstFill_resident (hsets : 1 ≤ cfg.numSets.toNat) (hmshr : cfg.mshrSize ≠ 0) :
    (cfg.build.calls firstFill).contains 0 = true ∧
      ∀ b, Resident (cfg.build.log firstFill) b → b = 0 := by
  have hnew := build_request hsets hmshr
  let c₁ := (cfg.build.request 0 0 false).2
  let c₂ := c₁.scheduleFill 0 0 false
  have hsame : Same cfg.build c₁ := (request_spec cfg.build 0 0 false).1
  have hblock : c₁.getBlockAddr 0 = 0 := (hsame.getBlockAddr 0).trans BitVec.zero_and
  have hready (b : BitVec 32) : c₂.ready b = if b = 0 then some 0 else none := by
    have hidle : c₁.ready (c₁.getBlockAddr 0) = none := hsame.ready _
    rw [scheduleFill_ready hidle, hblock]
    split_ifs
    · rfl
    · exact hsame.ready b
  have hinflight : (0 : BitVec 32) ∈ c₂.inflight :=
    mem_inflight_iff.mpr ⟨0, (hready 0).trans (if_pos rfl)⟩
  -- the return meets the first block and no other
  have horder : (default : TableOrder).order (c₂.completedBlocks 0) = [0] := by
    refine List.perm_singleton.mp ((List.perm_ext_iff_of_nodup (nodup_order c₂ 0 default)
      (List.nodup_singleton _)).mpr fun b => ?_)
    rw [mem_order, hready, List.mem_singleton]
    split_ifs with hb
    · exact iff_of_true ⟨0, rfl, le_rfl⟩ hb
    · refine iff_of_false ?_ hb
      rintro ⟨t, ht, -⟩
      cases ht
  have hfetch : cfg.build.call (.fetch 0 0 false 0 false) = c₂ := by
    simp only [call, hnew, if_pos]
    rfl
  have hcalls : cfg.build.calls firstFill = returnBlock 0 c₂ 0 := by
    rw [calls, firstFill, List.foldl_cons, List.foldl_cons, List.foldl_nil, hfetch, call,
      processReturns, horder, List.foldl_cons, List.foldl_nil]
  have hlog : cfg.build.log firstFill = [.fill (c₂.index 0) (c₂.victim 0) 0 0] := by
    have hnone : cfg.build.requestLog 0 0 false = [] := by
      rw [requestLog, hnew, if_neg (by decide)]
    rw [firstFill, log, log, log, hfetch, callLog, callLog, hnone, horder, returnsLog, returnsLog,
      returnLog, if_pos hinflight]
    rfl
  refine ⟨?_, fun b hb => ?_⟩
  · rw [hcalls]
    refine returnBlock_contains hinflight ?_
    have hways := (tracked_build (assoc_pos hsets)).of_same hsame
    rw [scheduleFill_sets]
    exact hways.ways _
  · obtain ⟨i, w, hb⟩ := hb
    rw [hlog] at hb
    have hfill := residentAt_fill [] (c₂.index 0) (c₂.victim 0) 0 0 i w
    rw [List.nil_append] at hfill
    rw [hfill] at hb
    split_ifs at hb
    · exact (Option.some.inj hb).symm
    · cases hb

/-- **No false hits.** In every run a cache with a power of two as its line size finds
exactly the blocks that were filled and not evicted since, if and only if the number of
its sets is a power of two or it has no MSHR. -/
theorem no_false_hits_iff (cfg : CacheConfig P) (hline : ∃ k, cfg.lineSize.toNat = 2 ^ k)
    (hsets : 1 ≤ cfg.numSets.toNat) :
    (∀ ops, (cfg.build.calls ops).HitsExact (cfg.build.log ops)) ↔
      (∃ j, cfg.numSets.toNat = 2 ^ j) ∨ cfg.mshrSize = 0 := by
  constructor
  · intro h
    by_contra hnot
    rw [not_or, not_exists] at hnot
    obtain ⟨k, hk⟩ := hline
    obtain ⟨a, ha, hblock, hindex, htag⟩ := exists_alias hk hsets hnot.1
    obtain ⟨hzero, honly⟩ := firstFill_resident hsets hnot.2
    have hshape := calls_shape cfg.build firstFill
    -- the block at `a` answers for the block at 0
    have hcon : (cfg.build.calls firstFill).contains a = true := by
      rw [contains_iff, hshape.tag, hshape.index] at hzero ⊢
      rwa [hindex, htag]
    have hresident := (h firstFill a).1.mp hcon
    rw [hshape.getBlockAddr, hblock] at hresident
    exact ha (honly a hresident)
  · rintro (hpow | hmshr) ops
    · have hgeometry : cfg.PowerOfTwo := ⟨hline, hpow, assoc_pos hsets⟩
      obtain ⟨-, htracked⟩ := (tracked_logInvariant _).run (tracked_build hgeometry.assoc)
        (onClock_true 0 ops)
      exact htracked.hitsExact
        ((powerOfTwo_build hgeometry).of_shape (calls_shape cfg.build ops))
    · have hempty : cfg.build.Empty [] :=
        { maxInflight := congrArg BitVec.toNat hmshr
          inflight := rfl
          contains := build_contains (assoc_pos hsets)
          resident := fun _ _ => rfl }
      obtain ⟨-, hrun⟩ := (empty_logInvariant _).run hempty (onClock_true 0 ops)
      exact hrun.hitsExact

theorem no_false_hits_shipped :
    (shippedMemConfig.dcache.build.calls firstFill).HitsExact
      (shippedMemConfig.dcache.build.log firstFill) :=
  (no_false_hits_iff shippedMemConfig.dcache ⟨6, rfl⟩ (by decide)).mpr (.inl ⟨6, rfl⟩) firstFill

/-- A direct-mapped cache of three lines. -/
def threeLines : CacheConfig BuiltinPrefetcher :=
  ⟨192, 1, 64, 1, makeReplacementPolicy .lru, makePrefetcher .none⟩

/-- With three lines, the block at 0 answers for the block at 64, which was never filled. -/
theorem false_hit :
    (threeLines.build.calls firstFill).contains 64 = true ∧
      ¬ Resident (threeLines.build.log firstFill)
        ((threeLines.build.calls firstFill).getBlockAddr 64) := by
  have hshape := calls_shape threeLines.build firstFill
  have hsets : 1 ≤ threeLines.numSets.toNat := by decide
  obtain ⟨hzero, honly⟩ := firstFill_resident hsets nofun
  constructor
  · rw [contains_iff, hshape.tag, hshape.index] at hzero ⊢
    exact hzero
  · intro hresident
    rw [hshape.getBlockAddr] at hresident
    cases honly _ hresident

end Geometry

end Cache

end TraceSim
