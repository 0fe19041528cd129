/-
TraceSim/Core/StoreDependency.lean

The answer of `check_store_dependency`.

The scan of the store queue breaks off at the first store that is not older than the
load, and in the conservative model at the first one whose address is not visible.  In
a queue in program order neither break loses anything: what is left out is younger than
the load, or the load stalls whatever it is.  So the answer is that of the definition
over all older stores (`storeDependency_exact`).
-/
import TraceSim.Core.StoreQueue

namespace TraceSim

namespace Sim

variable {P B : Type}

/-! ### The stores before a load -/

/-- The entries of the store queue that are older than the op in slot `i`. -/
def entriesBefore (s : Sim P B) (i : ℕ) : List ℕ :=
  s.storeIndices.filter fun j => (s.rob j).entryId < (s.rob i).entryId

/-- The last of them that stores to the address of the op in slot `i`. -/
def sourceBefore (s : Sim P B) (i : ℕ) : Option ℕ :=
  ((s.entriesBefore i).filter fun j =>
    (s.rob j).inst.memAddr = (s.rob i).inst.memAddr).getLast?

/-- The conservative model does not see the address of an older store. -/
def HidesAddress (cfg : Config P B) (s : Sim P B) (i : ℕ) : Prop :=
  cfg.memDepModel = .conservativeStaVisible ∧
    ∃ j ∈ s.entriesBefore i, (s.rob j).staDone = false

/-- The entry in slot `j` has its data by now. -/
def DataReady (s : Sim P B) (j : ℕ) : Prop :=
  (s.rob j).stdDone = true ∧ (s.rob j).stdCycle ≤ s.totalCycles

/-! ### The scan -/

section

variable {rob : ℕ → OpEntry} {op : OpEntry} {l : List ℕ}

/-- The conservative scan stalls exactly if an older address is not visible. -/
theorem scanStores_stalls_iff (hl : l.Pairwise fun i j => (rob i).entryId < (rob j).entryId)
    (src : Option ℕ) :
    (scanStores .conservativeStaVisible rob op l src).1 = true ↔
      ∃ j ∈ l, (rob j).entryId < op.entryId ∧ (rob j).staDone = false := by
  induction l generalizing src with
  | nil => simp [scanStores]
  | cons j l ih =>
    obtain ⟨hj, hl⟩ := List.pairwise_cons.mp hl
    rw [scanStores]
    dsimp only
    by_cases hage : (rob j).entryId ≥ op.entryId
    -- all that follow are younger than `j`
    · rw [if_pos hage]
      refine iff_of_false Bool.false_ne_true ?_
      rintro ⟨k, hk, hlt, -⟩
      rcases List.mem_cons.mp hk with rfl | hk
      · omega
      · have := hj k hk
        omega
    · rw [if_neg hage]
      rcases hvisible : (rob j).staDone with - | -
      · rw [Bool.not_false, if_pos rfl]
        exact iff_of_true rfl ⟨j, List.mem_cons_self, not_le.mp hage, hvisible⟩
      · rw [Bool.not_true, if_neg Bool.false_ne_true, ih hl]
        simp [hvisible]

/-- Where every older address is visible, the two models scan alike. -/
theorem scanStores_visible
    (h : ∀ j ∈ l, (rob j).entryId < op.entryId → (rob j).staDone = true) (src : Option ℕ) :
    scanStores .conservativeStaVisible rob op l src = scanStores .oracleStlf rob op l src := by
  induction l generalizing src with
  | nil => rfl
  | cons j l ih =>
    rw [scanStores, scanStores]
    dsimp only
    by_cases hage : (rob j).entryId ≥ op.entryId
    · rw [if_pos hage, if_pos hage]
    · rw [if_neg hage, if_neg hage, h j List.mem_cons_self (not_le.mp hage), Bool.not_true,
        if_neg Bool.false_ne_true]
      exact ih (fun k hk => h k (List.mem_cons_of_mem _ hk)) _

end

/-- **What the scan finds** in a store queue in program order. -/
theorem scanStores_before (cfg : Config P B) {s : Sim P B}
    (hordered : s.storeIndices.Pairwise fun i j => (s.rob i).entryId < (s.rob j).entryId)
    (i : ℕ) :
    (s.HidesAddress cfg i → (s.olderStores cfg i).1 = true) ∧
      (¬ s.HidesAddress cfg i → s.olderStores cfg i = (false, s.sourceBefore i)) := by
  have horacle : scanStores .oracleStlf s.rob (s.rob i) s.storeIndices none
      = (false, s.sourceBefore i) := by
    rw [scanStores_oracle hordered, Option.or_none, sourceBefore, entriesBefore,
      List.filter_filter]
    refine congrArg (fun l => (false, List.getLast? l)) (List.filter_congr fun j _ => ?_)
    rw [olderSame, Bool.and_comm]
  unfold HidesAddress olderStores
  -- the oracle sees every address, the conservative model those computed by now
  cases hmodel : cfg.memDepModel with
  | oracleStlf =>
    refine ⟨fun h => ?_, fun _ => horacle⟩
    cases h.1
  | conservativeStaVisible =>
    constructor
    · rintro ⟨-, j, hj, hhidden⟩
      obtain ⟨hmem, hage⟩ := List.mem_filter.mp hj
      exact (scanStores_stalls_iff hordered none).mpr
        ⟨j, hmem, of_decide_eq_true hage, hhidden⟩
    · intro hvisible
      rw [scanStores_visible, horacle]
      intro j hj hage
      by_contra hhidden
      exact hvisible ⟨rfl, j, List.mem_filter.mpr ⟨hj, decide_eq_true hage⟩,
        Bool.eq_false_iff.mpr hhidden⟩

/-! ### The answer -/

theorem checkStoreDependency_stalls {cfg : Config P B} {s : Sim P B} {i : ℕ}
    (h : (s.olderStores cfg i).1 = true) :
    s.checkStoreDependency cfg i = (.stalled, s.stallOnStore i) := by
  unfold checkStoreDependency
  rw [show scanStores cfg.memDepModel s.rob (s.rob i) s.storeIndices none
    = s.olderStores cfg i from rfl]
  rcases hscan : s.olderStores cfg i with ⟨stall, src⟩
  rw [hscan] at h
  obtain rfl : stall = true := h
  rfl

theorem checkStoreDependency_none {cfg : Config P B} {s : Sim P B} {i : ℕ}
    (h : s.olderStores cfg i = (false, none)) :
    s.checkStoreDependency cfg i = (.noDep, s) := by
  unfold checkStoreDependency
  rw [show scanStores cfg.memDepModel s.rob (s.rob i) s.storeIndices none
    = s.olderStores cfg i from rfl, h]

open Classical in
theorem checkStoreDependency_source {cfg : Config P B} (hstlf : cfg.enableStlf = true)
    {s : Sim P B} {i j : ℕ} (h : s.olderStores cfg i = (false, some j)) :
    s.checkStoreDependency cfg i
      = if s.DataReady j then (.stlfReady, s) else (.stalled, s.stallOnStore i) := by
  have htest : (cfg.enableStlf && (s.rob j).stdDone &&
      decide (s.totalCycles ≥ (s.rob j).stdCycle)) = true ↔ s.DataReady j := by
    rw [hstlf, Bool.true_and, Bool.and_eq_true, decide_eq_true_eq, DataReady]
  unfold checkStoreDependency
  rw [show scanStores cfg.memDepModel s.rob (s.rob i) s.storeIndices none
    = s.olderStores cfg i from rfl, h]
  exact if_congr htest rfl rfl

/-- **The store-dependence check** of a load, against a store queue in program order.
The answer is `NoDep` if no older entry stores to the address, `STLFReady` if the last
one that does has its data, and `Stalled` if it does not have it or if the model hides
an older address; the check marks the load and counts the stall exactly if the answer is
`Stalled`, and changes nothing else. -/
theorem storeDependency_exact (cfg : Config P B) (hstlf : cfg.enableStlf = true)
    (s : Sim P B) (i : ℕ)
    (hordered : s.storeIndices.Pairwise fun i j => (s.rob i).entryId < (s.rob j).entryId) :
    ((s.checkStoreDependency cfg i).1 = .noDep ↔
      ¬ s.HidesAddress cfg i ∧ s.sourceBefore i = none) ∧
    ((s.checkStoreDependency cfg i).1 = .stlfReady ↔
      ¬ s.HidesAddress cfg i ∧ ∃ j, s.sourceBefore i = some j ∧ s.DataReady j) ∧
    ((s.checkStoreDependency cfg i).1 = .stalled ↔
      s.HidesAddress cfg i ∨ ∃ j, s.sourceBefore i = some j ∧ ¬ s.DataReady j) ∧
    (s.checkStoreDependency cfg i).2 =
      if (s.checkStoreDependency cfg i).1 = .stalled then
        { s with
          rob := Function.update s.rob i { s.rob i with waitingOnMemDep := true }
          profiler :=
            { s.profiler with
              stats :=
                { s.profiler.stats with
                  memDepStalls := s.profiler.stats.memDepStalls + 1 } } }
      else s := by
  obtain ⟨hhides, hvisible⟩ := scanStores_before cfg hordered i
  -- an older address that the model hides stalls the load, whatever the others say
  by_cases hhidden : s.HidesAddress cfg i
  · rw [checkStoreDependency_stalls (hhides hhidden)]
    exact ⟨by simp [hhidden], by simp [hhidden], by simp [hhidden], rfl⟩
  have hscan := hvisible hhidden
  -- otherwise the last older store to the address decides
  rcases hsource : s.sourceBefore i with - | j
  · rw [hsource] at hscan
    rw [checkStoreDependency_none hscan]
    exact ⟨by simp [hhidden], by simp, by simp [hhidden], rfl⟩
  · rw [hsource] at hscan
    rw [checkStoreDependency_source hstlf hscan]
    by_cases hready : s.DataReady j
    · rw [if_pos hready]
      exact ⟨by simp, by simp [hhidden, hready], by simp [hhidden, hready], rfl⟩
    · rw [if_neg hready]
      exact ⟨by simp, by simp [hready], by simp [hready], rfl⟩

/-- Two older stores to the address of a load, and a younger one. -/
def queuedStores : Sim BuiltinPrefetcher BuiltinPredictor :=
  { Sim.new shippedConfig with
    storeIndices := [3, 4, 6]
    totalCycles := 20
    rob := fun j =>
      { entryId := j, inst := { memAddr := 0x80001000 }, stdDone := true
        stdCycle := if j = 4 then 20 else 30 } }

theorem storeDependency_exact_queuedStores :
    queuedStores.sourceBefore 5 = some 4 ∧
      (queuedStores.checkStoreDependency shippedConfig 5).1 = .stlfReady := by
  have hordered : queuedStores.storeIndices.Pairwise fun i j =>
      (queuedStores.rob i).entryId < (queuedStores.rob j).entryId := by decide
  have hsource : queuedStores.sourceBefore 5 = some 4 := by decide
  obtain ⟨-, hready, -⟩ :=
    storeDependency_exact shippedConfig rfl queuedStores 5 hordered
  refine ⟨hsource, hready.mpr ⟨fun h => ?_, 4, hsource, rfl, le_rfl⟩⟩
  cases h.1

end Sim

end TraceSim
