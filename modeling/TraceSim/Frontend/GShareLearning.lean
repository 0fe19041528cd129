/-
TraceSim/Frontend/GShareLearning.lean

The gshare predictor on branches that all resolve in one direction.

A misprediction moves the counter it used towards the direction, and no other step
of the stream moves a counter away from it.  So each counter has a debt
(`counterDebt`), at most two, and every misprediction at its index pays one.

The history register forgets its old bits: after `historyBits` branches it holds
the direction in all of them (`history_train`), and from then on a pc has one
index.
-/
import TraceSim.Frontend.Frontend
import Mathlib.Data.Nat.Bitwise

namespace TraceSim.GShare

/-! ### Branches as the fetch stage handles them -/

/-- A branch is predicted, and the predictor is trained with the metadata of that
prediction. -/
def resolve (g : GShare) (pc : BitVec 32) (taken : Bool) : GShare :=
  g.update taken (g.predict pc).metadata

def train (g : GShare) (branches : List (BitVec 32 × Bool)) : GShare :=
  branches.foldl (fun g b => g.resolve b.1 b.2) g

/-- How many branches of a stream that resolves in the direction `d` are
mispredicted, among those that `counts` selects. -/
def mispredictions (counts : GShare → BitVec 32 → Bool) (d : Bool) :
    GShare → List (BitVec 32) → ℕ
  | _, [] => 0
  | g, pc :: pcs =>
      (if counts g pc ∧ (g.predict pc).taken ≠ d then 1 else 0)
        + mispredictions counts d (g.resolve pc d) pcs

/-- The branches whose counter is the one at `index`. -/
def usesIndex (index : ℕ) (g : GShare) (pc : BitVec 32) : Bool := (g.predict pc).metadata = index

/-- The branches at `target`. -/
def atPc (target : BitVec 32) (_ : GShare) (pc : BitVec 32) : Bool := pc = target

/-- The fetch stage resolves a branch in this way. -/
theorem predictBranch_gshare {P : Type} (cfg : Config P BuiltinPredictor) (env : Env)
    (s : Sim P BuiltinPredictor) (inst : TraceInst) {g : GShare} (hbp : s.bp = .gshare g)
    (horacle : branchPredictorUsesOracle cfg.bpType = false) :
    s.predictBranch cfg env inst
      = ((g.predict inst.pc).taken,
        { s with bp := .gshare (g.resolve inst.pc inst.branchTaken) }) := by
  rw [Sim.predictBranch, horacle, hbp]
  rfl

/-! ### Invariants -/

/-- What holds of every reachable predictor with `h` history bits. -/
structure WellFormed (h : ℕ) (g : GShare) : Prop where
  historyMask : g.historyMask = (1 <<< h) - 1
  pht : ∀ i, g.pht i ≤ 3

theorem getLsbD_mask {h : ℕ} (hh : h ≤ 31) (i : ℕ) :
    ((1 <<< h : BitVec 32) - 1).getLsbD i = decide (i < h) := by
  have hlt : 2 ^ h < 2 ^ 32 := Nat.pow_lt_pow_right (by decide) (by omega)
  have hpow : (1 <<< h : BitVec 32).toNat = 2 ^ h := by
    show (BitVec.twoPow 32 h).toNat = 2 ^ h
    rw [BitVec.toNat_twoPow, Nat.mod_eq_of_lt hlt]
  have hnat : ((1 <<< h : BitVec 32) - 1).toNat = 2 ^ h - 1 := by
    rw [BitVec.toNat_sub_of_le (by rw [BitVec.le_def, hpow]; exact Nat.one_le_two_pow), hpow]
    rfl
  rw [BitVec.getLsbD, hnat, Nat.testBit_two_pow_sub_one]

theorem wellFormed_new (h : ℕ) : WellFormed h (new h) := by
  refine ⟨rfl, ?_⟩
  intro i
  show 2 ≤ 3
  decide

theorem WellFormed.metadata_lt {h : ℕ} {g : GShare} (hg : WellFormed h g) (hh : h ≤ 31)
    (pc : BitVec 32) : (g.predict pc).metadata < 2 ^ h := by
  apply Nat.lt_pow_two_of_testBit
  intro i hi
  show ((pc ^^^ g.history) &&& g.historyMask).getLsbD i = false
  rw [hg.historyMask, BitVec.getLsbD_and, getLsbD_mask hh, decide_eq_false (by omega),
    Bool.and_false]

/-! ### One counter -/

/-- A counter after a branch that used it. -/
def counterAfter (d : Bool) (counter : ℕ) : ℕ :=
  if d then (if counter < 3 then counter + 1 else counter)
  else if counter > 0 then counter - 1
  else counter

/-- How many mispredictions a counter still allows in the direction `d`. -/
def counterDebt (d : Bool) (counter : ℕ) : ℕ := if d then 2 - counter else counter - 1

theorem counterAfter_le {d : Bool} {c : ℕ} (hc : c ≤ 3) : counterAfter d c ≤ 3 := by
  rw [counterAfter]
  split_ifs
  all_goals omega

theorem counterDebt_le {d : Bool} {c : ℕ} (hc : c ≤ 3) : counterDebt d c ≤ 2 := by
  rw [counterDebt]
  split_ifs
  all_goals omega

/-- A branch that uses the counter never adds to its debt, and a misprediction
pays one. -/
theorem counterDebt_counterAfter (d : Bool) (c : ℕ) :
    (if decide (c ≥ 2) ≠ d then 1 else 0) + counterDebt d (counterAfter d c)
      ≤ counterDebt d c := by
  have hdecide : (decide (c ≥ 2) ≠ d) ↔ (if d then c < 2 else c ≥ 2) := by
    cases d
    · simp only [ne_eq, decide_eq_false_iff_not, not_not, Bool.false_eq_true, if_false]
    · simp only [ne_eq, decide_eq_true_eq, not_le, ge_iff_le, if_true]
  rw [if_congr hdecide rfl rfl, counterDebt, counterDebt, counterAfter]
  cases d
  · simp only [Bool.false_eq_true, if_false]
    split_ifs
    all_goals omega
  · simp only [if_true]
    split_ifs
    all_goals omega

theorem WellFormed.resolve_pht {h : ℕ} {g : GShare} (hg : WellFormed h g) (hh : h ≤ 31)
    (pc : BitVec 32) (taken : Bool) (i : ℕ) :
    (g.resolve pc taken).pht i
      = if (g.predict pc).metadata = i then counterAfter taken (g.pht i) else g.pht i := by
  have hlt : (g.predict pc).metadata < 2 ^ 32 :=
    Nat.lt_of_lt_of_le (hg.metadata_lt hh pc) (Nat.pow_le_pow_right (by decide) (by omega))
  show Function.update g.pht ((g.predict pc).metadata % 2 ^ 32) _ i = _
  rw [Nat.mod_eq_of_lt hlt]
  by_cases hi : (g.predict pc).metadata = i
  · rw [if_pos hi, ← hi, Function.update_self]
    rfl
  · rw [if_neg hi, Function.update_of_ne (Ne.symm hi)]

theorem WellFormed.resolve {h : ℕ} {g : GShare} (hg : WellFormed h g) (hh : h ≤ 31)
    (pc : BitVec 32) (taken : Bool) : WellFormed h (g.resolve pc taken) := by
  refine ⟨hg.historyMask, ?_⟩
  intro i
  rw [hg.resolve_pht hh]
  split_ifs
  · exact counterAfter_le (hg.pht i)
  · exact hg.pht i

theorem WellFormed.train {h : ℕ} {g : GShare} (hg : WellFormed h g) (hh : h ≤ 31)
    (branches : List (BitVec 32 × Bool)) : WellFormed h (g.train branches) := by
  induction branches generalizing g with
  | nil => exact hg
  | cons b branches ih => exact ih (hg.resolve hh b.1 b.2)

/-- **One index** is mispredicted at most as often as its debt says. -/
theorem WellFormed.mispredictions_usesIndex_le {h : ℕ} {g : GShare} (hg : WellFormed h g)
    (hh : h ≤ 31) (d : Bool) (i : ℕ) (pcs : List (BitVec 32)) :
    mispredictions (usesIndex i) d g pcs ≤ counterDebt d (g.pht i) := by
  induction pcs generalizing g with
  | nil => exact Nat.zero_le _
  | cons pc pcs ih =>
      have hrest := ih (hg.resolve hh pc d)
      rw [hg.resolve_pht hh] at hrest
      rw [mispredictions]
      by_cases hi : (g.predict pc).metadata = i
      · rw [if_pos hi] at hrest
        have htaken : (g.predict pc).taken = decide (g.pht i ≥ 2) := by
          rw [← hi]
          rfl
        have hone := counterDebt_counterAfter d (g.pht i)
        rw [← htaken] at hone
        simp only [usesIndex, hi, decide_true, true_and]
        omega
      · rw [if_neg hi] at hrest
        simp only [usesIndex, hi, decide_false, Bool.false_eq_true, false_and, if_false]
        omega

/-! ### The history register -/

/-- The low `k` of the `h` history bits hold the direction `d`. -/
def HistoryHolds (h k : ℕ) (d : Bool) (g : GShare) : Prop :=
  ∀ i, i < k → i < h → g.history.getLsbD i = d

theorem WellFormed.history_resolve {h k : ℕ} {g : GShare} (hg : WellFormed h g) (hh : h ≤ 31)
    {d : Bool} (hk : HistoryHolds h k d g) (pc : BitVec 32) :
    HistoryHolds h (k + 1) d (g.resolve pc d) := by
  intro i hi hih
  show (((g.history <<< 1) ||| (if d then 1 else 0)) &&& g.historyMask).getLsbD i = d
  rw [hg.historyMask, BitVec.getLsbD_and, getLsbD_mask hh, decide_eq_true hih, Bool.and_true,
    BitVec.getLsbD_or, BitVec.getLsbD_shiftLeft]
  rcases i with - | i
  · cases d <;> simp
  · rw [Nat.add_sub_cancel, hk i (by omega) (by omega)]
    cases d <;> simp [show i + 1 < 32 by omega]

/-- **After `h` branches** the history holds the direction, and keeps it. -/
theorem WellFormed.history_train {h k : ℕ} {g : GShare} (hg : WellFormed h g) (hh : h ≤ 31)
    {d : Bool} (hk : HistoryHolds h k d g) (pcs : List (BitVec 32)) :
    HistoryHolds h (k + pcs.length) d (g.train (pcs.map fun pc => (pc, d))) := by
  induction pcs generalizing g k with
  | nil => exact hk
  | cons pc pcs ih =>
      rw [List.length_cons, Nat.add_comm pcs.length, ← Nat.add_assoc]
      exact ih (hg.resolve hh pc d) (hg.history_resolve hh hk pc)

/-- Two predictors whose histories hold the same direction agree on the index of
every pc. -/
theorem metadata_eq_of_history {h : ℕ} {g g' : GShare} (hg : WellFormed h g)
    (hg' : WellFormed h g') (hh : h ≤ 31) {d : Bool} (hd : HistoryHolds h h d g)
    (hd' : HistoryHolds h h d g') (pc : BitVec 32) :
    (g.predict pc).metadata = (g'.predict pc).metadata := by
  show ((pc ^^^ g.history) &&& g.historyMask).toNat
    = ((pc ^^^ g'.history) &&& g'.historyMask).toNat
  rw [hg.historyMask, hg'.historyMask]
  refine congrArg BitVec.toNat (BitVec.eq_of_getLsbD_eq fun i _ => ?_)
  rw [BitVec.getLsbD_and, BitVec.getLsbD_and, getLsbD_mask hh]
  by_cases hi : i < h
  · rw [BitVec.getLsbD_xor, BitVec.getLsbD_xor, hd i hi hi, hd' i hi hi]
  · rw [decide_eq_false hi, Bool.and_false, Bool.and_false]

/-- With a settled history, the mispredictions at a pc are mispredictions at its
index. -/
theorem WellFormed.mispredictions_atPc_le {h : ℕ} {g : GShare} (hg : WellFormed h g)
    (hh : h ≤ 31) {d : Bool} (hd : HistoryHolds h h d g) (target : BitVec 32)
    (pcs : List (BitVec 32)) :
    mispredictions (atPc target) d g pcs
      ≤ mispredictions (usesIndex (g.predict target).metadata) d g pcs := by
  induction pcs generalizing g with
  | nil => exact Nat.le_refl _
  | cons pc pcs ih =>
      have hg' := hg.resolve hh pc d
      have hd' : HistoryHolds h h d (g.resolve pc d) := fun i hi hih =>
        hg.history_resolve hh hd pc i (by omega) hih
      have hrest := ih hg' hd'
      rw [metadata_eq_of_history hg' hg hh hd' hd target] at hrest
      rw [mispredictions, mispredictions]
      refine Nat.add_le_add ?_ hrest
      by_cases hpc : pc = target
      · simp [atPc, usesIndex, hpc]
      · simp [atPc, hpc]

/-- A new predictor with `h` history bits, after earlier training and the first `n`
branches of the stream `pcs` in the direction `d`. -/
def streamState (h : ℕ) (earlier : List (BitVec 32 × Bool)) (pcs : List (BitVec 32)) (d : Bool)
    (n : ℕ) : GShare :=
  ((new h).train earlier).train ((pcs.take n).map fun pc => (pc, d))

/-- **Streams of one direction.**  From any reachable predictor, after the first
`h` branches of such a stream every index, and so every pc, is mispredicted at most
twice; the counters stay below four and every index lies in the table. -/
theorem constant_direction {h : ℕ} (hh : h ≤ 31)
    (earlier : List (BitVec 32 × Bool)) (pcs : List (BitVec 32)) (d : Bool) :
    (∀ i, mispredictions (usesIndex i) d (streamState h earlier pcs d h) (pcs.drop h) ≤ 2) ∧
      (∀ pc, mispredictions (atPc pc) d (streamState h earlier pcs d h) (pcs.drop h) ≤ 2) ∧
      ∀ n, (∀ i, (streamState h earlier pcs d n).pht i ≤ 3) ∧
        ∀ pc, ((streamState h earlier pcs d n).predict pc).metadata < 2 ^ h := by
  have hstart : WellFormed h ((new h).train earlier) := (wellFormed_new h).train hh earlier
  have hwf : ∀ n, WellFormed h (streamState h earlier pcs d n) := fun n => hstart.train hh _
  have hindex : ∀ i, mispredictions (usesIndex i) d (streamState h earlier pcs d h)
      (pcs.drop h) ≤ 2 := fun i =>
    ((hwf h).mispredictions_usesIndex_le hh d i _).trans (counterDebt_le ((hwf h).pht i))
  refine ⟨hindex, fun pc => ?_, fun n => ⟨(hwf n).pht, (hwf n).metadata_lt hh⟩⟩
  by_cases hlen : h ≤ pcs.length
  · have hd : HistoryHolds h h d (streamState h earlier pcs d h) := by
      have hk := hstart.history_train (k := 0) hh (d := d) nofun (pcs.take h)
      rwa [List.length_take, Nat.min_eq_left hlen, Nat.zero_add] at hk
    exact ((hwf h).mispredictions_atPc_le hh hd pc _).trans (hindex _)
  · rw [List.drop_eq_nil_of_le (by omega)]
    exact Nat.zero_le _

/-- Three branches taken after a predictor with two history bits has been trained
the other way. -/
theorem constant_direction_two :
    mispredictions (atPc 16) true
      (((new 2).train [(16, false), (20, false)]).train [(16, true), (20, true)])
      [16, 16, 16] ≤ 2 :=
  (constant_direction (h := 2) (by decide) [(16, false), (20, false)]
    [16, 20, 16, 16, 16] true).2.1 16

end TraceSim.GShare
