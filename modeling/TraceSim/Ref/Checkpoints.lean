/-
TraceSim/Ref/Checkpoints.lean

Which checkpoints a run in mode `GEN_CHECKPOINT` requests.

A checkpoint for interval 0 is requested before the loop, and one for interval
`f + 2` at the boundary that starts interval `f + 1`, its warm-up.  Nothing is
requested for interval 1: its warm-up is interval 0, which starts at no boundary.  So
every target gets its checkpoint in a run that gets far enough, just if 1 is no
target (`every_target_saved_iff`).
-/
import TraceSim.Ref.Intervals

namespace TraceSim.Ref

/-! ### The requests of a run -/

/-- The request before the loop. -/
def firstSave (targets : Targets) : List SaveRequest :=
  ((targets.lookup 0).map fun spId => (⟨spId, 0, false, 0⟩ : SaveRequest)).toList

/-- The request at the boundary that ends interval `f`. -/
def warmupSave (targets : Targets) (f : ℕ) : Option SaveRequest :=
  (targets.lookup (BitVec.ofNat 32 (f + 2))).map fun spId =>
    ⟨spId, BitVec.ofNat 32 (f + 2), true, BitVec.ofNat 32 (f + 1)⟩

/-- The requests up to the boundary that ends interval `n - 1`. -/
def savesUpTo (targets : Targets) (n : ℕ) : List SaveRequest :=
  firstSave targets ++ (List.range n).filterMap (warmupSave targets)

variable {cfg : SimConfig} {targets : Targets} {e₀ e e' : Exec} {r : SaveRequest} {n : ℕ}
  {k spId : BitVec 32}

theorem savesUpTo_succ (targets : Targets) (n : ℕ) :
    savesUpTo targets (n + 1) = savesUpTo targets n ++ (warmupSave targets n).toList := by
  rw [savesUpTo, savesUpTo, List.range_succ, List.filterMap_append, List.append_assoc]
  cases h : warmupSave targets n with
  | none => simp [h]
  | some r => simp [h]

/-- Only targets are requested, and interval 1 never is. -/
theorem target_of_mem_savesUpTo (hn : n + 2 ≤ 2 ^ 32) (hr : r ∈ savesUpTo targets n) :
    r.target ∈ targets ∧ r.target ≠ 1 := by
  rcases List.mem_append.mp hr with hr | hr
  · obtain ⟨spId, hspId, rfl⟩ := Option.map_eq_some_iff.mp (Option.mem_toList.mp hr)
    refine ⟨AList.lookup_isSome.mp (by rw [hspId]; rfl), ?_⟩
    intro hone
    exact absurd hone (by decide : (0 : BitVec 32) ≠ 1)
  · obtain ⟨f, hf, hwarmup⟩ := List.mem_filterMap.mp hr
    obtain ⟨spId, hspId, rfl⟩ := Option.map_eq_some_iff.mp hwarmup
    refine ⟨AList.lookup_isSome.mp (by rw [hspId]; rfl), ?_⟩
    intro hone
    have hlt := List.mem_range.mp hf
    have htoNat := congrArg BitVec.toNat hone
    rw [BitVec.toNat_ofNat, Nat.mod_eq_of_lt (by omega)] at htoNat
    have hval : (1 : BitVec 32).toNat = 1 := rfl
    omega

/-- The request for a target: before the loop, or at the start of its warm-up. -/
def saveFor (k spId : BitVec 32) : SaveRequest :=
  if k = 0 then ⟨spId, 0, false, 0⟩ else ⟨spId, k, true, k - 1⟩

theorem filter_firstSave (hk : targets.lookup k = some spId) :
    (firstSave targets).filter (·.target = k) = if k.toNat = 0 then [saveFor k spId] else [] := by
  split_ifs with h0
  · obtain rfl : k = 0 := BitVec.eq_of_toNat_eq h0
    rw [firstSave, hk]
    rfl
  · rw [List.filter_eq_nil_iff]
    intro r hr
    obtain ⟨sp, -, rfl⟩ := Option.map_eq_some_iff.mp (Option.mem_toList.mp hr)
    simp only [decide_eq_true_eq]
    rintro rfl
    exact h0 rfl

/-- The boundary that ends interval `f` requests the target `f + 2`, and only that. -/
theorem filter_warmupSave (hk : targets.lookup k = some spId) {f : ℕ} (hf : f + 2 < 2 ^ 32) :
    (warmupSave targets f).toList.filter (·.target = k)
      = if f + 2 = k.toNat then [saveFor k spId] else [] := by
  have hval : (BitVec.ofNat 32 (f + 2)).toNat = f + 2 := by
    rw [BitVec.toNat_ofNat, Nat.mod_eq_of_lt hf]
  by_cases heq : f + 2 = k.toNat
  · have hof : BitVec.ofNat 32 (f + 2) = k := BitVec.eq_of_toNat_eq (hval.trans heq)
    have hprev : BitVec.ofNat 32 (f + 1) = k - 1 := by
      rw [← hof, BitVec.eq_sub_iff_add_eq]
      exact (BitVec.ofNat_add (f + 1) 1).symm
    have h0 : k ≠ 0 := by
      rintro rfl
      cases heq
    rw [if_pos heq, warmupSave, hof, hk, hprev, saveFor, if_neg h0]
    simp
  · rw [if_neg heq, List.filter_eq_nil_iff]
    intro r hr
    obtain ⟨sp, -, rfl⟩ := Option.map_eq_some_iff.mp (Option.mem_toList.mp hr)
    simp only [decide_eq_true_eq]
    rintro rfl
    exact heq hval.symm

/-- Each target but 1 is requested once, when its warm-up starts. -/
theorem filter_savesUpTo (hn : n + 2 ≤ 2 ^ 32) (hk : targets.lookup k = some spId) :
    (savesUpTo targets n).filter (·.target = k)
      = if k.toNat ≠ 1 ∧ k.toNat ≤ n + 1 then [saveFor k spId] else [] := by
  induction n with
  | zero =>
    rw [savesUpTo, List.range_zero, List.filterMap_nil, List.append_nil, filter_firstSave hk]
    exact if_congr (by omega) rfl rfl
  | succ n ih =>
    rw [savesUpTo_succ, List.filter_append, ih (by omega), filter_warmupSave hk (by omega)]
    split_ifs <;> first | rfl | omega

/-! ### Turns -/

/-- The largest target is at most a number that is a target. -/
theorem Targets.largest_eq {m : ℕ} (hm : targets.largest = some m) (hk : k ∈ targets)
    (hle : m ≤ k.toNat) : targets.largest = some k.toNat := by
  have hmax := (List.max?_eq_some_iff.mp hm).2 k.toNat (List.mem_map_of_mem hk)
  rw [hm, Nat.le_antisymm hle hmax]

/-- The largest target has been requested. -/
def LargestSaved (targets : Targets) (saved : List SaveRequest) : Prop :=
  ∃ m, targets.largest = some m ∧ ∃ r ∈ saved, r.target.toNat = m

namespace Exec

/-- **What a boundary requests**: the warm-up of the target after the interval that starts.
The run is stopped if that is the largest one. -/
theorem lookAhead_saves (targets : Targets) (hn : e.finishedIntervals = BitVec.ofNat 32 (n + 1))
    (hend : e.cpu.simEnd = false) :
    (e.lookAhead targets).saved = e.saved ++ (warmupSave targets n).toList ∧
      ((e.lookAhead targets).cpu.simEnd = true →
        LargestSaved targets (e.lookAhead targets).saved) := by
  have hid : e.finishedIntervals + 1 = BitVec.ofNat 32 (n + 2) := by
    rw [hn]
    exact (BitVec.ofNat_add (n + 1) 1).symm
  unfold lookAhead
  dsimp only
  rw [hid, hn, warmupSave]
  -- the interval after the next is a target, or not
  rcases hlookup : targets.lookup (BitVec.ofNat 32 (n + 2)) with - | spId
  · refine ⟨(List.append_nil _).symm, ?_⟩
    intro h
    rw [hend] at h
    cases h
  · have hmem : BitVec.ofNat 32 (n + 2) ∈ targets := AList.lookup_isSome.mp (by rw [hlookup]; rfl)
    dsimp only
    split_ifs with hlargest
    · refine ⟨rfl, ?_⟩
      intro _
      obtain ⟨m, hm, hle⟩ := Option.any_eq_true _ _ |>.mp hlargest
      exact ⟨_, Targets.largest_eq hm hmem (of_decide_eq_true hle), _,
        List.mem_append_right _ (List.mem_singleton.mpr rfl), rfl⟩
    · refine ⟨rfl, ?_⟩
      intro h
      rw [saveCheckpoint] at h
      rw [hend] at h
      cases h

/-- **What a boundary does to the requests**, where the interval number does not wrap around. -/
theorem boundary_saves (hn : e.finishedIntervals.toNat + 2 < 2 ^ 32) (hend : e.cpu.simEnd = false)
    (hsaved : e.saved = savesUpTo targets e.finishedIntervals.toNat) :
    (e.boundary .genCheckpoint targets).finishedIntervals.toNat ≤ e.finishedIntervals.toNat + 1 ∧
      (e.boundary .genCheckpoint targets).saved
        = savesUpTo targets (e.boundary .genCheckpoint targets).finishedIntervals.toNat ∧
      ((e.boundary .genCheckpoint targets).cpu.simEnd = true →
        LargestSaved targets (e.boundary .genCheckpoint targets).saved) := by
  have hone : (1 : BitVec 32).toNat = 1 := rfl
  have hnext : (e.finishedIntervals + 1).toNat = e.finishedIntervals.toNat + 1 := by
    rw [BitVec.toNat_add_of_lt (by omega), hone]
  have hof : e.finishedIntervals + 1 = BitVec.ofNat 32 (e.finishedIntervals.toNat + 1) := by
    refine BitVec.eq_of_toNat_eq ?_
    rw [hnext, BitVec.toNat_ofNat, Nat.mod_eq_of_lt (by omega)]
  -- at a boundary the look-ahead is one request, and elsewhere there is none
  unfold boundary
  split_ifs with hboundary
  · dsimp only
    obtain ⟨hlook, hstop⟩ := lookAhead_saves (e := { e with
      finishedIntervals := e.finishedIntervals + 1 }) targets hof hend
    obtain ⟨saved, ends, hframe⟩ :=
      lookAhead_frame targets { e with finishedIntervals := e.finishedIntervals + 1 }
    rw [hframe] at hlook hstop ⊢
    dsimp only at hlook hstop ⊢
    refine ⟨Nat.le_of_eq hnext, ?_, hstop⟩
    rw [hlook, hnext, savesUpTo_succ, hsaved]
  · refine ⟨Nat.le_succ _, hsaved, ?_⟩
    intro hstop
    rw [hend] at hstop
    cases hstop

end Exec

/-! ### The invariant -/

/-- What has been requested when the loop tests its condition. -/
structure Requested (targets : Targets) (e₀ e : Exec) : Prop where
  paced : e.Paced
  few : e.finishedIntervals.toNat ≤ 100000
  saved : e.saved = savesUpTo targets e.finishedIntervals.toNat
  /-- The loop is stopped after the request for the largest target. -/
  stopped : e₀.cpu.simEnd = false → e.cpu.simEnd = true → LargestSaved targets e.saved

/-- What the loop starts with in mode `GEN_CHECKPOINT`. -/
theorem requested_start {u : Exec} (hmode : cfg.mode = .genCheckpoint)
    (h : u.start cfg = some (targets, e₀)) : Requested targets e₀ e₀ where
  paced := Exec.paced_of_not_finished (Exec.start_finished h)
  few := by
    rw [Exec.start_finished h]
    exact Nat.zero_le _
  saved := by
    rw [Exec.start_finished h]
    unfold Exec.start at h
    rw [hmode] at h
    obtain ⟨lines, -, h⟩ := Option.map_eq_some_iff.mp h
    dsimp only at h
    split at h
    · next spId hlookup =>
      obtain ⟨rfl, rfl⟩ := Prod.mk.inj h
      show _ = firstSave (loadSimpoints lines) ++ []
      rw [List.append_nil, firstSave, hlookup]
      rfl
    · next hlookup =>
      obtain ⟨rfl, rfl⟩ := Prod.mk.inj h
      show _ = firstSave (loadSimpoints lines) ++ []
      rw [List.append_nil, firstSave, hlookup]
      rfl
  stopped h₀ h := by
    rw [h₀] at h
    cases h

/-- **One turn** requests the warm-up that starts, if any. -/
theorem Requested.turn (hmode : cfg.mode = .genCheckpoint) (h : Requested targets e₀ e)
    (hrun : e.running = true) (hturn : e.turn cfg targets = .next e') :
    Requested targets e₀ e' := by
  obtain ⟨-, ht⟩ := Exec.running_iff.mp hrun
  have hpaced := (Exec.turn_paced h.paced hrun hturn).1
  obtain ⟨cpu, r, hcpu, hend, rfl⟩ := Exec.turn_next hturn
  obtain ⟨hfinished, hsaved, hsimEnd, -, -⟩ := Exec.afterStep_count e cfg.mode cpu
  have hlt := h.paced.finished_lt (Nat.le_of_lt ht)
  rw [hmode] at hfinished hsaved hsimEnd hpaced ⊢
  obtain ⟨hfew, hsave, hstop⟩ := Exec.boundary_saves
    (e := { e.afterStep .genCheckpoint cpu with restoredInstCount := r })
    (by rw [hfinished]; omega) (hsimEnd.trans hend) (by rw [hsaved, hfinished]; exact h.saved)
  refine ⟨hpaced, ?_, hsave, fun _ => hstop⟩
  rw [hfinished] at hfew
  omega

/-- **What a run has requested**, whenever the loop tests its condition. -/
theorem Reaches.requested {u : Exec} (hmode : cfg.mode = .genCheckpoint)
    (hstart : u.start cfg = some (targets, e₀)) (h : Reaches cfg targets e₀ e) :
    Requested targets e₀ e := by
  induction h with
  | refl => exact requested_start hmode hstart
  | next h hrun hturn ih => exact ih.turn hmode hrun hturn

/-! ### Every target -/

/-- The run has passed the boundaries at which the warm-ups of all targets start. -/
def PassedAll (targets : Targets) (e : Exec) : Prop :=
  ∀ k ∈ targets, k.toNat ≤ e.finishedIntervals.toNat + 1

/-- Every target gets its checkpoint: one request for each target, at the start of its
warm-up interval, and for nothing else; and the run is not stopped before the request for
the largest target. -/
structure EveryTargetSaved (targets : Targets) (e₀ e : Exec) : Prop where
  once : ∀ k spId, targets.lookup k = some spId →
    e.saved.filter (·.target = k) = [saveFor k spId]
  only : ∀ r ∈ e.saved, r.target ∈ targets
  notBefore : e₀.cpu.simEnd = false → e.cpu.simEnd = true → LargestSaved targets e.saved

/-- The target 1 does not get its checkpoint. -/
theorem Requested.not_saved (h : Requested targets e₀ e) (hone : 1 ∈ targets) :
    ¬ EveryTargetSaved targets e₀ e := by
  intro hall
  have hfew := h.few
  obtain ⟨spId, hspId⟩ := Option.isSome_iff_exists.mp (AList.lookup_isSome.mpr hone)
  have honce := hall.once 1 spId hspId
  rw [h.saved, filter_savesUpTo (by omega) hspId, if_neg fun h => h.1 rfl] at honce
  cases honce

/-- **In a run that gets far enough, every target gets its checkpoint just if interval 1 is
no target.** -/
theorem every_target_saved_iff {u : Exec} (hmode : cfg.mode = .genCheckpoint)
    (hstart : u.start cfg = some (targets, e₀)) (h : Reaches cfg targets e₀ e)
    (hpassed : PassedAll targets e) : EveryTargetSaved targets e₀ e ↔ 1 ∉ targets := by
  have hreq := h.requested hmode hstart
  have hfew := hreq.few
  constructor
  · intro hall hone
    exact hreq.not_saved hone hall
  · intro hone
    refine ⟨?_, ?_, hreq.stopped⟩
    · intro k spId hk
      have hmem : k ∈ targets := AList.lookup_isSome.mp (by rw [hk]; rfl)
      have hne : k.toNat ≠ 1 := by
        intro hval
        obtain rfl : k = 1 := BitVec.eq_of_toNat_eq hval
        exact hone hmem
      rw [hreq.saved, filter_savesUpTo (by omega) hk, if_pos ⟨hne, hpassed k hmem⟩]
    · intro r hr
      rw [hreq.saved] at hr
      exact (target_of_mem_savesUpTo (by omega) hr).1

/-- A points file with one line. -/
def pointsOf (intervalId spId : BitVec 32) : SimConfig :=
  { mode := .genCheckpoint, points := some [some (intervalId, spId)] }

theorem mem_loadSimpoints_singleton {i : BitVec 32} (h : k ∈ loadSimpoints [some (i, spId)]) :
    k = i :=
  ((AList.mem_insert _).mp h).resolve_right (AList.notMem_empty k)

/-- A run with target 1 requests nothing for it, however far it gets. -/
theorem target_one_not_saved :
    ∃ targets e₀, ({ cpu := .machineOf 0x00000013 } : Exec).start (pointsOf 1 7)
        = some (targets, e₀) ∧ PassedAll targets e₀ ∧
      ∀ e, Reaches (pointsOf 1 7) targets e₀ e → ¬ EveryTargetSaved targets e₀ e := by
  refine ⟨_, _, rfl, ?_, ?_⟩
  · intro k hk
    obtain rfl := mem_loadSimpoints_singleton hk
    decide
  · intro e h
    exact (h.requested rfl rfl).not_saved (by decide)

/-- A branch to itself in user mode, one instruction before the end of an interval. -/
def beforeBoundary : Exec where
  cpu := { Cpu.machineOf 0x00000063 with privilege := 0 }
  intervalInstCount := 9999999

/-- The branch ends the first interval, and the boundary requests the checkpoint of target
2. -/
theorem every_target_saved_iff_two :
    ∃ targets e₀ e, beforeBoundary.start (pointsOf 2 7) = some (targets, e₀) ∧
      Reaches (pointsOf 2 7) targets e₀ e ∧ e.saved = [⟨7, 2, true, 1⟩] ∧
      EveryTargetSaved targets e₀ e := by
  have hstart : beforeBoundary.start (pointsOf 2 7)
      = some (loadSimpoints [some (2, 7)], beforeBoundary) := rfl
  have hrun : ((beforeBoundary.turn (pointsOf 2 7) (loadSimpoints [some (2, 7)])).goesOn.map
      fun e => (e.saved, e.finishedIntervals)) = some ([⟨7, 2, true, 1⟩], 1) := by
    decide +kernel
  obtain ⟨e, hturn, hfields⟩ := Option.map_eq_some_iff.mp hrun
  rw [Turn.goesOn_eq_some] at hturn
  obtain ⟨hsaved, hfinished⟩ := Prod.mk.inj hfields
  have hreach : Reaches (pointsOf 2 7) (loadSimpoints [some (2, 7)]) beforeBoundary e :=
    .next .refl (by decide +kernel) hturn
  refine ⟨_, _, e, hstart, hreach, hsaved,
    (every_target_saved_iff rfl hstart hreach fun k hk => ?_).mpr (by decide)⟩
  obtain rfl := mem_loadSimpoints_singleton hk
  rw [hfinished]
  decide

end TraceSim.Ref
