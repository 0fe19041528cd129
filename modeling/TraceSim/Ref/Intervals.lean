/-
TraceSim/Ref/Intervals.lean

The pace of the simulation loop.

Each turn takes one unit of time and counts at most one instruction, and an interval
takes `intervalSize` instructions.  So the intervals that are finished, the one that is
running and the block that is being counted are never ahead of the time
(`Exec.Paced`).  The time is bounded, so the number of an interval does not wrap
around, and the loop ends.
-/
import TraceSim.Ref.Exec
import TraceSim.Ref.Bookkeeping

namespace TraceSim.Ref

namespace Exec

variable {cfg : SimConfig} {targets : Targets} {e e' : Exec} {cpu : Cpu} {mode : SimMode}

/-! ### Frames -/

/-- What neither a basic-block vector nor a checkpoint is about. -/
theorem bbvCommit_frame (e : Exec) :
    ∃ ids next counts, e.bbvCommit
      = { e with globalPcToId := ids, nextBbId := next, bbvCounts := counts } := by
  unfold bbvCommit numberBlock
  split
  · exact ⟨_, _, _, rfl⟩
  · exact ⟨_, _, _, rfl⟩

theorem dumpBbv_frame (e : Exec) :
    ∃ file counts, e.dumpBbv = { e with bbvFile := file, bbvCounts := counts } := by
  unfold dumpBbv
  split_ifs
  · exact ⟨_, _, rfl⟩
  · exact ⟨_, _, rfl⟩

theorem lookAhead_frame (targets : Targets) (e : Exec) :
    ∃ saved ends, e.lookAhead targets
      = { e with saved := saved, cpu := { e.cpu with simEnd := ends } } := by
  unfold lookAhead
  dsimp only
  split
  · exact ⟨e.saved, e.cpu.simEnd, rfl⟩
  · split_ifs
    · exact ⟨_, _, rfl⟩
    · exact ⟨_, e.cpu.simEnd, rfl⟩

/-- The instruction count of the interval after an instruction. -/
theorem afterStep_count (e : Exec) (mode : SimMode) (cpu : Cpu) :
    (e.afterStep mode cpu).finishedIntervals = e.finishedIntervals ∧
      (e.afterStep mode cpu).saved = e.saved ∧
      (e.afterStep mode cpu).cpu.simEnd = cpu.simEnd ∧
      (e.afterStep mode cpu).cpu.simTime = cpu.simTime + 1 ∧
      ((e.afterStep mode cpu).intervalInstCount = e.intervalInstCount ∧
          (e.afterStep mode cpu).cpu.currentBbLen = cpu.currentBbLen ∨
        (e.afterStep mode cpu).intervalInstCount
            = e.intervalInstCount + cpu.currentBbLen.setWidth 64 ∧
          (e.afterStep mode cpu).cpu.currentBbLen = 0) := by
  unfold afterStep endBlock
  dsimp only
  split_ifs with hblock hmode
  · obtain ⟨ids, next, counts, hframe⟩ := bbvCommit_frame
      { e with cpu := { cpu with simTime := cpu.simTime + 1 } }
    rw [hframe]
    exact ⟨rfl, rfl, rfl, rfl, .inr ⟨rfl, rfl⟩⟩
  · exact ⟨rfl, rfl, rfl, rfl, .inr ⟨rfl, rfl⟩⟩
  · exact ⟨rfl, rfl, rfl, rfl, .inl ⟨rfl, rfl⟩⟩

/-- The instruction count of the interval after the check for a boundary. -/
theorem boundary_count (e : Exec) (mode : SimMode) (targets : Targets) :
    (e.boundary mode targets).cpu.simTime = e.cpu.simTime ∧
      (e.boundary mode targets).cpu.currentBbLen = e.cpu.currentBbLen ∧
      (if intervalSize ≤ e.intervalInstCount.toNat then
        (e.boundary mode targets).finishedIntervals = e.finishedIntervals + 1 ∧
          (e.boundary mode targets).intervalInstCount = 0
      else e.boundary mode targets = e) := by
  unfold boundary
  split_ifs with hboundary
  · dsimp only
    split
    · obtain ⟨file, counts, hframe⟩ :=
        dumpBbv_frame { e with finishedIntervals := e.finishedIntervals + 1 }
      rw [hframe]
      exact ⟨rfl, rfl, rfl, rfl⟩
    · obtain ⟨saved, ends, hframe⟩ :=
        lookAhead_frame targets { e with finishedIntervals := e.finishedIntervals + 1 }
      rw [hframe]
      exact ⟨rfl, rfl, rfl, rfl⟩
    · exact ⟨rfl, rfl, rfl, rfl⟩
  · exact ⟨rfl, rfl, rfl⟩

/-! ### The pace -/

/-- The instructions that are counted. -/
def counted (e : Exec) : ℕ :=
  e.finishedIntervals.toNat * intervalSize + min e.intervalInstCount.toNat intervalSize
    + e.cpu.currentBbLen.toNat

/-- The instructions that may have been counted before the loop. -/
def headStart : ℕ := intervalSize + 2 ^ 32

/-- The counted instructions are not ahead of the time. -/
def Paced (e : Exec) : Prop := e.counted ≤ e.cpu.simTime.toNat + headStart

theorem paced_of_not_finished (h : e.finishedIntervals = 0) : e.Paced := by
  have hlen := e.cpu.currentBbLen.isLt
  have hzero : e.finishedIntervals.toNat = 0 := by
    rw [h]
    rfl
  unfold Paced counted headStart
  rw [hzero, Nat.zero_mul]
  omega

/-- The number of an interval is small. -/
theorem Paced.finished_lt (h : e.Paced) (ht : e.cpu.simTime.toNat ≤ maxSimTime) :
    e.finishedIntervals.toNat < 100000 := by
  unfold Paced counted headStart maxSimTime intervalSize at *
  omega

theorem beginStep_currentBbLen (s : Cpu) :
    s.beginStep.currentBbLen
      = if s.privilege = 0 then s.currentBbLen + 1 else s.currentBbLen := by
  unfold Cpu.beginStep
  dsimp only
  split
  · rfl
  · rfl

theorem currentBbLen_le {s s' : Cpu} (h : s.riscv = some s') :
    s'.currentBbLen.toNat ≤ s.currentBbLen.toNat + 1 := by
  obtain ⟨-, hlen, -⟩ := riscv_block h
  rw [hlen, beginStep_currentBbLen]
  split_ifs
  · rw [BitVec.toNat_add]
    exact Nat.mod_le _ _
  · exact Nat.le_succ _

/-- The time after a turn. -/
theorem afterStep_simTime (mode : SimMode) (h : e.cpu.riscv = some cpu)
    (ht : e.cpu.simTime.toNat < maxSimTime) :
    (e.afterStep mode cpu).cpu.simTime.toNat = e.cpu.simTime.toNat + 1 := by
  obtain ⟨-, -, -, htime, -⟩ := afterStep_count e mode cpu
  obtain ⟨-, -, hclock⟩ := riscv_block h
  have hone : (1 : BitVec 64).toNat = 1 := rfl
  unfold maxSimTime at ht
  rw [htime, hclock, BitVec.toNat_add_of_lt (by omega), hone]

/-- An instruction is counted once. -/
theorem afterStep_paced (mode : SimMode) (he : e.Paced) (h : e.cpu.riscv = some cpu)
    (ht : e.cpu.simTime.toNat < maxSimTime) : (e.afterStep mode cpu).Paced := by
  have htime := afterStep_simTime mode h ht
  have hlen := currentBbLen_le h
  obtain ⟨hfinished, -, -, -, hcount⟩ := afterStep_count e mode cpu
  unfold Paced counted at he ⊢
  rw [htime, hfinished]
  rcases hcount with ⟨hinterval, hblock⟩ | ⟨hinterval, hblock⟩
  · rw [hinterval, hblock]
    omega
  · have hzero : (0 : BitVec 32).toNat = 0 := rfl
    have hadd : (e.intervalInstCount + cpu.currentBbLen.setWidth 64).toNat
        ≤ e.intervalInstCount.toNat + cpu.currentBbLen.toNat := by
      have hwide : (cpu.currentBbLen.setWidth 64).toNat = cpu.currentBbLen.toNat := by
        have hlt := cpu.currentBbLen.isLt
        rw [BitVec.toNat_setWidth, Nat.mod_eq_of_lt (by omega)]
      rw [BitVec.toNat_add, hwide]
      exact Nat.mod_le _ _
    rw [hinterval, hblock, hzero]
    omega

/-- A boundary moves the instructions of the interval to the finished ones. -/
theorem boundary_paced (he : e.Paced) (ht : e.cpu.simTime.toNat ≤ maxSimTime) :
    (e.boundary mode targets).Paced ∧
      (intervalSize ≤ e.intervalInstCount.toNat →
        (e.boundary mode targets).finishedIntervals.toNat = e.finishedIntervals.toNat + 1) := by
  obtain ⟨htime, hlen, hcount⟩ := boundary_count e mode targets
  have hlt := he.finished_lt ht
  split_ifs at hcount with hboundary
  · obtain ⟨hfinished, hinterval⟩ := hcount
    have hnext : (e.finishedIntervals + 1).toNat = e.finishedIntervals.toNat + 1 := by
      have hone : (1 : BitVec 32).toNat = 1 := rfl
      rw [BitVec.toNat_add_of_lt (by omega), hone]
    have hzero : (0 : BitVec 64).toNat = 0 := rfl
    refine ⟨?_, fun _ => by rw [hfinished, hnext]⟩
    unfold Paced counted at he ⊢
    rw [htime, hlen, hfinished, hinterval, hnext, hzero, Nat.succ_mul]
    omega
  · rw [hcount]
    exact ⟨he, fun h => absurd h hboundary⟩

/-- **A turn keeps the pace**, and takes one unit of time. -/
theorem turn_paced (he : e.Paced) (hrun : e.running = true)
    (h : e.turn cfg targets = .next e') :
    e'.Paced ∧ e'.cpu.simTime.toNat = e.cpu.simTime.toNat + 1 := by
  obtain ⟨-, ht⟩ := running_iff.mp hrun
  obtain ⟨cpu, r, hcpu, -, rfl⟩ := turn_next h
  have hpaced := afterStep_paced cfg.mode he hcpu ht
  have htime := afterStep_simTime cfg.mode hcpu ht
  generalize e.afterStep cfg.mode cpu = u at hpaced htime ⊢
  have hbound : u.cpu.simTime.toNat ≤ maxSimTime := by omega
  refine ⟨(boundary_paced (e := { u with restoredInstCount := r }) hpaced hbound).1, ?_⟩
  rw [(boundary_count _ cfg.mode targets).1]
  exact htime

end Exec

/-! ### Runs -/

variable {cfg : SimConfig} {targets : Targets} {e₀ e e' : Exec}

/-- **The loop keeps the pace.** -/
theorem Reaches.paced (h : Reaches cfg targets e₀ e) (h₀ : e₀.Paced) : e.Paced := by
  induction h with
  | refl => exact h₀
  | next h hrun hturn ih => exact (Exec.turn_paced ih hrun hturn).1

theorem Reaches.head (hrun : e₀.running = true) (hturn : e₀.turn cfg targets = .next e')
    (h : Reaches cfg targets e' e) : Reaches cfg targets e₀ e := by
  induction h with
  | refl => exact .next .refl hrun hturn
  | next h hrun hturn ih => exact .next ih hrun hturn

/-- The loop has ended in a state: its condition fails there, or a turn has left it. -/
def Ended (cfg : SimConfig) (targets : Targets) (e₀ e : Exec) : Prop :=
  (Reaches cfg targets e₀ e ∧ e.running = false) ∨
    ∃ u, Reaches cfg targets e₀ u ∧ u.running = true ∧ u.turn cfg targets = .leave e

namespace Exec

/-- The loop is given turns enough to end. -/
theorem loop_ended {n : ℕ} (hn : maxSimTime ≤ e.cpu.simTime.toNat + n) (he : e.Paced)
    (h : e.loop cfg targets n = some e') : Ended cfg targets e e' := by
  induction n generalizing e with
  | zero =>
    obtain rfl := Option.some.inj h
    refine .inl ⟨.refl, ?_⟩
    rw [Bool.eq_false_iff, Ne, running_iff]
    omega
  | succ n ih =>
    rw [loop] at h
    split_ifs at h with hrun
    · split at h
      · cases h
      · next u hturn =>
        obtain rfl := Option.some.inj h
        exact .inr ⟨e, .refl, hrun, hturn⟩
      · next u hturn =>
        obtain ⟨hpaced, htime⟩ := turn_paced he hrun hturn
        rcases ih (by omega) hpaced h with ⟨hreach, hend⟩ | ⟨v, hreach, hrest⟩
        · exact .inl ⟨hreach.head hrun hturn, hend⟩
        · exact .inr ⟨v, hreach.head hrun hturn, hrest⟩
    · obtain rfl := Option.some.inj h
      exact .inl ⟨.refl, by simpa using hrun⟩

theorem start_finished {e₀ : Exec} (h : e.start cfg = some (targets, e₀)) :
    e₀.finishedIntervals = 0 := by
  unfold start at h
  dsimp only at h
  split at h
  · obtain ⟨lines, -, h⟩ := Option.map_eq_some_iff.mp h
    split at h
    · obtain ⟨-, rfl⟩ := Prod.mk.inj h
      rfl
    · obtain ⟨-, rfl⟩ := Prod.mk.inj h
      rfl
  · obtain ⟨-, rfl⟩ := Prod.mk.inj (Option.some.inj h)
    rfl
  · obtain ⟨r, -, h⟩ := Option.map_eq_some_iff.mp h
    obtain ⟨-, rfl⟩ := Prod.mk.inj h
    rfl
  · obtain ⟨-, rfl⟩ := Prod.mk.inj (Option.some.inj h)
    rfl

/-- **The method `exec` is a run of the loop to its end.** -/
theorem exec_ended (h : e.exec cfg = some e') :
    ∃ targets e₀ u, e.start cfg = some (targets, e₀) ∧ Ended cfg targets e₀ u ∧
      e'.cpu = u.cpu ∧ e'.saved = u.saved ∧ e'.bbvFile = u.bbvFile := by
  unfold exec at h
  obtain ⟨⟨targets, e₀⟩, hstart, h⟩ := Option.bind_eq_some_iff.mp h
  obtain ⟨u, hloop, h⟩ := Option.bind_eq_some_iff.mp h
  have hzero := start_finished hstart
  have hended := loop_ended (Nat.le_add_left _ _) (paced_of_not_finished hzero) hloop
  refine ⟨targets, e₀, u, hstart, hended, ?_⟩
  split_ifs at h
  · obtain rfl := Option.some.inj h
    exact ⟨rfl, rfl, rfl⟩
  · obtain rfl := Option.some.inj h
    exact ⟨rfl, rfl, rfl⟩

end Exec

end TraceSim.Ref
