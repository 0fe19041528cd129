/-
TraceSim/Ref/Exec.lean

The functional simulation loop (`Ref_cpu::exec` in `exec.cpp`, with its helpers in
`simpoint.cpp`).

* `Exec` is the CPU with the members that only the loop uses, and the two locals of
  the loop.
* What the files of a run hold is part of its options: the lines of the points file,
  and the bytes of the checkpoint.
* `saved` is a history variable: `save_checkpoint` is a stub in this build, so its
  calls are recorded and have no effect.
* What the loop prints to the terminal is left out.
-/
import TraceSim.SimConfig
import TraceSim.Ref.Restore
import TraceSim.Ref.Step
import Mathlib.Data.List.AList

namespace TraceSim.Ref

/-! ### Options and files -/

structure SimConfig where
  mode : SimMode := .normal
  /-- Whether `bbv_output_file` can be opened. -/
  bbvOpens : Bool := true
  /-- The lines of `points_file` by the two numbers that each holds, if any; `none` where
  the file cannot be opened. -/
  points : Option (List (Option (BitVec 32 × BitVec 32))) := none
  /-- The bytes of `restore_file`. -/
  checkpoint : List (BitVec 8) := []
  maxInsts : BitVec 64 := 0

/-- The map of the targets: an interval and the number of its SimPoint. -/
abbrev Targets := AList fun _ : BitVec 32 => BitVec 32

/-- The function `load_simpoints`: a later line for an interval replaces an earlier one. -/
def loadSimpoints (lines : List (Option (BitVec 32 × BitVec 32))) : Targets :=
  lines.foldl
    (fun targets line =>
      match line with
      | none => targets
      | some (intervalId, spId) => targets.insert intervalId spId)
    ∅

/-- The largest target, if there is one. -/
def Targets.largest (targets : Targets) : Option ℕ := (targets.keys.map BitVec.toNat).max?

/-- The constant `INTERVAL_SIZE`. -/
def intervalSize : ℕ := 10000000

/-- A call of `save_checkpoint`: the parts of the file name, and the interval about to
start. -/
structure SaveRequest where
  spId : BitVec 32
  target : BitVec 32
  warmup : Bool
  interval : BitVec 32
  deriving DecidableEq, Repr

/-! ### State -/

structure Exec where
  cpu : Cpu
  -- members of `Ref_cpu`
  intervalInstCount : BitVec 64 := 0
  globalPcToId : AList fun _ : BitVec 32 => BitVec 32 := ∅
  nextBbId : BitVec 32 := 1
  bbvCounts : List (BitVec 64) := []
  bbvOpen : Bool := false
  bbvFile : List (List (ℕ × BitVec 64)) := []
  -- locals of `exec`
  finishedIntervals : BitVec 32 := 0
  restoredInstCount : BitVec 64 := 0
  saved : List SaveRequest := []

namespace Exec

variable (e : Exec)

/-! ### Basic-block vectors -/

/-- The method `resize` of a vector. -/
def resize (counts : List (BitVec 64)) (size : ℕ) : List (BitVec 64) :=
  counts.take size ++ List.replicate (size - counts.length) 0

def bbvInitFile (opens : Bool) : Exec :=
  { e with bbvOpen := opens, bbvFile := [], bbvCounts := resize e.bbvCounts 65536 }

/-- The number of a basic block: a new head gets the next one. -/
def numberBlock (head : BitVec 32) : BitVec 32 × Exec :=
  match e.globalPcToId.lookup head with
  | some bbId => (bbId, e)
  | none =>
      (e.nextBbId,
       { e with
         nextBbId := e.nextBbId + 1
         globalPcToId := e.globalPcToId.insert head e.nextBbId })

/-- The size to which the vector grows for a block that is outside. -/
def grownSize (size : ℕ) (bbId : BitVec 32) : ℕ :=
  if size * 2 ≤ bbId.toNat then (bbId + 1024).toNat else size * 2

/-- The vector, grown for a block that is outside. -/
def growCounts (counts : List (BitVec 64)) (bbId : BitVec 32) : List (BitVec 64) :=
  if bbId.toNat ≥ counts.length then resize counts (grownSize counts.length bbId) else counts

def bbvCommit : Exec :=
  let numbered := e.numberBlock e.cpu.currentBbHeadPc
  let bbId := numbered.1
  let e := numbered.2
  { e with
    bbvCounts :=
      (growCounts e.bbvCounts bbId).modify bbId.toNat (· + e.cpu.currentBbLen.setWidth 64) }

/-- The counts that `dump_bbv` prints: those that are not 0, but for entry 0. -/
def bbvLine (counts : List (BitVec 64)) : List (ℕ × BitVec 64) :=
  (counts.zipIdx.drop 1).filterMap fun p => if p.1 > 0 then some (p.2, p.1) else none

def dumpBbv : Exec :=
  if e.bbvOpen then
    { e with
      bbvFile := e.bbvFile ++ [bbvLine e.bbvCounts]
      bbvCounts := e.bbvCounts.mapIdx fun id n => if id ≥ 1 ∧ n > 0 then 0 else n }
  else e

/-! ### Checkpoints -/

/-- A call of `save_checkpoint`. -/
def saveCheckpoint (r : SaveRequest) : Exec := { e with saved := e.saved ++ [r] }

/-- A boundary in mode `GEN_CHECKPOINT`: the interval that starts is the warm-up of the
one after it. -/
def lookAhead (targets : Targets) : Exec :=
  let targetId := e.finishedIntervals + 1
  match targets.lookup targetId with
  | none => e
  | some spId =>
      let e := e.saveCheckpoint ⟨spId, targetId, true, e.finishedIntervals⟩
      if targets.largest.any (· ≤ targetId.toNat) then
        { e with cpu := { e.cpu with simEnd := true } }
      else e

/-! ### The loop -/

/-- The end of a basic block of a user program. -/
def endBlock (mode : SimMode) : Exec :=
  let e := if mode = .genBbv then e.bbvCommit else e
  { e with
    intervalInstCount := e.intervalInstCount + e.cpu.currentBbLen.setWidth 64
    cpu := { e.cpu with currentBbLen := 0 } }

/-- The check for an interval boundary. -/
def boundary (mode : SimMode) (targets : Targets) : Exec :=
  if e.intervalInstCount.toNat ≥ intervalSize then
    let e := { e with finishedIntervals := e.finishedIntervals + 1 }
    let e :=
      match mode with
      | .genBbv => e.dumpBbv
      | .genCheckpoint => e.lookAhead targets
      | _ => e
    { e with intervalInstCount := 0 }
  else e

end Exec

/-- How a turn of the loop ends. -/
inductive Turn
  /-- The process exits. -/
  | exit
  /-- The loop is left by a `break`. -/
  | leave (e : Exec)
  | next (e : Exec)

/-- The state in which the loop goes on after the turn. -/
def Turn.goesOn : Turn → Option Exec
  | .next e => some e
  | _ => none

theorem Turn.goesOn_eq_some {t : Turn} {e : Exec} : t.goesOn = some e ↔ t = .next e := by
  cases t with
  | exit => simp [goesOn]
  | leave u => simp [goesOn]
  | next u => simp [goesOn]

namespace Exec

variable (e : Exec)

/-- The CPU has executed an instruction: the time, and the end of a block. -/
def afterStep (mode : SimMode) (cpu : Cpu) : Exec :=
  let e := { e with cpu := { cpu with simTime := cpu.simTime + 1 } }
  if cpu.privilege = 0 ∧ cpu.isBr = true then e.endBlock mode else e

/-- One turn of the loop. -/
def turn (cfg : SimConfig) (targets : Targets) : Turn :=
  match e.cpu.riscv with
  | none => .exit
  | some cpu =>
      if cpu.simEnd then .leave { e with cpu := cpu }
      else
        let e := e.afterStep cfg.mode cpu
        if cfg.mode = .restore ∧ cfg.maxInsts > 0 then
          let e := { e with restoredInstCount := e.restoredInstCount + 1 }
          if e.restoredInstCount ≥ cfg.maxInsts then .leave e
          else .next (e.boundary cfg.mode targets)
        else .next (e.boundary cfg.mode targets)

/-- The condition of the loop. -/
def running : Bool := !e.cpu.simEnd && decide (e.cpu.simTime.toNat < maxSimTime)

/-- What comes before the loop: the targets and the state in which the loop starts. -/
def start (cfg : SimConfig) : Option (Targets × Exec) :=
  let e := { e with finishedIntervals := 0, restoredInstCount := 0, saved := [] }
  match cfg.mode with
  | .genCheckpoint =>
      cfg.points.map fun lines =>
        let targets := loadSimpoints lines
        match targets.lookup 0 with
        -- interval 0 has no warm-up
        | some spId => (targets, e.saveCheckpoint ⟨spId, 0, false, 0⟩)
        | none => (targets, e)
  | .genBbv => some (∅, e.bbvInitFile cfg.bbvOpens)
  | .restore =>
      (e.cpu.restoreCheckpoint.run cfg.checkpoint).map fun r => (∅, { e with cpu := r.1 })
  | _ => some (∅, e)

/-- The loop, for at most `n` turns. -/
def loop (cfg : SimConfig) (targets : Targets) : ℕ → Exec → Option Exec
  | 0, e => some e
  | n + 1, e =>
      if e.running then
        match e.turn cfg targets with
        | .exit => none
        | .leave e => some e
        | .next e => loop cfg targets n e
      else some e

/-- The method `exec`; `none` is an exit of the process. -/
def exec (cfg : SimConfig) : Option Exec := do
  let (targets, e) ← e.start cfg
  -- every turn that goes on takes one unit of time
  let e ← e.loop cfg targets maxSimTime
  if e.cpu.simTime.toNat ≥ maxSimTime then none
  else if cfg.mode = .genBbv then some { e with bbvOpen := false }
  else some e

end Exec

/-! ### Runs -/

/-- The states in which the loop tests its condition, from the state `e₀` on. -/
inductive Reaches (cfg : SimConfig) (targets : Targets) (e₀ : Exec) : Exec → Prop
  | refl : Reaches cfg targets e₀ e₀
  | next {e e' : Exec} : Reaches cfg targets e₀ e → e.running = true →
      e.turn cfg targets = .next e' → Reaches cfg targets e₀ e'

/-- The states after a turn, whether the loop goes on or is left. -/
def Turned (cfg : SimConfig) (targets : Targets) (e₀ e' : Exec) : Prop :=
  ∃ e, Reaches cfg targets e₀ e ∧ e.running = true ∧
    (e.turn cfg targets = .next e' ∨ e.turn cfg targets = .leave e')

namespace Exec

variable {cfg : SimConfig} {targets : Targets} {e e' : Exec}

/-! ### What a turn does -/

/-- A turn after which the loop goes on. -/
theorem turn_next (h : e.turn cfg targets = .next e') :
    ∃ cpu r, e.cpu.riscv = some cpu ∧ cpu.simEnd = false ∧
      e' = { e.afterStep cfg.mode cpu with restoredInstCount := r }.boundary cfg.mode targets := by
  unfold turn at h
  split at h
  · cases h
  · next cpu hcpu =>
    dsimp only at h
    split_ifs at h with hend hrestore hmax
    · obtain rfl := Turn.next.inj h
      exact ⟨cpu, _, hcpu, by simpa using hend, rfl⟩
    · obtain rfl := Turn.next.inj h
      exact ⟨cpu, (e.afterStep cfg.mode cpu).restoredInstCount, hcpu, by simpa using hend, rfl⟩

/-- A turn that leaves the loop: the program has ended, or enough instructions of a
restored program are executed. -/
theorem turn_leave (h : e.turn cfg targets = .leave e') :
    ∃ cpu, e.cpu.riscv = some cpu ∧
      (e' = { e with cpu := cpu } ∨
        cfg.mode = .restore ∧
          ∃ r, e' = { e.afterStep cfg.mode cpu with restoredInstCount := r }) := by
  unfold turn at h
  split at h
  · cases h
  · next cpu hcpu =>
    dsimp only at h
    split_ifs at h with hend hrestore hmax
    · obtain rfl := Turn.leave.inj h
      exact ⟨cpu, hcpu, .inl rfl⟩
    · obtain rfl := Turn.leave.inj h
      exact ⟨cpu, hcpu, .inr ⟨hrestore.1, _, rfl⟩⟩

theorem running_iff :
    e.running = true ↔ e.cpu.simEnd = false ∧ e.cpu.simTime.toNat < maxSimTime := by
  rw [running, Bool.and_eq_true, Bool.not_eq_true', decide_eq_true_iff]

end Exec

end TraceSim.Ref
