/-
TraceSim/SimConfig.lean

The compile-time configuration of the simulator (`trace_sim/SimConfig.h`).

The enumerations and the latencies are the header's own, and fixed.  The other
constants of the header (cache geometries, MSHR and queue sizes, widths of the
pipeline) are fields of a configuration record, in the module that uses them:
the results hold for every value of such a field, and the shipped value is its
default or stands in the record of the shipped configuration.
-/
import Mathlib.Algebra.GroupWithZero.Nat
import Mathlib.Tactic.Common

namespace TraceSim

/-! ### Choices -/

/-- Which branch predictor the front end asks (`BP_Type`). -/
inductive BpType
  | gshare
  | alwaysTaken
  | alwaysNotTaken
  | probabilistic
  | perfect
  deriving DecidableEq, Repr

/-- The replacement policies that the factory knows. -/
inductive ReplacementPolicyType
  | lru
  | fifo
  deriving DecidableEq, Repr

/-- The prefetchers that the factory knows; `none` gives one that requests nothing. -/
inductive PrefetcherType
  | none
  | nextLine
  | pcStride
  deriving DecidableEq, Repr

/-- What a load knows of the older stores: it waits until their addresses are known, or
takes them from the trace. -/
inductive MemDepModel
  | conservativeStaVisible
  | oracleStlf
  deriving DecidableEq, Repr

/-- The run modes of `include/ref.h`. -/
inductive SimMode
  | normal
  | genBbv
  | genCheckpoint
  | restore
  | trace
  deriving DecidableEq, Repr

/-! ### Latencies, in cycles -/

/-- What an op of the ALU queue takes, a trap included. -/
def aluLatency : ℕ := 1

/-- A hit of the D-cache. -/
def lduLatency : ℕ := 3

/-- What an op of the branch queue takes. -/
def bruLatency : ℕ := 1

/-- The address part of a store. -/
def staLatency : ℕ := 1

/-- The data part of a store. -/
def stdLatency : ℕ := 1

/-- The fetch stall behind a branch that was predicted wrongly. -/
def branchMispredictPenalty : ℕ := 10

/-- The fetch stall behind a branch that was predicted taken. -/
def fetchRedirectLatency : ℕ := 1

/-- A hit of the last level. -/
def llcHitLatency : ℕ := 12

/-- What a miss of the last level costs on top of its hit latency. -/
def memoryMissPenalty : ℕ := 120

/-- The constant `kIcacheHitLatency` of `MemSubsystem.cpp`. -/
def icacheHitLatency : ℕ := 0

/-- The constant `MAX_SIM_TIME` of `include/ref.h`. -/
def maxSimTime : ℕ := 500000000000

end TraceSim
