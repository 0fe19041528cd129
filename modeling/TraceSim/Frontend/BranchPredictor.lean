/-
TraceSim/Frontend/BranchPredictor.lean

Branch predictors (`trace_sim/frontend/BranchPredictor.h`).

As with prefetchers, the virtual class is a type class over the predictor's
state.  Two of the configured predictor types have no predictor object: the
front end asks an oracle that knows the outcome, and one of the oracles draws a
random number, which is an argument here.
-/
import TraceSim.SimConfig
import Mathlib.Logic.Function.Basic

namespace TraceSim

/-- The answer of a predictor, and what it wants back with the outcome. -/
structure Prediction where
  taken : Bool := false
  metadata : ℕ := 0
  deriving DecidableEq, Repr

/-- The interface `BranchPredictor`: both methods may change the state. -/
class BranchPredictor (B : Type) where
  predict : B → BitVec 32 → Prediction × B
  update : B → BitVec 32 → Bool → ℕ → B

/-! ### The gshare predictor -/

/-- State of `GShareBranchPredictor`.  The table of two-bit counters is a
function of the index. -/
structure GShare where
  pht : ℕ → ℕ
  history : BitVec 32
  historyMask : BitVec 32

namespace GShare

/-- All counters are weakly taken, and the history is empty. -/
def new (historyBits : ℕ) : GShare where
  pht _ := 2
  history := 0
  historyMask := (1 <<< historyBits) - 1

/-- The counter under the pc and the history decides; its index is the metadata. -/
def predict (g : GShare) (pc : BitVec 32) : Prediction :=
  let index := ((pc ^^^ g.history) &&& g.historyMask).toNat
  { taken := decide (g.pht index ≥ 2), metadata := index }

/-- The counter moves towards the outcome, which enters the history. -/
def update (g : GShare) (actualTaken : Bool) (metadata : ℕ) : GShare :=
  let index := metadata % 2 ^ 32
  let counter := g.pht index
  { g with
    pht := Function.update g.pht index <|
      if actualTaken then (if counter < 3 then counter + 1 else counter)
      else if counter > 0 then counter - 1
      else counter
    history := ((g.history <<< 1) ||| (if actualTaken then 1 else 0)) &&& g.historyMask }

end GShare

/-! ### The built-in predictors -/

/-- The predictors of the factory. -/
inductive BuiltinPredictor
  | gshare (state : GShare)
  | alwaysTaken
  | alwaysNotTaken

namespace BuiltinPredictor

def predict : BuiltinPredictor → BitVec 32 → Prediction × BuiltinPredictor
  | gshare g, pc => (g.predict pc, gshare g)
  | alwaysTaken, _ => ({ taken := true }, alwaysTaken)
  | alwaysNotTaken, _ => ({ taken := false }, alwaysNotTaken)

def update : BuiltinPredictor → BitVec 32 → Bool → ℕ → BuiltinPredictor
  | gshare g, _, taken, metadata => gshare (g.update taken metadata)
  | p, _, _, _ => p

instance : BranchPredictor BuiltinPredictor := ⟨predict, update⟩

end BuiltinPredictor

/-- The default number of history bits is 12.  The oracle types have no
predictor object; any one stands in for the null pointer, which is not used. -/
def makeBranchPredictor : BpType → BuiltinPredictor
  | .alwaysTaken => .alwaysTaken
  | .alwaysNotTaken => .alwaysNotTaken
  | _ => .gshare (GShare.new 12)

/-! ### Oracles -/

/-- These two look at the record: they answer the outcome, or the outcome with some
probability. -/
def branchPredictorUsesOracle (type : BpType) : Bool :=
  type = .probabilistic || type = .perfect

/-- The function `oracle_branch_prediction`; `random` is the value of `rand()`. -/
def oracleBranchPrediction (type : BpType) (targetAccuracy : ℕ) (actualTaken : Bool)
    (random : ℕ) : Bool :=
  match type with
  | .perfect => actualTaken
  | .probabilistic =>
      if random % 100 < targetAccuracy then actualTaken else !actualTaken
  | _ => false

end TraceSim
