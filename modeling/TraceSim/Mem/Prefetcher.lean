/-
TraceSim/Mem/Prefetcher.lean

Prefetchers (`trace_sim/mem/Prefetcher.h`).

The memory subsystem asks a prefetcher one thing: which addresses to fetch
after a demand access.  The virtual class `CachePrefetcher` is therefore a type
class over the prefetcher's own state, and everything above it is generic in
that state.  The four prefetchers of the header are one type with an instance.
-/
import TraceSim.SimConfig
import Mathlib.Logic.Function.Basic

namespace TraceSim

/-- What a prefetcher is told of a demand access. -/
structure PrefetcherAccessInfo where
  pc : BitVec 32 := 0
  addr : BitVec 32 := 0
  lineSize : BitVec 32 := 0
  isInstruction : Bool := false
  isLoad : Bool := false
  isStore : Bool := false
  hit : Bool := false
  miss : Bool := false
  deriving DecidableEq, Repr

/-- An address that a prefetcher asks for. -/
structure PrefetchRequest where
  addr : BitVec 32 := 0
  deriving DecidableEq, Repr

/-- The interface `CachePrefetcher`: an access updates the prefetcher and
yields candidate addresses. -/
class CachePrefetcher (P : Type) where
  onAccess : P → PrefetcherAccessInfo → List PrefetchRequest × P

/-- The first address of the line that holds `addr`. -/
def lineAddr (addr lineSize : BitVec 32) : BitVec 32 :=
  addr &&& ~~~(lineSize - 1)

/-! ### The stride table -/

/-- What is known of the accesses of one pc. -/
structure StrideEntry where
  lastLineAddr : BitVec 32 := 0
  lastStride : BitVec 32 := 0
  confidence : ℕ := 0
  valid : Bool := false
  deriving DecidableEq, Repr

/-- From here on a stride is trusted. -/
def kTriggerConfidence : ℕ := 2

/-- Here the confidence saturates. -/
def kMaxConfidence : ℕ := 3

/-- State of `PcStridePrefetcher`.  A pc without an entry has the default one,
which is what `table[pc]` inserts. -/
abbrev StrideTable := BitVec 32 → StrideEntry

/-- What a line address does to the entry of its pc, and the candidate it
yields.  Strides are 32-bit words, so that the signed subtraction and addition
of the source are those of two's complement. -/
def StrideEntry.observe (entry : StrideEntry) (line : BitVec 32) :
    Option PrefetchRequest × StrideEntry :=
  if !entry.valid then
    (none, { valid := true, lastLineAddr := line, lastStride := 0, confidence := 0 })
  else
    let stride := line - entry.lastLineAddr
    if stride = 0 then (none, entry)
    else
      let trained :=
        if stride = entry.lastStride then
          { entry with
            confidence :=
              if entry.confidence < kMaxConfidence then entry.confidence + 1
              else entry.confidence }
        else { entry with lastStride := stride, confidence := 0 }
      let moved := { trained with lastLineAddr := line }
      if moved.confidence ≥ kTriggerConfidence then (some ⟨line + stride⟩, moved)
      else (none, moved)

/-- The method `PcStridePrefetcher::on_access`. -/
def StrideTable.onAccess (table : StrideTable) (info : PrefetcherAccessInfo) :
    List PrefetchRequest × StrideTable :=
  if info.pc = 0 ∨ info.lineSize = 0 then ([], table)
  else
    let (candidate, entry) :=
      (table info.pc).observe (lineAddr info.addr info.lineSize)
    (candidate.toList, Function.update table info.pc entry)

/-! ### The built-in prefetchers -/

/-- The prefetchers of the header, with the state of the one that learns. -/
inductive BuiltinPrefetcher
  | null
  | nextLine
  | pcStride (table : StrideTable)
  | template

namespace BuiltinPrefetcher

/-- The method `on_access`: the requests, and the prefetcher afterwards. -/
def onAccess : BuiltinPrefetcher → PrefetcherAccessInfo →
    List PrefetchRequest × BuiltinPrefetcher
  | null, _ => ([], null)
  | nextLine, info => ([⟨lineAddr info.addr info.lineSize + info.lineSize⟩], nextLine)
  | pcStride table, info =>
      let (requests, table') := table.onAccess info
      (requests, pcStride table')
  | template, info =>
      if info.lineSize = 0 then ([], template)
      else if info.miss then
        ([⟨lineAddr info.addr info.lineSize + info.lineSize⟩], template)
      else ([], template)

instance : CachePrefetcher BuiltinPrefetcher := ⟨onAccess⟩

end BuiltinPrefetcher

/-- The factory. -/
def makePrefetcher : PrefetcherType → BuiltinPrefetcher
  | .nextLine => .nextLine
  | .pcStride => .pcStride fun _ => {}
  | .none => .null

end TraceSim
