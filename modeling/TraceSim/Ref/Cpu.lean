/-
TraceSim/Ref/Cpu.lean

The state of the reference CPU (`include/ref.h`) and its memory (`exec.cpp`).

* `memory` is the 1 GiB of RAM that `init` insists on, by word; `ioWords` is the
  table of the words written elsewhere below 0xC0000000.
* The process ends on an access at 0xC0000000 or above.  A function that may end
  it returns an option, and `none` is the exit.
* Of the working fields, `is_csr`, `is_io`, `io_reg_idx` and `force_sync` are
  written and never read; they are left out.
-/
import TraceSim.Ref.Csr
import TraceSim.Trace
import Mathlib.Logic.Function.Basic

namespace TraceSim.Ref

/-! ### State -/

/-- The six interrupt flags of the CPU. -/
structure Interrupts where
  mSoftware : Bool := false
  mTimer : Bool := false
  mExternal : Bool := false
  sSoftware : Bool := false
  sTimer : Bool := false
  sExternal : Bool := false
  deriving DecidableEq, Repr

structure Cpu where
  -- the structure `CPU_state`
  gpr : Fin 32 → BitVec 32
  csr : Csr → BitVec 32
  pc : BitVec 32
  storeAddr : BitVec 32
  storeData : BitVec 32
  storeStrb : BitVec 32
  store : Bool
  reserveValid : Bool
  reserveAddr : BitVec 32
  -- the members of `Ref_cpu`
  memory : BitVec 28 → BitVec 32
  ioWords : BitVec 32 → Option (BitVec 32)
  instruction : BitVec 32
  privilege : BitVec 8
  asy : Bool
  pageFaultInst : Bool
  pageFaultLoad : Bool
  pageFaultStore : Bool
  illegalException : Bool
  interrupts : Interrupts
  isBr : Bool
  brTaken : Bool
  isException : Bool
  simEnd : Bool
  simTime : BitVec 64
  currentBbHeadPc : BitVec 32
  currentBbLen : BitVec 32
  currentTrace : TraceInst

namespace Cpu

variable (s : Cpu)

def setGpr (rd : Fin 32) (v : BitVec 32) : Cpu :=
  { s with gpr := Function.update s.gpr rd v }

def setCsr (r : Csr) (v : BitVec 32) : Cpu :=
  { s with csr := Function.update s.csr r v }

/-- An update of the trace record. -/
def trace (f : TraceInst → TraceInst) : Cpu :=
  { s with currentTrace := f s.currentTrace }

/-! ### Memory -/

end Cpu

def kRamBase : BitVec 32 := 0x80000000
def kRamUpperBound : ℕ := 0xC0000000

/-- The check of `check_mem_range_or_die`: the access ends below the upper
bound.  Where it fails the process exits. -/
def checkMemRange (addr : BitVec 32) (size : ℕ) : Bool :=
  size = 0 || decide (addr.toNat + size - 1 < kRamUpperBound)

def isRamRange (addr : BitVec 32) (size : ℕ) : Bool :=
  if size = 0 ∨ addr < kRamBase then false
  else decide (addr.toNat + size - 1 < kRamUpperBound)

/-- The word that holds the byte at `addr`. -/
def wordAddr (addr : BitVec 32) : BitVec 32 := addr &&& ~~~3#32

/-- The place of a word in the RAM array. -/
def ramIndex (addr : BitVec 32) : BitVec 28 := ((addr - kRamBase) >>> 2).setWidth 28

namespace Cpu

variable (s : Cpu)

def loadWord (addr : BitVec 32) : Option (BitVec 32) :=
  if isRamRange (wordAddr addr) 4 then some (s.memory (ramIndex (wordAddr addr)))
  else if checkMemRange (wordAddr addr) 4 then
    -- a word that was never written reads as 0
    some ((s.ioWords (wordAddr addr)).getD 0)
  else none

def storeWord (addr data : BitVec 32) : Option Cpu :=
  if isRamRange (wordAddr addr) 4 then
    some { s with memory := Function.update s.memory (ramIndex (wordAddr addr)) data }
  else if checkMemRange (wordAddr addr) 4 then
    some { s with ioWords := Function.update s.ioWords (wordAddr addr) (some data) }
  else none

end Cpu

/-- The bytes a strobe selects, as a mask. -/
def strobeMask (wstrb : BitVec 32) : BitVec 32 :=
  (if wstrb.getLsbD 0 then 0xFF else 0) ||| (if wstrb.getLsbD 1 then 0xFF00 else 0)
    ||| (if wstrb.getLsbD 2 then 0xFF0000 else 0)
    ||| (if wstrb.getLsbD 3 then 0xFF000000 else 0)

/-- The word that results from writing the strobed bytes of `data` over `old`, the
word that holds `addr`. -/
def storeMerge (strb data addr old : BitVec 32) : BitVec 32 :=
  let offset := (addr &&& 3).toNat
  let mask := strobeMask (strb <<< offset)
  let wdata := data <<< (offset * 8)
  (mask &&& wdata) ||| (~~~mask &&& old)

/-! ### Devices -/

def uartBase : BitVec 32 := 0x10000000
def plicClaim : BitVec 32 := 0xc201004

/-- The number of the supervisor external interrupt in `mip` and `sip`. -/
def seip : ℕ := mipSeip

namespace Cpu

variable (s : Cpu)

/-- An action, where the condition for it holds. -/
def doIf (p : Prop) [Decidable p] (action : Cpu → Option Cpu) : Option Cpu :=
  if p then action s else some s

/-- The UART prints a byte and empties its buffer. -/
def uartPrint : Option Cpu := do
  let word ← s.loadWord uartBase
  s.storeWord uartBase (word &&& 0xffffff00)

/-- The UART raises the external interrupt, through the PLIC. -/
def uartRaise : Option Cpu := do
  let s ← s.storeWord plicClaim 0xa
  let word ← s.loadWord uartBase
  let s ← s.storeWord uartBase (word &&& 0xfff0ffff)
  let s := s.setCsr .mip (setBit (s.csr .mip) seip)
  some (s.setCsr .sip (setBit (s.csr .sip) seip))

def uartReady : Option Cpu := do
  let word ← s.loadWord uartBase
  s.storeWord uartBase ((word &&& 0xfff0ffff) ||| 0x00030000)

/-- The PLIC takes back the external interrupt. -/
def plicComplete : Option Cpu := do
  let s ← s.storeWord plicClaim 0
  let s := s.setCsr .mip (clearBit (s.csr .mip) seip)
  some (s.setCsr .sip (clearBit (s.csr .sip) seip))

/-- The hooks at the end of `store_data`, in its order. -/
def storeHooks : Option Cpu := do
  let low := s.storeData &&& 0xff
  let pAddr := s.storeAddr
  let s ← s.doIf (pAddr = uartBase) uartPrint
  let s ← s.doIf (pAddr = uartBase + 1 ∧ low = 7) uartRaise
  let s ← s.doIf (pAddr = uartBase + 1 ∧ low = 5) uartReady
  s.doIf (pAddr = plicClaim ∧ low = 0xa) plicComplete

/-- The size `store_data` checks the range for. -/
def storeSize : ℕ := if s.storeStrb = 0b1 then 1 else if s.storeStrb = 0b11 then 2 else 4

/-- The write of `store_data` itself, and the end of the reservation. -/
def storeBytes : Option Cpu := do
  let s := if s.store then { s with reserveValid := false } else s
  let oldData ← s.loadWord s.storeAddr
  s.doIf s.store fun s =>
    s.storeWord s.storeAddr (storeMerge s.storeStrb s.storeData s.storeAddr oldData)

/-- The method `store_data`. -/
def commitStoreData : Option Cpu :=
  if checkMemRange s.storeAddr s.storeSize then s.storeBytes.bind storeHooks else none

/-! ### Reset -/

/-- A CPU object with every field zero, as one of static storage is before `init`. -/
def zero : Cpu where
  gpr := fun _ => 0
  csr := fun _ => 0
  pc := 0
  storeAddr := 0
  storeData := 0
  storeStrb := 0
  store := false
  reserveValid := false
  reserveAddr := 0
  memory := fun _ => 0
  ioWords := fun _ => none
  instruction := 0
  privilege := 0
  asy := false
  pageFaultInst := false
  pageFaultLoad := false
  pageFaultStore := false
  illegalException := false
  interrupts := {}
  isBr := false
  brTaken := false
  isException := false
  simEnd := false
  simTime := 0
  currentBbHeadPc := 0
  currentBbLen := 0
  currentTrace := {}

/-- A CPU in M mode at the start of RAM, where every word is the given instruction. -/
def machineOf (i : BitVec 32) : Cpu :=
  { zero with pc := kRamBase, privilege := 3, memory := fun _ => i }

/-- The method `init`: `image` is the RAM with the image file loaded, and the
fields it does not set keep what they held before. -/
def init (resetPc : BitVec 32) (image : BitVec 28 → BitVec 32) : Option Cpu := do
  let s := { s with pc := resetPc, memory := image, ioWords := fun _ => none }
  let s ← s.storeWord 0x10000004 0x00006000
  let s ← s.storeWord 0x0 0xf1402573
  let s ← s.storeWord 0x4 0x83e005b7
  let s ← s.storeWord 0x8 0x800002b7
  let s ← s.storeWord 0xc 0x00028067
  some
    { s with
      gpr := fun _ => 0
      csr := Function.update (fun _ => 0) .misa 0x40141103
      privilege := 0b11
      store := false
      asy := false
      pageFaultInst := false
      pageFaultLoad := false
      pageFaultStore := false
      reserveValid := false
      reserveAddr := 0
      simTime := 0 }

end Cpu

end TraceSim.Ref
