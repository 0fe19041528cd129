/-
TraceSim/Ref/Csr.lean

Control and status registers (`include/CSR.h`).

The registers `time` and `timeh` have numbers but no storage: an access to them
is illegal, so they are not in the enumeration.
-/
import TraceSim.Ref.Decode
import TraceSim.Lib.BitFields

namespace TraceSim.Ref

/-- The enumeration `enum_csr`. -/
inductive Csr
  | mtvec
  | mepc
  | mcause
  | mie
  | mip
  | mtval
  | mscratch
  | mstatus
  | mideleg
  | medeleg
  | sepc
  | stvec
  | scause
  | sscratch
  | stval
  | sstatus
  | sie
  | sip
  | satp
  | mhartid
  | misa
  deriving DecidableEq, Repr

/-- The function `cvt_number_to_csr`, where the number is that of a register. -/
def cvtNumberToCsr (number : BitVec 32) : Option Csr :=
  match number.toNat with
  | 0x305 => some .mtvec
  | 0x341 => some .mepc
  | 0x342 => some .mcause
  | 0x304 => some .mie
  | 0x344 => some .mip
  | 0x343 => some .mtval
  | 0x340 => some .mscratch
  | 0x300 => some .mstatus
  | 0x303 => some .mideleg
  | 0x302 => some .medeleg
  | 0x141 => some .sepc
  | 0x105 => some .stvec
  | 0x142 => some .scause
  | 0x140 => some .sscratch
  | 0x143 => some .stval
  | 0x100 => some .sstatus
  | 0x104 => some .sie
  | 0x144 => some .sip
  | 0x180 => some .satp
  | 0xf14 => some .mhartid
  | 0x301 => some .misa
  | _ => none

def numberTime : BitVec 32 := 0xc01
def numberTimeh : BitVec 32 := 0xc81

/-! ### Bits and masks -/

def mstatusSie : ℕ := 1
def mstatusMie : ℕ := 3
def mstatusSpie : ℕ := 5
def mstatusMpie : ℕ := 7
def mstatusSpp : ℕ := 8

/-- The two bits of `MPP`. -/
def mstatusMpp : BitVec 32 := 0x1800

def mipSsip : ℕ := 1
def mipMsip : ℕ := 3
def mipStip : ℕ := 5
def mipMtip : ℕ := 7
def mipSeip : ℕ := 9
def mipMeip : ℕ := 11

/-- The bits of `mie` and `mip` that a write to them can set. -/
def mieMask : BitVec 32 := 0xbbb

/-- The bits of `mie` and `mip` that `sie` and `sip` show. -/
def sieMask : BitVec 32 := 0x333

/-- The bits of `mstatus` that a write to it can change. -/
def mstatusMask : BitVec 32 := 0x807FF9BB

/-- The bits of `mstatus` that `sstatus` shows. -/
def sstatusMask : BitVec 32 := 0x800DE133

/-- The bits of `mstatus` that a trap into M mode copies to `sstatus`. -/
def trapStatusMask : BitVec 32 := 0x800DE762

/-- The macro `GET_MPP`. -/
def getMpp (x : BitVec 32) : BitVec 32 := (x >>> 11) &&& 3

/-- The macro `GET_SPP`. -/
def getSpp (x : BitVec 32) : BitVec 32 := (x >>> 8) &&& 1

end TraceSim.Ref
