/-
TraceSim/Ref/Translate.lean

Address translation (`Ref_cpu::va2pa`): a walk over two levels of page tables.

The two levels make the same checks on a leaf, so the checks are one definition;
only the first level asks for an aligned superpage.  A walk ends the process
(`none`), faults (`some none`) or gives a physical address.
-/
import TraceSim.Ref.Cpu

namespace TraceSim.Ref

/-- The access types `va2pa` distinguishes. -/
inductive AccessType
  | fetch
  | load
  | store
  deriving DecidableEq, Repr

/-! ### Page-table entries -/

def pteV (pte : BitVec 32) : Bool := pte.getLsbD 0
def pteR (pte : BitVec 32) : Bool := pte.getLsbD 1
def pteW (pte : BitVec 32) : Bool := pte.getLsbD 2
def pteX (pte : BitVec 32) : Bool := pte.getLsbD 3
def pteU (pte : BitVec 32) : Bool := pte.getLsbD 4
def pteA (pte : BitVec 32) : Bool := pte.getLsbD 6
def pteD (pte : BitVec 32) : Bool := pte.getLsbD 7

/-- An entry that ends the walk with a fault. -/
def pteInvalid (pte : BitVec 32) : Bool := !pteV pte || (!pteR pte && pteW pte)

def pteLeaf (pte : BitVec 32) : Bool := pteR pte || pteX pte

/-- A leaf does not allow the access type. -/
def typeDenied (type : AccessType) (mxr : Bool) (pte : BitVec 32) : Bool :=
  match type with
  | .fetch => !pteX pte
  | .load => !pteR pte && !(mxr && pteX pte)
  | .store => !pteW pte

/-- A leaf does not allow the effective privilege. -/
def privDenied (effPriv : BitVec 32) (sum : Bool) (pte : BitVec 32) : Bool :=
  (effPriv = 0 && !pteU pte) || (effPriv = 1 && pteU pte && !sum)

/-- A leaf does not have the accessed and dirty bits the access needs. -/
def bitsDenied (type : AccessType) (pte : BitVec 32) : Bool :=
  !pteA pte || (type = .store && !pteD pte)

namespace Cpu

variable (s : Cpu)

/-- The privilege the checks use. -/
def effPriv (type : AccessType) : BitVec 32 :=
  if type ≠ .fetch ∧ (s.csr .mstatus).getLsbD 17 then getMpp (s.csr .mstatus)
  else s.privilege.setWidth 32

/-- The checks on a leaf that both levels share. -/
def leafDenied (type : AccessType) (pte : BitVec 32) : Bool :=
  typeDenied type ((s.csr .mstatus).getLsbD 19) pte
    || privDenied (s.effPriv type) ((s.csr .mstatus).getLsbD 18) pte
    || bitsDenied type pte

/-- The second level of the walk, from an entry of the first. -/
def walkLevel2 (pte1 vAddr : BitVec 32) (type : AccessType) : Option (Option (BitVec 32)) := do
  let ppn1 := (pte1 >>> 10) &&& 0x3FFFFF
  let vpn0 := (vAddr >>> 12) &&& 0x3FF
  let pte2Addr := (ppn1 <<< 12) ||| (vpn0 <<< 2)
  if !checkMemRange pte2Addr 4 then none
  else
    let pte2 ← s.loadWord pte2Addr
    if pteInvalid pte2 then some none
    else if pteLeaf pte2 then
      if s.leafDenied type pte2 then some none
      else some (some (((pte2 >>> 10) <<< 12) ||| (vAddr &&& 0xFFF)))
    else some none

/-- The method `va2pa`. -/
def va2pa (vAddr : BitVec 32) (type : AccessType) : Option (Option (BitVec 32)) := do
  let ppnRoot := s.csr .satp &&& 0x3FFFFF
  let vpn1 := (vAddr >>> 22) &&& 0x3FF
  let pte1Addr := (ppnRoot <<< 12) ||| (vpn1 <<< 2)
  if !checkMemRange pte1Addr 4 then none
  else
    let pte1 ← s.loadWord pte1Addr
    if pteInvalid pte1 then some none
    else if pteLeaf pte1 then
      -- a superpage, which has to be aligned
      if s.leafDenied type pte1 || (pte1 >>> 10) &&& 0x3FF ≠ 0 then some none
      else some (some (((pte1 <<< 2) &&& 0xFFC00000) ||| (vAddr &&& 0x3FFFFF)))
    else s.walkLevel2 pte1 vAddr type

/-- Whether addresses are translated. -/
def paging : Bool := (s.csr .satp).getLsbD 31 && s.privilege ≠ 3

/-- The address of an access: translated if translation is on, else itself. -/
def translate (vAddr : BitVec 32) (type : AccessType) : Option (Option (BitVec 32)) :=
  if s.paging then s.va2pa vAddr type else some (some vAddr)

end Cpu

end TraceSim.Ref
