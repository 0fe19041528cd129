/-
TraceSim/Ref/EffectivePrivilege.lean

The privilege of data accesses.

With `mstatus.MPRV` set, a load, a store or an atomic instruction should be translated
and checked as from the mode in `mstatus.MPP`.  The walk takes its checks from that mode,
but whether there is a walk at all is decided by the current one.  So the translation is
right in all memories exactly if, with translation on, either both modes are M or neither
is (`effectivePrivilege_iff`).
-/
import TraceSim.Ref.Memory
import TraceSim.Ref.Registers

namespace TraceSim.Ref

variable {s t : Cpu} {type : AccessType}

/-! ### What the translation should be -/

def mstatusMprv : ℕ := 17

namespace Cpu

variable (s : Cpu)

/-- The privilege that data accesses should have. -/
def dataPrivilege : BitVec 8 :=
  if (s.csr .mstatus).getLsbD mstatusMprv then (getMpp (s.csr .mstatus)).setWidth 8
  else s.privilege

/-- The CPU in the mode `e`, where no other mode counts for data accesses. -/
def withPrivilege (e : BitVec 8) : Cpu :=
  { s.setCsr .mstatus (clearBit (s.csr .mstatus) mstatusMprv) with privilege := e }

/-- The translation by the page tables, with the checks of the mode `e`. -/
def sv32 (e : BitVec 8) (vAddr : BitVec 32) (type : AccessType) : Option (Option (BitVec 32)) :=
  (s.withPrivilege e).va2pa vAddr type

/-- What the mode `e` makes of an address: M mode uses it as it is. -/
def translateAs (e : BitVec 8) (vAddr : BitVec 32) (type : AccessType) :
    Option (Option (BitVec 32)) :=
  if (s.csr .satp).getLsbD 31 = true ∧ e ≠ 3 then s.sv32 e vAddr type else some (some vAddr)

/-- The translations of data accesses are those of the effective privilege, and those of
fetches are those of the current one. -/
structure TranslatesRight : Prop where
  fetch : ∀ v, s.translate v .fetch = s.translateAs s.privilege v .fetch
  load : ∀ v, s.translate v .load = s.translateAs s.dataPrivilege v .load
  store : ∀ v, s.translate v .store = s.translateAs s.dataPrivilege v .store
  amo : ∀ v, s.translateAmo v = do
    let p1 ← s.translateAs s.dataPrivilege v .load
    let p2 ← s.translateAs s.dataPrivilege v .store
    some (p1, p2)

end Cpu

/-! ### The walk -/

/-- A walk depends on the root, the words of memory and the checks on a leaf. -/
theorem va2pa_congr (hsatp : t.csr .satp = s.csr .satp) (hload : ∀ a, t.loadWord a = s.loadWord a)
    (hleaf : ∀ pte, t.leafDenied type pte = s.leafDenied type pte) (v : BitVec 32) :
    t.va2pa v type = s.va2pa v type := by
  simp only [Cpu.va2pa, Cpu.walkLevel2, hsatp, hload, hleaf]

/-- **The walk checks with the mode that it should**, if it takes place. -/
theorem sv32_eq {e : BitVec 8} (h : s.effPriv type = e.setWidth 32) (v : BitVec 32) :
    s.sv32 e v type = s.va2pa v type := by
  have hmstatus : (s.withPrivilege e).csr .mstatus = clearBit (s.csr .mstatus) mstatusMprv := by
    rw [Cpu.withPrivilege, Cpu.setCsr]
    exact Function.update_self Csr.mstatus _ s.csr
  have hbit {k : ℕ} (hk : mstatusMprv ≠ k) :
      ((s.withPrivilege e).csr .mstatus).getLsbD k = (s.csr .mstatus).getLsbD k := by
    rw [hmstatus, getLsbD_clearBit, decide_eq_true hk, Bool.and_true]
  have hclear : ((s.withPrivilege e).csr .mstatus).getLsbD 17 = false := by
    rw [hmstatus, getLsbD_clearBit, decide_eq_false (by decide), Bool.and_false]
  have heff : (s.withPrivilege e).effPriv type = s.effPriv type := by
    rw [h, Cpu.effPriv, hclear, if_neg (fun hmprv => Bool.false_ne_true hmprv.2)]
    rfl
  have hsatp : (s.withPrivilege e).csr .satp = s.csr .satp :=
    Function.update_of_ne (show Csr.satp ≠ Csr.mstatus by decide)
      (clearBit (s.csr .mstatus) mstatusMprv) s.csr
  refine va2pa_congr hsatp (fun _ => rfl) (fun pte => ?_) v
  rw [Cpu.leafDenied, Cpu.leafDenied, heff, hbit (by decide), hbit (by decide)]

theorem effPriv_fetch (s : Cpu) : s.effPriv .fetch = s.privilege.setWidth 32 :=
  if_neg fun h => h.1 rfl

theorem effPriv_data (s : Cpu) (h : type ≠ .fetch) :
    s.effPriv type = s.dataPrivilege.setWidth 32 := by
  rw [Cpu.effPriv, Cpu.dataPrivilege]
  by_cases hmprv : (s.csr .mstatus).getLsbD mstatusMprv = true
  · rw [if_pos ⟨h, hmprv⟩, if_pos hmprv]
    -- the field has two bits
    have hlt : (getMpp (s.csr .mstatus)).toNat < 4 := by
      rw [getMpp, BitVec.toNat_and]
      exact Nat.lt_of_le_of_lt Nat.and_le_right (by decide)
    refine BitVec.eq_of_toNat_eq ?_
    rw [BitVec.toNat_setWidth, BitVec.toNat_setWidth]
    omega
  · rw [if_neg fun h => hmprv h.2, if_neg hmprv]

/-! ### The guard -/

/-- The guard of the source is right for the mode `e`. -/
def Cpu.GuardRight (s : Cpu) (e : BitVec 8) : Prop :=
  (s.csr .satp).getLsbD 31 = true → (s.privilege = 3 ↔ e = 3)

theorem paging_iff (s : Cpu) :
    s.paging = true ↔ (s.csr .satp).getLsbD 31 = true ∧ s.privilege ≠ 3 := by
  rw [Cpu.paging, Bool.and_eq_true, decide_eq_true_eq]

theorem translate_eq {e : BitVec 8} (heff : s.effPriv type = e.setWidth 32) (h : s.GuardRight e)
    (v : BitVec 32) : s.translate v type = s.translateAs e v type := by
  have hguard : s.paging = true ↔ (s.csr .satp).getLsbD 31 = true ∧ e ≠ 3 :=
    (paging_iff s).trans (and_congr_right fun hmode => not_congr (h hmode))
  rw [Cpu.translate, Cpu.translateAs, sv32_eq heff]
  by_cases hp : s.paging = true
  · rw [if_pos hp, if_pos (hguard.mp hp)]
  · rw [if_neg hp, if_neg (mt hguard.mpr hp)]

/-- **Where the guard is right, all translations are.** -/
theorem translatesRight (h : s.GuardRight s.dataPrivilege) : s.TranslatesRight where
  fetch := translate_eq (effPriv_fetch s) fun _ => Iff.rfl
  load := translate_eq (effPriv_data s (by decide)) h
  store := translate_eq (effPriv_data s (by decide)) h
  amo v := by
    rw [← translate_eq (effPriv_data s (by decide)) h,
      ← translate_eq (effPriv_data s (by decide)) h, Cpu.translateAmo, Cpu.translate, Cpu.translate]
    split_ifs
    · rfl
    · rfl

/-- The state with all of memory zero. -/
def Cpu.wiped (s : Cpu) : Cpu := { s with memory := fun _ => 0, ioWords := fun _ => none }

/-- An empty page table translates no address. -/
theorem va2pa_wiped (s : Cpu) (v : BitVec 32) : s.wiped.va2pa v type ≠ some (some v) := by
  intro h
  have hzero {a w : BitVec 32} (hw : s.wiped.loadWord a = some w) : w = 0 := by
    unfold Cpu.loadWord at hw
    split_ifs at hw
    · exact (Option.some.inj hw).symm
    · exact (Option.some.inj hw).symm
  unfold Cpu.va2pa at h
  dsimp only at h
  split_ifs at h
  obtain ⟨pte1, hpte1, h⟩ := Option.bind_eq_some_iff.mp h
  obtain rfl := hzero hpte1
  rw [if_pos (by decide)] at h
  cases h

/-- **The privilege of data accesses.** In every memory the translations are those of the
effective privilege if and only if, with translation on, the current mode is M exactly
when the effective one is. -/
theorem effectivePrivilege_iff (s : Cpu) :
    (∀ t : Cpu, t.csr = s.csr → t.privilege = s.privilege → t.TranslatesRight) ↔
      ((s.csr .satp).getLsbD 31 = true → (s.privilege = 3 ↔ s.dataPrivilege = 3)) := by
  constructor
  · intro h hmode
    have hload := (h s.wiped rfl rfl).load 0
    have hdata : s.wiped.dataPrivilege = s.dataPrivilege := rfl
    have hsatp : s.wiped.csr = s.csr := rfl
    have hpaging := paging_iff s.wiped
    rw [Cpu.translate, Cpu.translateAs, sv32_eq (effPriv_data _ (by decide)), hdata,
      hsatp] at hload
    constructor
    · intro hp
      by_contra he
      rw [if_neg fun h => (hpaging.mp h).2 hp, if_pos ⟨hmode, he⟩] at hload
      exact va2pa_wiped s 0 hload.symm
    · intro he
      by_contra hp
      rw [if_pos (hpaging.mpr ⟨hmode, hp⟩), if_neg fun h => h.2 he] at hload
      exact va2pa_wiped s 0 hload
  · intro h t hcsr hpriv
    refine translatesRight ?_
    rw [Cpu.GuardRight, Cpu.dataPrivilege, hcsr, hpriv]
    exact h

/-- A CPU in M mode whose data accesses should be those of S mode, on an empty page
table. -/
def machineForSupervisor : Cpu :=
  { Cpu.zero with
    privilege := 3
    csr := Function.update (Function.update (fun _ => 0) .satp 0x80000000) .mstatus 0x20800 }

/-- The load should fault, and the address is used as it is. -/
theorem mprv_not_translated :
    machineForSupervisor.translate 0 .load = some (some 0) ∧
      ¬ machineForSupervisor.TranslatesRight := by
  have huse : machineForSupervisor.translate 0 .load = some (some 0) := by decide
  refine ⟨huse, fun h => ?_⟩
  have hload := h.load 0
  rw [huse] at hload
  exact absurd hload (by decide +kernel)

end TraceSim.Ref
