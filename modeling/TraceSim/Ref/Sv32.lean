/-
TraceSim/Ref/Sv32.lean

The SV32 translation.

The translation is stated as a relation: the walk finds a leaf and the leaf permits the
access.  The walk of the source agrees with it but for one kind of access: S mode should
never fetch from a page of U mode, and the source lets it if `mstatus.SUM` is set
(`va2pa_iff`).
-/
import TraceSim.Ref.Memory

namespace TraceSim.Ref

namespace Sv32

/-! ### The translation -/

/-- The frame number of an entry. -/
def ppn (pte : BitVec 32) : ℕ := pte.toNat / 2 ^ 10

/-- The physical address of an entry in the table at a frame. -/
def entryAddr (frame vpn : ℕ) : ℕ := frame * 2 ^ 12 + vpn * 4

structure Valid (pte : BitVec 32) : Prop where
  present : pteV pte = true
  not_writeOnly : ¬ (pteW pte = true ∧ pteR pte = false)

def Leaf (pte : BitVec 32) : Prop := pteR pte = true ∨ pteX pte = true

variable {word : ℕ → BitVec 32} {root v : ℕ} {pte pte' : BitVec 32} {bits bits' : ℕ}

/-- The walk for the virtual address `v` finds a leaf, for a page of `2 ^ bits` bytes. -/
inductive Finds (word : ℕ → BitVec 32) (root v : ℕ) : BitVec 32 → ℕ → Prop
  | superpage {pte : BitVec 32} (entry : word (entryAddr root (v / 2 ^ 22)) = pte)
      (valid : Valid pte) (leaf : Leaf pte) (aligned : ppn pte % 2 ^ 10 = 0) :
      Finds word root v pte 22
  | page {pte1 pte : BitVec 32} (entry1 : word (entryAddr root (v / 2 ^ 22)) = pte1)
      (valid1 : Valid pte1) (pointer : ¬ Leaf pte1)
      (entry : word (entryAddr (ppn pte1) (v / 2 ^ 12 % 2 ^ 10)) = pte)
      (valid : Valid pte) (leaf : Leaf pte) : Finds word root v pte 12

/-- A leaf permits an access of the given type from the mode `priv`. -/
structure Permits (type : AccessType) (priv : BitVec 32) (sum mxr : Bool) (pte : BitVec 32) :
    Prop where
  fetch : type = .fetch → pteX pte = true
  load : type = .load → pteR pte = true ∨ (mxr = true ∧ pteX pte = true)
  store : type = .store → pteW pte = true
  accessed : pteA pte = true
  dirty : type = .store → pteD pte = true
  user : priv = 0 → pteU pte = true
  supervisor : priv = 1 → pteU pte = true → (type = .load ∨ type = .store) ∧ sum = true

/-- The walk finds a leaf at most. -/
theorem Finds.unique (h : Finds word root v pte bits) (h' : Finds word root v pte' bits') :
    pte = pte' ∧ bits = bits' := by
  cases h with
  | superpage entry _ leaf _ =>
    cases h' with
    | superpage entry' _ _ _ => exact ⟨entry.symm.trans entry', rfl⟩
    | page entry1' _ pointer' _ _ _ => exact absurd (entry1'.symm.trans entry ▸ leaf) pointer'
  | page entry1 _ pointer entry _ _ =>
    cases h' with
    | superpage entry' _ leaf' _ => exact absurd (entry'.symm.trans entry1 ▸ leaf') pointer
    | page entry1' _ _ entry' _ _ =>
      obtain rfl := entry1.symm.trans entry1'
      exact ⟨entry.symm.trans entry', rfl⟩

end Sv32

open Sv32

namespace Cpu

variable (s : Cpu)

/-- The word at a physical address. -/
def physWord (a : ℕ) : BitVec 32 := (s.loadWord (BitVec.ofNat 32 a)).getD 0

/-- The frame of the page table. -/
def tableRoot : ℕ := (s.csr .satp).toNat % 2 ^ 22

/-- The walk of the page table of the CPU. -/
def FindsLeaf (v : BitVec 32) (pte : BitVec 32) (bits : ℕ) : Prop :=
  Finds s.physWord s.tableRoot v.toNat pte bits

/-- The page table is below 0xC0000000 where the walk goes, and the frame found is below
4 GiB. -/
structure TablesInRange (v : BitVec 32) : Prop where
  entry1 : entryAddr s.tableRoot (v.toNat / 2 ^ 22) < 0xC0000000
  entry2 : ∀ pte1, s.physWord (entryAddr s.tableRoot (v.toNat / 2 ^ 22)) = pte1 →
    Valid pte1 → ¬ Leaf pte1 → entryAddr (ppn pte1) (v.toNat / 2 ^ 12 % 2 ^ 10) < 0xC0000000
  frame : ∀ pte bits, s.FindsLeaf v pte bits → ppn pte * 2 ^ 12 < 2 ^ 32

/-- The access is permitted by the leaf the walk finds. -/
def Permitted (v : BitVec 32) (type : AccessType) (pte : BitVec 32) (bits : ℕ) : Prop :=
  s.FindsLeaf v pte bits ∧
    Permits type (s.effPriv type) ((s.csr .mstatus).getLsbD 18) ((s.csr .mstatus).getLsbD 19) pte

/-- The call `va2pa(p_addr, v_addr, type)`, with its result and what `p_addr` holds
afterwards. -/
def va2paInto (pAddr vAddr : BitVec 32) (type : AccessType) : Option (Bool × BitVec 32) :=
  (s.va2pa vAddr type).map fun
    | some p => (true, p)
    | none => (false, pAddr)

/-- The call is the SV32 translation. -/
def TranslatesSv32 (pAddr vAddr : BitVec 32) (type : AccessType) : Prop :=
  ∃ ok p, s.va2paInto pAddr vAddr type = some (ok, p) ∧
    (ok = true ↔ ∃ pte bits, s.Permitted vAddr type pte bits) ∧
    (∀ pte bits, s.Permitted vAddr type pte bits →
      p.toNat = ppn pte * 2 ^ 12 + vAddr.toNat % 2 ^ bits) ∧
    (ok = false → p = pAddr)

/-- S mode fetches from a page of U mode, with `SUM` set. -/
def FetchesUser (vAddr : BitVec 32) (type : AccessType) : Prop :=
  type = .fetch ∧ s.effPriv type = 1 ∧ (s.csr .mstatus).getLsbD 18 = true ∧
    ∃ pte bits, s.FindsLeaf vAddr pte bits ∧
      pteX pte = true ∧ pteU pte = true ∧ pteA pte = true

end Cpu

variable {s : Cpu} {v : BitVec 32} {type : AccessType} {pte : BitVec 32} {bits : ℕ}

/-! ### The checks -/

theorem pteInvalid_eq_false : pteInvalid pte = false ↔ Valid pte := by
  rw [pteInvalid]
  constructor
  · intro h
    rw [Bool.or_eq_false_iff, Bool.not_eq_false', Bool.and_eq_false_iff, Bool.not_eq_false'] at h
    refine ⟨h.1, fun hw => ?_⟩
    rcases h.2 with hr | hw'
    · exact Bool.false_ne_true (hw.2.symm.trans hr)
    · exact Bool.false_ne_true (hw'.symm.trans hw.1)
  · rintro ⟨hv, hnot⟩
    rw [hv]
    cases hr : pteR pte
    · cases hw : pteW pte
      · rfl
      · exact absurd ⟨hw, hr⟩ hnot
    · rfl

theorem pteLeaf_iff : pteLeaf pte = true ↔ Leaf pte := by
  rw [pteLeaf, Bool.or_eq_true, Leaf]

/-- **The checks of the source** on a leaf, from U mode or S mode. -/
theorem leafDenied_eq_false (pte : BitVec 32)
    (hpriv : s.effPriv type = 0 ∨ s.effPriv type = 1) :
    s.leafDenied type pte = false ↔
      Permits type (s.effPriv type) ((s.csr .mstatus).getLsbD 18)
          ((s.csr .mstatus).getLsbD 19) pte ∨
        (type = .fetch ∧ s.effPriv type = 1 ∧ (s.csr .mstatus).getLsbD 18 = true ∧
          pteX pte = true ∧ pteU pte = true ∧ pteA pte = true) := by
  have hpermits (sum mxr : Bool) (p : BitVec 32) : Permits type p sum mxr pte ↔
      (type = .fetch → pteX pte = true) ∧
      (type = .load → pteR pte = true ∨ (mxr = true ∧ pteX pte = true)) ∧
      (type = .store → pteW pte = true) ∧ pteA pte = true ∧
      (type = .store → pteD pte = true) ∧ (p = 0 → pteU pte = true) ∧
      (p = 1 → pteU pte = true → (type = .load ∨ type = .store) ∧ sum = true) :=
    ⟨fun h => ⟨h.1, h.2, h.3, h.4, h.5, h.6, h.7⟩,
      fun ⟨h1, h2, h3, h4, h5, h6, h7⟩ => ⟨h1, h2, h3, h4, h5, h6, h7⟩⟩
  rw [hpermits, Cpu.leafDenied, privDenied, bitsDenied]
  generalize (s.csr .mstatus).getLsbD 18 = sum
  generalize (s.csr .mstatus).getLsbD 19 = mxr
  rcases hpriv with h | h <;> rw [h] <;> cases type <;>
    simp only [typeDenied, Bool.or_eq_false_iff] <;> grind

/-! ### Addresses -/

/-- The address of an entry, as the source puts it together. -/
theorem entryAddr_eq (frame vpn : BitVec 32) (hvpn : vpn.toNat < 2 ^ 10)
    (h : entryAddr frame.toNat vpn.toNat < 2 ^ 32) :
    (frame <<< 12) ||| (vpn <<< 2) = BitVec.ofNat 32 (entryAddr frame.toNat vpn.toNat) := by
  unfold entryAddr at *
  have hframe : (frame <<< 12).toNat = 2 ^ 12 * frame.toNat := by
    rw [BitVec.toNat_shiftLeft, Nat.shiftLeft_eq]
    omega
  have hindex : (vpn <<< 2).toNat = vpn.toNat * 4 := by
    rw [BitVec.toNat_shiftLeft, Nat.shiftLeft_eq]
    omega
  refine BitVec.eq_of_toNat_eq ?_
  rw [BitVec.toNat_or, hframe, hindex, BitVec.toNat_ofNat, Nat.mod_eq_of_lt h,
    ← Nat.two_pow_add_eq_or_of_lt (by omega), Nat.mul_comm]

/-- An entry below 0xC0000000 is read. -/
theorem loadWord_entry (s : Cpu) {frame vpn : ℕ} (h : entryAddr frame vpn < 0xC0000000) :
    checkMemRange (BitVec.ofNat 32 (entryAddr frame vpn)) 4 = true ∧
      s.loadWord (BitVec.ofNat 32 (entryAddr frame vpn))
        = some (s.physWord (entryAddr frame vpn)) := by
  have hnat : (BitVec.ofNat 32 (entryAddr frame vpn)).toNat = entryAddr frame vpn := by
    rw [BitVec.toNat_ofNat]
    omega
  have hfour : entryAddr frame vpn % 4 = 0 := by
    unfold entryAddr
    omega
  have hrange : checkMemRange (BitVec.ofNat 32 (entryAddr frame vpn)) 4 = true := by
    have hend : (BitVec.ofNat 32 (entryAddr frame vpn)).toNat + 4 - 1 < kRamUpperBound := by
      rw [hnat, kRamUpperBound]
      omega
    rw [checkMemRange, decide_eq_true hend, Bool.or_true]
  have halign : BitVec.ofNat 32 (entryAddr frame vpn) &&& 3 = 0 := by
    refine BitVec.eq_of_toNat_eq ?_
    rw [toNat_place, hnat, hfour]
    rfl
  obtain ⟨w, hw⟩ := Cpu.loadWord_aligned s halign hrange
  refine ⟨hrange, ?_⟩
  rw [Cpu.physWord, hw]
  rfl

theorem toNat_ppn (pte : BitVec 32) : ((pte >>> 10) &&& 0x3FFFFF).toNat = ppn pte := by
  have hlow := toNat_and_low (pte >>> 10) (by decide : 22 ≤ 32)
  rw [BitVec.toNat_ushiftRight, Nat.shiftRight_eq_div_pow] at hlow
  refine hlow.trans ?_
  have := pte.isLt
  rw [ppn]
  omega

theorem toNat_vpn0 (v : BitVec 32) :
    ((v >>> 12) &&& 0x3FF).toNat = v.toNat / 2 ^ 12 % 2 ^ 10 := by
  have hlow := toNat_and_low (v >>> 12) (by decide : 10 ≤ 32)
  rwa [BitVec.toNat_ushiftRight, Nat.shiftRight_eq_div_pow] at hlow

theorem toNat_vpn1 (v : BitVec 32) : ((v >>> 22) &&& 0x3FF).toNat = v.toNat / 2 ^ 22 := by
  have hlow := toNat_and_low (v >>> 22) (by decide : 10 ≤ 32)
  rw [BitVec.toNat_ushiftRight, Nat.shiftRight_eq_div_pow] at hlow
  refine hlow.trans ?_
  have := v.isLt
  omega

theorem aligned_iff (pte : BitVec 32) :
    (pte >>> 10) &&& 0x3FF = 0 ↔ ppn pte % 2 ^ 10 = 0 := by
  have hlow := toNat_and_low (pte >>> 10) (by decide : 10 ≤ 32)
  rw [BitVec.toNat_ushiftRight, Nat.shiftRight_eq_div_pow] at hlow
  rw [BitVec.toNat_eq]
  exact ⟨fun h => hlow.symm.trans h, fun h => hlow.trans h⟩

/-- The physical address in a superpage. -/
theorem toNat_superpage (v : BitVec 32) (haligned : ppn pte % 2 ^ 10 = 0)
    (hframe : ppn pte * 2 ^ 12 < 2 ^ 32) :
    (((pte <<< 2) &&& 0xFFC00000) ||| (v &&& 0x3FFFFF)).toNat
      = ppn pte * 2 ^ 12 + v.toNat % 2 ^ 22 := by
  have hhigh := toNat_and_high (pte <<< 2) 22
  have hlow := toNat_and_low v (by decide : 22 ≤ 32)
  rw [BitVec.toNat_shiftLeft, Nat.shiftLeft_eq] at hhigh
  have hpte : pte.toNat = ppn pte * 2 ^ 10 + pte.toNat % 2 ^ 10 := by
    rw [ppn]
    omega
  have hbase : pte.toNat * 2 ^ 2 % 2 ^ 32 / 2 ^ 22 * 2 ^ 22 = 2 ^ 22 * (ppn pte / 2 ^ 10) := by
    omega
  rw [BitVec.toNat_or]
  refine (congrArg₂ (· ||| ·) (hhigh.trans hbase) hlow).trans ?_
  rw [← Nat.two_pow_add_eq_or_of_lt (Nat.mod_lt _ (by decide))]
  omega

/-- The physical address in a page. -/
theorem toNat_page (v : BitVec 32) (hframe : ppn pte * 2 ^ 12 < 2 ^ 32) :
    (((pte >>> 10) <<< 12) ||| (v &&& 0xFFF)).toNat = ppn pte * 2 ^ 12 + v.toNat % 2 ^ 12 := by
  have hlow := toNat_and_low v (by decide : 12 ≤ 32)
  have hbase : ((pte >>> 10) <<< 12).toNat = 2 ^ 12 * ppn pte := by
    rw [BitVec.toNat_shiftLeft, BitVec.toNat_ushiftRight, Nat.shiftLeft_eq,
      Nat.shiftRight_eq_div_pow]
    change ppn pte * 2 ^ 12 % 2 ^ 32 = _
    omega
  rw [BitVec.toNat_or]
  refine (congrArg₂ (· ||| ·) hbase hlow).trans ?_
  rw [← Nat.two_pow_add_eq_or_of_lt (Nat.mod_lt _ (by decide))]
  omega

/-! ### The walk -/

/-- The first level of the walk. -/
theorem va2pa_eq (ht : s.TablesInRange v) (type : AccessType) :
    s.va2pa v type =
      let pte1 := s.physWord (entryAddr s.tableRoot (v.toNat / 2 ^ 22))
      if pteInvalid pte1 then some none
      else if pteLeaf pte1 then
        if s.leafDenied type pte1 || (pte1 >>> 10) &&& 0x3FF ≠ 0 then some none
        else some (some (((pte1 <<< 2) &&& 0xFFC00000) ||| (v &&& 0x3FFFFF)))
      else s.walkLevel2 pte1 v type := by
  have hroot : (s.csr .satp &&& 0x3FFFFF).toNat = s.tableRoot :=
    toNat_and_low _ (by decide : 22 ≤ 32)
  have hvpn := toNat_vpn1 v
  have hrange := ht.entry1
  have haddr := entryAddr_eq (s.csr .satp &&& 0x3FFFFF) ((v >>> 22) &&& 0x3FF)
    (by rw [hvpn]; have := v.isLt; omega) (by rw [hroot, hvpn]; omega)
  rw [hroot, hvpn] at haddr
  obtain ⟨hcheck, hload⟩ := loadWord_entry s hrange
  unfold Cpu.va2pa
  dsimp only
  rw [haddr, hcheck, if_neg (by decide), hload]
  rfl

/-- The second level of the walk. -/
theorem walkLevel2_eq {pte1 : BitVec 32}
    (hrange : entryAddr (ppn pte1) (v.toNat / 2 ^ 12 % 2 ^ 10) < 0xC0000000) (type : AccessType) :
    s.walkLevel2 pte1 v type =
      let pte2 := s.physWord (entryAddr (ppn pte1) (v.toNat / 2 ^ 12 % 2 ^ 10))
      if pteInvalid pte2 then some none
      else if pteLeaf pte2 then
        if s.leafDenied type pte2 then some none
        else some (some (((pte2 >>> 10) <<< 12) ||| (v &&& 0xFFF)))
      else some none := by
  have hppn := toNat_ppn pte1
  have hvpn := toNat_vpn0 v
  have haddr := entryAddr_eq ((pte1 >>> 10) &&& 0x3FFFFF) ((v >>> 12) &&& 0x3FF)
    (by rw [hvpn]; omega) (by rw [hppn, hvpn]; omega)
  rw [hppn, hvpn] at haddr
  obtain ⟨hcheck, hload⟩ := loadWord_entry s hrange
  unfold Cpu.walkLevel2
  dsimp only
  rw [haddr, hcheck, if_neg (by decide), hload]
  rfl

/-- A walk that finds a leaf ends at its checks. -/
theorem va2pa_of_finds (ht : s.TablesInRange v) (h : s.FindsLeaf v pte bits) (type : AccessType) :
    ∃ p : BitVec 32, p.toNat = ppn pte * 2 ^ 12 + v.toNat % 2 ^ bits ∧
      s.va2pa v type = some (if s.leafDenied type pte then none else some p) := by
  have hframe := ht.frame pte bits h
  rw [va2pa_eq ht]
  dsimp only
  cases h with
  | superpage entry valid leaf aligned =>
    rw [entry, pteInvalid_eq_false.mpr valid, if_neg Bool.false_ne_true,
      if_pos (pteLeaf_iff.mpr leaf)]
    refine ⟨_, toNat_superpage v aligned hframe, ?_⟩
    rw [decide_eq_false (not_not.mpr ((aligned_iff pte).mpr aligned)), Bool.or_false]
    split_ifs <;> rfl
  | page entry1 valid1 pointer entry valid leaf =>
    have hrange := ht.entry2 _ entry1 valid1 pointer
    rw [entry1, pteInvalid_eq_false.mpr valid1, if_neg Bool.false_ne_true,
      if_neg (mt pteLeaf_iff.mp pointer), walkLevel2_eq hrange]
    dsimp only
    rw [entry, pteInvalid_eq_false.mpr valid, if_neg Bool.false_ne_true,
      if_pos (pteLeaf_iff.mpr leaf)]
    refine ⟨_, toNat_page v hframe, ?_⟩
    split_ifs <;> rfl

/-- A walk that finds no leaf faults. -/
theorem va2pa_of_not_finds (ht : s.TablesInRange v) (h : ∀ pte bits, ¬ s.FindsLeaf v pte bits)
    (type : AccessType) : s.va2pa v type = some none := by
  rw [va2pa_eq ht]
  dsimp only
  generalize hentry1 : s.physWord (entryAddr s.tableRoot (v.toNat / 2 ^ 22)) = pte1
  by_cases hinvalid1 : pteInvalid pte1 = true
  · rw [if_pos hinvalid1]
  have hvalid1 := pteInvalid_eq_false.mp (Bool.not_eq_true _ ▸ hinvalid1)
  rw [if_neg hinvalid1]
  by_cases hleaf1 : pteLeaf pte1 = true
  · -- a superpage that is not aligned
    have haligned : (pte1 >>> 10) &&& 0x3FF ≠ 0 := fun haligned =>
      h pte1 22 (.superpage hentry1 hvalid1 (pteLeaf_iff.mp hleaf1)
        ((aligned_iff pte1).mp haligned))
    rw [if_pos hleaf1, decide_eq_true haligned, Bool.or_true, if_pos rfl]
  have hpointer := mt pteLeaf_iff.mpr hleaf1
  rw [if_neg hleaf1, walkLevel2_eq (ht.entry2 _ hentry1 hvalid1 hpointer)]
  dsimp only
  generalize hentry : s.physWord (entryAddr (ppn pte1) (v.toNat / 2 ^ 12 % 2 ^ 10)) = pte
  by_cases hinvalid : pteInvalid pte = true
  · rw [if_pos hinvalid]
  have hvalid := pteInvalid_eq_false.mp (Bool.not_eq_true _ ▸ hinvalid)
  rw [if_neg hinvalid]
  by_cases hleaf : pteLeaf pte = true
  · exact absurd (.page hentry1 hvalid1 hpointer hentry hvalid (pteLeaf_iff.mp hleaf)) (h pte 12)
  · rw [if_neg hleaf]

/-! ### The method -/

/-- **The SV32 translation.** With page tables in range and from U mode or S mode, `va2pa`
is the SV32 translation if and only if the access is no fetch of S mode from a page of
U mode, with `SUM` set and the page executable and accessed. -/
theorem va2pa_iff (s : Cpu) (pAddr vAddr : BitVec 32) (type : AccessType)
    (hpriv : s.effPriv type = 0 ∨ s.effPriv type = 1) (ht : s.TablesInRange vAddr) :
    s.TranslatesSv32 pAddr vAddr type ↔ ¬ s.FetchesUser vAddr type := by
  by_cases hfinds : ∃ pte bits, s.FindsLeaf vAddr pte bits
  · obtain ⟨pte, bits, hfind⟩ := hfinds
    obtain ⟨p, hp, hva2pa⟩ := va2pa_of_finds ht hfind type
    have hdenied := leafDenied_eq_false pte hpriv
    constructor
    · rintro ⟨ok, q, hinto, hok, -, -⟩ ⟨htype, heff, hsum, pte', bits', hfind', hx, hu, ha⟩
      obtain ⟨rfl, -⟩ := hfind'.unique hfind
      -- the source lets the access pass
      rw [Cpu.va2paInto, hva2pa, hdenied.mpr (.inr ⟨htype, heff, hsum, hx, hu, ha⟩)] at hinto
      obtain ⟨rfl, -⟩ := Prod.mk.inj (Option.some.inj hinto)
      obtain ⟨pte₁, bits₁, hfind₁, hpermits⟩ := hok.mp rfl
      obtain ⟨rfl, -⟩ := hfind₁.unique hfind
      rcases (hpermits.supervisor heff hu).1 with hdata | hdata
      · rw [htype] at hdata
        cases hdata
      · rw [htype] at hdata
        cases hdata
    · intro hnot
      have hleaf : s.leafDenied type pte = false ↔ s.Permitted vAddr type pte bits := by
        refine hdenied.trans ⟨fun h => ⟨hfind, h.resolve_right ?_⟩, fun h => .inl h.2⟩
        rintro ⟨htype, heff, hsum, hx, hu, ha⟩
        exact hnot ⟨htype, heff, hsum, pte, bits, hfind, hx, hu, ha⟩
      rw [Cpu.TranslatesSv32, Cpu.va2paInto, hva2pa]
      cases hd : s.leafDenied type pte
      · refine ⟨true, p, rfl, ⟨fun _ => ⟨pte, bits, hleaf.mp hd⟩, fun _ => rfl⟩, ?_, nofun⟩
        rintro pte' bits' ⟨hfind', -⟩
        obtain ⟨rfl, rfl⟩ := hfind'.unique hfind
        exact hp
      · have hnone : ∀ pte' bits', ¬ s.Permitted vAddr type pte' bits' := by
          intro pte' bits' hpermitted
          obtain ⟨rfl, rfl⟩ := hpermitted.1.unique hfind
          rw [hleaf.mpr hpermitted] at hd
          cases hd
        exact ⟨false, pAddr, rfl, ⟨nofun, fun ⟨_, _, h⟩ => absurd h (hnone _ _)⟩,
          fun _ _ h => absurd h (hnone _ _), fun _ => rfl⟩
  · have hnone : ∀ pte bits, ¬ s.FindsLeaf vAddr pte bits :=
      fun pte bits h => hfinds ⟨pte, bits, h⟩
    have hva2pa := va2pa_of_not_finds ht hnone type
    constructor
    · rintro - ⟨-, -, -, pte, bits, hfind, -⟩
      exact hnone pte bits hfind
    · rintro -
      refine ⟨false, pAddr, ?_, ⟨nofun, fun ⟨_, _, h⟩ => absurd h.1 (hnone _ _)⟩,
        fun _ _ h => absurd h.1 (hnone _ _), fun _ => rfl⟩
      rw [Cpu.va2paInto, hva2pa]
      rfl

/-- A CPU in S mode with `SUM` set, where every word of RAM is the given entry and the page
table is at the start of RAM. -/
def supervisorOn (pte : BitVec 32) : Cpu :=
  { Cpu.zero with
    privilege := 1
    csr := Function.update (Function.update (fun _ => 0) .satp 0x80080000) .mstatus 0x40000
    memory := fun _ => pte }

/-- A fetch from an executable superpage of S mode. -/
theorem va2pa_iff_superpage :
    (supervisorOn 0x200000CF).TranslatesSv32 0 0x80001234 .fetch := by
  have hfind : (supervisorOn 0x200000CF).FindsLeaf 0x80001234 0x200000CF 22 :=
    .superpage (by decide +kernel) ⟨by decide, by decide⟩ (.inl (by decide)) (by decide)
  refine (va2pa_iff _ _ _ _ (.inr (by decide)) ⟨by decide, ?_, ?_⟩).mpr ?_
  · intro pte1 hpte1 _ hpointer
    have hleaf : (supervisorOn 0x200000CF).physWord
        (entryAddr (supervisorOn 0x200000CF).tableRoot ((0x80001234 : BitVec 32).toNat / 2 ^ 22))
        = 0x200000CF := by decide +kernel
    rw [hleaf] at hpte1
    exact absurd (.inl (hpte1 ▸ by decide)) hpointer
  · intro pte bits h
    obtain ⟨rfl, -⟩ := h.unique hfind
    decide
  · rintro ⟨-, -, -, pte, bits, hfind', -, huser, -⟩
    obtain ⟨rfl, -⟩ := hfind'.unique hfind
    exact absurd huser (by decide)

/-- S mode fetches from an executable superpage of U mode. -/
theorem va2pa_fetches_user :
    ¬ (supervisorOn 0x200000DF).TranslatesSv32 0 0x80001234 .fetch := by
  rintro ⟨ok, p, hinto, hok, -, -⟩
  have htrue : (supervisorOn 0x200000DF).va2paInto 0 0x80001234 .fetch
      = some (true, 0x80001234) := by decide +kernel
  rw [htrue] at hinto
  obtain ⟨rfl, -⟩ := Prod.mk.inj (Option.some.inj hinto)
  obtain ⟨pte, bits, hfind, hpermits⟩ := hok.mp rfl
  have hleaf : (supervisorOn 0x200000DF).FindsLeaf 0x80001234 0x200000DF 22 :=
    .superpage (by decide +kernel) ⟨by decide, by decide⟩ (.inl (by decide)) (by decide)
  obtain ⟨rfl, -⟩ := hfind.unique hleaf
  exact absurd (hpermits.supervisor (by decide) (by decide)).1 (by decide)

end TraceSim.Ref
