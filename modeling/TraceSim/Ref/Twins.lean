/-
TraceSim/Ref/Twins.lean

One step over two memories.

`Twin T M` relates two states that are the same but for the words of RAM outside `M`; the
members that only tell of the run (the trace and the basic block) may differ too, unless
`T` holds.  Every function of a step takes twins to twins, as long as the words it loads
are in `M`.
-/
import TraceSim.Ref.Paths

namespace TraceSim.Ref

/-- The word of RAM that an access at `a` is to; none if it is outside RAM. -/
def ramWord (a : BitVec 32) : Set (BitVec 28) :=
  {x | isRamRange (wordAddr a) 4 = true ∧ x = ramIndex (wordAddr a)}

variable {T : Prop} {M : Set (BitVec 28)} {s s' : Cpu}

/-! ### What a step can load -/

namespace Cpu

/-- The address of the entry where the walk for `v` begins. -/
def rootEntry (s : Cpu) (v : BitVec 32) : BitVec 32 :=
  ((s.csr .satp &&& 0x3FFFFF) <<< 12) ||| (((v >>> 22) &&& 0x3FF) <<< 2)

/-- The address of the entry that the pointer `pte` leads to. -/
def nextEntry (pte v : BitVec 32) : BitVec 32 :=
  (((pte >>> 10) &&& 0x3FFFFF) <<< 12) ||| (((v >>> 12) &&& 0x3FF) <<< 2)

/-- The walk for `v` reads the entry at `a`. -/
def Walks (s : Cpu) (v a : BitVec 32) : Prop :=
  a = s.rootEntry v ∨
    ∃ pte, s.loadWord (s.rootEntry v) = some pte ∧ pteInvalid pte = false ∧
      pteLeaf pte = false ∧ a = nextEntry pte v

/-- `M` has all words that the page tables are in, and all words they map. -/
structure Sees (s : Cpu) (M : Set (BitVec 28)) : Prop where
  tables : s.paging = true → ∀ v a, s.Walks v a → ramWord a ⊆ M
  mapped : ∀ v type p, s.translate v type = some (some p) → ramWord p ⊆ M

variable {s s' : Cpu}

/-- All of RAM is enough for every step. -/
theorem sees_univ (s : Cpu) : s.Sees Set.univ :=
  ⟨fun _ _ _ _ => Set.subset_univ _, fun _ _ _ _ => Set.subset_univ _⟩

/-- A walk depends on the entries it reads. -/
theorem va2pa_congr (hsatp : s'.csr .satp = s.csr .satp)
    (hdenied : ∀ type pte, s'.leafDenied type pte = s.leafDenied type pte) {v : BitVec 32}
    (hload : ∀ a, s.Walks v a → s'.loadWord a = s.loadWord a) (type : AccessType) :
    s'.va2pa v type = s.va2pa v type := by
  have hroot : s'.loadWord (s.rootEntry v) = s.loadWord (s.rootEntry v) :=
    hload _ (.inl rfl)
  unfold rootEntry at hroot
  unfold va2pa
  dsimp only
  rw [hsatp, hroot]
  split_ifs
  · rfl
  rcases hpte : s.loadWord (((s.csr .satp &&& 0x3FFFFF) <<< 12) ||| (((v >>> 22) &&& 0x3FF) <<< 2))
    with - | pte
  · rfl
  show ite _ _ _ = ite _ _ _
  by_cases hinvalid : pteInvalid pte = true
  · rw [if_pos hinvalid, if_pos hinvalid]
  by_cases hleaf : pteLeaf pte = true
  · rw [if_neg hinvalid, if_neg hinvalid, if_pos hleaf, if_pos hleaf, hdenied]
  rw [if_neg hinvalid, if_neg hinvalid, if_neg hleaf, if_neg hleaf]
  have hnext : s'.loadWord (nextEntry pte v) = s.loadWord (nextEntry pte v) :=
    hload _ (.inr ⟨pte, hpte, Bool.eq_false_iff.mpr hinvalid, Bool.eq_false_iff.mpr hleaf, rfl⟩)
  unfold nextEntry at hnext
  simp only [walkLevel2, hnext, hdenied]

end Cpu

/-- What a step can load does not depend on its own flags. -/
theorem Agree.sees (h : Agree Set.univ s s') (hs : s.Sees M) : s'.Sees M where
  tables hpaging v a ha := by
    refine hs.tables (h.paging ▸ hpaging) v a ?_
    have hroot : s'.rootEntry v = s.rootEntry v := by
      rw [Cpu.rootEntry, Cpu.rootEntry, h.csr]
    unfold Cpu.Walks at ha ⊢
    rwa [hroot, h.loadWord] at ha
  mapped v type p hp := hs.mapped v type p (h.translate v type ▸ hp)

/-! ### Twins -/

/-- The states differ in words outside `M` only, and, unless `T`, in what they tell. -/
inductive Twin (T : Prop) (M : Set (BitVec 28)) (s : Cpu) : Cpu → Prop
  | mk (m : BitVec 28 → BitVec 32) (t : TraceInst) (head len : BitVec 32)
      (memory : ∀ x ∈ M, m x = s.memory x)
      (told : T → t = s.currentTrace ∧ head = s.currentBbHeadPc ∧ len = s.currentBbLen) :
      Twin T M s
        { s with memory := m, currentTrace := t, currentBbHeadPc := head, currentBbLen := len }

namespace Twin

/-- A state is its own twin, also where the trace has to agree. -/
theorem refl (T : Prop) (M : Set (BitVec 28)) (s : Cpu) : Twin T M s s :=
  .mk s.memory s.currentTrace s.currentBbHeadPc s.currentBbLen (fun _ _ => rfl)
    fun _ => ⟨rfl, rfl, rfl⟩

/-- Twins have the same registers. -/
theorem gpr (h : Twin T M s s') : s'.gpr = s.gpr := by
  cases h
  rfl

/-- Twins have the same privilege. -/
theorem privilege (h : Twin T M s s') : s'.privilege = s.privilege := by
  cases h
  rfl

/-! ### Loads and stores of words -/

/-- A word that both see. -/
theorem loadWord (h : Twin T M s s') {a : BitVec 32} (ha : ramWord a ⊆ M) :
    s'.loadWord a = s.loadWord a := by
  cases h with
  | mk m t head len hm ht =>
    unfold Cpu.loadWord
    split_ifs with hram
    · exact congrArg some (hm _ (ha ⟨hram, rfl⟩))
    · rfl
    · rfl

/-- A store of one word takes twins to twins: the word is the same in both afterwards, in
`M` or not. -/
theorem storeWord (h : Twin T M s s') (a d : BitVec 32) :
    Option.Rel (Twin T M) (s.storeWord a d) (s'.storeWord a d) := by
  cases h with
  | mk m t head len hm ht =>
    unfold Cpu.storeWord
    split_ifs
    · refine .some (.mk _ t head len (fun x hx => ?_) ht)
      show Function.update m _ d x = Function.update s.memory _ d x
      by_cases hxa : x = ramIndex (wordAddr a)
      · rw [hxa, Function.update_self, Function.update_self]
      · rw [Function.update_of_ne hxa, Function.update_of_ne hxa]
        exact hm x hx
    · exact .some (.mk m t head len hm ht)
    · exact .none

/-- A part that is done under a condition, the same in both. -/
theorem doIf (h : Twin T M s s') {p : Prop} [Decidable p] {f : Cpu → Option Cpu}
    (hf : ∀ t t', Twin T M t t' → Option.Rel (Twin T M) (f t) (f t')) :
    Option.Rel (Twin T M) (s.doIf p f) (s'.doIf p f) := by
  unfold Cpu.doIf
  split_ifs
  · exact hf _ _ h
  · exact .some h

/-- Both translate addresses or neither does. -/
theorem paging (h : Twin T M s s') : s'.paging = s.paging := by
  cases h
  rfl

/-- The walk reads entries in `M` only. -/
theorem va2pa (h : Twin T M s s') (hs : s.Sees M) (hp : s.paging = true) (v : BitVec 32)
    (type : AccessType) : s'.va2pa v type = s.va2pa v type := by
  have hdenied (type : AccessType) (pte : BitVec 32) :
      s'.leafDenied type pte = s.leafDenied type pte := by
    cases h
    rfl
  have hsatp : s'.csr .satp = s.csr .satp := by
    cases h
    rfl
  exact Cpu.va2pa_congr hsatp hdenied (fun a ha => h.loadWord (hs.tables hp v a ha)) type

/-- Both have the same mapping. -/
theorem translate (h : Twin T M s s') (hs : s.Sees M) (v : BitVec 32) (type : AccessType) :
    s'.translate v type = s.translate v type := by
  unfold Cpu.translate
  rw [h.paging]
  split_ifs with hp
  · exact h.va2pa hs hp v type
  · rfl

/-! ### Devices -/

/-- A device is not in RAM. -/
theorem ramWord_uartBase : ramWord uartBase = ∅ :=
  Set.eq_empty_of_forall_notMem fun _ h => absurd h.1 (by decide)

/-- A read and write of the console, which is no RAM. -/
theorem rewriteUart (h : Twin T M s s') (f : BitVec 32 → BitVec 32) :
    Option.Rel (Twin T M) (s.loadWord uartBase >>= fun word => s.storeWord uartBase (f word))
      (s'.loadWord uartBase >>= fun word => s'.storeWord uartBase (f word)) := by
  rw [h.loadWord (ramWord_uartBase ▸ Set.empty_subset M)]
  exact rel_same fun word _ => h.storeWord uartBase (f word)

/-- A character to the console. -/
theorem uartPrint (h : Twin T M s s') : Option.Rel (Twin T M) s.uartPrint s'.uartPrint :=
  h.rewriteUart _

/-- The status of the console. -/
theorem uartReady (h : Twin T M s s') : Option.Rel (Twin T M) s.uartReady s'.uartReady :=
  h.rewriteUart fun word => (word &&& 0xfff0ffff) ||| 0x00030000

/-- The interrupt of the console. -/
theorem uartRaise (h : Twin T M s s') : Option.Rel (Twin T M) s.uartRaise s'.uartRaise := by
  unfold Cpu.uartRaise
  refine rel_bind (h.storeWord _ _) fun t t' ht => ?_
  rw [ht.loadWord (ramWord_uartBase ▸ Set.empty_subset M)]
  refine rel_same fun word _ => rel_bind (ht.storeWord _ _) fun u u' hu => .some ?_
  cases hu with
  | mk m t head len hm ht => exact .mk m t head len hm ht

/-- The end of the interrupt. -/
theorem plicComplete (h : Twin T M s s') :
    Option.Rel (Twin T M) s.plicComplete s'.plicComplete := by
  unfold Cpu.plicComplete
  refine rel_bind (h.storeWord _ _) fun t t' ht => .some ?_
  cases ht with
  | mk m t head len hm ht => exact .mk m t head len hm ht

/-- What a store to a device does besides. -/
theorem storeHooks (h : Twin T M s s') : Option.Rel (Twin T M) s.storeHooks s'.storeHooks := by
  have haddr : s'.storeAddr = s.storeAddr := by
    cases h
    rfl
  have hdata : s'.storeData = s.storeData := by
    cases h
    rfl
  unfold Cpu.storeHooks
  dsimp only
  rw [haddr, hdata]
  refine rel_bind (h.doIf fun _ _ ht => ht.uartPrint) fun t t' ht => ?_
  refine rel_bind (ht.doIf fun _ _ hu => hu.uartRaise) fun u u' hu => ?_
  refine rel_bind (hu.doIf fun _ _ hv => hv.uartReady) fun v v' hv => ?_
  exact hv.doIf fun _ _ hw => hw.plicComplete

/-- **A store** to a word that both see. -/
theorem commitStoreData (h : Twin T M s s') (ha : ramWord s.storeAddr ⊆ M) :
    Option.Rel (Twin T M) s.commitStoreData s'.commitStoreData := by
  have hbytes : Option.Rel (Twin T M) s.storeBytes s'.storeBytes := by
    -- both drop the reservation first, and then merge and write the word
    have hreserve : Twin T M (if s.store then { s with reserveValid := false } else s)
        (if s'.store then { s' with reserveValid := false } else s') := by
      cases h with
      | mk m t head len hm ht =>
        dsimp only
        split_ifs
        · exact .mk m t head len hm ht
        · exact .mk m t head len hm ht
    have hkept : (if s.store then { s with reserveValid := false } else s).storeAddr
        = s.storeAddr := by
      split_ifs <;> rfl
    unfold Cpu.storeBytes
    dsimp only
    generalize (if s.store then { s with reserveValid := false } else s) = t
      at hreserve hkept ⊢
    generalize (if s'.store then { s' with reserveValid := false } else s') = t' at hreserve ⊢
    have hload := hreserve.loadWord (a := t.storeAddr) (hkept ▸ ha)
    cases hreserve with
    | mk m tr head len hm ht =>
      dsimp only at hload ⊢
      rw [hload]
      exact rel_same fun old _ => (Twin.mk m tr head len hm ht).doIf fun u u' hu => by
        cases hu with
        | mk m tr head len hm ht => exact (Twin.mk m tr head len hm ht).storeWord _ _
  have hsize : checkMemRange s'.storeAddr s'.storeSize = checkMemRange s.storeAddr s.storeSize := by
    cases h
    rfl
  unfold Cpu.commitStoreData
  rw [hsize]
  split_ifs
  · exact rel_bind hbytes fun _ _ ht => ht.storeHooks
  · exact .none

/-! ### Traps -/

/-- A trap reads and writes CSRs, the privilege and the pc. -/
theorem exception (h : Twin T M s s') (v : BitVec 32) :
    Twin T M (s.exception v) (s'.exception v) := by
  cases h with
  | mk m t head len hm ht =>
    unfold Cpu.exception Cpu.handle
    refine rel_ite Iff.rfl ?_ (rel_ite Iff.rfl ?_ (rel_ite Iff.rfl ?_ (rel_ite Iff.rfl ?_ ?_)))
    · exact .mk m t head len hm ht
    · exact .mk m t head len hm ht
    · exact .mk m t head len hm ht
    · exact .mk m t head len hm ht
    · exact .mk m t head len hm ht

/-! ### Parts of instructions -/

/-- The same is written into both traces. -/
theorem trace (h : Twin T M s s') (f : TraceInst → TraceInst) :
    Twin T M (s.trace f) (s'.trace f) := by
  cases h with
  | mk m t head len hm ht =>
    refine .mk m (f t) head len hm fun hT => ?_
    obtain ⟨rfl, rfl, rfl⟩ := ht hT
    exact ⟨rfl, rfl, rfl⟩

/-- A mark for an access at the same address. -/
theorem traceIo (h : Twin T M s s') (p : BitVec 32) : Twin T M (s.traceIo p) (s'.traceIo p) :=
  rel_ite Iff.rfl (h.trace _) h

/-- A jump to the same pc. -/
theorem setPc (h : Twin T M s s') (pc : BitVec 32) : Twin T M (s.setPc pc) (s'.setPc pc) := by
  cases h with
  | mk m t head len hm ht => exact .mk m t head len hm ht

/-- A step to the pc that follows. -/
theorem advance (h : Twin T M s s') : Twin T M s.advance s'.advance := by
  cases h with
  | mk m t head len hm ht => exact .mk m t head len hm ht

/-- The same value into the same register. -/
theorem setGpr (h : Twin T M s s') (rd : Fin 32) (v : BitVec 32) :
    Twin T M (s.setGpr rd v) (s'.setGpr rd v) := by
  cases h with
  | mk m t head len hm ht => exact .mk m t head len hm ht

/-- The result of an instruction. -/
theorem writeBack (h : Twin T M s s') (rd : Fin 32) (v : Option (BitVec 32)) :
    Twin T M (s.writeBack rd v) (s'.writeBack rd v) := by
  cases v with
  | none => exact h
  | some v => exact h.setGpr rd v

/-- The flag of an exception. -/
theorem raise (h : Twin T M s s') (c : Raised) : Twin T M (s.raise c) (s'.raise c) := by
  cases h with
  | mk m t head len hm ht => cases c <;> exact .mk m t head len hm ht

/-- A CSR write with its copies. -/
theorem writeCsr (h : Twin T M s s') (r : Csr) (v : BitVec 32) :
    Twin T M (s.writeCsr r v) (s'.writeCsr r v) := by
  cases h with
  | mk m t head len hm ht => cases r <;> exact .mk m t head len hm ht

/-- A CSR instruction. -/
theorem csrAccess (h : Twin T M s s') (i : BitVec 32) (r : Csr) :
    Twin T M (s.csrAccess i r) (s'.csrAccess i r) := by
  have hold : s'.csr r = s.csr r := by
    cases h
    rfl
  have hoperand : s'.csrOperand i = s.csrOperand i := by
    cases h
    rfl
  unfold Cpu.csrAccess
  dsimp only
  rw [hold, hoperand]
  have hread : Twin T M (if funct3 i ≠ 1 ∨ regD i ≠ 0 then s.setGpr (regD i) (s.csr r) else s)
      (if funct3 i ≠ 1 ∨ regD i ≠ 0 then s'.setGpr (regD i) (s.csr r) else s') :=
    rel_ite Iff.rfl (h.setGpr _ _) h
  exact rel_ite Iff.rfl (hread.writeCsr _ _) hread

/-- A jump with its link. -/
theorem jump (h : Twin T M s s') (rd : Fin 32) (target : BitVec 32) :
    Twin T M (s.jump rd target) (s'.jump rd target) := by
  have htrace := h.trace fun t => { t with target := target }
  unfold Cpu.jump
  generalize s.trace (fun t => { t with target := target }) = u at htrace ⊢
  generalize s'.trace (fun t => { t with target := target }) = u' at htrace ⊢
  cases htrace with
  | mk m t head len hm ht => exact .mk m t head len hm ht

/-- A branch, which writes the trace as well. -/
theorem branch (h : Twin T M s s') (i a b : BitVec 32) :
    Twin T M (s.branch i a b) (s'.branch i a b) := by
  have hpc : s'.pc = s.pc := by
    cases h
    rfl
  have htrace := h.trace fun t => { t with target := s.pc + immB i }
  unfold Cpu.branch
  dsimp only
  rw [hpc]
  refine rel_ite Iff.rfl ?_ ?_
  · generalize s.trace (fun t => { t with target := s.pc + immB i }) = u at htrace ⊢
    generalize s'.trace (fun t => { t with target := s.pc + immB i }) = u' at htrace ⊢
    cases htrace with
    | mk m t head len hm ht => exact .mk m t head len hm ht
  · cases h with
    | mk m t head len hm ht => exact .mk m t head len hm ht

/-- The members of a store. -/
theorem prepareStore (h : Twin T M s s') (f3 pAddr b : BitVec 32) :
    Twin T M (s.prepareStore f3 pAddr b) (s'.prepareStore f3 pAddr b) := by
  cases h with
  | mk m t head len hm ht =>
    unfold Cpu.prepareStore
    refine rel_ite Iff.rfl ?_ (rel_ite Iff.rfl ?_ ?_)
    · exact .mk m t head len hm ht
    · exact .mk m t head len hm ht
    · exact .mk m t head len hm ht

/-- The members of an atomic access. -/
theorem prepareAmo (h : Twin T M s s') (f5 pAddr : BitVec 32) :
    Twin T M (s.prepareAmo f5 pAddr) (s'.prepareAmo f5 pAddr) := by
  refine rel_ite Iff.rfl ?_ h
  cases h with
  | mk m t head len hm ht => exact .mk m t head len hm ht

end Twin

/-- An atomic access stores at its own address only. -/
theorem amoExecute_storeAddr {rd : Fin 32} {f5 pAddr old b : BitVec 32} (hstore : s.store = false)
    (h : ((s.prepareAmo f5 pAddr).amoExecute rd f5 pAddr old b).store = true) :
    f5 ≠ 2 ∧ ((s.prepareAmo f5 pAddr).amoExecute rd f5 pAddr old b).storeAddr = pAddr := by
  by_cases h2 : f5 = 2
  · rw [h2] at h
    exact absurd (hstore.symm.trans h) Bool.false_ne_true
  refine ⟨h2, ?_⟩
  unfold Cpu.prepareAmo Cpu.amoExecute Cpu.storeConditional
  rw [if_pos h2, if_neg h2]
  split_ifs
  · rfl
  · rfl
  · rcases amoData f5.toNat old b with - | data
    · rfl
    · rfl

namespace Twin

/-- The operation on the loaded word. -/
theorem amoExecute (h : Twin T M s s') (rd : Fin 32) (f5 pAddr old b : BitVec 32) :
    Twin T M (s.amoExecute rd f5 pAddr old b) (s'.amoExecute rd f5 pAddr old b) := by
  cases h with
  | mk m t head len hm ht =>
    unfold Cpu.amoExecute
    refine rel_ite Iff.rfl ?_ (rel_ite Iff.rfl (rel_ite Iff.rfl ?_ ?_) ?_)
    · exact .mk m t head len hm ht
    · exact .mk m t head len hm ht
    · exact .mk m t head len hm ht
    · rcases amoData f5.toNat old b with - | data
      · exact .mk m t head len hm ht
      · exact .mk m t head len hm ht

/-- An atomic access whose word is in `M`: the loaded values are the same. -/
theorem amoAccess (h : Twin T M s s') {i pAddr : BitVec 32} (hp : ramWord pAddr ⊆ M)
    (hstore : s.store = false) (b : BitVec 32) :
    Option.Rel (Twin T M) (s.amoAccess i pAddr b) (s'.amoAccess i pAddr b) := by
  have hprepare := h.prepareAmo (funct5 i) pAddr
  unfold Cpu.amoAccess
  dsimp only
  rw [hprepare.loadWord hp]
  refine rel_same fun old _ => ?_
  have hexecute := hprepare.amoExecute (regD i) (funct5 i) pAddr old b
  have haddr : ((s.prepareAmo (funct5 i) pAddr).amoExecute (regD i) (funct5 i) pAddr old b).store
      = true →
        ((s.prepareAmo (funct5 i) pAddr).amoExecute (regD i) (funct5 i) pAddr old b).storeAddr
          = pAddr := fun hs => (amoExecute_storeAddr hstore hs).2
  generalize (s.prepareAmo (funct5 i) pAddr).amoExecute (regD i) (funct5 i) pAddr old b = u
    at hexecute haddr ⊢
  generalize (s'.prepareAmo (funct5 i) pAddr).amoExecute (regD i) (funct5 i) pAddr old b = u'
    at hexecute ⊢
  have hflag : u'.store = u.store := by
    cases hexecute
    rfl
  unfold Cpu.doIf
  rw [hflag]
  split_ifs with hs
  · exact hexecute.commitStoreData (haddr hs ▸ hp)
  · exact .some hexecute

end Twin

/-! ### Instructions -/

namespace Cpu.Sees

/-- What can be loaded is read from the architectural state. -/
theorem agree (hs : s.Sees M) (h : Agree Set.univ s s') : s'.Sees M := h.sees hs

/-- So the trace does not count. -/
theorem trace (hs : s.Sees M) (f : TraceInst → TraceInst) : (s.trace f).Sees M :=
  hs.agree ⟨fun _ _ => rfl, rfl, rfl, rfl, rfl, rfl, rfl, rfl, rfl⟩

end Cpu.Sees

/-- The address of an atomic access is a translation, and that of a store unless it is
`LR.W`. -/
theorem translate_of_amoTranslation {i p : BitVec 32}
    (h : s.amoTranslation i = some (some p)) :
    (∃ type, s.translate (s.gpr (regA i)) type = some (some p)) ∧
      (funct5 i ≠ 2 → s.translate (s.gpr (regA i)) .store = some (some p)) := by
  unfold Cpu.amoTranslation at h
  obtain ⟨⟨p1, p2⟩, hp, h⟩ := Option.bind_eq_some_iff.mp h
  dsimp only at h
  split_ifs at h with hfault
  · cases h
  have hp' := Option.some.inj (Option.some.inj h)
  have hboth : s.translate (s.gpr (regA i)) .load = some p1 ∧
      s.translate (s.gpr (regA i)) .store = some p2 := by
    unfold Cpu.translateAmo at hp
    unfold Cpu.translate
    split_ifs at hp ⊢
    · obtain ⟨q1, h1, hp⟩ := Option.bind_eq_some_iff.mp hp
      obtain ⟨q2, h2, hp⟩ := Option.bind_eq_some_iff.mp hp
      obtain ⟨rfl, rfl⟩ := Prod.mk.inj (Option.some.inj hp)
      exact ⟨h1, h2⟩
    · obtain ⟨rfl, rfl⟩ := Prod.mk.inj (Option.some.inj hp)
      exact ⟨rfl, rfl⟩
  obtain ⟨hload, hstore⟩ := hboth
  rw [Bool.not_eq_true, Option.isSome_eq_false_iff, Option.isNone_iff_eq_none,
    Cpu.amoFault] at hfault
  rcases p2 with - | p2
  · -- only `LR.W` goes on without a mapping for the store
    by_cases h2 : funct5 i = 2
    · rw [if_pos h2] at hfault
      rcases p1 with - | p1
      · cases hfault
      · obtain rfl : p1 = p := hp'
        exact ⟨⟨.load, hload⟩, fun hne => absurd h2 hne⟩
    · rw [if_neg h2, Option.isNone_none, Bool.or_true, if_pos rfl, ite_self] at hfault
      cases hfault
  · obtain rfl : p2 = p := hp'
    exact ⟨⟨.store, hstore⟩, fun _ => hstore⟩

/-- Twins in which an instruction ends. -/
inductive Flow.Twins (T : Prop) (M : Set (BitVec 28)) : Flow → Flow → Prop
  | next {s s' : Cpu} (h : Twin T M s s') : Twins T M (.next s) (.next s')
  | trap {s s' : Cpu} (h : Twin T M s s') (v : BitVec 32) : Twins T M (.trap s v) (.trap s' v)

namespace Twin

/-- The translation of an atomic access. -/
theorem amoTranslation (h : Twin T M s s') (hs : s.Sees M) (i : BitVec 32) :
    s'.amoTranslation i = s.amoTranslation i := by
  have hboth (v : BitVec 32) : s'.translateAmo v = s.translateAmo v := by
    unfold Cpu.translateAmo
    rw [h.paging]
    split_ifs with hp
    · rw [h.va2pa hs hp, h.va2pa hs hp]
    · rfl
  simp only [Cpu.amoTranslation, h.gpr, hboth, Cpu.amoFault_isSome s' s]

/-- Twins are about to execute the same instruction. -/
theorem instruction (h : Twin T M s s') : s'.instruction = s.instruction := by
  cases h
  rfl

/-- The instructions without memory: `RV32CSR`. -/
theorem rv32csr (h : Twin T M s s') : Flow.Twins T M s.rv32csr s'.rv32csr := by
  have htrace : Twin T M (s.traceRegisters (csrRegisters s.instruction))
      (s'.traceRegisters (csrRegisters s.instruction)) := h.trace _
  unfold Cpu.rv32csr
  dsimp only
  rw [h.instruction]
  split_ifs
  · exact .trap (htrace.raise .illegal) _
  · rcases cvtNumberToCsr (bits s.instruction 31 20) with - | r
    · exact .next htrace.advance
    · exact .next (htrace.csrAccess _ r).advance

/-- Atomic accesses: what is mapped is in `M`. -/
theorem rv32a (h : Twin T M s s') (hs : s.Sees M) (hop : opcode s.instruction = some .lrw)
    (hstore : s.store = false) : Option.Rel (Flow.Twins T M) s.rv32a s'.rv32a := by
  have hop' : opcode s'.instruction = some .lrw := by rw [h.instruction, hop]
  rw [Cpu.rv32a_eq hop, Cpu.rv32a_eq hop']
  dsimp only
  rw [h.instruction, h.gpr, h.amoTranslation hs]
  have htrace : Twin T M (s.traceAmo s.instruction (s.gpr (regA s.instruction)))
      (s'.traceAmo s.instruction (s.gpr (regA s.instruction))) := (h.trace _).trace _
  split_ifs
  · exact .none
  refine rel_same fun p hp => ?_
  rcases p with - | pAddr
  · exact .some (.trap ((htrace.raise _).trace _) _)
  dsimp only
  split_ifs
  · obtain ⟨⟨type, hmapped⟩, -⟩ := translate_of_amoTranslation hp
    exact rel_map (htrace.amoAccess (hs.mapped _ _ _ hmapped) hstore _) fun _ _ ht =>
      .next ht.advance
  · exact .none

/-- Loads, likewise. -/
theorem load (h : Twin T M s s') (hs : s.Sees M) (i a : BitVec 32) :
    Option.Rel (Flow.Twins T M) (s.load i a) (s'.load i a) := by
  have htrace := h.trace fun t => { t with isLoad := true, memAddr := a + immI i }
  have hsees := hs.trace fun t => { t with isLoad := true, memAddr := a + immI i }
  unfold Cpu.load
  dsimp only
  generalize s.trace (fun t => { t with isLoad := true, memAddr := a + immI i }) = u
    at htrace hsees ⊢
  generalize s'.trace (fun t => { t with isLoad := true, memAddr := a + immI i }) = u' at htrace ⊢
  -- both translate alike, since no table lies in a hidden word
  rw [htrace.translate hsees]
  split_ifs
  · exact .none
  refine rel_same fun p hp => ?_
  rcases p with - | pAddr
  · exact .some (.trap (((htrace.traceIo _).raise .loadFault).trace _) _)
  dsimp only
  -- and load alike, since a mapped word is seen
  rw [htrace.loadWord (hsees.mapped _ _ _ hp)]
  split_ifs
  · refine rel_same fun word _ => .some (.next ?_)
    have hdata : (u'.traceIo pAddr).loadData (funct3 i) pAddr word
        = (u.traceIo pAddr).loadData (funct3 i) pAddr word := by
      have hio := htrace.traceIo pAddr
      generalize u.traceIo pAddr = w at hio ⊢
      generalize u'.traceIo pAddr = w' at hio ⊢
      cases hio
      rfl
    rw [hdata]
    exact ((htrace.traceIo pAddr).setGpr _ _).advance
  · exact .none

/-- Stores, whether their word is in `M` or not. -/
theorem storeCase (h : Twin T M s s') (hs : s.Sees M) (i a b : BitVec 32) :
    Option.Rel (Flow.Twins T M) (s.storeCase i a b) (s'.storeCase i a b) := by
  have htrace := h.trace fun t => { t with isStore := true, memAddr := a + immS i }
  have hsees := hs.trace fun t => { t with isStore := true, memAddr := a + immS i }
  unfold Cpu.storeCase
  dsimp only
  generalize s.trace (fun t => { t with isStore := true, memAddr := a + immS i }) = u
    at htrace hsees ⊢
  generalize s'.trace (fun t => { t with isStore := true, memAddr := a + immS i }) = u' at htrace ⊢
  rw [htrace.translate hsees]
  split_ifs
  · exact .none
  refine rel_same fun p hp => ?_
  rcases p with - | pAddr
  · exact .some (.trap ((htrace.raise .storeFault).trace _) _)
  dsimp only
  split_ifs
  · have haddr : ((u.traceIo pAddr).prepareStore (funct3 i) pAddr b).storeAddr = pAddr := by
      unfold Cpu.prepareStore
      split_ifs <;> rfl
    exact rel_map (((htrace.traceIo pAddr).prepareStore _ _ _).commitStoreData
      (haddr.symm ▸ hsees.mapped _ _ _ hp)) fun _ _ ht => .next ht.advance
  · exact .none

/-- The whole of `RV32IM`. -/
theorem rv32im (h : Twin T M s s') (hs : s.Sees M) :
    Option.Rel (Flow.Twins T M) s.rv32im s'.rv32im := by
  unfold Cpu.rv32im
  dsimp only
  rw [h.instruction, h.gpr]
  have htrace : Twin T M (s.traceRegisters (rv32imRegisters s.instruction))
      (s'.traceRegisters (rv32imRegisters s.instruction)) := h.trace _
  have hsees : (s.traceRegisters (rv32imRegisters s.instruction)).Sees M := hs.trace _
  have hpc : (s'.traceRegisters (rv32imRegisters s.instruction)).pc
      = (s.traceRegisters (rv32imRegisters s.instruction)).pc := by
    cases h
    rfl
  rw [hpc]
  -- what is left neither loads nor stores
  rcases opcode s.instruction with - | op
  · exact .some (.next htrace.advance)
  cases op with
  | lui => exact .some (.next (htrace.setGpr _ _).advance)
  | auipc => exact .some (.next (htrace.setGpr _ _).advance)
  | jal => exact .some (.next (htrace.jump _ _))
  | jalr => exact .some (.next (htrace.jump _ _))
  | beq => exact .some (.next (htrace.branch _ _ _))
  | lb => exact htrace.load hsees _ _
  | sb => exact htrace.storeCase hsees _ _ _
  | addi => exact .some (.next (htrace.writeBack _ _).advance)
  | add => exact .some (.next (htrace.writeBack _ _).advance)
  | fence => exact .some (.next htrace.advance)
  | ecall => exact .some (.next htrace.advance)
  | lrw => exact .some (.next htrace.advance)

/-- **An instruction.** -/
theorem execute (h : Twin T M s s') (hs : s.Sees M) (hstore : s.store = false) :
    Option.Rel (Flow.Twins T M) s.execute s'.execute := by
  unfold Cpu.execute
  rw [h.instruction]
  split
  · exact .some h.rv32csr
  · next hop => exact h.rv32a hs hop hstore
  · exact h.rv32im hs

end Twin

/-- The end of the step. -/
theorem Flow.Twins.finish {f f' : Flow} (h : Flow.Twins T M f f') :
    Twin T M f.run.finish f'.run.finish := by
  have hrun : Twin T M f.run f'.run := by
    cases h with
    | next h => exact h
    | trap h v => exact h.exception v
  generalize f.run = u at hrun
  generalize f'.run = u' at hrun
  cases hrun with
  | mk m t head len hm ht =>
    refine .mk m { t with isBranch := u.isBr, branchTaken := u.brTaken } head len hm fun hT => ?_
    obtain ⟨rfl, rfl, rfl⟩ := ht hT
    exact ⟨rfl, rfl, rfl⟩

/-! ### Steps -/

namespace Twin

/-- The start of a step, which clears the flags of the one before. -/
theorem beginStep (h : Twin T M s s') : Twin T M s.beginStep s'.beginStep := by
  cases h with
  | mk m t head len hm ht =>
    unfold Cpu.beginStep
    dsimp only
    by_cases hp : s.privilege = 0
    · rw [if_pos hp, if_pos hp]
      refine .mk m t _ _ hm fun hT => ?_
      obtain ⟨rfl, rfl, rfl⟩ := ht hT
      exact ⟨rfl, rfl, rfl⟩
    · rw [if_neg hp, if_neg hp]
      exact .mk m t head len hm ht

/-- The instruction word is mapped, so it is in `M`. -/
theorem fetch (h : Twin T M s s') (hs : s.Sees M) : s'.fetch = s.fetch := by
  have hpc : s'.pc = s.pc := by
    cases h
    rfl
  unfold Cpu.fetch
  rw [hpc, h.translate hs]
  rcases hp : s.translate s.pc .fetch with - | - | p
  · rfl
  · rfl
  · show ite _ _ _ = ite _ _ _
    rw [h.loadWord (hs.mapped _ _ _ hp)]

/-- The state with the instruction. -/
theorem fetched (h : Twin T M s s') (i : BitVec 32) : Twin T M (s.fetched i) (s'.fetched i) := by
  have hbegin := h.beginStep
  unfold Cpu.fetched
  generalize s.beginStep = u at hbegin ⊢
  generalize s'.beginStep = u' at hbegin ⊢
  cases hbegin with
  | mk m t head len hm ht =>
    refine .mk m _ head len hm fun hT => ?_
    obtain ⟨rfl, rfl, rfl⟩ := ht hT
    exact ⟨rfl, rfl, rfl⟩

/-- The interrupts are polled from `mip` and `mie`. -/
theorem decided (h : Twin T M s s') (i : BitVec 32) : Twin T M (s.decided i) (s'.decided i) := by
  have hfetched := h.fetched i
  unfold Cpu.decided
  generalize s.fetched i = u at hfetched ⊢
  generalize s'.fetched i = u' at hfetched ⊢
  cases hfetched with
  | mk m t head len hm ht => exact .mk m t head len hm ht

/-- **A step** of twins, if both see what the step can load. -/
theorem riscv (h : Twin T M s s') (hs : s.Sees M) :
    Option.Rel (Twin T M) s.riscv s'.riscv := by
  have hpc : s'.pc = s.pc := by
    cases h
    rfl
  rw [Cpu.riscv_eq, Cpu.riscv_eq, h.fetch hs]
  rcases s.fetch with - | - | i
  · exact .none
  -- a fetch fault is taken by both
  · dsimp only [Option.bind_some]
    rw [hpc]
    refine .some (exception ?_ _)
    have hbegin := h.beginStep
    unfold Cpu.fetchFault
    generalize s.beginStep = u at hbegin ⊢
    generalize s'.beginStep = u' at hbegin ⊢
    cases hbegin with
    | mk m t head len hm ht => exact .mk m t head len hm ht
  have hfetched := h.fetched i
  have hdecided := h.decided i
  have hsees : (s.decided i).Sees M := hs.agree (s.agree_decided i)
  have hasy : (s'.decided i).asy = (s.decided i).asy := by
    generalize s.decided i = u at hdecided ⊢
    generalize s'.decided i = u' at hdecided ⊢
    cases hdecided
    rfl
  dsimp only [Option.bind_some]
  -- an ebreak stops both
  by_cases hi : i = instEbreak
  · subst hi
    rw [Cpu.decode_ebreak, Cpu.decode_ebreak]
    have htrace := hfetched.trace fun t => { t with isEbreak := true }
    generalize (s.fetched instEbreak).trace (fun t => { t with isEbreak := true }) = u
      at htrace ⊢
    generalize (s'.fetched instEbreak).trace (fun t => { t with isEbreak := true }) = u'
      at htrace ⊢
    cases htrace with
    | mk m t head len hm ht => exact .some (.mk m t head len hm ht)
  -- both trap at the decode, or both execute
  rw [Cpu.decode_decided hi, Cpu.decode_decided hi, Cpu.trapsAtDecode, Cpu.trapsAtDecode, hasy]
  split_ifs
  · exact .none
  · exact .some ((hdecided.trace _).exception 0)
  · exact rel_map (hdecided.execute hsees rfl) fun _ _ hflow => hflow.finish

end Twin

end TraceSim.Ref
