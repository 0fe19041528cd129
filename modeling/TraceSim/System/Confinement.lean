/-
TraceSim/System/Confinement.lean

Page tables confine a program.

A step that neither traps nor executes a SYSTEM instruction writes RAM only where the page
tables map a store (`riscv_within`).  If the tables themselves are not mapped for stores
(`Sealed`), they still say the same after the step.  So a whole run of such steps keeps to
the words that were mapped for stores at its start (`confined`), and does not depend on any
word that no access was mapped to (`unseen`).
-/
import TraceSim.Ref.Ram
import TraceSim.Ref.Sv32
import TraceSim.Ref.Twins
import TraceSim.System.Program

namespace TraceSim.Ref

variable {W M : Set (BitVec 28)} {s t u : Cpu}

/-! ### What an instruction writes -/

/-- The state `u` differs from `s` in RAM at most in `W`, and has the mapping of `s` but for
the words of the page tables. -/
structure Within (W : Set (BitVec 28)) (s u : Cpu) : Prop where
  memory : ∀ x ∉ W, u.memory x = s.memory x
  satp : u.csr .satp = s.csr .satp
  mstatus : u.csr .mstatus = s.csr .mstatus
  privilege : u.privilege = s.privilege

namespace Within

/-- A step that stores nothing. -/
theorem refl (W : Set (BitVec 28)) (s : Cpu) : Within W s s := ⟨fun _ _ => rfl, rfl, rfl, rfl⟩

/-- Parts of a step, one after the other. -/
theorem trans (h : Within W s t) (h' : Within W t u) : Within W s u where
  memory x hx := (h'.memory x hx).trans (h.memory x hx)
  satp := h'.satp.trans h.satp
  mstatus := h'.mstatus.trans h.mstatus
  privilege := h'.privilege.trans h.privilege

/-- Registers and flags are no memory. -/
theorem of_agree (h : Agree Set.univ s u) : Within W s u where
  memory x _ := congrFun h.memory x
  satp := congrFun h.csr _
  mstatus := congrFun h.csr _
  privilege := h.privilege

/-! #### Stores -/

/-- A store of one word keeps to `W` if its word is in `W`. -/
theorem storeWord {a d : BitVec 32} (ha : ramWord a ⊆ W) (h : s.storeWord a d = some u) :
    Within W s u := by
  unfold Cpu.storeWord at h
  split_ifs at h with hram
  · obtain rfl := Option.some.inj h
    refine ⟨fun x hx => Function.update_of_ne ?_ _ _, rfl, rfl, rfl⟩
    rintro rfl
    exact hx (ha ⟨hram, rfl⟩)
  · obtain rfl := Option.some.inj h
    exact ⟨fun _ _ => rfl, rfl, rfl, rfl⟩

/-- A store to a device. -/
theorem storeUart {d : BitVec 32} (h : s.storeWord uartBase d = some u) : Within W s u :=
  storeWord (Twin.ramWord_uartBase ▸ Set.empty_subset W) h

/-- The register of the interrupt controller is no RAM. -/
theorem storePlic {d : BitVec 32} (h : s.storeWord plicClaim d = some u) : Within W s u := by
  have hdevice : ramWord plicClaim = ∅ :=
    Set.eq_empty_of_forall_notMem fun _ h => absurd h.1 (by decide)
  exact storeWord (hdevice ▸ Set.empty_subset W) h

/-- The pending bits play no part in the translation. -/
theorem setPending (s : Cpu) (v v' : BitVec 32) :
    Within W s ((s.setCsr .mip v).setCsr .sip v') := by
  have hother (r : Csr) (hmip : r ≠ .mip) (hsip : r ≠ .sip) :
      ((s.setCsr .mip v).setCsr .sip v').csr r = s.csr r :=
    (Function.update_of_ne hsip _ _).trans (Function.update_of_ne hmip _ _)
  exact ⟨fun _ _ => rfl, hother _ (by decide) (by decide), hother _ (by decide) (by decide), rfl⟩

/-- A part that is done under a condition. -/
theorem doIf {p : Prop} [Decidable p] {f : Cpu → Option Cpu}
    (hf : ∀ t u, f t = some u → Within W t u) (h : s.doIf p f = some u) : Within W s u := by
  unfold Cpu.doIf at h
  split_ifs at h
  · exact hf _ _ h
  · obtain rfl := Option.some.inj h
    exact refl W s

/-- The console is a device. -/
theorem uartPrint (h : s.uartPrint = some u) : Within W s u := by
  unfold Cpu.uartPrint at h
  obtain ⟨w, -, h⟩ := Option.bind_eq_some_iff.mp h
  exact storeUart h

/-- So is its status. -/
theorem uartReady (h : s.uartReady = some u) : Within W s u := by
  unfold Cpu.uartReady at h
  obtain ⟨w, -, h⟩ := Option.bind_eq_some_iff.mp h
  exact storeUart h

/-- The interrupt goes into `mip` and `sip`, and into a device word. -/
theorem uartRaise (h : s.uartRaise = some u) : Within W s u := by
  unfold Cpu.uartRaise at h
  obtain ⟨t, ht, h⟩ := Option.bind_eq_some_iff.mp h
  obtain ⟨w, -, h⟩ := Option.bind_eq_some_iff.mp h
  obtain ⟨v, hv, h⟩ := Option.bind_eq_some_iff.mp h
  obtain rfl := Option.some.inj h
  exact (storePlic ht).trans ((storeUart hv).trans (setPending v _ _))

/-- And is taken back there. -/
theorem plicComplete (h : s.plicComplete = some u) : Within W s u := by
  unfold Cpu.plicComplete at h
  obtain ⟨t, ht, h⟩ := Option.bind_eq_some_iff.mp h
  obtain rfl := Option.some.inj h
  exact (storePlic ht).trans (setPending t _ _)

/-- No device hook writes RAM. -/
theorem storeHooks (h : s.storeHooks = some u) : Within W s u := by
  unfold Cpu.storeHooks at h
  obtain ⟨t₁, h₁, h⟩ := Option.bind_eq_some_iff.mp h
  obtain ⟨t₂, h₂, h⟩ := Option.bind_eq_some_iff.mp h
  obtain ⟨t₃, h₃, h⟩ := Option.bind_eq_some_iff.mp h
  exact (doIf (fun _ _ => uartPrint) h₁).trans ((doIf (fun _ _ => uartRaise) h₂).trans
    ((doIf (fun _ _ => uartReady) h₃).trans (doIf (fun _ _ => plicComplete) h)))

/-- **A store** writes the word at its address, and devices. -/
theorem commitStoreData (ha : ramWord s.storeAddr ⊆ W) (h : s.commitStoreData = some u) :
    Within W s u := by
  unfold Cpu.commitStoreData at h
  split_ifs at h
  obtain ⟨t, ht, h⟩ := Option.bind_eq_some_iff.mp h
  refine trans ?_ (storeHooks h)
  have hreserve : Within W s (if s.store then { s with reserveValid := false } else s) ∧
      (if s.store then { s with reserveValid := false } else s).storeAddr = s.storeAddr := by
    split_ifs
    · exact ⟨⟨fun _ _ => rfl, rfl, rfl, rfl⟩, rfl⟩
    · exact ⟨refl W s, rfl⟩
  unfold Cpu.storeBytes at ht
  dsimp only at ht
  generalize (if s.store then { s with reserveValid := false } else s) = v at hreserve ht
  obtain ⟨hwithin, haddr⟩ := hreserve
  obtain ⟨old, -, ht⟩ := Option.bind_eq_some_iff.mp ht
  refine hwithin.trans ?_
  unfold Cpu.doIf at ht
  split_ifs at ht
  · exact storeWord (haddr.symm ▸ ha) ht
  · obtain rfl := Option.some.inj ht
    exact refl W v

/-! #### Parts of instructions -/

/-- The trace is no memory. -/
theorem trace (s : Cpu) (f : TraceInst → TraceInst) : Within W s (s.trace f) :=
  ⟨fun _ _ => rfl, rfl, rfl, rfl⟩

/-- Nor is its mark. -/
theorem traceIo (s : Cpu) (p : BitVec 32) : Within W s (s.traceIo p) := by
  unfold Cpu.traceIo
  split_ifs
  · exact trace s _
  · exact refl W s

/-- The pc moves on. -/
theorem advance (s : Cpu) : Within W s s.advance := ⟨fun _ _ => rfl, rfl, rfl, rfl⟩

/-- A register is written. -/
theorem setGpr (s : Cpu) (rd : Fin 32) (v : BitVec 32) : Within W s (s.setGpr rd v) :=
  ⟨fun _ _ => rfl, rfl, rfl, rfl⟩

/-- The result of an instruction. -/
theorem writeBack (s : Cpu) (rd : Fin 32) (v : Option (BitVec 32)) :
    Within W s (s.writeBack rd v) := by
  cases v with
  | none => exact refl W s
  | some v => exact setGpr s rd v

/-- A branch writes the pc and the trace. -/
theorem branch (s : Cpu) (i a b : BitVec 32) : Within W s (s.branch i a b) := by
  unfold Cpu.branch
  dsimp only
  split_ifs
  · exact ⟨fun _ _ => rfl, rfl, rfl, rfl⟩
  · exact ⟨fun _ _ => rfl, rfl, rfl, rfl⟩

/-- The members of a store: its address is the physical one. -/
theorem prepareStore (s : Cpu) (f3 pAddr b : BitVec 32) :
    Within W s (s.prepareStore f3 pAddr b) ∧ (s.prepareStore f3 pAddr b).storeAddr = pAddr := by
  unfold Cpu.prepareStore
  split_ifs
  · exact ⟨⟨fun _ _ => rfl, rfl, rfl, rfl⟩, rfl⟩
  · exact ⟨⟨fun _ _ => rfl, rfl, rfl, rfl⟩, rfl⟩
  · exact ⟨⟨fun _ _ => rfl, rfl, rfl, rfl⟩, rfl⟩

/-- An atomic operation fills the members of its store. -/
theorem amoExecute (s : Cpu) (rd : Fin 32) (f5 pAddr old b : BitVec 32) :
    Within W s (s.amoExecute rd f5 pAddr old b) := by
  unfold Cpu.amoExecute Cpu.storeConditional
  split_ifs
  · exact ⟨fun _ _ => rfl, rfl, rfl, rfl⟩
  · exact ⟨fun _ _ => rfl, rfl, rfl, rfl⟩
  · exact ⟨fun _ _ => rfl, rfl, rfl, rfl⟩
  · rcases amoData f5.toNat old b with - | data
    · exact refl W s
    · exact ⟨fun _ _ => rfl, rfl, rfl, rfl⟩

/-- An atomic access writes only what it may store to. -/
theorem amoAccess {i pAddr b : BitVec 32} (hstore : s.store = false)
    (hp : funct5 i ≠ 2 → ramWord pAddr ⊆ W) (h : s.amoAccess i pAddr b = some u) :
    Within W s u := by
  have hprepare : Within W s (s.prepareAmo (funct5 i) pAddr) := by
    unfold Cpu.prepareAmo
    split_ifs
    · exact ⟨fun _ _ => rfl, rfl, rfl, rfl⟩
    · exact refl W s
  unfold Cpu.amoAccess at h
  obtain ⟨old, -, h⟩ := Option.bind_eq_some_iff.mp h
  refine hprepare.trans ((amoExecute _ (regD i) (funct5 i) pAddr old b).trans ?_)
  by_cases hs : ((s.prepareAmo (funct5 i) pAddr).amoExecute (regD i) (funct5 i) pAddr old b).store
      = true
  · rw [Cpu.doIf_pos hs] at h
    obtain ⟨h2, haddr⟩ := amoExecute_storeAddr hstore hs
    exact commitStoreData (haddr.symm ▸ hp h2) h
  · rw [Cpu.doIf_neg hs] at h
    obtain rfl := Option.some.inj h
    exact refl W _

end Within

/-! ### What a step writes -/

namespace Cpu

/-- The words of RAM that the page tables map for stores. -/
def writable (s : Cpu) : Set (BitVec 28) :=
  {x | ∃ v p, s.translate v .store = some (some p) ∧ x ∈ ramWord p}

/-- The word that a mapped store goes to is writable. -/
theorem ramWord_subset_writable {v p : BitVec 32} (h : s.translate v .store = some (some p)) :
    ramWord p ⊆ s.writable := fun _ hx => ⟨v, p, h, hx⟩

/-- Atomic accesses are translated as stores, whatever their operation. -/
theorem rv32a_within (hop : opcode s.instruction = some .lrw) (hstore : s.store = false)
    (h : s.rv32a = some (.next u)) : Within s.writable s u := by
  rw [rv32a_eq hop] at h
  dsimp only at h
  split_ifs at h
  obtain ⟨p, hp, h⟩ := Option.bind_eq_some_iff.mp h
  rcases p with - | pAddr
  · exact absurd (Option.some.inj h) Flow.noConfusion
  dsimp only at h
  split_ifs at h
  obtain ⟨v, hv, heq⟩ := Option.map_eq_some_iff.mp h
  obtain rfl := Flow.next.inj heq
  obtain ⟨-, hmapped⟩ := translate_of_amoTranslation hp
  have htrace : Within s.writable s (s.traceAmo s.instruction (s.gpr (regA s.instruction))) :=
    (Within.trace _ _).trans (.trace _ _)
  have hstore' : (s.traceAmo s.instruction (s.gpr (regA s.instruction))).store = false := hstore
  have haccess := Within.amoAccess hstore' (fun h2 => ramWord_subset_writable (hmapped h2)) hv
  exact htrace.trans (haccess.trans (.advance v))

/-- A load stores nothing. -/
theorem load_within {i a : BitVec 32} (h : s.load i a = some (.next u)) : Within W s u := by
  unfold load at h
  dsimp only at h
  split_ifs at h
  obtain ⟨p, -, h⟩ := Option.bind_eq_some_iff.mp h
  rcases p with - | pAddr
  · exact absurd (Option.some.inj h) Flow.noConfusion
  dsimp only at h
  split_ifs at h
  obtain ⟨word, -, h⟩ := Option.bind_eq_some_iff.mp h
  obtain rfl := Flow.next.inj (Option.some.inj h)
  exact (Within.trace _ _).trans ((Within.traceIo _ pAddr).trans
    ((Within.setGpr _ _ _).trans (.advance _)))

/-- A store goes to the word it is mapped to, and to devices. -/
theorem storeCase_within {i a b : BitVec 32} (h : s.storeCase i a b = some (.next u)) :
    Within s.writable s u := by
  unfold storeCase at h
  dsimp only at h
  split_ifs at h
  obtain ⟨p, hp, h⟩ := Option.bind_eq_some_iff.mp h
  rcases p with - | pAddr
  · exact absurd (Option.some.inj h) Flow.noConfusion
  dsimp only at h
  split_ifs at h
  obtain ⟨v, hv, heq⟩ := Option.map_eq_some_iff.mp h
  obtain rfl := Flow.next.inj heq
  have hp' : s.translate (a + immS i) .store = some (some pAddr) := hp
  obtain ⟨hprepare, haddr⟩ := Within.prepareStore (W := s.writable)
    ((s.trace fun t => { t with isStore := true, memAddr := a + immS i }).traceIo pAddr)
    (funct3 i) pAddr b
  have hcommit := Within.commitStoreData (haddr.symm ▸ ramWord_subset_writable hp') hv
  exact (Within.trace _ _).trans ((Within.traceIo _ pAddr).trans
    (hprepare.trans (hcommit.trans (.advance v))))

/-- The whole of `RV32IM`, for an instruction that does not trap. -/
theorem rv32im_within (h : s.rv32im = some (.next u)) : Within s.writable s u := by
  have htrace : Within s.writable s (s.traceRegisters (rv32imRegisters s.instruction)) :=
    .trace _ _
  refine htrace.trans ?_
  unfold rv32im at h
  dsimp only at h
  split at h
  · obtain rfl := Flow.next.inj (Option.some.inj h)
    exact (Within.setGpr _ _ _).trans (.advance _)
  · obtain rfl := Flow.next.inj (Option.some.inj h)
    exact (Within.setGpr _ _ _).trans (.advance _)
  · obtain rfl := Flow.next.inj (Option.some.inj h)
    exact ⟨fun _ _ => rfl, rfl, rfl, rfl⟩
  · obtain rfl := Flow.next.inj (Option.some.inj h)
    exact ⟨fun _ _ => rfl, rfl, rfl, rfl⟩
  · obtain rfl := Flow.next.inj (Option.some.inj h)
    exact .branch _ _ _ _
  · exact load_within h
  · exact storeCase_within h
  · obtain rfl := Flow.next.inj (Option.some.inj h)
    exact (Within.writeBack _ _ _).trans (.advance _)
  · obtain rfl := Flow.next.inj (Option.some.inj h)
    exact (Within.writeBack _ _ _).trans (.advance _)
  · obtain rfl := Flow.next.inj (Option.some.inj h)
    exact .advance _

/-- An instruction that is no SYSTEM instruction and does not trap. -/
theorem execute_within (hcsr : opcode s.instruction ≠ some .ecall) (hstore : s.store = false)
    (h : s.execute = some (.next u)) : Within s.writable s u := by
  unfold execute at h
  split at h
  · contradiction
  · next hop => exact rv32a_within hop hstore h
  · exact rv32im_within h

/-- The next step is over no SYSTEM instruction. -/
def Unprivileged (s : Cpu) : Prop := ∀ i, s.fetch = some (some i) → opcode i ≠ some .ecall

/-- **A step** that neither traps nor executes a SYSTEM instruction. -/
theorem riscv_within (hplain : s.Unprivileged) (h : s.riscv = some u)
    (hquiet : u.isException = false) : Within s.writable s u := by
  have hexception (t : Cpu) (v : BitVec 32) : (t.exception v).isException = true := by
    rw [exception_frame]
  rcases riscv_cases h with ⟨-, rfl⟩ | ⟨hfetch, -⟩ | ⟨i, -, -, -, rfl⟩ | ⟨i, flow, hi, hflow, rfl⟩
  · rw [hexception] at hquiet
    cases hquiet
  · exact absurd (by decide) (hplain _ hfetch)
  · rw [trapNow, hexception] at hquiet
    cases hquiet
  have hagree := s.agree_decided i
  have hwritable : (s.decided i).writable = s.writable := by
    ext x
    simp only [writable, hagree.translate]
  rcases flow with u | ⟨t, v⟩
  · have hexec := execute_within (hplain i hi.1) rfl hflow
    rw [hwritable] at hexec
    have hfinish : Within s.writable u u.finish := ⟨fun _ _ => rfl, rfl, rfl, rfl⟩
    exact (Within.of_agree hagree).trans (hexec.trans hfinish)
  · exact absurd ((hexception t v).symm.trans hquiet) Bool.false_ne_true.symm

end Cpu

/-! ### Sealed page tables -/

namespace Cpu

/-- The page tables are in RAM, where no store is mapped to. -/
def Sealed (s : Cpu) : Prop :=
  ∀ v a, s.Walks v a → isRamRange (wordAddr a) 4 = true ∧ ramIndex (wordAddr a) ∉ s.writable

/-- The words that an access can be mapped to, and those of the page tables. -/
def visible (s : Cpu) : Set (BitVec 28) :=
  {x | (∃ v type p, s.translate v type = some (some p) ∧ x ∈ ramWord p) ∨
    ∃ v a, s.Walks v a ∧ x ∈ ramWord a}

/-- What is visible is enough for a step. -/
theorem sees_visible (s : Cpu) : s.Sees s.visible where
  tables _ v a ha _ hx := .inr ⟨v, a, ha, hx⟩
  mapped v type p hp _ hx := .inl ⟨v, type, p, hp, hx⟩

/-- What can be written can be seen. -/
theorem writable_subset_visible (s : Cpu) : s.writable ⊆ s.visible := by
  rintro x ⟨v, p, hp, hx⟩
  exact .inl ⟨v, .store, p, hp, hx⟩

end Cpu

/-- The two states have the same mapping, by the same tables. -/
structure SameMapping (s u : Cpu) : Prop where
  translate : ∀ v type, u.translate v type = s.translate v type
  walks : ∀ v a, u.Walks v a ↔ s.Walks v a

namespace SameMapping

/-- The mapping of a state is its own. -/
theorem refl (s : Cpu) : SameMapping s s := ⟨fun _ _ => rfl, fun _ _ => Iff.rfl⟩

/-- A mapping that is kept twice is kept. -/
theorem trans (h : SameMapping s t) (h' : SameMapping t u) : SameMapping s u where
  translate v type := (h'.translate v type).trans (h.translate v type)
  walks v a := (h'.walks v a).trans (h.walks v a)

/-- The same words can be written. -/
theorem writable (h : SameMapping s u) : u.writable = s.writable := by
  ext x
  simp only [Cpu.writable, h.translate]

/-- The same words can be seen. -/
theorem visible (h : SameMapping s u) : u.visible = s.visible := by
  ext x
  simp only [Cpu.visible, h.translate, h.walks]

/-- Sealed tables stay sealed. -/
theorem isSealed (h : SameMapping s u) (hs : s.Sealed) : u.Sealed := by
  intro v a ha
  rw [h.writable]
  exact hs v a ((h.walks v a).mp ha)

/-- The entries that walks read are the same, and so is what decides on access. -/
theorem of_tables (hsatp : u.csr .satp = s.csr .satp) (hmstatus : u.csr .mstatus = s.csr .mstatus)
    (hprivilege : u.privilege = s.privilege)
    (hload : ∀ v a, s.Walks v a → u.loadWord a = s.loadWord a) : SameMapping s u where
  translate v type := by
    have hpaging : u.paging = s.paging := by
      rw [Cpu.paging, Cpu.paging, hsatp, hprivilege]
    have hdenied (type : AccessType) (pte : BitVec 32) :
        u.leafDenied type pte = s.leafDenied type pte := by
      simp only [Cpu.leafDenied, Cpu.effPriv, hmstatus, hprivilege]
    unfold Cpu.translate
    rw [hpaging]
    split_ifs
    · exact Cpu.va2pa_congr hsatp hdenied (hload v) type
    · rfl
  walks v a := by
    have hroot : u.rootEntry v = s.rootEntry v := by
      rw [Cpu.rootEntry, Cpu.rootEntry, hsatp]
    unfold Cpu.Walks
    rw [hroot, hload v _ (.inl rfl)]

end SameMapping

/-- **Sealed tables stay as they are.** -/
theorem Within.sameMapping (h : Within s.writable s u) (hs : s.Sealed) : SameMapping s u := by
  refine .of_tables h.satp h.mstatus h.privilege fun v a ha => ?_
  obtain ⟨hram, hkept⟩ := hs v a ha
  rw [Cpu.loadWord, Cpu.loadWord, if_pos hram, if_pos hram, h.memory _ hkept]

/-! ### Runs -/

/-- The first `n` steps neither trap nor execute a SYSTEM instruction. -/
def Cpu.Undisturbed (s : Cpu) (n : ℕ) : Prop :=
  ∀ k < n, ∀ u v, s.after k = some u → s.after (k + 1) = some v →
    u.Unprivileged ∧ v.isException = false

/-- A shorter run is undisturbed as well. -/
theorem Cpu.Undisturbed.mono {n k : ℕ} (h : s.Undisturbed n) (hk : k ≤ n) : s.Undisturbed k :=
  fun j hj => h j (hj.trans_le hk)

/-- A call of `step`. -/
theorem step_within {r : TraceInst} (hplain : s.Unprivileged) (h : s.step = some (r, u))
    (hquiet : u.isException = false) : Within s.writable s u := by
  obtain ⟨v, hv, heq⟩ := Option.bind_eq_some_iff.mp h
  obtain ⟨-, rfl⟩ := Prod.mk.inj (Option.some.inj heq)
  have hagree : Agree Set.univ s { s with currentTrace := {} } := agree_currentTrace s {}
  have hplain' : ({ s with currentTrace := {} } : Cpu).Unprivileged := by
    intro i hi
    exact hplain i (hagree.fetch ▸ hi)
  have hwithin := Cpu.riscv_within hplain' hv hquiet
  exact ⟨hwithin.memory, hwithin.satp, hwithin.mstatus, hwithin.privilege⟩

/-- **Sealed page tables confine a program.**  In every run that neither traps nor executes
SYSTEM instructions, the words of RAM that were not mapped for stores at the start keep
their values, and every address stays mapped as it was. -/
theorem confined {n : ℕ} (hsealed : s.Sealed) (hrun : s.Undisturbed n)
    (hu : s.after n = some u) :
    (∀ x ∉ s.writable, u.memory x = s.memory x) ∧ SameMapping s u := by
  induction n generalizing u with
  | zero =>
    obtain rfl := Option.some.inj hu
    exact ⟨fun _ _ => rfl, .refl s⟩
  | succ n ih =>
    obtain ⟨t, ht, hmap⟩ := Option.bind_eq_some_iff.mp hu
    obtain ⟨⟨r, v⟩, hstep, rfl⟩ := Option.map_eq_some_iff.mp hmap
    obtain ⟨hmemory, hmapping⟩ := ih (hrun.mono (Nat.le_succ n)) ht
    obtain ⟨hplain, hquiet⟩ := hrun n (Nat.lt_succ_self n) t v ht hu
    have hwithin := step_within hplain hstep hquiet
    refine ⟨fun x hx => ?_, hmapping.trans (hwithin.sameMapping (hmapping.isSealed hsealed))⟩
    rw [hwithin.memory x (hmapping.writable ▸ hx), hmemory x hx]

/-! #### A program in a sandbox -/

/-- A program in U mode that stores a 7.  Its page table, at the start of RAM, maps 4 MiB
at 0x80400000 and nothing else. -/
def sandbox : Cpu :=
  { Cpu.zero with
    gpr := fun r => if r = 1 then 7 else 0
    csr := Function.update (fun _ => 0) .satp 0x80080000
    memory := fun x =>
      if x = 0 then 0x201000DF
      else if x = ramIndex 0x80400000 then 0x10102023  -- sw x1, 0x100(x0)
      else if x = ramIndex 0x80400004 then 0x00100113  -- addi x2, x0, 1
      else 0 }

/-- Of the words of `sandbox` only one is an entry that allows an access. -/
theorem sandbox_entries {a pte : BitVec 32} (h : sandbox.loadWord a = some pte) :
    pteInvalid pte = true ∨ pte = 0x201000DF ∨
      pteLeaf pte = true ∧ ∀ type, sandbox.leafDenied type pte = true := by
  have hword : pte = 0x201000DF ∨ pte = 0x10102023 ∨ pte = 0x00100113 ∨ pte = 0 := by
    unfold Cpu.loadWord at h
    split_ifs at h
    · rw [← Option.some.inj h]
      unfold sandbox
      dsimp only
      split_ifs
      · exact .inl rfl
      · exact .inr (.inl rfl)
      · exact .inr (.inr (.inl rfl))
      · exact .inr (.inr (.inr rfl))
    · exact .inr (.inr (.inr (Option.some.inj h).symm))
  rcases hword with rfl | rfl | rfl | rfl
  · exact .inr (.inl rfl)
  · exact .inr (.inr ⟨by decide, fun type => by cases type <;> decide⟩)
  · exact .inr (.inr ⟨by decide, fun type => by cases type <;> decide⟩)
  · exact .inl (by decide)

/-- What is mapped is in the 4 MiB. -/
theorem sandbox_mapped {v p : BitVec 32} {type : AccessType}
    (h : sandbox.translate v type = some (some p)) :
    0x80400000 ≤ p.toNat ∧ p.toNat < 0x80800000 := by
  have hva : sandbox.va2pa v type = some (some p) := h
  unfold Cpu.va2pa at hva
  dsimp only at hva
  split_ifs at hva
  obtain ⟨pte, hpte, hva⟩ := Option.bind_eq_some_iff.mp hva
  rcases sandbox_entries hpte with hinvalid | rfl | ⟨hleaf, hdenied⟩
  · rw [if_pos hinvalid] at hva
    cases hva
  · have hvalid : ¬ pteInvalid 0x201000DF = true := by decide
    have hleaf : pteLeaf 0x201000DF = true := by decide
    rw [if_neg hvalid, if_pos hleaf] at hva
    split_ifs at hva
    · cases hva
    · obtain rfl := Option.some.inj (Option.some.inj hva)
      rw [toNat_superpage v (by decide +kernel) (by decide +kernel)]
      have hbase : Sv32.ppn 0x201000DF * 2 ^ 12 = 0x80400000 := by decide +kernel
      omega
  · rw [if_pos hleaf, hdenied, Bool.true_or, if_pos rfl] at hva
    split_ifs at hva <;> cases hva

/-- The words that are mapped are behind the page table. -/
theorem sandbox_ramWord {v p : BitVec 32} {type : AccessType}
    (h : sandbox.translate v type = some (some p)) {x : BitVec 28} (hx : x ∈ ramWord p) :
    0x100000 ≤ x.toNat ∧ x.toNat < 0x200000 := by
  obtain ⟨hlow, hhigh⟩ := sandbox_mapped h
  have haccess : RamAccess p 1 := ⟨.inl rfl, Nat.mod_one _, by omega, by omega⟩
  rw [hx.2, haccess.toNat_ramIndex]
  omega

/-- A walk stays in the first page of RAM: the table holds no pointer. -/
theorem sandbox_walks {v a : BitVec 32} (h : sandbox.Walks v a) :
    RamAccess a 4 ∧ a.toNat < 0x80001000 := by
  rcases h with rfl | ⟨pte, hpte, hvalid, hpointer, rfl⟩
  · have hroot : sandbox.csr .satp &&& 0x3FFFFF = 0x80000 := by decide
    have hvpn := toNat_vpn1 v
    have := v.isLt
    have hframe : (0x80000 : BitVec 32).toNat = 0x80000 := rfl
    have hsmall : Sv32.entryAddr (0x80000 : BitVec 32).toNat ((v >>> 22) &&& 0x3FF).toNat
        < 2 ^ 32 := by
      rw [hvpn, Sv32.entryAddr, hframe]
      omega
    have hentry := entryAddr_eq 0x80000 ((v >>> 22) &&& 0x3FF) (by omega) hsmall
    rw [Cpu.rootEntry, hroot, hentry]
    have hnat : (BitVec.ofNat 32 (Sv32.entryAddr (0x80000 : BitVec 32).toNat
        ((v >>> 22) &&& 0x3FF).toNat)).toNat = 0x80000000 + v.toNat / 2 ^ 22 * 4 := by
      rw [BitVec.toNat_ofNat, Nat.mod_eq_of_lt hsmall, hvpn, Sv32.entryAddr, hframe]
      omega
    exact ⟨⟨.inr (.inr rfl), by omega, by omega, by omega⟩, by omega⟩
  · -- there is no pointer
    rcases sandbox_entries hpte with hinvalid | rfl | ⟨hleaf, -⟩
    · exact absurd (hvalid.symm.trans hinvalid) Bool.false_ne_true
    · exact absurd hpointer (by decide)
    · exact absurd (hpointer.symm.trans hleaf) Bool.false_ne_true

/-- The table itself is not mapped. -/
theorem sealed_sandbox : sandbox.Sealed := by
  intro v a ha
  obtain ⟨haccess, hlow⟩ := sandbox_walks ha
  refine ⟨haccess.isRamRange, ?_⟩
  rintro ⟨v', p, hp, hx⟩
  have hx' := (sandbox_ramWord hp hx).1
  rw [haccess.toNat_ramIndex] at hx'
  omega

/-- Its two instructions run without a trap. -/
theorem undisturbed_sandbox : sandbox.Undisturbed 2 := by
  have htest : ∀ k < 2, ((sandbox.after k).all fun u => u.fetch.all fun o => o.all fun i =>
      decide (opcode i ≠ some .ecall)) = true ∧
      ((sandbox.after (k + 1)).all fun v => !v.isException) = true := by
    decide +kernel
  intro k hk u v hu hv
  obtain ⟨hfetch, hquiet⟩ := htest k hk
  rw [hu] at hfetch
  rw [hv] at hquiet
  refine ⟨fun i hi => ?_, Bool.not_eq_true' _ ▸ hquiet⟩
  rw [Option.all_some, hi] at hfetch
  exact of_decide_eq_true hfetch

/-- The store is done, and every word outside the 4 MiB is as before. -/
theorem confined_sandbox :
    ∃ u, sandbox.after 2 = some u ∧ u.memory (ramIndex 0x80400100) = 7 ∧
      ∀ x, x.toNat < 0x100000 → u.memory x = sandbox.memory x := by
  have hrun : (sandbox.after 2).map (fun u => u.memory (ramIndex 0x80400100)) = some 7 := by
    decide +kernel
  obtain ⟨u, hu, hseven⟩ := Option.map_eq_some_iff.mp hrun
  obtain ⟨hkept, -⟩ := confined sealed_sandbox undisturbed_sandbox hu
  refine ⟨u, hu, hseven, fun x hx => hkept x ?_⟩
  rintro ⟨v, p, hp, hmem⟩
  have := (sandbox_ramWord hp hmem).1
  omega

/-! ### Runs over two memories -/

/-- A call of `step` from twins gives one record. -/
theorem step_twins {s' : Cpu} (h : Twin True M s s') (hs : s.Sees M) :
    Option.Rel (fun p p' => p'.1 = p.1 ∧ Twin True M p.2 p'.2) s.step s'.step := by
  have hstart : Twin True M { s with currentTrace := {} } { s' with currentTrace := {} } := by
    cases h with
    | mk m t head len hm ht =>
      obtain ⟨-, hhead, hlen⟩ := ht trivial
      exact .mk m {} head len hm fun _ => ⟨rfl, hhead, hlen⟩
  have hsees : ({ s with currentTrace := {} } : Cpu).Sees M := hs.agree (agree_currentTrace s {})
  refine rel_bind (hstart.riscv hsees) fun u u' hu => .some ?_
  cases hu with
  | mk m t head len hm ht => exact ⟨(ht trivial).1, .mk m t head len hm ht⟩

/-- Runs from twins that see what is loaded on the way. -/
theorem after_twins {s' : Cpu} (h : Twin True M s s') {n : ℕ}
    (hsees : ∀ k < n, ∀ u, s.after k = some u → u.Sees M) :
    Option.Rel (Twin True M) (s.after n) (s'.after n) := by
  induction n with
  | zero => exact .some h
  | succ n ih =>
    have hrel := ih fun k hk => hsees k (hk.trans (Nat.lt_succ_self n))
    have hlast := hsees n (Nat.lt_succ_self n)
    rw [Cpu.after, Cpu.after]
    generalize s.after n = x at hrel hlast ⊢
    generalize s'.after n = x' at hrel ⊢
    cases hrel with
    | none => exact .none
    | some hu => exact rel_map (step_twins hu (hlast _ rfl)) fun _ _ hp => hp.2

/-- Twins have the same tables, so they have the same mapping. -/
theorem Twin.sameMapping {T : Prop} {s' : Cpu} (h : Twin T s.visible s s') :
    SameMapping s s' := by
  have hload (v a : BitVec 32) (ha : s.Walks v a) : s'.loadWord a = s.loadWord a :=
    h.loadWord fun x hx => .inr ⟨v, a, ha, hx⟩
  cases h with
  | mk m t head len hm ht => exact .of_tables rfl rfl rfl hload

/-- **Sealed page tables hide what they do not map.**  A run that neither traps nor executes
SYSTEM instructions is the same, record by record, whatever the words hold that no access is
mapped to, and it leaves them as they were. -/
theorem unseen {n : ℕ} {m : BitVec 28 → BitVec 32} (hsealed : s.Sealed)
    (hrun : s.Undisturbed n) (hu : s.after n = some u) (hm : ∀ x ∈ s.visible, m x = s.memory x) :
    (∀ k < n, ({ s with memory := m } : Cpu).record k = s.record k) ∧
    ∃ m', ({ s with memory := m } : Cpu).after n = some { u with memory := m' } ∧
      (∀ x ∈ s.visible, m' x = u.memory x) ∧ ∀ x ∉ s.visible, m' x = m x := by
  have hstart : Twin True s.visible s { s with memory := m } :=
    .mk m s.currentTrace s.currentBbHeadPc s.currentBbLen hm fun _ => ⟨rfl, rfl, rfl⟩
  have hsees : ∀ k ≤ n, ∀ v, s.after k = some v → v.Sees s.visible := by
    intro k hk v hv
    obtain ⟨-, hmapping⟩ := confined hsealed (hrun.mono hk) hv
    exact hmapping.visible ▸ v.sees_visible
  have htwins (k : ℕ) (hk : k ≤ n) :
      Option.Rel (Twin True s.visible) (s.after k) (({ s with memory := m } : Cpu).after k) :=
    after_twins hstart fun j hj => hsees j (hj.le.trans hk)
  refine ⟨fun k hk => ?_, ?_⟩
  · have hrel := htwins k hk.le
    have hlast := hsees k hk.le
    unfold Cpu.record
    generalize s.after k = x at hrel hlast ⊢
    generalize ({ s with memory := m } : Cpu).after k = x' at hrel ⊢
    cases hrel with
    | none => rfl
    | some hv =>
      exact (map_eq_of_rel (step_twins hv (hlast _ rfl)) fun _ _ hp => hp.1.symm).symm
  -- the other run is confined too
  have hmapping := hstart.sameMapping
  have hrun' : ({ s with memory := m } : Cpu).Undisturbed n := by
    intro k hk v' w' hv' hw'
    obtain ⟨w, hw⟩ := Cpu.exists_after (Option.isSome_iff_exists.mpr ⟨u, hu⟩) (Nat.succ_le_of_lt hk)
    obtain ⟨v, hv⟩ := Cpu.exists_after (Option.isSome_iff_exists.mpr ⟨u, hu⟩) hk.le
    obtain ⟨hplain, hquiet⟩ := hrun k hk v w hv hw
    have hrelV := htwins k hk.le
    have hrelW := htwins (k + 1) hk
    rw [hv, hv'] at hrelV
    rw [hw, hw'] at hrelW
    cases hrelV with
    | some hv =>
      cases hrelW with
      | some hw =>
        refine ⟨fun i hi => hplain i ?_, ?_⟩
        · rwa [hv.fetch (hsees k hk.le v ‹_›)] at hi
        · cases hw
          exact hquiet
  obtain ⟨u', hu', htwin⟩ := rel_some (htwins n le_rfl) hu
  obtain ⟨hkept, -⟩ := confined (hmapping.isSealed hsealed) hrun' hu'
  cases htwin with
  | mk m' t head len hm' ht =>
    obtain ⟨rfl, rfl, rfl⟩ := ht trivial
    refine ⟨m', hu', hm', fun x hx => hkept x fun hwritable => hx ?_⟩
    rw [hmapping.writable] at hwritable
    exact s.writable_subset_visible hwritable

/-- The last word of RAM is hidden from the sandbox. -/
theorem unseen_sandbox :
    ∃ u m', sandbox.after 2 = some u ∧
      ({ sandbox with memory := Function.update sandbox.memory 0xFFFFFFF 42 } : Cpu).after 2
        = some { u with memory := m' } ∧ m' 0xFFFFFFF = 42 := by
  have hhidden : (0xFFFFFFF : BitVec 28) ∉ sandbox.visible := by
    rintro (⟨v, type, p, hp, hx⟩ | ⟨v, a, ha, hx⟩)
    · exact absurd (sandbox_ramWord hp hx).2 (by decide)
    · obtain ⟨haccess, hlow⟩ := sandbox_walks ha
      have hnat := haccess.toNat_ramIndex
      rw [← hx.2] at hnat
      have hlast : (0xFFFFFFF : BitVec 28).toNat = 0xFFFFFFF := rfl
      omega
  have hrun : (sandbox.after 2).isSome = true := by decide +kernel
  obtain ⟨u, hu⟩ := Option.isSome_iff_exists.mp hrun
  have hm : ∀ x ∈ sandbox.visible,
      Function.update sandbox.memory 0xFFFFFFF 42 x = sandbox.memory x := by
    intro x hx
    refine Function.update_of_ne ?_ _ _
    rintro rfl
    exact hhidden hx
  obtain ⟨-, m', hafter, -, hkept⟩ := unseen sealed_sandbox undisturbed_sandbox hu hm
  exact ⟨u, m', hu, hafter, (hkept _ hhidden).trans (Function.update_self _ _ _)⟩

end TraceSim.Ref
