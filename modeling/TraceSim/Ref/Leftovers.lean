/-
TraceSim/Ref/Leftovers.lean

What a step takes from the step before it, beside the architectural state.

After a fetch a step overwrites every working field before it reads it, with one
exception: an atomic instruction with an undefined operation stores what
`store_data` held.  A fetch fault comes before the fetch, and `exception` then looks
at the interrupt flags and the instruction of an earlier step.  These two are the
only leaks.
-/
import TraceSim.Ref.Frames
import TraceSim.Ref.Paths

namespace TraceSim.Ref

variable {E : Set (Fin 32)} {s s' : Cpu}

/-! ### Two runs of one step -/

theorem Agree.fetch (h : Agree E s s') : s'.fetch = s.fetch := by
  simp only [Cpu.fetch, h.translate, h.pc, h.loadWord]

theorem Agree.beginStep (h : Agree E s s') : Agree E s.beginStep s'.beginStep :=
  ((s.agree_beginStep.mono (Set.subset_univ E)).symm.trans h).trans
    (s'.agree_beginStep.mono (Set.subset_univ E))

/-- A fetch fault finds what the last step left. -/
theorem Agree.fetchFault (h : Agree E s s') (hinst : s'.instruction = s.instruction)
    (hirq : s'.interrupts = s.interrupts) : Ready E s.fetchFault s'.fetchFault := by
  have hstart := h.beginStep
  exact { hstart with
    instruction := (s'.beginStep_instruction.trans hinst).trans s.beginStep_instruction.symm
    interrupts := (s'.beginStep_interrupts.trans hirq).trans s.beginStep_interrupts.symm
    pageFaultInst := rfl
    pageFaultLoad := rfl
    pageFaultStore := rfl
    illegalException := rfl
    store := rfl }

theorem Agree.interrupts (h : Agree E s s') :
    s'.pollInterrupts.interrupts = s.pollInterrupts.interrupts := by
  simp only [Cpu.pollInterrupts, Cpu.mInterrupt, Cpu.sInterrupt, Cpu.pending, h.csr, h.privilege]

/-- After the fetch the two runs agree on what a step reads of its own. -/
theorem Agree.decided (h : Agree E s s') (i : BitVec 32) :
    Ready E (s.decided i) (s'.decided i) := by
  have hstart := h.beginStep
  have hfetched : Agree E (s.fetched i) (s'.fetched i) := { hstart with }
  have hirq : (s'.decided i).interrupts = (s.decided i).interrupts := hfetched.interrupts
  exact { hfetched with
    instruction := rfl
    interrupts := hirq
    pageFaultInst := rfl
    pageFaultLoad := rfl
    pageFaultStore := rfl
    illegalException := rfl
    store := rfl }

theorem Ready.decodeAsy (h : Ready E s s') : s'.decodeAsy = s.decodeAsy := by
  rw [Cpu.decodeAsy, Cpu.decodeAsy, Cpu.decodeMTrap, Cpu.decodeMTrap, Cpu.decodeSTrap,
    Cpu.decodeSTrap, Cpu.ecallM, Cpu.ecallM, Cpu.ecallS, Cpu.ecallS, h.interrupts, h.isEcall,
    h.medeleg, h.privilege, h.pageFaultInst, h.illegalException, h.instruction]

theorem Agree.asy (h : Agree E s s') (i : BitVec 32) :
    (s'.decided i).asy = (s.decided i).asy :=
  (h.decided i).decodeAsy

theorem Agree.trapsAtDecode (h : Agree E s s') (i : BitVec 32) :
    s'.trapsAtDecode i = s.trapsAtDecode i := by
  rw [Cpu.trapsAtDecode, Cpu.trapsAtDecode, h.asy]

theorem Agree.executes (h : Agree E s s') (i : BitVec 32) :
    s'.Executes i ↔ s.Executes i := by
  rw [Cpu.Executes, Cpu.Executes, h.fetch, h.trapsAtDecode]

theorem Agree.reachesAmo (h : Agree Set.univ s s') {i pAddr : BitVec 32}
    (hreaches : s.ReachesAmo i pAddr) : s'.ReachesAmo i pAddr := by
  obtain ⟨halign, htranslate, hrange⟩ := hreaches
  refine ⟨?_, ?_, hrange⟩
  · rw [h.gpr _ (Set.mem_univ _), halign]
  · rw [h.amoTranslation (Set.mem_univ _), htranslate]

/-- An atomic instruction with an undefined operation that gets as far as to store. -/
def Cpu.StoresLeftover (s : Cpu) : Prop :=
  ∃ i pAddr, s.Executes i ∧ opcode i = some .lrw ∧ amoDefined (funct5 i) = false ∧
    s.ReachesAmo i pAddr

/-- **Two runs of one step**, if `E` has the source registers the trace names and
neither leak is open. -/
theorem Agree.riscv (h : Agree E s s')
    (hfault : s.fetch = some none →
      s'.instruction = s.instruction ∧ s'.interrupts = s.interrupts)
    (hE : ∀ i, s.Executes i → (registers i).rs1 ∈ E ∧ (registers i).rs2 ∈ E)
    (hdata : s'.storeData = s.storeData ∨ ¬ s.StoresLeftover) :
    Option.Rel (Agree E) s.riscv s'.riscv := by
  rw [Cpu.riscv_eq, Cpu.riscv_eq, h.fetch]
  rcases hfetch : s.fetch with - | - | i
  · exact .none
  · obtain ⟨hinst, hirq⟩ := hfault hfetch
    dsimp only [Option.bind_some]
    rw [h.pc]
    exact .some ((h.fetchFault hinst hirq).exception _)
  have hdecided := h.decided i
  dsimp only [Option.bind_some]
  by_cases hi : i = instEbreak
  · subst hi
    rw [Cpu.decode_ebreak, Cpu.decode_ebreak]
    exact .some { hdecided.toAgree with }
  rw [Cpu.decode_decided hi, Cpu.decode_decided hi, h.asy, h.trapsAtDecode]
  split_ifs with hwfi htrap
  · exact .none
  · exact .some (hdecided.traceTrap.exception 0)
  · obtain ⟨h1, h2⟩ := hE i ⟨hfetch, hi, htrap⟩
    refine rel_map (hdecided.execute h1 h2 rfl fun hop pAddr hreaches => ?_) fun _ _ hflow =>
      hflow.run.finish
    -- either the leftovers are the same or no leftover is stored
    rcases hdata with heq | hno
    · right
      rw [Cpu.decided_storeData, Cpu.decided_storeData, heq]
    · left
      by_contra hundefined
      have hreaches' := (s.agree_decided i).symm.reachesAmo hreaches
      exact hno ⟨i, pAddr, ⟨hfetch, hi, htrap⟩, hop, Bool.eq_false_iff.mpr hundefined, hreaches'⟩

/-! ### The leak of a fetch fault -/

theorem agree_currentTrace (s : Cpu) (t : TraceInst) :
    Agree Set.univ s { s with currentTrace := t } :=
  ⟨fun _ _ => rfl, rfl, rfl, rfl, rfl, rfl, rfl, rfl, rfl⟩

theorem agree_interrupts (s : Cpu) (irq : Interrupts) :
    Agree Set.univ s { s with interrupts := irq } :=
  ⟨fun _ _ => rfl, rfl, rfl, rfl, rfl, rfl, rfl, rfl, rfl⟩

theorem agree_storeData (s : Cpu) (d : BitVec 32) :
    Agree Set.univ s { s with storeData := d } :=
  ⟨fun _ _ => rfl, rfl, rfl, rfl, rfl, rfl, rfl, rfl, rfl⟩

/-- A pending machine interrupt goes to M mode whatever else `exception` finds. -/
theorem exception_of_anyM (h : s.interrupts.anyM = true) (v : BitVec 32) :
    s.exception v = { s with isException := true }.enterM v := by
  refine exception_of_mTrap ?_ v
  rw [Cpu.mTrap, h]
  rfl

/-- A fetch fault with a machine interrupt left of an earlier step writes the cause of
that interrupt. -/
theorem mcause_fetchFault (hfetch : s.fetch = some none) (irq : Interrupts)
    (hirq : irq.anyM = true) :
    ∃ u v : Cpu, { s with interrupts := irq }.riscv = some u ∧ v.interrupts = irq ∧
      u.csr .mcause = causeInterrupt ||| v.mCode := by
  have hleft : ({ s with interrupts := irq } : Cpu).fetchFault.interrupts = irq :=
    Cpu.beginStep_interrupts _
  have hany : ({ s with interrupts := irq } : Cpu).fetchFault.interrupts.anyM = true := by
    rw [hleft, hirq]
  refine ⟨_, { ({ s with interrupts := irq } : Cpu).fetchFault with isException := true },
    Cpu.riscv_of_fault ((agree_interrupts s irq).fetch.trans hfetch), hleft, ?_⟩
  rw [exception_of_anyM hany]
  simp [Cpu.enterM, Cpu.setCsr, Cpu.mCause, hany]

/-! ### The leak of an undefined operation -/

theorem storeMerge_word {addr : BitVec 32} (ha : addr &&& 3 = 0) (data old : BitVec 32) :
    storeMerge 0b1111 data addr old = data := by
  have hmask : strobeMask (0b1111#32 <<< 0) = BitVec.allOnes 32 := by decide
  unfold storeMerge
  rw [ha]
  change (strobeMask (0b1111#32 <<< 0) &&& data <<< 0)
    ||| (~~~strobeMask (0b1111#32 <<< 0) &&& old) = data
  rw [hmask, BitVec.allOnes_and, BitVec.not_allOnes, BitVec.zero_and, BitVec.or_zero,
    BitVec.shiftLeft_zero]

/-- The hooks after the store of a word whose low byte is zero keep its next byte. -/
theorem storeHooks_word (ha : s.storeAddr &&& 3 = 0) (hrange : checkMemRange s.storeAddr 4 = true)
    (hlow : s.storeData &&& 0xff = 0) {d : BitVec 32} (hd : s.loadWord s.storeAddr = some d) :
    ∃ u w, s.storeHooks = some u ∧ u.loadWord s.storeAddr = some w ∧
      w.getLsbD 8 = d.getLsbD 8 := by
  have hprint : ∃ u w, s.doIf (s.storeAddr = uartBase) Cpu.uartPrint = some u ∧
      u.loadWord s.storeAddr = some w ∧ w.getLsbD 8 = d.getLsbD 8 := by
    by_cases huart : s.storeAddr = uartBase
    · obtain ⟨u, hu⟩ := s.storeWord_aligned ha hrange (d &&& 0xffffff00)
      refine ⟨u, d &&& 0xffffff00, ?_, Cpu.loadWord_of_storeWord hu, ?_⟩
      · rw [Cpu.doIf_pos huart, Cpu.uartPrint, ← huart, hd]
        exact hu
      · rw [BitVec.getLsbD_and]
        exact Bool.and_true _
    · exact ⟨s, d, Cpu.doIf_neg huart _ _, hd, rfl⟩
  obtain ⟨u, w, hu, hw, hbit⟩ := hprint
  refine ⟨u, w, ?_, hw, hbit⟩
  unfold Cpu.storeHooks
  dsimp only
  -- the other hooks look for a low byte that is not zero
  rw [hlow, hu, Option.bind_eq_bind, Option.bind_some,
    Cpu.doIf_neg (fun h => absurd h.2 (by decide)), Option.bind_some,
    Cpu.doIf_neg (fun h => absurd h.2 (by decide)), Option.bind_some,
    Cpu.doIf_neg (fun h => absurd h.2 (by decide))]

/-- The store of a word whose low byte is zero keeps its next byte. -/
theorem commitStoreData_word (hstore : s.store = true) (hstrb : s.storeStrb = 0b1111)
    (ha : s.storeAddr &&& 3 = 0) (hrange : checkMemRange s.storeAddr 4 = true)
    (hlow : s.storeData &&& 0xff = 0) :
    ∃ u w, s.commitStoreData = some u ∧ u.loadWord s.storeAddr = some w ∧
      w.getLsbD 8 = s.storeData.getLsbD 8 := by
  obtain ⟨old, hold⟩ := Cpu.loadWord_aligned { s with reserveValid := false } ha hrange
  obtain ⟨t, ht⟩ := Cpu.storeWord_aligned { s with reserveValid := false } ha hrange s.storeData
  -- a whole word at an aligned address replaces the old one
  have hmerge : storeMerge s.storeStrb s.storeData s.storeAddr old = s.storeData := by
    rw [hstrb, storeMerge_word ha]
  have hbytes : s.storeBytes = some t := by
    unfold Cpu.storeBytes
    rw [if_pos hstore]
    dsimp only
    rw [hold, Option.bind_eq_bind, Option.bind_some, Cpu.doIf_pos hstore]
    dsimp only
    rw [hmerge]
    exact ht
  have hframe := Cpu.storeWord_frame ht
  have haddr : t.storeAddr = s.storeAddr := by rw [hframe]
  have hdata : t.storeData = s.storeData := by rw [hframe]
  have hload : t.loadWord t.storeAddr = some s.storeData := by
    rw [haddr]
    exact Cpu.loadWord_of_storeWord ht
  -- the hooks of the devices keep the bit
  obtain ⟨u, w, hu, hw, hbit⟩ := storeHooks_word (by rwa [haddr]) (by rwa [haddr])
    (by rwa [hdata]) hload
  refine ⟨u, w, ?_, by rwa [← haddr], hbit⟩
  have hsize : s.storeSize = 4 := by
    rw [Cpu.storeSize, hstrb]
    rfl
  rw [Cpu.commitStoreData, hsize, if_pos hrange, hbytes, Option.bind_some, hu]

/-- The state that an undefined operation stores from. -/
def Cpu.undefinedStore (s : Cpu) (i addr : BitVec 32) : Cpu :=
  { (s.decided i).traceAmo i ((s.decided i).gpr (regA i)) with
    store := true, storeAddr := addr, storeStrb := 0b1111 }

theorem Cpu.execute_lrw (hop : opcode s.instruction = some .lrw) : s.execute = s.rv32a := by
  rw [Cpu.execute, hop]

/-- A step that executes an undefined operation does nothing but its store. -/
theorem riscv_undefined {i addr : BitVec 32} (hi : s.Executes i)
    (hop : opcode i = some .lrw) (hundefined : amoDefined (funct5 i) = false)
    (hreaches : s.ReachesAmo i addr) :
    s.riscv = (s.undefinedStore i addr).commitStoreData.map fun u => u.advance.finish := by
  have hwfi : i ≠ instWfi := by
    rintro rfl
    exact absurd hop (by decide)
  have hreaches' : (s.decided i).ReachesAmo i addr := (s.agree_decided i).reachesAmo hreaches
  have hexecute : (s.decided i).execute = (s.decided i).rv32a := Cpu.execute_lrw hop
  have haccess : ((s.decided i).traceAmo i ((s.decided i).gpr (regA i))).amoAccess i addr
      ((s.decided i).gpr (regB i)) = (s.undefinedStore i addr).commitStoreData :=
    Cpu.amoAccess_undefined hundefined hreaches'.aligned hreaches'.2.2
  have hrv32a : (s.decided i).rv32a
      = (s.undefinedStore i addr).commitStoreData.map fun u => .next u.advance := by
    rw [← haccess]
    exact Cpu.rv32a_of_reaches hop hreaches'
  rw [Cpu.riscv_of_executes hi hwfi, hexecute, hrv32a, Option.map_map]
  rfl

/-- **The leak of an undefined operation**: what is stored depends on what `store_data`
held. -/
theorem Cpu.StoresLeftover.leak (h : s.StoresLeftover) :
    ∃ addr, ∀ d : BitVec 32, d &&& 0xff = 0 → ∃ u w, { s with storeData := d }.riscv = some u ∧
      u.loadWord addr = some w ∧ w.getLsbD 8 = d.getLsbD 8 := by
  obtain ⟨i, addr, hi, hop, hundefined, hreaches⟩ := h
  refine ⟨addr, fun d hd => ?_⟩
  generalize hs' : ({ s with storeData := d } : Cpu) = s'
  have hagree : Agree Set.univ s s' := by
    rw [← hs']
    exact agree_storeData s d
  have hi' : s'.Executes i := (hagree.executes i).mpr hi
  have hreaches' : s'.ReachesAmo i addr := hagree.reachesAmo hreaches
  have hdata : (s'.undefinedStore i addr).storeData = d := by
    have hkept : (s'.undefinedStore i addr).storeData = (s'.decided i).storeData := rfl
    rw [hkept, Cpu.decided_storeData, ← hs']
  have hlow : (s'.undefinedStore i addr).storeData &&& 0xff = 0 := by rw [hdata, hd]
  obtain ⟨u, w, hu, hw, hbit⟩ :=
    commitStoreData_word (s := s'.undefinedStore i addr) rfl rfl hreaches'.aligned hreaches'.2.2
      hlow
  rw [riscv_undefined hi' hop hundefined hreaches', hu]
  refine ⟨u.advance.finish, w, rfl, hw, ?_⟩
  rw [hbit, hdata]

/-! ### No other leak -/

/-- Steps that depend on the architectural state only end in the same state. -/
theorem agree_of_same (hsame : ∀ s', Agree Set.univ s s' →
      Option.Rel (Agree Set.univ) s.riscv s'.riscv) {s₁ s₂ u₁ u₂ : Cpu}
    (h₁ : Agree Set.univ s s₁) (h₂ : Agree Set.univ s s₂) (hu₁ : s₁.riscv = some u₁)
    (hu₂ : s₂.riscv = some u₂) : Agree Set.univ u₁ u₂ := by
  have hrel₁ := hsame s₁ h₁
  have hrel₂ := hsame s₂ h₂
  rw [hu₁] at hrel₁
  rw [hu₂] at hrel₂
  generalize s.riscv = r at hrel₁ hrel₂
  cases hrel₁ with
  | some hr₁ =>
    cases hrel₂ with
    | some hr₂ => exact hr₁.symm.trans hr₂

/-- **What a step depends on.**  A step takes states with the same architectural state to
such states again, exactly if its fetch does not fault and it does not execute an
undefined atomic operation that gets to its store. -/
theorem architectural_iff (s : Cpu) :
    (∀ s', Agree Set.univ s s' → Option.Rel (Agree Set.univ) s.riscv s'.riscv) ↔
      s.fetch ≠ some none ∧ ¬ s.StoresLeftover := by
  constructor
  · intro hsame
    refine ⟨fun hfault => ?_, fun hleak => ?_⟩
    · -- a software interrupt left over against a timer interrupt left over
      obtain ⟨u₁, v₁, hu₁, hv₁, hcause₁⟩ :=
        mcause_fetchFault hfault { mSoftware := true } rfl
      obtain ⟨u₂, v₂, hu₂, hv₂, hcause₂⟩ :=
        mcause_fetchFault hfault { mTimer := true } rfl
      have hcode₁ : v₁.mCode = 3 := by
        rw [Cpu.mCode, hv₁]
        rfl
      have hcode₂ : v₂.mCode = 7 := by
        rw [Cpu.mCode, hv₂]
        rfl
      have hagree := agree_of_same hsame (agree_interrupts s _) (agree_interrupts s _) hu₁ hu₂
      rw [hagree.csr, hcause₁, hcode₁, hcode₂] at hcause₂
      exact absurd hcause₂ (by decide)
    · -- a stored word with its ninth bit set against one with that bit clear
      obtain ⟨addr, hword⟩ := hleak.leak
      obtain ⟨u₁, w₁, hu₁, hw₁, hbit₁⟩ := hword 0 rfl
      obtain ⟨u₂, w₂, hu₂, hw₂, hbit₂⟩ := hword 0x100 rfl
      have hagree := agree_of_same hsame (agree_storeData s _) (agree_storeData s _) hu₁ hu₂
      rw [hagree.loadWord, hw₁] at hw₂
      obtain rfl := Option.some.inj hw₂
      rw [hbit₁] at hbit₂
      exact absurd hbit₂ (by decide)
  · rintro ⟨hfault, hleak⟩ s' h
    exact h.riscv (fun hf => absurd hf hfault) (fun _ _ => ⟨Set.mem_univ _, Set.mem_univ _⟩)
      (.inr hleak)

/-- Supervisor code on an empty page table, where fetch faults are delegated and
environment calls are not. -/
def unmappedSupervisor : Cpu :=
  { Cpu.zero with
    privilege := 1
    csr := Function.update (Function.update (fun _ => 0) .satp 0x80000000) .medeleg 0x1000 }

theorem agree_instruction (s : Cpu) (i : BitVec 32) :
    Agree Set.univ s { s with instruction := i } :=
  ⟨fun _ _ => rfl, rfl, rfl, rfl, rfl, rfl, rfl, rfl, rfl⟩

/-- The fetch fault goes to S mode, or to M mode if the last instruction was an
environment call. -/
theorem fetchFault_after_ecall :
    Agree Set.univ unmappedSupervisor { unmappedSupervisor with instruction := instEcall } ∧
      ¬ Option.Rel (Agree Set.univ) unmappedSupervisor.riscv
        { unmappedSupervisor with instruction := instEcall }.riscv := by
  refine ⟨agree_instruction _ _, fun h => ?_⟩
  have hs : unmappedSupervisor.riscv.map Cpu.privilege = some 1 := by decide +kernel
  have hm : { unmappedSupervisor with instruction := instEcall }.riscv.map Cpu.privilege
      = some 3 := by decide +kernel
  have heq : unmappedSupervisor.riscv.map Cpu.privilege
      = { unmappedSupervisor with instruction := instEcall }.riscv.map Cpu.privilege :=
    map_eq_of_rel h fun _ _ hagree => hagree.privilege.symm
  rw [hs, hm] at heq
  exact absurd heq (by decide)

end TraceSim.Ref
