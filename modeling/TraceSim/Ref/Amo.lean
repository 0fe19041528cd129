/-
TraceSim/Ref/Amo.lean

Atomic read-modify-write instructions on RAM.

A defined operation leaves its result in memory and the old word in `rd`.  An undefined
one should not touch memory.  The source announces the store before it decodes the
operation and does not withdraw it, so what `store_data` held is written: memory is
unchanged exactly if that was the old word (`amo_iff`).
-/
import TraceSim.Ref.Reservation

namespace TraceSim.Ref

variable {s u : Cpu} {pAddr : BitVec 32}

/-! ### What an operation should do -/

/-- The result of an operation, by its name. -/
def amoResult (f5 : ℕ) (old b : BitVec 32) : Option (BitVec 32) :=
  match f5 with
  | 0 => some (old + b)
  | 1 => some b
  | 4 => some (old ^^^ b)
  | 8 => some (old ||| b)
  | 12 => some (old &&& b)
  | 16 => some (BitVec.ofInt 32 (min old.toInt b.toInt))
  | 20 => some (BitVec.ofInt 32 (max old.toInt b.toInt))
  | 24 => some (BitVec.ofNat 32 (min old.toNat b.toNat))
  | 28 => some (BitVec.ofNat 32 (max old.toNat b.toNat))
  | _ => none

/-- The step from `s` to `u` is a right operation on the word at `pAddr`. -/
structure AmoRight (s : Cpu) (pAddr : BitVec 32) (u : Cpu) : Prop where
  memory : ∀ v, amoResult (funct5 s.instruction).toNat (s.memory (ramIndex pAddr))
      (s.gpr (regB s.instruction)) = some v →
    u.memory = Function.update s.memory (ramIndex pAddr) v
  gpr : amoDefined (funct5 s.instruction) = true → ∀ x, x ≠ 0 →
    u.gpr x = if x = regD s.instruction then s.memory (ramIndex pAddr) else s.gpr x
  undefined : amoDefined (funct5 s.instruction) = false →
    u.memory = s.memory ∧ u.ioWords = s.ioWords

/-! ### The operations -/

theorem ofInt_min (old b : BitVec 32) :
    (if b.slt old then b else old) = BitVec.ofInt 32 (min old.toInt b.toInt) := by
  by_cases h : b.toInt < old.toInt
  · rw [if_pos (by simpa [BitVec.slt] using h), min_eq_right h.le, BitVec.ofInt_toInt]
  · rw [if_neg (by simpa [BitVec.slt] using h), min_eq_left (not_lt.mp h), BitVec.ofInt_toInt]

theorem ofInt_max (old b : BitVec 32) :
    (if b.slt old then old else b) = BitVec.ofInt 32 (max old.toInt b.toInt) := by
  by_cases h : b.toInt < old.toInt
  · rw [if_pos (by simpa [BitVec.slt] using h), max_eq_left h.le, BitVec.ofInt_toInt]
  · rw [if_neg (by simpa [BitVec.slt] using h), max_eq_right (not_lt.mp h), BitVec.ofInt_toInt]

theorem ofNat_min (old b : BitVec 32) :
    (if old.ult b then old else b) = BitVec.ofNat 32 (min old.toNat b.toNat) := by
  by_cases h : old.toNat < b.toNat
  · rw [if_pos (by simpa [BitVec.ult] using h), min_eq_left h.le, BitVec.ofNat_toNat,
      BitVec.setWidth_eq]
  · rw [if_neg (by simpa [BitVec.ult] using h), min_eq_right (not_lt.mp h), BitVec.ofNat_toNat,
      BitVec.setWidth_eq]

theorem ofNat_max (old b : BitVec 32) :
    (if b.ult old then old else b) = BitVec.ofNat 32 (max old.toNat b.toNat) := by
  by_cases h : b.toNat < old.toNat
  · rw [if_pos (by simpa [BitVec.ult] using h), max_eq_left h.le, BitVec.ofNat_toNat,
      BitVec.setWidth_eq]
  · rw [if_neg (by simpa [BitVec.ult] using h), max_eq_right (not_lt.mp h), BitVec.ofNat_toNat,
      BitVec.setWidth_eq]

/-- **The switch of the source** computes the named operations. -/
theorem amoData_eq (f5 : ℕ) (old b : BitVec 32) : amoData f5 old b = amoResult f5 old b := by
  simp only [amoData, ofInt_min, ofInt_max, ofNat_min, ofNat_max]
  rfl

theorem amoDefined_eq {f5 : BitVec 32} (h2 : f5 ≠ 2) (h3 : f5 ≠ 3) (old b : BitVec 32) :
    amoDefined f5 = (amoData f5.toNat old b).isSome := by
  rw [amoDefined, decide_eq_false h2, decide_eq_false h3, amoData_isSome f5.toNat old b 0 0]
  rfl

/-! ### The instruction -/

/-- An operation on RAM that announces a store, up to the end of the step. -/
theorem rv32a_ram (hop : opcode s.instruction = some .lrw)
    (hreaches : s.ReachesAmo s.instruction pAddr) (hram : isRamRange pAddr 4 = true)
    (h2 : funct5 s.instruction ≠ 2) (h3 : funct5 s.instruction ≠ 3) :
    ∃ u, s.rv32a = some (.next u) ∧ u.ioWords = s.ioWords ∧
      u.memory = Function.update s.memory (ramIndex pAddr)
        ((amoData (funct5 s.instruction).toNat (s.memory (ramIndex pAddr))
          (s.gpr (regB s.instruction))).getD s.storeData) ∧
      u.gpr = if amoDefined (funct5 s.instruction) then
          Function.update s.gpr (regD s.instruction) (s.memory (ramIndex pAddr))
        else s.gpr := by
  have ha := hreaches.aligned
  -- the CPU behind the record, and then with the store announced
  let t := s.traceAmo s.instruction (s.gpr (regA s.instruction))
  let p := t.prepareAmo (funct5 s.instruction) pAddr
  have hp : p = { t with store := true, storeAddr := pAddr, storeStrb := 0b1111 } := if_pos h2
  have hload : p.loadWord pAddr = some (s.memory (ramIndex pAddr)) := by
    rw [hp, Cpu.loadWord, wordAddr_of_aligned ha, if_pos hram]
    rfl
  let e := p.amoExecute (regD s.instruction) (funct5 s.instruction) pAddr
    (s.memory (ramIndex pAddr)) (s.gpr (regB s.instruction))
  -- an undefined operation leaves what was announced
  have hexecute : e = (amoData (funct5 s.instruction).toNat (s.memory (ramIndex pAddr))
        (s.gpr (regB s.instruction))).elim p fun data =>
          { p.setGpr (regD s.instruction) (s.memory (ramIndex pAddr)) with storeData := data } := by
    show p.amoExecute _ _ _ _ _ = _
    rw [Cpu.amoExecute, if_neg h2, if_neg h3]
    rcases amoData (funct5 s.instruction).toNat (s.memory (ramIndex pAddr))
      (s.gpr (regB s.instruction)) with - | data
    · rfl
    · rfl
  have hdefined := amoDefined_eq h2 h3 (s.memory (ramIndex pAddr)) (s.gpr (regB s.instruction))
  have hfields : e.store = true ∧ e.storeAddr = pAddr ∧ e.storeStrb = 0b1111 ∧
      e.memory = s.memory ∧ e.ioWords = s.ioWords := by
    rw [hexecute, hp]
    rcases amoData (funct5 s.instruction).toNat (s.memory (ramIndex pAddr))
      (s.gpr (regB s.instruction)) with - | data <;> exact ⟨rfl, rfl, rfl, rfl, rfl⟩
  obtain ⟨hstore, haddr, hstrb, hmemory, hio⟩ := hfields
  -- the word is aligned and in RAM, so the store goes through
  have hcommit := commitStoreData_ram hstore hstrb (by rw [haddr]; exact ha)
    (by rw [haddr]; exact hram)
  have haccess : t.amoAccess s.instruction pAddr (s.gpr (regB s.instruction))
      = e.commitStoreData := by
    unfold Cpu.amoAccess
    change (p.loadWord pAddr).bind _ = _
    rw [hload, Option.bind_some]
    exact Cpu.doIf_pos hstore _ _
  let u : Cpu := { e with
    reserveValid := false
    memory := Function.update e.memory (ramIndex e.storeAddr) e.storeData }
  have hstep : s.rv32a = some (.next u.advance) := by
    rw [Cpu.rv32a_of_reaches hop hreaches, haccess, hcommit]
    rfl
  refine ⟨u.advance, hstep, hio, ?_, ?_⟩
  · change Function.update e.memory (ramIndex e.storeAddr) e.storeData = _
    rw [hmemory, haddr, hexecute]
    rcases amoData (funct5 s.instruction).toNat (s.memory (ramIndex pAddr))
      (s.gpr (regB s.instruction)) with - | data
    · rw [hp]
      rfl
    · rfl
  · change e.gpr = _
    rw [hexecute, hdefined]
    rcases amoData (funct5 s.instruction).toNat (s.memory (ramIndex pAddr))
      (s.gpr (regB s.instruction)) with - | data
    · rw [hp]
      rfl
    · rw [hp]
      rfl

/-- **Atomic operations on RAM.** An atomic instruction that is neither `LR.W` nor `SC.W`
and gets to its access is right if and only if its operation is defined, or `store_data`
held the old word. -/
theorem amo_iff (s : Cpu) (pAddr : BitVec 32) (hop : opcode s.instruction = some .lrw)
    (h2 : funct5 s.instruction ≠ 2) (h3 : funct5 s.instruction ≠ 3)
    (hreaches : s.ReachesAmo s.instruction pAddr) (hram : isRamRange pAddr 4 = true) :
    (∃ u, s.rv32a = some (.next u) ∧ AmoRight s pAddr u.finish) ↔
      amoDefined (funct5 s.instruction) = true ∨ s.storeData = s.memory (ramIndex pAddr) := by
  obtain ⟨u, hu, hio, hmemory, hgpr⟩ := rv32a_ram hop hreaches hram h2 h3
  have hdefined := amoDefined_eq h2 h3 (s.memory (ramIndex pAddr)) (s.gpr (regB s.instruction))
  constructor
  · rintro ⟨u', hu', hright⟩
    obtain rfl : u = u' := Flow.next.inj (Option.some.inj (hu.symm.trans hu'))
    by_cases hdef : amoDefined (funct5 s.instruction) = true
    · exact .inl hdef
    -- an undefined operation writes back the announced data, where nothing should change
    · refine .inr ?_
      rw [Bool.not_eq_true] at hdef
      have hkept : u.memory = s.memory := (hright.undefined hdef).1
      rw [hdefined, Option.isSome_eq_false_iff, Option.isNone_iff_eq_none] at hdef
      rw [hdef, Option.getD_none, hkept] at hmemory
      have hword := congrFun hmemory (ramIndex pAddr)
      rw [Function.update_self] at hword
      exact hword.symm
  · intro h
    refine ⟨u, hu, ?_, ?_, ?_⟩
    · intro v hv
      rw [← amoData_eq] at hv
      rw [hv] at hmemory
      exact hmemory
    · intro hdef x hx
      rw [hdef, if_pos rfl] at hgpr
      refine (Function.update_of_ne hx _ _).trans ?_
      rw [hgpr]
      exact Function.update_apply ..
    · intro hdef
      have hdata := h.resolve_left (by rw [hdef]; exact Bool.false_ne_true)
      rw [hdefined, Option.isSome_eq_false_iff, Option.isNone_iff_eq_none] at hdef
      refine ⟨?_, hio⟩
      change u.memory = s.memory
      rw [hmemory, hdef, Option.getD_none, hdata, Function.update_eq_self]

/-- `amoadd.w x1, x1, (x1)` at the start of RAM. -/
theorem amo_iff_amoadd :
    ∃ u, Cpu.rv32a { Cpu.machineOf 0 with
        instruction := 0x0010A0AF, gpr := fun _ => kRamBase } = some (.next u) ∧
      AmoRight { Cpu.machineOf 0 with
        instruction := 0x0010A0AF, gpr := fun _ => kRamBase } kRamBase u.finish :=
  (amo_iff { Cpu.machineOf 0 with instruction := 0x0010A0AF, gpr := fun _ => kRamBase } kRamBase
    (by decide) (by decide) (by decide) ⟨by decide, by decide, by decide⟩ (by decide)).mpr
    (.inl (by decide))

/-- A CPU about to execute an undefined operation (`funct5` is 5) on the first word of RAM,
which is 0, after a step that left 7 in `store_data`. -/
def undefinedAmo : Cpu :=
  { Cpu.machineOf 0 with instruction := 0x2820A0AF, gpr := fun _ => kRamBase, storeData := 7 }

/-- The leftover 7 is written to memory. -/
theorem amo_undefined_writes :
    ¬ ∃ u, undefinedAmo.rv32a = some (.next u) ∧ AmoRight undefinedAmo kRamBase u.finish := by
  rintro ⟨u, hu, hright⟩
  have hkept : u.memory 0 = 0 :=
    congrFun (hright.undefined (by decide)).1 0
  have hseven : undefinedAmo.rv32a.map (fun f => f.cpu.memory 0) = some 7 := by decide +kernel
  rw [hu] at hseven
  have hmem : u.memory 0 = 7 := Option.some.inj hseven
  rw [hkept] at hmem
  exact absurd hmem (by decide)

end TraceSim.Ref
