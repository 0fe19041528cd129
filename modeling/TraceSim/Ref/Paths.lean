/-
TraceSim/Ref/Paths.lean

The paths of a step.

A step first fetches; `fetch` is what comes of it.  The step then has the
instruction, the interrupt flags and `asy` (`decided`), and every path from there
starts in that state: a step that decides on a trap, an instruction that traps, and
an instruction that does not.  `riscv_cases` lists them, so that no other module
unfolds the step.
-/
import TraceSim.Ref.Agreement

namespace TraceSim.Ref

namespace Cpu

variable (s : Cpu)

/-- What a step fetches: the process ends (`none`), the fetch faults
(`some none`), or there is an instruction. -/
def fetch : Option (Option (BitVec 32)) := do
  match ← s.translate s.pc .fetch with
  | none => some none
  | some pAddr => if checkMemRange pAddr 4 then (s.loadWord pAddr).map some else none

/-- The state a fetch fault calls `exception` from. -/
def fetchFault : Cpu := { s.beginStep with pageFaultInst := true }

/-- The state with the instruction fetched. -/
def fetched (i : BitVec 32) : Cpu := { s.beginStep with instruction := i }.traceHeader

/-- The state with the interrupt flags polled. -/
def decided (i : BitVec 32) : Cpu :=
  let t := (s.fetched i).pollInterrupts
  { t with asy := t.decodeAsy }

/-- The step calls `exception` before it executes anything. -/
def trapsAtDecode (i : BitVec 32) : Bool := (s.decided i).asy || i = instEcall

/-- The step gets as far as to execute the instruction. -/
def Executes (i : BitVec 32) : Prop :=
  s.fetch = some (some i) ∧ i ≠ instEbreak ∧ ¬ s.trapsAtDecode i

/-! ### The start of a step -/

/-- The flags that a step clears are no part of the architectural state. -/
theorem agree_beginStep : Agree Set.univ s s.beginStep := by
  unfold beginStep
  dsimp only
  split
  · exact ⟨fun _ _ => rfl, rfl, rfl, rfl, rfl, rfl, rfl, rfl, rfl⟩
  · exact ⟨fun _ _ => rfl, rfl, rfl, rfl, rfl, rfl, rfl, rfl, rfl⟩

@[simp] theorem beginStep_instruction : s.beginStep.instruction = s.instruction := by
  unfold beginStep
  dsimp only
  split
  · rfl
  · rfl

@[simp] theorem beginStep_interrupts : s.beginStep.interrupts = s.interrupts := by
  unfold beginStep
  dsimp only
  split
  · rfl
  · rfl

@[simp] theorem beginStep_simEnd : s.beginStep.simEnd = s.simEnd := by
  unfold beginStep
  dsimp only
  split
  · rfl
  · rfl

@[simp] theorem beginStep_currentTrace : s.beginStep.currentTrace = s.currentTrace := by
  unfold beginStep
  dsimp only
  split
  · rfl
  · rfl

@[simp] theorem beginStep_storeData : s.beginStep.storeData = s.storeData := by
  unfold beginStep
  dsimp only
  split
  · rfl
  · rfl

/-- The polling leaves it there. -/
theorem decided_storeData (i : BitVec 32) : (s.decided i).storeData = s.storeData := by
  have hdecided : (s.decided i).storeData = (s.fetched i).storeData := rfl
  exact hdecided.trans s.beginStep_storeData

/-- The instruction is no architectural state. -/
theorem agree_fetched (i : BitVec 32) : Agree Set.univ s (s.fetched i) :=
  { s.agree_beginStep with }

/-- Nor are the interrupt flags. -/
theorem agree_decided (i : BitVec 32) : Agree Set.univ s (s.decided i) :=
  { s.agree_beginStep with }

/-- Nor is the flag of a fetch fault. -/
theorem agree_fetchFault : Agree Set.univ s s.fetchFault :=
  { s.agree_beginStep with }

/-! ### The step from its fetch -/

/-- A step fetches, and then traps or decodes. -/
theorem riscv_eq :
    s.riscv = s.fetch.bind fun
      | none => some (s.fetchFault.exception s.pc)
      | some i => (s.fetched i).decode := by
  have hpc : s.beginStep.pc = s.pc := s.agree_beginStep.pc
  have htranslate : s.beginStep.translate s.beginStep.pc .fetch = s.translate s.pc .fetch := by
    rw [s.agree_beginStep.translate, hpc]
  unfold riscv fetch
  dsimp only
  rw [htranslate]
  rcases s.translate s.pc .fetch with - | - | pAddr
  · rfl
  · exact congrArg (fun pc => some (s.fetchFault.exception pc)) hpc
  · simp only [Option.bind_eq_bind, Option.bind_some, s.agree_beginStep.loadWord]
    split_ifs
    · rcases s.loadWord pAddr with - | word
      · rfl
      · rfl
    · rfl

variable {s}

/-- After a fetch fault the trap is taken with the flags that are there. -/
theorem riscv_of_fault (h : s.fetch = some none) :
    s.riscv = some (s.fetchFault.exception s.pc) := by
  rw [riscv_eq, h, Option.bind_some]

/-- A fetched instruction is decoded. -/
theorem riscv_of_fetch {i : BitVec 32} (h : s.fetch = some (some i)) :
    s.riscv = (s.fetched i).decode := by
  rw [riscv_eq, h, Option.bind_some]

/-! ### The step from its instruction -/

/-- An `ebreak` ends the simulation before anything else is looked at. -/
theorem decode_ebreak :
    (s.fetched instEbreak).decode
      = some { (s.fetched instEbreak).trace (fun t => { t with isEbreak := true }) with
          simEnd := true } := by
  have hebreak : (s.fetched instEbreak).instruction = instEbreak := rfl
  rw [decode, if_pos hebreak]

/-- Nothing is left of the fault flags when the instruction is decided on. -/
theorem decode_decided {i : BitVec 32} (hi : i ≠ instEbreak) :
    (s.fetched i).decode
      = if i = instWfi && !(s.decided i).asy then none
        else if s.trapsAtDecode i then some ((s.decided i).trapNow 0)
        else (s.decided i).execute.map fun flow => flow.run.finish := by
  have hinst : (s.fetched i).instruction ≠ instEbreak := hi
  have hfetch : (s.decided i).pageFaultInst = false := rfl
  have hload : (s.decided i).pageFaultLoad = false := rfl
  have hstore : (s.decided i).pageFaultStore = false := rfl
  have hillegal : (s.decided i).illegalException = false := rfl
  unfold decode
  rw [if_neg hinst]
  -- three of the tests are on flags that the start of the step has cleared
  change (if _ && !(s.decided i).asy && !(s.decided i).pageFaultInst
      && !(s.decided i).pageFaultLoad && !(s.decided i).pageFaultStore then none
    else if (s.decided i).pageFaultInst then _ else if (s.decided i).illegalException then _
    else _) = _
  rw [hfetch, hload, hstore, hillegal]
  simp only [Bool.not_false, Bool.and_true, Bool.false_eq_true, if_false, trapsAtDecode,
    Bool.or_eq_true, decide_eq_true_eq]
  rfl

/-- **The paths of a step**: a fetch fault, `ebreak`, a trap decided on before
execution, and an executed instruction. -/
theorem riscv_cases {s' : Cpu} (h : s.riscv = some s') :
    (s.fetch = some none ∧ s' = s.fetchFault.exception s.pc) ∨
    (s.fetch = some (some instEbreak) ∧
      s' = { (s.fetched instEbreak).trace (fun t => { t with isEbreak := true }) with
        simEnd := true }) ∨
    (∃ i, s.fetch = some (some i) ∧ i ≠ instEbreak ∧ s.trapsAtDecode i ∧
      s' = (s.decided i).trapNow 0) ∨
    ∃ i flow, s.Executes i ∧ (s.decided i).execute = some flow ∧ s' = flow.run.finish := by
  rcases hfetch : s.fetch with - | - | i
  · rw [riscv_eq, hfetch] at h
    cases h
  · rw [riscv_of_fault hfetch] at h
    exact .inl ⟨rfl, (Option.some.inj h).symm⟩
  · rw [riscv_of_fetch hfetch] at h
    by_cases hi : i = instEbreak
    · subst hi
      rw [decode_ebreak] at h
      exact .inr (.inl ⟨rfl, (Option.some.inj h).symm⟩)
    · rw [decode_decided hi] at h
      split_ifs at h with hwfi htrap
      · exact .inr (.inr (.inl ⟨i, rfl, hi, htrap, (Option.some.inj h).symm⟩))
      · obtain ⟨flow, hflow, hs'⟩ := Option.map_eq_some_iff.mp h
        exact .inr (.inr (.inr ⟨i, flow, ⟨hfetch, hi, htrap⟩, hflow, hs'.symm⟩))

/-- A step executes one instruction. -/
theorem Executes.unique {i j : BitVec 32} (hi : s.Executes i) (hj : s.Executes j) :
    i = j := by
  have heq := hi.1.symm.trans hj.1
  exact Option.some.inj (Option.some.inj heq)

/-- An executed instruction, from its start to the end of the step. -/
theorem riscv_of_executes {i : BitVec 32} (hi : s.Executes i) (hwfi : i ≠ instWfi) :
    s.riscv = (s.decided i).execute.map fun flow => flow.run.finish := by
  obtain ⟨hfetch, hi, htrap⟩ := hi
  rw [riscv_of_fetch hfetch, decode_decided hi, if_neg htrap, if_neg (by simp [hwfi])]

/-- What is said of the executed instruction is said of this one. -/
theorem Executes.exists_iff {i : BitVec 32} (hi : s.Executes i) {p : BitVec 32 → Prop} :
    (∃ j, s.Executes j ∧ p j) ↔ p i := by
  constructor
  · rintro ⟨j, hj, hp⟩
    obtain rfl := hi.unique hj
    exact hp
  · exact fun hp => ⟨i, hi, hp⟩

/-- The path of a step that executes the instruction it fetched. -/
theorem riscv_executed {s' : Cpu} {i : BitVec 32} (h : s.riscv = some s')
    (hi : s.Executes i) :
    ∃ flow, (s.decided i).execute = some flow ∧ s' = flow.run.finish := by
  obtain ⟨hfetch, hi, htrap⟩ := hi
  rw [riscv_of_fetch hfetch, decode_decided hi, if_neg htrap] at h
  split_ifs at h
  obtain ⟨flow, hflow, hs'⟩ := Option.map_eq_some_iff.mp h
  exact ⟨flow, hflow, hs'.symm⟩

end Cpu

end TraceSim.Ref
