/-
TraceSim/Ref/Reservation.lean

The reservation of `LR.W` and `SC.W`.

The CPU holds at most one reserved address.  It is described by the last event of the
run: the last `LR.W`, `SC.W`, atomic operation or store that got to its access.  An
`LR.W` reserves its address and every other event ends the reservation; a step that
traps is no event.  A store-conditional then succeeds exactly if the last event was an
`LR.W` to its own address.
-/
import TraceSim.Ref.Privilege

namespace TraceSim.Ref

/-! ### Events -/

/-- The completed accesses that the reservation depends on, by their physical address. -/
inductive MemoryEvent
  | loadReserved (pAddr : BitVec 32)
  | storeConditional (pAddr : BitVec 32)
  | amo (pAddr : BitVec 32)
  | store (pAddr : BitVec 32)
  deriving DecidableEq, Repr

/-- The address that is reserved after the event. -/
def MemoryEvent.reserves : MemoryEvent → Option (BitVec 32)
  | loadReserved pAddr => some pAddr
  | _ => none

/-- The event of an atomic instruction. -/
def amoEvent (i pAddr : BitVec 32) : MemoryEvent :=
  if funct5 i = 2 then .loadReserved pAddr
  else if funct5 i = 3 then .storeConditional pAddr
  else .amo pAddr

namespace Cpu

variable (s : Cpu)

/-- The address the CPU has reserved. -/
def reservation : Option (BitVec 32) := if s.reserveValid then some s.reserveAddr else none

/-- The event of an instruction that is executed. -/
def memoryEvent (i : BitVec 32) : Option MemoryEvent :=
  match s.dataTranslation i with
  | some (some pAddr) =>
      match opcode i with
      | some .lrw => some (amoEvent i pAddr)
      | some .sb => some (.store pAddr)
      | _ => none
  | _ => none

/-- The event of a step. -/
def completed : Option MemoryEvent :=
  match s.fetch with
  | some (some i) => if i = instEbreak ∨ s.trapsAtDecode i = true then none else s.memoryEvent i
  | _ => none

/-- The last event of the first `n` steps of a run. -/
def lastEvent (clock : ℕ → BitVec 64) : ℕ → Option MemoryEvent
  | 0 => none
  | n + 1 => ((s.riscvs clock n).bind completed).or (lastEvent clock n)

/-- A store-conditional that succeeds: 0 in its destination, and its operand in memory. -/
structure ScSucceeds (i pAddr : BitVec 32) (s' : Cpu) : Prop where
  gpr : s'.gpr = Function.update (Function.update s.gpr (regD i) 0) 0 0
  memory : s'.memory = Function.update s.memory (ramIndex pAddr) (s.gpr (regB i))
  ioWords : s'.ioWords = s.ioWords

/-- A store-conditional that fails: 1 in its destination, and nothing in memory. -/
structure ScFails (i : BitVec 32) (s' : Cpu) : Prop where
  gpr : s'.gpr = Function.update (Function.update s.gpr (regD i) 1) 0 0
  memory : s'.memory = s.memory
  ioWords : s'.ioWords = s.ioWords

end Cpu

variable {s s' t u : Cpu}

theorem reservation_of_invalid (h : s.reserveValid = false) : s.reservation = none := by
  rw [Cpu.reservation, h]
  rfl

theorem reservation_eq_some {p : BitVec 32} :
    s.reservation = some p ↔ (s.reserveValid && decide (s.reserveAddr = p)) = true := by
  rw [Cpu.reservation]
  cases s.reserveValid <;> simp

theorem reservation_congr (hvalid : u.reserveValid = s.reserveValid)
    (haddr : u.reserveAddr = s.reserveAddr) : u.reservation = s.reservation := by
  rw [Cpu.reservation, Cpu.reservation, hvalid, haddr]

theorem Agree.reservation (h : Agree Set.univ s u) : u.reservation = s.reservation :=
  reservation_congr h.reserveValid h.reserveAddr

theorem exception_reservation (u : Cpu) (v : BitVec 32) :
    (u.exception v).reservation = u.reservation := by
  have h := exception_untouched u v
  exact reservation_congr h.reserveValid h.reserveAddr

/-! ### Stores -/

theorem storeWord_reserveValid {a d : BitVec 32} (h : s.storeWord a d = some u) :
    u.reserveValid = s.reserveValid := by
  rw [Cpu.storeWord_frame h]

theorem doIf_reserveValid {p : Prop} [Decidable p] {f : Cpu → Option Cpu}
    (hf : ∀ t u, f t = some u → u.reserveValid = t.reserveValid) (h : s.doIf p f = some u) :
    u.reserveValid = s.reserveValid := by
  unfold Cpu.doIf at h
  split_ifs at h
  · exact hf _ _ h
  · obtain rfl := Option.some.inj h
    rfl

theorem uartPrint_reserveValid (h : s.uartPrint = some u) : u.reserveValid = s.reserveValid := by
  unfold Cpu.uartPrint at h
  obtain ⟨d, -, h⟩ := Option.bind_eq_some_iff.mp h
  exact storeWord_reserveValid h

theorem uartReady_reserveValid (h : s.uartReady = some u) : u.reserveValid = s.reserveValid := by
  unfold Cpu.uartReady at h
  obtain ⟨d, -, h⟩ := Option.bind_eq_some_iff.mp h
  exact storeWord_reserveValid h

theorem uartRaise_reserveValid (h : s.uartRaise = some u) : u.reserveValid = s.reserveValid := by
  unfold Cpu.uartRaise at h
  obtain ⟨t, ht, h⟩ := Option.bind_eq_some_iff.mp h
  obtain ⟨d, -, h⟩ := Option.bind_eq_some_iff.mp h
  obtain ⟨v, hv, h⟩ := Option.bind_eq_some_iff.mp h
  obtain rfl := Option.some.inj h
  exact (storeWord_reserveValid hv).trans (storeWord_reserveValid ht)

theorem plicComplete_reserveValid (h : s.plicComplete = some u) :
    u.reserveValid = s.reserveValid := by
  unfold Cpu.plicComplete at h
  obtain ⟨t, ht, h⟩ := Option.bind_eq_some_iff.mp h
  obtain rfl := Option.some.inj h
  have hkept := storeWord_reserveValid ht
  exact hkept

/-- The devices do not look at the reservation. -/
theorem storeHooks_reserveValid (h : s.storeHooks = some u) :
    u.reserveValid = s.reserveValid := by
  unfold Cpu.storeHooks at h
  obtain ⟨t₁, h₁, h⟩ := Option.bind_eq_some_iff.mp h
  obtain ⟨t₂, h₂, h⟩ := Option.bind_eq_some_iff.mp h
  obtain ⟨t₃, h₃, h₄⟩ := Option.bind_eq_some_iff.mp h
  have hprint := doIf_reserveValid (fun _ _ => uartPrint_reserveValid) h₁
  have hraise := doIf_reserveValid (fun _ _ => uartRaise_reserveValid) h₂
  have hready := doIf_reserveValid (fun _ _ => uartReady_reserveValid) h₃
  have hcomplete := doIf_reserveValid (fun _ _ => plicComplete_reserveValid) h₄
  exact hcomplete.trans (hready.trans (hraise.trans hprint))

/-- **A store ends the reservation.** -/
theorem commitStoreData_reservation (hstore : s.store = true) (h : s.commitStoreData = some u) :
    u.reservation = none := by
  unfold Cpu.commitStoreData at h
  split_ifs at h
  obtain ⟨t, ht, h⟩ := Option.bind_eq_some_iff.mp h
  have ht' : t.reserveValid = false := by
    unfold Cpu.storeBytes at ht
    rw [if_pos hstore] at ht
    obtain ⟨old, -, ht⟩ := Option.bind_eq_some_iff.mp ht
    exact doIf_reserveValid (fun _ _ hw => storeWord_reserveValid hw) ht
  exact reservation_of_invalid ((storeHooks_reserveValid h).trans ht')

/-- The devices are not in RAM. -/
theorem storeHooks_ram (hram : ¬ s.storeAddr < kRamBase) : s.storeHooks = some s := by
  have hne {p : Prop} {d : BitVec 32} (hd : d < kRamBase) : ¬ (s.storeAddr = d ∧ p) :=
    fun h => hram (h.1 ▸ hd)
  have hne' {d : BitVec 32} (hd : d < kRamBase) : ¬ s.storeAddr = d := fun h => hram (h ▸ hd)
  unfold Cpu.storeHooks
  dsimp only
  rw [Cpu.doIf_neg (hne' (by decide)), Option.bind_eq_bind, Option.bind_some,
    Cpu.doIf_neg (hne (by decide)), Option.bind_some, Cpu.doIf_neg (hne (by decide)),
    Option.bind_some, Cpu.doIf_neg (hne (by decide))]

/-- `store_data` in RAM: the word is merged, and the reservation ends. -/
theorem commitStoreData_merge {strb : BitVec 32} (hstore : s.store = true)
    (hstrb : s.storeStrb = strb) (hword : isRamRange (wordAddr s.storeAddr) 4 = true)
    (hcheck : checkMemRange s.storeAddr s.storeSize = true)
    (hbase : ¬ s.storeAddr < kRamBase) :
    s.commitStoreData = some { s with
      reserveValid := false
      memory := Function.update s.memory (ramIndex (wordAddr s.storeAddr))
        (storeMerge strb s.storeData s.storeAddr
          (s.memory (ramIndex (wordAddr s.storeAddr)))) } := by
  subst hstrb
  have hbytes : s.storeBytes = some { s with
      reserveValid := false
      memory := Function.update s.memory (ramIndex (wordAddr s.storeAddr))
        (storeMerge s.storeStrb s.storeData s.storeAddr
          (s.memory (ramIndex (wordAddr s.storeAddr)))) } := by
    unfold Cpu.storeBytes
    rw [if_pos hstore]
    dsimp only
    rw [Cpu.loadWord, if_pos hword, Option.bind_eq_bind, Option.bind_some, Cpu.doIf_pos hstore]
    dsimp only
    rw [Cpu.storeWord, if_pos hword]
  rw [Cpu.commitStoreData, if_pos hcheck, hbytes, Option.bind_some]
  exact storeHooks_ram hbase

/-- A store of a whole word in RAM. -/
theorem commitStoreData_ram (hstore : s.store = true) (hstrb : s.storeStrb = 0b1111)
    (ha : s.storeAddr &&& 3 = 0) (hram : isRamRange s.storeAddr 4 = true) :
    s.commitStoreData = some { s with
      reserveValid := false
      memory := Function.update s.memory (ramIndex s.storeAddr) s.storeData } := by
  have hbase : ¬ s.storeAddr < kRamBase := by
    intro h
    rw [isRamRange, if_pos (.inr h)] at hram
    cases hram
  have hword : wordAddr s.storeAddr = s.storeAddr := wordAddr_of_aligned ha
  have hsize : s.storeSize = 4 := by
    rw [Cpu.storeSize, hstrb]
    rfl
  have hmerge := commitStoreData_merge hstore hstrb (hword.symm ▸ hram)
    (hsize.symm ▸ checkMemRange_of_isRamRange hram) hbase
  rwa [hword, storeMerge_word ha] at hmerge

/-! ### Atomic instructions -/

/-- An operation that is neither `LR.W` nor `SC.W` keeps the store it has announced. -/
theorem amoExecute_store (s : Cpu) (rd : Fin 32) {f5 : BitVec 32} (pAddr old b : BitVec 32)
    (h2 : f5 ≠ 2) (h3 : f5 ≠ 3) : (s.amoExecute rd f5 pAddr old b).store = s.store := by
  unfold Cpu.amoExecute
  rw [if_neg h2, if_neg h3]
  rcases amoData f5.toNat old b with - | data
  · rfl
  · rfl

/-- **The reservation after an atomic instruction** is that of its event. -/
theorem amoAccess_reservation {i pAddr b : BitVec 32} (hstore : s.store = false)
    (h : s.amoAccess i pAddr b = some u) : u.reservation = (amoEvent i pAddr).reserves := by
  unfold Cpu.amoAccess at h
  obtain ⟨old, -, h⟩ := Option.bind_eq_some_iff.mp h
  unfold amoEvent
  by_cases h2 : funct5 i = 2
  · have hprepare : s.prepareAmo (funct5 i) pAddr = s := if_neg (not_not.mpr h2)
    have hexecute : s.amoExecute (regD i) (funct5 i) pAddr old b
        = { s.setGpr (regD i) old with reserveValid := true, reserveAddr := pAddr } := if_pos h2
    have hkeep : ({ s.setGpr (regD i) old with
        reserveValid := true, reserveAddr := pAddr } : Cpu).store ≠ true := by
      intro hs
      exact Bool.false_ne_true (hstore.symm.trans hs)
    rw [hprepare, hexecute, Cpu.doIf_neg hkeep] at h
    obtain rfl := Option.some.inj h
    rw [if_pos h2]
    rfl
  -- every other operation announces a store, which only a failing `SC.W` withdraws
  · have hprepare : (s.prepareAmo (funct5 i) pAddr).store = true := by
      rw [Cpu.prepareAmo, if_pos h2]
    generalize s.prepareAmo (funct5 i) pAddr = t at hprepare h
    rw [if_neg h2]
    by_cases h3 : funct5 i = 3
    · have hexecute : t.amoExecute (regD i) (funct5 i) pAddr old b
          = t.storeConditional (regD i) pAddr b := (if_neg h2).trans (if_pos h3)
      rw [hexecute] at h
      rw [if_pos h3]
      by_cases hreserved : (t.reserveValid && decide (t.reserveAddr = pAddr)) = true
      · have hsc : t.storeConditional (regD i) pAddr b
            = { t.setGpr (regD i) 0 with storeData := b, reserveValid := false } :=
          if_pos hreserved
        rw [hsc, Cpu.doIf_pos (by exact hprepare)] at h
        exact commitStoreData_reservation (by exact hprepare) h
      · have hsc : t.storeConditional (regD i) pAddr b
            = { t.setGpr (regD i) 1 with store := false, reserveValid := false } :=
          if_neg hreserved
        rw [hsc, Cpu.doIf_neg Bool.false_ne_true] at h
        obtain rfl := Option.some.inj h
        rfl
    · have hkept := (amoExecute_store t (regD i) pAddr old b h2 h3).trans hprepare
      rw [Cpu.doIf_pos hkept] at h
      rw [if_neg h3]
      exact commitStoreData_reservation hkept h

/-- An atomic instruction that does not trap has got to its access. -/
theorem rv32a_next (hop : opcode s.instruction = some .lrw) (h : s.rv32a = some (.next u)) :
    ∃ pAddr, s.ReachesAmo s.instruction pAddr ∧
      ∃ t, (s.traceAmo s.instruction (s.gpr (regA s.instruction))).amoAccess s.instruction pAddr
        (s.gpr (regB s.instruction)) = some t ∧ u = t.advance := by
  rw [Cpu.rv32a_eq hop] at h
  dsimp only at h
  split_ifs at h with halign
  obtain ⟨p, hp, h⟩ := Option.bind_eq_some_iff.mp h
  rcases p with - | pAddr
  · cases h
  · dsimp only at h
    split_ifs at h with hrange
    obtain ⟨t, ht, hu⟩ := Option.map_eq_some_iff.mp h
    have hu' : u = t.advance := (Flow.next.inj hu).symm
    exact ⟨pAddr, ⟨not_not.mp halign, hp, hrange⟩, t, ht, hu'⟩

/-! ### Other instructions -/

theorem traceIo_reservation (s : Cpu) (p : BitVec 32) :
    (s.traceIo p).reservation = s.reservation := by
  unfold Cpu.traceIo
  split_ifs
  · rfl
  · rfl

theorem writeBack_reservation (s : Cpu) (rd : Fin 32) (v : Option (BitVec 32)) :
    (s.writeBack rd v).reservation = s.reservation := by
  cases v with
  | none => rfl
  | some v => rfl

theorem writeCsr_reservation (s : Cpu) (r : Csr) (v : BitVec 32) :
    (s.writeCsr r v).reservation = s.reservation := by
  cases r <;> rfl

theorem csrAccess_reservation (s : Cpu) (i : BitVec 32) (r : Csr) :
    (s.csrAccess i r).reservation = s.reservation := by
  unfold Cpu.csrAccess
  dsimp only
  split_ifs
  · exact writeCsr_reservation _ _ _
  · exact writeCsr_reservation _ _ _
  · rfl
  · rfl

theorem branch_reservation (s : Cpu) (i a b : BitVec 32) :
    (s.branch i a b).reservation = s.reservation := by
  unfold Cpu.branch
  dsimp only
  split_ifs
  · rfl
  · rfl

theorem load_reservation {i a : BitVec 32} (h : s.load i a = some (.next u)) :
    u.reservation = s.reservation := by
  unfold Cpu.load at h
  dsimp only at h
  split_ifs at h
  obtain ⟨p, -, h⟩ := Option.bind_eq_some_iff.mp h
  rcases p with - | pAddr
  · cases h
  · dsimp only at h
    split_ifs at h
    obtain ⟨word, -, h⟩ := Option.bind_eq_some_iff.mp h
    obtain rfl := Flow.next.inj (Option.some.inj h)
    exact traceIo_reservation _ pAddr

theorem rv32csr_reservation (h : s.rv32csr = .next u) : u.reservation = s.reservation := by
  unfold Cpu.rv32csr at h
  dsimp only at h
  split_ifs at h
  rcases hcsr : cvtNumberToCsr (bits s.instruction 31 20) with - | r
  · rw [hcsr] at h
    obtain rfl := Flow.next.inj h
    rfl
  · rw [hcsr] at h
    obtain rfl := Flow.next.inj h
    exact csrAccess_reservation _ _ _

theorem prepareStore_store (s : Cpu) (f3 pAddr b : BitVec 32) :
    (s.prepareStore f3 pAddr b).store = true := by
  unfold Cpu.prepareStore
  split_ifs
  · rfl
  · rfl
  · rfl

/-- A store that does not trap has written. -/
theorem storeCase_next {i a b : BitVec 32} (h : s.storeCase i a b = some (.next u)) :
    (∃ pAddr, s.translate (a + immS i) .store = some (some pAddr)) ∧ u.reservation = none := by
  unfold Cpu.storeCase at h
  dsimp only at h
  split_ifs at h
  obtain ⟨p, hp, h⟩ := Option.bind_eq_some_iff.mp h
  rcases p with - | pAddr
  · cases h
  · dsimp only at h
    split_ifs at h
    obtain ⟨t, ht, hu⟩ := Option.map_eq_some_iff.mp h
    obtain rfl := Flow.next.inj hu
    have hnone := commitStoreData_reservation (prepareStore_store _ _ _ _) ht
    exact ⟨⟨pAddr, hp⟩, hnone⟩

/-- **The reservation after an executed instruction** that does not trap. -/
theorem execute_reservation (hstore : s.store = false) (h : s.execute = some (.next u)) :
    u.reservation = match s.memoryEvent s.instruction with
      | some e => e.reserves
      | none => s.reservation := by
  -- only atomics and stores are events
  have hquiet (hlrw : opcode s.instruction ≠ some .lrw) (hsb : opcode s.instruction ≠ some .sb) :
      s.memoryEvent s.instruction = none := by
    unfold Cpu.memoryEvent
    split
    · split
      · contradiction
      · contradiction
      · rfl
    · rfl
  unfold Cpu.execute at h
  split at h
  · next hop =>
    rw [hquiet (by rw [hop]; decide) (by rw [hop]; decide)]
    exact rv32csr_reservation (Option.some.inj h)
  · next hop =>
    obtain ⟨pAddr, ⟨-, haddr, -⟩, t, ht, rfl⟩ := rv32a_next hop h
    -- an atomic, with the address that its translation gave
    have hevent : s.memoryEvent s.instruction = some (amoEvent s.instruction pAddr) := by
      have haddr' : s.dataTranslation s.instruction = some (some pAddr) := by
        rw [Cpu.dataTranslation, hop]
        exact haddr
      rw [Cpu.memoryEvent, haddr', hop]
    rw [hevent]
    have hreserves := amoAccess_reservation
      (s := s.traceAmo s.instruction (s.gpr (regA s.instruction))) hstore ht
    exact hreserves
  · next hcsr hamo =>
    unfold Cpu.rv32im at h
    dsimp only at h
    rcases hop : opcode s.instruction with - | op
    · rw [hop] at h
      obtain rfl := Flow.next.inj (Option.some.inj h)
      rw [hquiet (by rw [hop]; decide) (by rw [hop]; decide)]
      rfl
    · rw [hop] at h
      by_cases hsb : op = .sb
      · subst hsb
        -- a store that does not trap has an address and clears the reservation
        obtain ⟨⟨pAddr, haddr⟩, hnone⟩ := storeCase_next h
        have hevent : s.memoryEvent s.instruction = some (.store pAddr) := by
          have haddr' : s.dataTranslation s.instruction = some (some pAddr) := by
            rw [Cpu.dataTranslation, Cpu.dataVAddr, hop]
            exact haddr
          rw [Cpu.memoryEvent, haddr', hop]
        rw [hevent]
        exact hnone
      -- no other opcode touches the reservation
      · rw [hquiet (fun h => hamo h) (by rw [hop]; exact fun h => hsb (Option.some.inj h))]
        cases op with
        | lui => obtain rfl := Flow.next.inj (Option.some.inj h); rfl
        | auipc => obtain rfl := Flow.next.inj (Option.some.inj h); rfl
        | jal => obtain rfl := Flow.next.inj (Option.some.inj h); rfl
        | jalr => obtain rfl := Flow.next.inj (Option.some.inj h); rfl
        | fence => obtain rfl := Flow.next.inj (Option.some.inj h); rfl
        | beq =>
          obtain rfl := Flow.next.inj (Option.some.inj h)
          exact branch_reservation _ _ _ _
        | addi =>
          obtain rfl := Flow.next.inj (Option.some.inj h)
          exact writeBack_reservation _ _ _
        | add =>
          obtain rfl := Flow.next.inj (Option.some.inj h)
          exact writeBack_reservation _ _ _
        | lb =>
          dsimp only at h
          have hkept := load_reservation h
          exact hkept
        | sb => exact absurd rfl hsb
        | ecall => exact absurd hop hcsr
        | lrw => exact absurd hop hamo

/-! ### Steps -/

theorem Agree.memoryEvent (h : Agree Set.univ s u) (i : BitVec 32) :
    u.memoryEvent i = s.memoryEvent i := by
  rw [Cpu.memoryEvent, Cpu.memoryEvent, h.dataTranslation]

theorem completed_of_executes {i : BitVec 32} (hi : s.Executes i) :
    s.completed = s.memoryEvent i := by
  obtain ⟨hfetch, hne, htrap⟩ := hi
  rw [Cpu.completed, hfetch]
  exact if_neg (not_or.mpr ⟨hne, htrap⟩)

/-- An instruction that raises an exception has no event. -/
theorem memoryEvent_of_raises {i : BitVec 32} {c : Raised} (hi : s.Executes i)
    (hc : s.Raises c) : s.memoryEvent i = none := by
  obtain ⟨j, hj, hcause⟩ := hc
  obtain rfl := hi.unique hj
  rw [Cpu.memoryEvent]
  rcases hcause with ⟨htime, -⟩ | ⟨hfault, -⟩
  · rw [dataTranslation_of_accessesTime htime]
  · rw [hfault]

/-- **The reservation after a step.** -/
theorem riscv_reservation (h : s.riscv = some s') :
    s'.reservation = match s.completed with
      | some e => e.reserves
      | none => s.reservation := by
  rcases Cpu.riscv_cases h with ⟨hfault, rfl⟩ | ⟨hfetch, rfl⟩ | ⟨i, hfetch, -, hdecode, rfl⟩ |
    ⟨i, flow, hi, hflow, rfl⟩
  · have hnone : s.completed = none := by
      rw [Cpu.completed, hfault]
    rw [hnone, exception_reservation]
    exact s.agree_fetchFault.reservation
  · have hnone : s.completed = none := by
      rw [Cpu.completed, hfetch]
      exact if_pos (.inl rfl)
    rw [hnone]
    exact (s.agree_fetched instEbreak).reservation
  · have hnone : s.completed = none := by
      rw [Cpu.completed, hfetch]
      exact if_pos (.inr hdecode)
    rw [hnone, Cpu.trapNow, exception_reservation]
    exact (s.agree_decided i).reservation
  · rw [completed_of_executes hi]
    rcases executed_cases hi hflow with ⟨u, rfl, -⟩ | ⟨c, u, v, rfl, hc, hu⟩
    · have hafter := execute_reservation (s := s.decided i) rfl hflow
      rw [(s.agree_decided i).memoryEvent, (s.agree_decided i).reservation] at hafter
      exact hafter
    -- the exception is called with the state of the start of the step
    · rw [memoryEvent_of_raises hi hc]
      exact (exception_reservation u v).trans hu.toAgree.reservation

/-- **The reservation along a run from reset** is that of the last event. -/
theorem riscvs_reservation {prior : Cpu} {resetPc : BitVec 32} {image : BitVec 28 → BitVec 32}
    (hinit : prior.init resetPc image = some s) {clock : ℕ → BitVec 64} {n : ℕ}
    (hu : s.riscvs clock n = some u) :
    u.reservation = (s.lastEvent clock n).bind MemoryEvent.reserves := by
  induction n generalizing u with
  | zero =>
    obtain rfl := Option.some.inj hu
    exact reservation_of_invalid (init_fields hinit).2.2
  | succ n ih =>
    obtain ⟨t, t', ht, hstep, rfl⟩ := riscvs_succ hu
    have hafter := riscv_reservation hstep
    have hlast : s.lastEvent clock (n + 1) = t.completed.or (s.lastEvent clock n) := by
      rw [Cpu.lastEvent, ht, Option.bind_some]
    change t'.reservation = _
    rw [hafter, hlast]
    cases t.completed with
    | none => exact ih ht
    | some e => rfl

/-! ### Store-conditionals -/

/-- A store-conditional in RAM writes exactly if its address is reserved. -/
theorem amoAccess_sc {i pAddr b : BitVec 32} (h3 : funct5 i = 3) (ha : pAddr &&& 3 = 0)
    (hram : isRamRange pAddr 4 = true) (h : s.amoAccess i pAddr b = some u) :
    (s.reservation = some pAddr ∧ u.gpr = Function.update s.gpr (regD i) 0 ∧
        u.memory = Function.update s.memory (ramIndex pAddr) b ∧ u.ioWords = s.ioWords) ∨
      (s.reservation ≠ some pAddr ∧ u.gpr = Function.update s.gpr (regD i) 1 ∧
        u.memory = s.memory ∧ u.ioWords = s.ioWords) := by
  have h2 : funct5 i ≠ 2 := by
    rw [h3]
    decide
  have hprepare : s.prepareAmo (funct5 i) pAddr
      = { s with store := true, storeAddr := pAddr, storeStrb := 0b1111 } := if_pos h2
  unfold Cpu.amoAccess at h
  rw [hprepare] at h
  obtain ⟨old, -, h⟩ := Option.bind_eq_some_iff.mp h
  have hexecute (t : Cpu) : t.amoExecute (regD i) (funct5 i) pAddr old b
      = t.storeConditional (regD i) pAddr b := (if_neg h2).trans (if_pos h3)
  rw [hexecute] at h
  rw [ne_eq, reservation_eq_some]
  by_cases hreserved : (s.reserveValid && decide (s.reserveAddr = pAddr)) = true
  · have hsc : ({ s with store := true, storeAddr := pAddr, storeStrb := 0b1111 } :
        Cpu).storeConditional (regD i) pAddr b
          = { ({ s with store := true, storeAddr := pAddr, storeStrb := 0b1111 } :
              Cpu).setGpr (regD i) 0 with storeData := b, reserveValid := false } :=
      if_pos hreserved
    rw [hsc, Cpu.doIf_pos (by exact rfl)] at h
    obtain rfl := Option.some.inj ((commitStoreData_ram rfl rfl ha hram).symm.trans h)
    exact .inl ⟨hreserved, rfl, rfl, rfl⟩
  · have hsc : ({ s with store := true, storeAddr := pAddr, storeStrb := 0b1111 } :
        Cpu).storeConditional (regD i) pAddr b
          = { ({ s with store := true, storeAddr := pAddr, storeStrb := 0b1111 } :
              Cpu).setGpr (regD i) 1 with store := false, reserveValid := false } :=
      if_neg hreserved
    -- the announced store is withdrawn
    rw [hsc, Cpu.doIf_neg Bool.false_ne_true] at h
    obtain rfl := Option.some.inj h
    exact .inr ⟨hreserved, rfl, rfl, rfl⟩

/-- The instruction of a step with the event of a store-conditional. -/
theorem executes_of_storeConditional {i pAddr : BitVec 32} (hfetch : s.fetch = some (some i))
    (hsc : s.completed = some (.storeConditional pAddr)) :
    s.Executes i ∧ opcode i = some .lrw ∧ funct5 i = 3 ∧
      s.dataTranslation i = some (some pAddr) := by
  rw [Cpu.completed, hfetch] at hsc
  dsimp only at hsc
  split_ifs at hsc with htrap
  unfold Cpu.memoryEvent at hsc
  split at hsc
  · next p haddr =>
    split at hsc
    · next hop =>
      have hevent := Option.some.inj hsc
      unfold amoEvent at hevent
      split_ifs at hevent with h2 h3
      obtain rfl := MemoryEvent.storeConditional.inj hevent
      exact ⟨⟨hfetch, not_or.mp htrap⟩, hop, h3, haddr⟩
    · cases hsc
    · cases hsc
  · cases hsc

/-- **A store-conditional in RAM**, in one step. -/
theorem riscv_storeConditional {i pAddr : BitVec 32} (hstep : s.riscv = some s')
    (hfetch : s.fetch = some (some i)) (hsc : s.completed = some (.storeConditional pAddr))
    (hram : isRamRange pAddr 4 = true) :
    (s.reservation = some pAddr ∧ s.ScSucceeds i pAddr s') ∨
      (s.reservation ≠ some pAddr ∧ s.ScFails i s') := by
  obtain ⟨hi, hop, h3, haddr⟩ := executes_of_storeConditional hfetch hsc
  have hagree := s.agree_decided i
  obtain ⟨flow, hflow, rfl⟩ := Cpu.riscv_executed hstep hi
  -- the instruction does not trap, for a completed event has its address
  rcases executed_cases hi hflow with ⟨u, rfl, -⟩ | ⟨c, u, v, rfl, hc, -⟩
  · have hexecute : (s.decided i).execute = (s.decided i).rv32a := Cpu.execute_lrw hop
    rw [hexecute] at hflow
    obtain ⟨p, hreaches, t, ht, rfl⟩ := rv32a_next hop hflow
    have haddr' : (s.decided i).amoTranslation i = some (some pAddr) := by
      rw [← haddr, ← hagree.dataTranslation i, Cpu.dataTranslation, hop]
    obtain rfl : p = pAddr :=
      Option.some.inj (Option.some.inj (hreaches.2.1.symm.trans haddr'))
    have hgpr : (s.decided i).gpr = s.gpr := funext fun r => hagree.gpr r (Set.mem_univ r)
    have hreserved : ((s.decided i).traceAmo i ((s.decided i).gpr (regA i))).reservation
        = s.reservation := hagree.reservation
    -- the end of the step clears the register 0
    have hfinish : (Flow.next t.advance).run.finish.gpr = Function.update t.gpr 0 0 := rfl
    rcases amoAccess_sc h3 hreaches.aligned hram ht with ⟨hres, htgpr, htmem, htio⟩ |
      ⟨hres, htgpr, htmem, htio⟩
    · refine .inl ⟨hreserved.symm.trans hres, ?_, ?_, htio.trans hagree.ioWords⟩
      · rw [hfinish, htgpr, ← hgpr]
        rfl
      · refine htmem.trans ?_
        rw [← hgpr, ← hagree.memory]
        rfl
    · refine .inr ⟨fun h => hres (hreserved.trans h), ?_, htmem.trans hagree.memory,
        htio.trans hagree.ioWords⟩
      rw [hfinish, htgpr, ← hgpr]
      rfl
  · have hnone := memoryEvent_of_raises hi hc
    rw [← completed_of_executes hi, hsc] at hnone
    cases hnone

/-- The last event reserves the address exactly if it is an `LR.W` to it. -/
theorem lastEvent_reserves {last : Option MemoryEvent} {pAddr : BitVec 32} :
    last.bind MemoryEvent.reserves = some pAddr ↔ last = some (.loadReserved pAddr) := by
  rcases last with - | e
  · simp
  · cases e <;> simp [MemoryEvent.reserves]

/-- **The protocol of `LR.W` and `SC.W`**: a store-conditional in RAM succeeds exactly if the
last event before it is an `LR.W` to its address, and no reservation is held after it. -/
theorem storeConditional_iff {prior : Cpu} {resetPc : BitVec 32}
    {image : BitVec 28 → BitVec 32} (hinit : prior.init resetPc image = some s)
    (clock : ℕ → BitVec 64) {n : ℕ} (hu : s.riscvs clock n = some u) {u' : Cpu}
    (hstep : u.riscv = some u') {i pAddr : BitVec 32} (hfetch : u.fetch = some (some i))
    (hsc : u.completed = some (.storeConditional pAddr)) :
    u'.reserveValid = false ∧
      (isRamRange pAddr 4 = true →
        if s.lastEvent clock n = some (.loadReserved pAddr) then u.ScSucceeds i pAddr u'
        else u.ScFails i u') := by
  constructor
  · have hafter := riscv_reservation hstep
    rw [hsc] at hafter
    cases hvalid : u'.reserveValid with
    | false => rfl
    | true =>
      rw [Cpu.reservation, hvalid] at hafter
      cases hafter
  · intro hram
    have hlast : u.reservation = some pAddr ↔
        s.lastEvent clock n = some (.loadReserved pAddr) := by
      rw [riscvs_reservation hinit hu, lastEvent_reserves]
    rcases riscv_storeConditional hstep hfetch hsc hram with ⟨hres, hends⟩ | ⟨hres, hends⟩
    · rwa [if_pos (hlast.mp hres)]
    · rwa [if_neg fun h => hres (hlast.mpr h)]

/-- A program that reserves its first word and stores to it: `auipc x1, 0`, `lr.w x2, (x1)`
and `sc.w x3, x2, (x1)`. -/
def reserveProgram (i : BitVec 28) : BitVec 32 :=
  if i = 0 then 0x00000097 else if i = 1 then 0x1000A12F else 0x1820A1AF

/-- The store succeeds. -/
theorem storeConditional_reserved :
    ∃ s u u', Cpu.zero.init kRamBase reserveProgram = some s ∧
      s.riscvs (fun _ => 0) 2 = some u ∧ u.riscv = some u' ∧ u'.reserveValid = false ∧
      u.ScSucceeds 0x1820A1AF kRamBase u' := by
  have hrun : ((Cpu.zero.init kRamBase reserveProgram).bind fun s =>
      (s.riscvs (fun _ => 0) 2).bind fun u => u.riscv.map fun _ =>
        (s.lastEvent (fun _ => 0) 2, u.fetch, u.completed))
        = some (some (.loadReserved kRamBase), some (some 0x1820A1AF),
            some (.storeConditional kRamBase)) := by
    decide +kernel
  obtain ⟨s, hs, hrun⟩ := Option.bind_eq_some_iff.mp hrun
  obtain ⟨u, hu, hrun⟩ := Option.bind_eq_some_iff.mp hrun
  obtain ⟨u', hu', hrun⟩ := Option.map_eq_some_iff.mp hrun
  obtain ⟨hlast, hrun⟩ := Prod.mk.inj hrun
  obtain ⟨hfetch, hsc⟩ := Prod.mk.inj hrun
  obtain ⟨hvalid, hends⟩ := storeConditional_iff hs (fun _ => 0) hu hu' hfetch hsc
  rw [hlast, if_pos rfl] at hends
  exact ⟨s, u, u', hs, hu, hu', hvalid, hends (by decide)⟩

end TraceSim.Ref
