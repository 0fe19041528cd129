/-
TraceSim/Ref/BlockOverflow.lean

A program that starts a block at every address.

The program of `BranchProgram` walks through all even addresses and then through all
odd ones.  Each branch ends a block, so after about `2 ^ 32` turns all addresses have
numbers, and the counter of the blocks has wrapped around.
-/
import TraceSim.Ref.BasicBlocks
import TraceSim.Ref.BranchProgram

namespace TraceSim.Ref

variable {c : Control} {s cpu : Cpu} {e e₀ e' : Exec}

/-! ### Walks -/

/-- A run in mode `GEN_BBV` has reached a state under the control `c` at time `t`, in a
block of `len` instructions so far that starts at `head`, and all of `heads` have
numbers. -/
structure Walk (e₀ : Exec) (c : Control) (len head : BitVec 32) (t : ℕ)
    (heads : Set (BitVec 32)) (e : Exec) : Prop extends At c e.cpu where
  reached : Reaches { mode := .genBbv } ∅ e₀ e
  len : e.cpu.currentBbLen = len
  head : e.cpu.currentBbHeadPc = head
  time : e.cpu.simTime.toNat = t
  heads : ∀ pc ∈ heads, pc ∈ e.globalPcToId

def Walks (e₀ : Exec) (c : Control) (len head : BitVec 32) (t : ℕ) (heads : Set (BitVec 32)) :
    Prop :=
  ∃ e, Walk e₀ c len head t heads e

namespace Walks

variable {c c' : Control} {len head : BitVec 32} {t : ℕ} {heads : Set (BitVec 32)}

theorem turn (h : Walks e₀ c len head t heads) (ht : t < maxSimTime) (ends : Bool)
    (hstep : ∀ s, At c s → ∃ s', s.riscv = some s' ∧ At c' s' ∧ Exec.endsBlock s' = ends) :
    ∃ len' head', Walks e₀ c' (if ends then 0 else len') head' (t + 1)
        (if ends then insert head' heads else heads) ∧
      len' = (if c.privilege = 0 then len + 1 else len) ∧
      head' = if c.privilege = 0 ∧ len = 0 then c.pc else head := by
  obtain ⟨e, h⟩ := h
  obtain ⟨cpu, hcpu, hat, hends⟩ := hstep e.cpu h.toAt
  obtain ⟨hhead, hlen, hclock⟩ := riscv_block hcpu
  have hmode : ({ mode := .genBbv } : SimConfig).mode = .genBbv := rfl
  obtain ⟨e', hturn, hcpu', hmem⟩ := Exec.turn_spec ∅ hmode hcpu hat.simEnd
  have hrun : e.running = true :=
    Exec.running_iff.mpr ⟨h.simEnd, by rw [h.time]; exact ht⟩
  -- the clock stays below its limit, so it does not wrap around
  have htime : (cpu.simTime + 1).toNat = t + 1 := by
    have hone : (1 : BitVec 64).toNat = 1 := rfl
    have hnow := h.time
    unfold maxSimTime at ht
    rw [hclock, BitVec.toNat_add_of_lt (by omega), hnow, hone]
  refine ⟨cpu.currentBbLen, cpu.currentBbHeadPc, ⟨e', ?_⟩, ?_, ?_⟩
  · have hat' : At c' e'.cpu := by
      rw [hcpu']
      exact { hat with }
    refine { hat' with
      reached := .next h.reached hrun hturn, len := ?_, head := ?_, time := ?_, heads := ?_ }
    · rw [hcpu', hends]
    · rw [hcpu']
    · rw [hcpu']
      exact htime
    -- a block that ends adds its head to those seen
    · intro pc hpc
      rw [hmem, hends]
      cases ends with
      | false => exact .inr (h.heads pc hpc)
      | true =>
        rcases hpc with rfl | hpc
        · exact .inl ⟨rfl, rfl⟩
        · exact .inr (h.heads pc hpc)
  · rw [hlen, Exec.beginStep_currentBbLen, h.privilege, h.len]
  · rw [hhead, Exec.beginStep_currentBbHeadPc, h.privilege, h.len, h.pc, h.head]

/-- **The branch** ends a block, and its head has a number. -/
theorem branch (h : Walks e₀ c len head t heads) (ht : t < maxSimTime) {k : ℕ}
    (hk : k ∈ [1, 2, 3]) (hsatp : c.satp = tableSatp k) (hu : c.privilege = 0)
    (hmapped : superpage c.pc ≠ hole k) :
    Walks e₀ { c with pc := c.pc + 2 } 0 (if len = 0 then c.pc else head) (t + 1)
      (insert (if len = 0 then c.pc else head) heads) := by
  obtain ⟨len', head', hwalk, -, rfl⟩ := h.turn ht true fun s hs => by
    obtain ⟨s', hs', hat, hbr⟩ := riscv_branch hs hk hsatp hu hmapped
    refine ⟨s', hs', hat, ?_⟩
    rw [Exec.endsBlock, hat.privilege, hu, hbr]
    rfl
  simpa [hu] using hwalk

/-- **A fetch from the hole** starts a block that goes on after the trap. -/
theorem fault (h : Walks e₀ c 0 head t heads) (ht : t < maxSimTime) {k : ℕ}
    (hk : k ∈ [1, 2, 3]) (hsatp : c.satp = tableSatp k) (hu : c.privilege = 0)
    (hhole : superpage c.pc = hole k) (hstatus : c.mstatus = 0x80)
    (hdirect : c.mtvec.getLsbD 0 = false) (hbase : c.mtvec &&& 0xfffffffc = c.mtvec) :
    Walks e₀ { c with privilege := 3, pc := c.mtvec, mepc := c.pc, mstatus := 0 } 1 c.pc (t + 1)
      heads := by
  obtain ⟨len', head', hwalk, rfl, rfl⟩ := h.turn ht false fun s hs => by
    obtain ⟨s', hs', hat⟩ := riscv_hole hs hk hsatp hu hhole hstatus hdirect hbase
    refine ⟨s', hs', hat, ?_⟩
    rw [Exec.endsBlock, hat.privilege]
    rfl
  simpa [hu] using hwalk

theorem csrw (h : Walks e₀ c len head t heads) (ht : t < maxSimTime) (hm : c.privilege = 3)
    {i : ℕ} (hpc : c.pc = BitVec.ofNat 32 (0x80000000 + 4 * i)) (hi : i < 2 ^ 22)
    {r : Csr} {a : Fin 32} {v : BitVec 32} (hcode : IsCsrw (machineCode i) r a)
    (hr : r = .satp ∨ r = .mtvec ∨ r = .mepc) (hv : ∀ s, At c s → s.gpr a = v) :
    Walks e₀ { c.set r v with pc := c.pc + 4 } len head (t + 1) heads := by
  have hmode : (c.set r v).privilege = 3 := by
    rcases hr with rfl | rfl | rfl <;> exact hm
  obtain ⟨len', head', hwalk, rfl, rfl⟩ := h.turn ht false fun s hs => by
    obtain ⟨s', hs', hat⟩ := riscv_csrw hs (fetch_machine hs hm hpc hi) hcode hr (hv s hs)
    refine ⟨s', hs', hat, ?_⟩
    rw [Exec.endsBlock, hat.privilege]
    exact congrArg (fun p => decide (p = (0 : BitVec 8)) && s'.isBr) hmode
  simpa [hm] using hwalk

theorem mret (h : Walks e₀ c len head t heads) (ht : t < maxSimTime) (hm : c.privilege = 3)
    {i : ℕ} (hpc : c.pc = BitVec.ofNat 32 (0x80000000 + 4 * i)) (hi : i < 2 ^ 22)
    (hcode : machineCode i = instMret) (hstatus : c.mstatus = 0) :
    Walks e₀ { c with privilege := 0, pc := c.mepc, mstatus := 0x80 } len head (t + 1) heads := by
  obtain ⟨len', head', hwalk, rfl, rfl⟩ := h.turn ht false fun s hs => by
    obtain ⟨s', hs', hat, hbr⟩ := riscv_mret hs (hcode ▸ fetch_machine hs hm hpc hi) hstatus
    refine ⟨s', hs', hat, ?_⟩
    rw [Exec.endsBlock, hbr, Bool.and_false]
  simpa [hm] using hwalk

/-- **The user program** walks through the addresses that are mapped. -/
theorem sweep (h : Walks e₀ c 0 head t heads) {k : ℕ} (hk : k ∈ [1, 2, 3])
    (hsatp : c.satp = tableSatp k) (hu : c.privilege = 0) {n : ℕ} (ht : t + n ≤ maxSimTime)
    (hmapped : ∀ j < n, superpage (c.pc + BitVec.ofNat 32 (2 * j)) ≠ hole k) :
    ∃ head', Walks e₀ { c with pc := c.pc + BitVec.ofNat 32 (2 * n) } 0 head' (t + n)
      (heads ∪ {pc | ∃ j < n, pc = c.pc + BitVec.ofNat 32 (2 * j)}) := by
  induction n with
  | zero => exact ⟨head, by simpa using h⟩
  | succ n ih =>
    obtain ⟨head', hwalk⟩ := ih (by omega) fun j hj => hmapped j (by omega)
    have hnext := hwalk.branch (by omega) hk hsatp hu (hmapped n (by omega))
    have hpc : c.pc + BitVec.ofNat 32 (2 * n) + 2 = c.pc + BitVec.ofNat 32 (2 * (n + 1)) := by
      rw [BitVec.add_assoc, Nat.mul_succ, BitVec.ofNat_add]
      rfl
    rw [if_pos rfl] at hnext
    dsimp only at hnext
    rw [hpc] at hnext
    obtain ⟨e, hnext⟩ := hnext
    refine ⟨_, e, { hnext with heads := ?_ }⟩
    rintro pc (hpc | ⟨j, hj, rfl⟩)
    · exact hnext.heads pc (.inr (.inl hpc))
    · rcases Nat.lt_succ_iff_lt_or_eq.mp hj with hlt | rfl
      · exact hnext.heads _ (.inr (.inr ⟨j, hlt, rfl⟩))
      · exact hnext.heads _ (.inl rfl)

end Walks

/-! ### The start -/

/-- The step executes an instruction that only computes, jumps or writes a control
register. -/
def Cpu.staysOutOfMemory (s : Cpu) : Bool :=
  match s.fetch with
  | some (some i) => [some .lui, some .addi, some .jalr, some .ecall].contains (opcode i)
  | _ => false

theorem execute_memory {flow : Flow} (h : s.execute = some flow)
    (hop : opcode s.instruction ∈ [some .lui, some .addi, some .jalr, some .ecall]) :
    flow.cpu.memory = s.memory := by
  simp only [List.mem_cons, List.not_mem_nil, or_false] at hop
  unfold Cpu.execute at h
  -- none of these opcodes stores
  rcases hop with hop | hop | hop | hop
  · rw [hop] at h
    unfold Cpu.rv32im at h
    dsimp only at h
    rw [hop] at h
    obtain rfl := Option.some.inj h
    rfl
  · rw [hop] at h
    unfold Cpu.rv32im at h
    dsimp only at h
    rw [hop] at h
    obtain rfl := Option.some.inj h
    show (Cpu.writeBack _ _ _).memory = _
    unfold Cpu.writeBack
    split <;> rfl
  · rw [hop] at h
    unfold Cpu.rv32im at h
    dsimp only at h
    rw [hop] at h
    obtain rfl := Option.some.inj h
    rfl
  · rw [hop] at h
    obtain rfl := Option.some.inj h
    unfold Cpu.rv32csr
    dsimp only
    split_ifs
    · rfl
    · split
      · rfl
      · exact (csrAccess_frame _ _ _).1

theorem riscv_memory (hstays : s.staysOutOfMemory = true) (h : s.riscv = some cpu) :
    cpu.memory = s.memory := by
  rcases Cpu.riscv_cases h with ⟨-, rfl⟩ | ⟨-, rfl⟩ | ⟨i, -, -, -, rfl⟩ |
    ⟨i, flow, hi, hflow, rfl⟩
  · rw [exception_frame]
    exact s.agree_fetchFault.memory
  · exact (s.agree_fetched instEbreak).memory
  · rw [Cpu.trapNow, exception_frame]
    exact (s.agree_decided i).memory
  · have hop : opcode i ∈ [some .lui, some .addi, some .jalr, some .ecall] := by
      rw [Cpu.staysOutOfMemory, hi.1] at hstays
      exact List.contains_iff_mem.mp hstays
    have hcpu : flow.cpu.memory = (s.decided i).memory := execute_memory hflow hop
    have hrun : flow.run.memory = flow.cpu.memory := by
      cases flow with
      | next u => rfl
      | trap u v => rw [Flow.run, exception_frame]; rfl
    exact hrun.trans (hcpu.trans (s.agree_decided i).memory)

/-- The state after `n` turns that stay out of memory. -/
def Exec.turnsOutOfMemory : ℕ → Exec → Option Exec
  | 0, e => some e
  | n + 1, e =>
      if e.running && e.cpu.staysOutOfMemory then
        match e.turn { mode := .genBbv } ∅ with
        | .next e => turnsOutOfMemory n e
        | _ => none
      else none

theorem Exec.turnsOutOfMemory_spec {n : ℕ} (hreach : Reaches { mode := .genBbv } ∅ e₀ e)
    (h : e.turnsOutOfMemory n = some e') :
    Reaches { mode := .genBbv } ∅ e₀ e' ∧ e'.cpu.memory = e.cpu.memory := by
  induction n generalizing e with
  | zero =>
    obtain rfl := Option.some.inj h
    exact ⟨hreach, rfl⟩
  | succ n ih =>
    rw [turnsOutOfMemory] at h
    split_ifs at h with hgoes
    obtain ⟨hrun, hstays⟩ := Bool.and_eq_true_iff.mp hgoes
    split at h
    · next u hturn =>
      obtain ⟨hreach', hmemory⟩ := ih (.next hreach hrun hturn) h
      obtain ⟨cpu, -, hcpu, hend, -⟩ := turn_next hturn
      have hmode : ({ mode := .genBbv } : SimConfig).mode = .genBbv := rfl
      obtain ⟨u', hturn', hcpu', -⟩ := turn_spec ∅ hmode hcpu hend
      obtain rfl := Turn.next.inj (hturn.symm.trans hturn')
      refine ⟨hreach', hmemory.trans ?_⟩
      have hkept := riscv_memory hstays hcpu
      rw [hcpu']
      exact hkept
    · cases h

/-- The control of the user program in its three parts. -/
def userControl (k : ℕ) (pc mtvec mepc : BitVec 32) : Control where
  privilege := 0
  pc := pc
  satp := tableSatp k
  mtvec := mtvec
  mepc := mepc
  mstatus := 0x80

/-- The state of the CPU that `init` leaves, with the image of the program. -/
theorem init_isSome : (Cpu.zero.init 0 branchImage).isSome = true := by decide

def branchCpu : Cpu := (Cpu.zero.init 0 branchImage).get init_isSome

/-- The state in which the loop starts. -/
def branchStart : Exec := ({ cpu := branchCpu } : Exec).bbvInitFile true

/-- **The start** of the program ends in user mode at address 0. -/
theorem start_walks : Walks branchStart (userControl 1 0 0x80001000 0) 0 0 13 ∅ := by
  have htest : (branchStart.turnsOutOfMemory 13).any (fun e =>
      decide (e.cpu.privilege = 0 ∧ e.cpu.pc = 0 ∧ e.cpu.csr .satp = tableSatp 1 ∧
        e.cpu.csr .mtvec = 0x80001000 ∧ e.cpu.csr .mepc = 0 ∧ e.cpu.csr .mstatus = 0x80 ∧
        e.cpu.csr .mie = 0 ∧ e.cpu.csr .medeleg = 0 ∧ e.cpu.gpr 2 = tableSatp 2 ∧
        e.cpu.gpr 3 = 0x80002000 ∧ e.cpu.gpr 4 = tableSatp 3 ∧ e.cpu.gpr 5 = 1 ∧
        e.cpu.interrupts = {} ∧ e.cpu.simEnd = false ∧ e.cpu.currentBbLen = 0 ∧
        e.cpu.currentBbHeadPc = 0 ∧ e.cpu.simTime.toNat = 13)) = true := by
    decide +kernel
  rcases hrun : branchStart.turnsOutOfMemory 13 with - | e
  · rw [hrun] at htest
    cases htest
  · rw [hrun] at htest
    obtain ⟨hprivilege, hpc, hsatp, hmtvec, hmepc, hmstatus, hmie, hmedeleg, hx2, hx3, hx4, hx5,
      hinterrupts, hend, hlen, hhead, htime⟩ := of_decide_eq_true htest
    obtain ⟨hreach, hmemory⟩ := Exec.turnsOutOfMemory_spec .refl hrun
    exact ⟨e, ⟨hprivilege, hpc, hsatp, hmtvec, hmepc, hmstatus, hmie, hmedeleg, hx2, hx3, hx4,
      hx5, hinterrupts, hmemory, hend⟩, hreach, hlen, hhead, htime, fun pc hpc => hpc.elim⟩

/-! ### The run -/

section Run

variable {head : BitVec 32} {t : ℕ} {heads : Set (BitVec 32)}

/-- The first handler goes on to the second table. -/
theorem first_handler
    (h : Walks e₀ (userControl 1 0xFFC00000 0x80001000 0) 0 head t heads)
    (ht : t + 4 ≤ maxSimTime) :
    Walks e₀ (userControl 2 0xFFC00000 0x80002000 0xFFC00000) 1 0xFFC00000 (t + 4) heads := by
  have htrap := h.fault (k := 1) (by omega) (by decide) rfl rfl (by decide) rfl (by decide)
    (by decide)
  have hsatp := htrap.csrw (i := 0x400) (v := tableSatp 2) (by omega) rfl (by decide) (by decide)
    (by decide) (.inl rfl) fun s hs => hs.x2
  have hmtvec := hsatp.csrw (i := 0x401) (v := 0x80002000) (by omega) rfl (by decide) (by decide)
    (by decide) (.inr (.inl rfl)) fun s hs => hs.x3
  exact hmtvec.mret (i := 0x402) (by omega) rfl (by decide) (by decide) (by decide) rfl

/-- The second handler goes on to the third table and the odd addresses. -/
theorem second_handler
    (h : Walks e₀ (userControl 2 0 0x80002000 0xFFC00000) 0 head t heads)
    (ht : t + 4 ≤ maxSimTime) :
    Walks e₀ (userControl 3 1 0x80002000 1) 1 0 (t + 4) heads := by
  have htrap := h.fault (k := 2) (by omega) (by decide) rfl rfl (by decide) rfl (by decide)
    (by decide)
  have hsatp := htrap.csrw (i := 0x800) (v := tableSatp 3) (by omega) rfl (by decide) (by decide)
    (by decide) (.inl rfl) fun s hs => hs.x4
  have hmepc := hsatp.csrw (i := 0x801) (v := 1) (by omega) rfl (by decide) (by decide)
    (by decide) (.inr (.inr rfl)) fun s hs => hs.x5
  exact hmepc.mret (i := 0x802) (by omega) rfl (by decide) (by decide) (by decide) rfl

theorem superpage_add (pc : BitVec 32) (n : ℕ) :
    superpage (pc + BitVec.ofNat 32 n) = (pc.toNat + n) % 2 ^ 32 / 2 ^ 22 := by
  rw [superpage, BitVec.toNat_add, BitVec.toNat_ofNat, Nat.add_mod_mod]

/-- An address in a part of the walk. -/
theorem mem_sweep {pc v : BitVec 32} {n : ℕ} (j : ℕ) (hj : j < n)
    (hv : v.toNat = (pc.toNat + 2 * j) % 2 ^ 32) :
    ∃ j < n, v = pc + BitVec.ofNat 32 (2 * j) := by
  refine ⟨j, hj, BitVec.eq_of_toNat_eq ?_⟩
  rw [hv, BitVec.toNat_add, BitVec.toNat_ofNat, Nat.add_mod_mod]

/-- **The walk visits all addresses.** -/
theorem all_heads (h : Walks e₀ (userControl 1 0 0x80001000 0) 0 head 13 ∅) :
    ∃ c head t, Walks e₀ c 0 head t Set.univ := by
  have htime : maxSimTime = 500000000000 := rfl
  -- the even addresses of the first table
  obtain ⟨head₁, h₁⟩ := h.sweep (k := 1) (n := 0x7FE00000) (by decide) rfl rfl (by omega)
    fun j hj => by
      rw [superpage_add]
      show (0 + 2 * j) % 2 ^ 32 / 2 ^ 22 ≠ 1023
      omega
  have h₂ := first_handler h₁ (by omega)
  have h₃ := h₂.branch (k := 2) (by omega) (by decide) rfl rfl (by decide)
  -- the even addresses that are left
  obtain ⟨head₄, h₄⟩ := h₃.sweep (k := 2) (n := 0x1FFFFF) (by decide) rfl rfl (by omega)
    fun j hj => by
      rw [superpage_add]
      show (0xFFC00002 + 2 * j) % 2 ^ 32 / 2 ^ 22 ≠ 0
      omega
  have h₅ := second_handler h₄ (by omega)
  have h₆ := h₅.branch (k := 3) (by omega) (by decide) rfl rfl (by decide)
  -- the odd addresses
  obtain ⟨head₇, h₇⟩ := h₆.sweep (k := 3) (n := 2 ^ 31) (by decide) rfl rfl (by omega)
    fun j hj => (superpage_lt _).ne
  obtain ⟨e, h₇⟩ := h₇
  refine ⟨_, head₇, _, e, { h₇ with heads := fun v _ => h₇.heads v ?_ }⟩
  have hv := v.isLt
  by_cases hodd : v.toNat % 2 = 1
  · refine .inr ?_
    by_cases hone : v.toNat = 1
    · exact mem_sweep (2 ^ 31 - 1) (by omega) (hone.trans (by decide))
    · refine mem_sweep ((v.toNat - 3) / 2) (by omega) ?_
      show v.toNat = (3 + 2 * ((v.toNat - 3) / 2)) % 2 ^ 32
      omega
  · refine .inl (.inr ?_)
    by_cases hlow : v.toNat < 0xFFC00000
    · refine .inl (.inr (.inr ?_))
      refine mem_sweep (v.toNat / 2) (by omega) ?_
      show v.toNat = (0 + 2 * (v.toNat / 2)) % 2 ^ 32
      omega
    · by_cases hfirst : v.toNat = 0xFFC00000
      · refine .inl (.inl ?_)
        exact BitVec.eq_of_toNat_eq hfirst
      · refine .inr ?_
        refine mem_sweep ((v.toNat - 0xFFC00002) / 2) (by omega) ?_
        show v.toNat = (0xFFC00002 + 2 * ((v.toNat - 0xFFC00002) / 2)) % 2 ^ 32
        omega

end Run

/-- The last of the addresses gets the number 0. -/
theorem branch_program_not_conserved :
    ∃ cpu e₀ e, Cpu.zero.init 0 branchImage = some cpu ∧
      ({ cpu := cpu } : Exec).start { mode := .genBbv } = some (∅, e₀) ∧
      Turned { mode := .genBbv } ∅ e₀ e ∧ ¬ e.Conserved := by
  obtain ⟨c, head, t, e, h⟩ := all_heads start_walks
  have hall : ∀ pc, pc ∈ e.globalPcToId := fun pc => h.heads pc trivial
  refine ⟨branchCpu, branchStart, e, (Option.some_get init_isSome).symm, rfl, ?_,
    Exec.not_conserved_of_all hall⟩
  cases h.reached with
  | refl => exact absurd (hall 0) (AList.notMem_empty 0)
  | next hreach hrun hturn => exact ⟨_, hreach, hrun, .inl hturn⟩

end TraceSim.Ref
