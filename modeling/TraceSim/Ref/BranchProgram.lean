/-
TraceSim/Ref/BranchProgram.lean

A program that executes one instruction at every address.

A user program of one instruction, a branch to the next half word, is mapped to all
virtual addresses.  A fetch ignores the two low bits of an address, so the branch is
executed at odd addresses as well.  Three page tables map the addresses: the first all
superpages but the last, the second all but the first, the third all.  At a page fault
a handler of three instructions goes on to the next table.

Each kind of step has a lemma: the branch (`riscv_branch`), the page fault
(`riscv_hole`), and in the handlers the write to a control register (`riscv_csrw`) and
the return (`riscv_mret`).
-/
import TraceSim.Ref.CsrAccess
import TraceSim.Ref.Ram
import TraceSim.Ref.TrapReturn

namespace TraceSim.Ref

/-! ### The image -/

/-- `beq x0, x0, +2` -/
def nextHalf : BitVec 32 := 0x00000163

/-- The code in machine mode, by the number of its word in RAM. -/
def machineCode : ℕ → BitVec 32
  -- the start: the tables, the vectors and the odd address 1 in registers
  | 0 => 0x800810B7 -- lui x1, 0x80081
  | 1 => 0x80082137 -- lui x2, 0x80082
  | 2 => 0x800021B7 -- lui x3, 0x80002
  | 3 => 0x80083237 -- lui x4, 0x80083
  | 4 => 0x00100293 -- addi x5, x0, 1
  | 5 => 0x18009073 -- csrw satp, x1
  | 6 => 0x80001337 -- lui x6, 0x80001
  | 7 => 0x30531073 -- csrw mtvec, x6
  | 8 => instMret
  -- the first page fault
  | 0x400 => 0x18011073 -- csrw satp, x2
  | 0x401 => 0x30519073 -- csrw mtvec, x3
  | 0x402 => instMret
  -- the second page fault
  | 0x800 => 0x18021073 -- csrw satp, x4
  | 0x801 => 0x34129073 -- csrw mepc, x5
  | 0x802 => instMret
  | _ => 0

/-- The superpage that table `k` leaves out, if there is one. -/
def hole : ℕ → ℕ
  | 1 => 1023
  | 2 => 0
  | _ => 1024

/-- A user superpage at 0x84000000 that can be executed and has been accessed. -/
def userLeaf : BitVec 32 := 0x21000059

/-- The RAM: 16 MiB of code, three of page tables, and the branch. -/
def branchImage (i : BitVec 28) : BitVec 32 :=
  match i.toNat / 2 ^ 22 with
  | 0 => machineCode i.toNat
  | 1 => if i.toNat % 1024 = hole 1 then 0 else userLeaf
  | 2 => if i.toNat % 1024 = hole 2 then 0 else userLeaf
  | 3 => if i.toNat % 1024 = hole 3 then 0 else userLeaf
  | _ => nextHalf

/-- The value of `satp` for table `k`. -/
def tableSatp (k : ℕ) : BitVec 32 := BitVec.ofNat 32 (0x80080000 + k * 0x1000)

/-- The superpage of an address. -/
def superpage (v : BitVec 32) : ℕ := v.toNat / 2 ^ 22

/-! ### States of the program -/

/-- What controls the next step. -/
structure Control where
  privilege : BitVec 8
  pc : BitVec 32
  satp : BitVec 32
  mtvec : BitVec 32
  mepc : BitVec 32
  mstatus : BitVec 32

/-- The CPU runs the program, under the control `c`. -/
structure At (c : Control) (s : Cpu) : Prop where
  privilege : s.privilege = c.privilege
  pc : s.pc = c.pc
  satp : s.csr .satp = c.satp
  mtvec : s.csr .mtvec = c.mtvec
  mepc : s.csr .mepc = c.mepc
  mstatus : s.csr .mstatus = c.mstatus
  mie : s.csr .mie = 0
  medeleg : s.csr .medeleg = 0
  x2 : s.gpr 2 = tableSatp 2
  x3 : s.gpr 3 = 0x80002000
  x4 : s.gpr 4 = tableSatp 3
  x5 : s.gpr 5 = 1
  interrupts : s.interrupts = {}
  memory : s.memory = branchImage
  simEnd : s.simEnd = false

variable {c : Control} {s : Cpu}

/-! ### Fetches -/

/-- The word of RAM at an address. -/
theorem loadWord_image (h : At c s) {a : BitVec 32} (hlower : 0x80000000 ≤ a.toNat)
    (hupper : a.toNat + 1 ≤ 0xC0000000) :
    s.loadWord a = some (branchImage (ramIndex (wordAddr a))) := by
  have haccess : RamAccess a 1 := ⟨.inl rfl, Nat.mod_one _, hlower, hupper⟩
  rw [Cpu.loadWord, if_pos haccess.isRamRange, h.memory]

/-- An instruction of the code in machine mode. -/
theorem fetch_machine (h : At c s) (hm : c.privilege = 3) {i : ℕ}
    (hpc : c.pc = BitVec.ofNat 32 (0x80000000 + 4 * i)) (hi : i < 2 ^ 22) :
    s.fetch = some (some (machineCode i)) := by
  have htoNat : c.pc.toNat = 0x80000000 + 4 * i := by
    rw [hpc, BitVec.toNat_ofNat]
    omega
  have haccess : RamAccess c.pc 4 := ⟨.inr (.inr rfl), by omega, by omega, by omega⟩
  have hplace := haccess.toNat_ramIndex
  have hindex : (ramIndex (wordAddr c.pc)).toNat = i := by omega
  have hword : branchImage (ramIndex (wordAddr c.pc)) = machineCode i := by
    rw [branchImage, hindex, Nat.div_eq_of_lt hi]
    rfl
  rw [Cpu.fetch, translate_machine (h.privilege.trans hm), Option.bind_eq_bind,
    Option.bind_some, h.pc]
  dsimp only
  rw [if_pos haccess.checkMemRange, loadWord_image h (by omega) (by omega), hword]
  rfl

/-- The address of the entry of table `k` for superpage `n`. -/
def entryOf (k n : ℕ) : BitVec 32 :=
  ((tableSatp k &&& 0x3FFFFF) <<< 12) ||| (BitVec.ofNat 32 n <<< 2)

theorem table_entry : ∀ k ∈ [1, 2, 3], ∀ n < 1024,
    checkMemRange (entryOf k n) 4 = true ∧ 0x80000000 ≤ (entryOf k n).toNat ∧
      branchImage (ramIndex (wordAddr (entryOf k n))) = if n = hole k then 0 else userLeaf := by
  decide +kernel

theorem superpage_lt (v : BitVec 32) : superpage v < 1024 := by
  have hlt := v.isLt
  unfold superpage
  omega

theorem superpage_eq (v : BitVec 32) : (v >>> 22) &&& 0x3FF = BitVec.ofNat 32 (superpage v) := by
  apply BitVec.eq_of_toNat_eq
  have hmask : (0x3FF : BitVec 32).toNat = 2 ^ 10 - 1 := rfl
  have hlt := superpage_lt v
  unfold superpage at hlt ⊢
  rw [BitVec.toNat_and, hmask, Nat.and_two_pow_sub_one_eq_mod, BitVec.toNat_ushiftRight,
    Nat.shiftRight_eq_div_pow, BitVec.toNat_ofNat]
  omega

/-- The place in the branch region that an address is mapped to. -/
def userPlace (v : BitVec 32) : BitVec 32 := ((userLeaf <<< 2) &&& 0xFFC00000) ||| (v &&& 0x3FFFFF)

theorem toNat_userPlace (v : BitVec 32) :
    (userPlace v).toNat = 0x84000000 + v.toNat % 2 ^ 22 := by
  have hmask : (0x3FFFFF : BitVec 32).toNat = 2 ^ 22 - 1 := rfl
  have hbase : ((userLeaf <<< 2) &&& 0xFFC00000).toNat = 2 ^ 22 * 528 := rfl
  rw [userPlace, BitVec.toNat_or, BitVec.toNat_and v, hmask, Nat.and_two_pow_sub_one_eq_mod,
    hbase, ← Nat.two_pow_add_eq_or_of_lt (Nat.mod_lt _ (by decide))]

/-- The translation of a user address, by table `k`. -/
theorem translate_user (h : At c s) {k : ℕ} (hk : k ∈ [1, 2, 3]) (hsatp : c.satp = tableSatp k)
    (hu : c.privilege = 0) :
    s.translate s.pc .fetch
      = some (if superpage c.pc = hole k then none else some (userPlace c.pc)) := by
  obtain ⟨hrange, hlower, hentry⟩ := table_entry k hk _ (superpage_lt c.pc)
  have hupper : (entryOf k (superpage c.pc)).toNat + 1 ≤ 0xC0000000 := by
    have hend : (entryOf k (superpage c.pc)).toNat + 4 - 1 < 0xC0000000 := of_decide_eq_true hrange
    omega
  -- paging is on, and the page lets user mode fetch
  have hmode : ∀ k ∈ [1, 2, 3], (tableSatp k).getLsbD 31 = true := by decide
  have hpaging : s.paging = true := by
    rw [Cpu.paging, h.satp, hsatp, hmode k hk, h.privilege, hu]
    rfl
  have hallowed : s.leafDenied .fetch userLeaf = false := by
    have huser : s.effPriv .fetch = 0 := by
      rw [Cpu.effPriv, if_neg (by simp), h.privilege, hu]
      rfl
    rw [Cpu.leafDenied, huser]
    rfl
  have hload : s.loadWord (entryOf k (superpage c.pc))
      = some (if superpage c.pc = hole k then 0 else userLeaf) := by
    rw [loadWord_image h hlower hupper, hentry]
  rw [Cpu.translate, if_pos hpaging]
  unfold Cpu.va2pa
  dsimp only
  rw [h.satp, hsatp, h.pc, superpage_eq]
  show (if !checkMemRange (entryOf k (superpage c.pc)) 4 then none
    else (s.loadWord (entryOf k (superpage c.pc))).bind _) = _
  rw [hrange, hload, Bool.not_true, if_neg Bool.false_ne_true, Option.bind_some]
  -- the entry is the hole of the table, or one of its superpages
  by_cases hhole : superpage c.pc = hole k
  · rw [if_pos hhole, if_pos hhole]
    rfl
  · rw [if_neg hhole, if_neg hhole, hallowed]
    rfl

/-- The user program is the same at all addresses that are mapped. -/
theorem fetch_user (h : At c s) {k : ℕ} (hk : k ∈ [1, 2, 3]) (hsatp : c.satp = tableSatp k)
    (hu : c.privilege = 0) (hmapped : superpage c.pc ≠ hole k) :
    s.fetch = some (some nextHalf) := by
  have hplace := toNat_userPlace c.pc
  have haccess : RamAccess (userPlace c.pc) 1 := ⟨.inl rfl, Nat.mod_one _, by omega, by omega⟩
  have hindex : (ramIndex (wordAddr (userPlace c.pc))).toNat / 2 ^ 22 = 4 := by
    rw [haccess.toNat_ramIndex]
    omega
  have hword : branchImage (ramIndex (wordAddr (userPlace c.pc))) = nextHalf := by
    rw [branchImage, hindex]
    rfl
  have hrange : checkMemRange (userPlace c.pc) 4 = true := by
    have hend : (userPlace c.pc).toNat + 4 - 1 < kRamUpperBound := by
      unfold kRamUpperBound
      omega
    rw [checkMemRange, decide_eq_true hend, Bool.or_true]
  rw [Cpu.fetch, translate_user h hk hsatp hu, if_neg hmapped, Option.bind_eq_bind,
    Option.bind_some]
  dsimp only
  rw [if_pos hrange, loadWord_image h (by omega) (by omega), hword]
  rfl

theorem fetch_hole (h : At c s) {k : ℕ} (hk : k ∈ [1, 2, 3]) (hsatp : c.satp = tableSatp k)
    (hu : c.privilege = 0) (hhole : superpage c.pc = hole k) : s.fetch = some none := by
  rw [Cpu.fetch, translate_user h hk hsatp hu, if_pos hhole]
  rfl

/-! ### Steps -/

/-- No interrupt is enabled. -/
theorem decided_interrupts (h : At c s) (i : BitVec 32) : (s.decided i).interrupts = {} := by
  have hmie : (s.fetched i).csr .mie = 0 := by
    rw [(s.agree_fetched i).csr]
    exact h.mie
  have hpending (bit : ℕ) : (s.fetched i).pending bit = false := by
    rw [Cpu.pending, hmie]
    simp
  show (s.fetched i).pollInterrupts.interrupts = {}
  simp only [Cpu.pollInterrupts, Cpu.mInterrupt, Cpu.sInterrupt, hpending, Bool.false_and,
    Bool.or_self]

/-- Only a return is decided on before it is executed. -/
theorem decided_asy (h : At c s) {i : BitVec 32} (hi : i ≠ instEcall) :
    (s.decided i).asy = (decide (i = instMret) || decide (i = instSret)) := by
  have hecall : (s.decided i).isEcall = false := decide_eq_false hi
  have htraps : (s.decided i).decodeMTrap = false ∧ (s.decided i).decodeSTrap = false := by
    rw [Cpu.decodeMTrap, Cpu.decodeSTrap, decided_interrupts h, Cpu.ecallM, Cpu.ecallS, hecall]
    exact ⟨rfl, rfl⟩
  show ((s.decided i).decodeMTrap || (s.decided i).decodeSTrap || decide (i = instMret)
    || decide (i = instSret)) = _
  rw [htraps.1, htraps.2, Bool.false_or, Bool.false_or]

/-- Any other instruction is executed. -/
theorem riscv_plain (h : At c s) {i : BitVec 32} (hfetch : s.fetch = some (some i))
    (hplain : i ∉ [instEbreak, instEcall, instMret, instSret, instWfi]) :
    s.riscv = (s.decided i).execute.map fun flow => flow.run.finish := by
  simp only [List.mem_cons, List.not_mem_nil, or_false, not_or] at hplain
  obtain ⟨hebreak, hecall, hmret, hsret, hwfi⟩ := hplain
  have hasy := decided_asy h hecall
  rw [decide_eq_false hmret, decide_eq_false hsret] at hasy
  refine Cpu.riscv_of_executes ⟨hfetch, hebreak, ?_⟩ hwfi
  rw [Cpu.trapsAtDecode, hasy, decide_eq_false hecall]
  exact Bool.false_ne_true

/-- A state that agrees on the registers and on memory. -/
theorem At.of_agree (h : At c s) {s' : Cpu} (hagree : Agree Set.univ s s')
    (hinterrupts : s'.interrupts = {}) (hend : s'.simEnd = s.simEnd) : At c s' where
  privilege := hagree.privilege.trans h.privilege
  pc := hagree.pc.trans h.pc
  satp := hagree.csr ▸ h.satp
  mtvec := hagree.csr ▸ h.mtvec
  mepc := hagree.csr ▸ h.mepc
  mstatus := hagree.csr ▸ h.mstatus
  mie := hagree.csr ▸ h.mie
  medeleg := hagree.csr ▸ h.medeleg
  x2 := (hagree.gpr 2 trivial).trans h.x2
  x3 := (hagree.gpr 3 trivial).trans h.x3
  x4 := (hagree.gpr 4 trivial).trans h.x4
  x5 := (hagree.gpr 5 trivial).trans h.x5
  interrupts := hinterrupts
  memory := hagree.memory.trans h.memory
  simEnd := hend.trans h.simEnd

/-- The state after the decision to trap or not. -/
theorem At.decided (h : At c s) (i : BitVec 32) : At c (s.decided i) :=
  h.of_agree (s.agree_decided i) (decided_interrupts h i) s.beginStep_simEnd

/-- The state in which a fetch has failed. -/
theorem At.fetchFault (h : At c s) : At c s.fetchFault :=
  h.of_agree s.agree_fetchFault (s.beginStep_interrupts.trans h.interrupts) s.beginStep_simEnd

/-- The end of a step keeps the registers. -/
theorem At.finish (h : At c s) : At c s.finish := { h with }

/-- **The branch** goes on to the next half word. -/
theorem riscv_branch (h : At c s) {k : ℕ} (hk : k ∈ [1, 2, 3]) (hsatp : c.satp = tableSatp k)
    (hu : c.privilege = 0) (hmapped : superpage c.pc ≠ hole k) :
    ∃ s', s.riscv = some s' ∧ At { c with pc := c.pc + 2 } s' ∧ s'.isBr = true := by
  have ht := h.decided nextHalf
  have hriscv := riscv_plain h (fetch_user h hk hsatp hu hmapped) (by decide)
  have hinst : (s.decided nextHalf).instruction = nextHalf := rfl
  have hop : opcode nextHalf = some .beq := by decide
  have hregs : regA nextHalf = regB nextHalf := by decide
  have hfunct : (funct3 nextHalf).toNat = 0 := by decide
  have htarget : immB nextHalf = 2 := by decide
  have htaken (a : BitVec 32) : branchTaken 0 a a = true := beq_self_eq_true a
  have hbranch : (s.decided nextHalf).execute
      = some (.next ({ ((s.decided nextHalf).traceRegisters (rv32imRegisters nextHalf)).trace
          (fun t => { t with target := (s.decided nextHalf).pc + 2 }) with
            isBr := true, brTaken := true }.setPc ((s.decided nextHalf).pc + 2))) := by
    unfold Cpu.execute
    rw [hinst, hop]
    unfold Cpu.rv32im
    dsimp only
    rw [hinst, hop]
    dsimp only
    rw [Cpu.branch, hregs, hfunct, if_pos (htaken _), htarget]
    rfl
  rw [hbranch, Option.map_some] at hriscv
  refine ⟨_, hriscv, At.finish ?_, rfl⟩
  exact { ht with pc := congrArg (· + 2) ht.pc }

/-- **A fetch from the hole** traps into machine mode. -/
theorem riscv_hole (h : At c s) {k : ℕ} (hk : k ∈ [1, 2, 3]) (hsatp : c.satp = tableSatp k)
    (hu : c.privilege = 0) (hhole : superpage c.pc = hole k) (hstatus : c.mstatus = 0x80)
    (hdirect : c.mtvec.getLsbD 0 = false) (hbase : c.mtvec &&& 0xfffffffc = c.mtvec) :
    ∃ s', s.riscv = some s' ∧
      At { c with privilege := 3, pc := c.mtvec, mepc := c.pc, mstatus := 0 } s' := by
  have ht := h.fetchFault
  have hdelegated : s.fetchFault.medeleg medelegPageFaultInst = false := by
    rw [Cpu.medeleg, ht.medeleg]
    decide
  have hfault : s.fetchFault.pageFaultInst = true := rfl
  have htrap : s.fetchFault.mTrap = true := by
    rw [Cpu.mTrap, hfault, hdelegated]
    simp
  have hmstatus : trapMstatus (s.fetchFault.csr .mstatus) s.fetchFault.privilege = 0 := by
    rw [ht.mstatus, hstatus, ht.privilege, hu]
    decide
  have hpc (cause : BitVec 32) : trapPc (s.fetchFault.csr .mtvec) cause = c.mtvec := by
    rw [ht.mtvec, trapPc, hdirect, if_neg (fun hand => Bool.false_ne_true hand.1), hbase]
  refine ⟨_, Cpu.riscv_of_fault (fetch_hole h hk hsatp hu hhole), ?_⟩
  rw [exception_of_mTrap htrap]
  exact { ht with privilege := rfl, pc := hpc _, mepc := ht.pc, mstatus := hmstatus }

/-- **The return** to the user program. -/
theorem riscv_mret (h : At c s) (hfetch : s.fetch = some (some instMret))
    (hstatus : c.mstatus = 0) :
    ∃ s', s.riscv = some s' ∧ At { c with privilege := 0, pc := c.mepc, mstatus := 0x80 } s' ∧
      s'.isBr = false := by
  have ht := h.decided instMret
  -- neither a flag nor a call is there to be taken first
  have hreturning : Returning instMret (s.decided instMret).traceTrap := by
    have hecall : (s.decided instMret).traceTrap.isEcall = false :=
      decide_eq_false (show instMret ≠ instEcall by decide)
    have hnone : (s.decided instMret).traceTrap.interrupts = {} := ht.interrupts
    refine ⟨?_, ?_, rfl⟩
    · rw [Cpu.mTrap, hnone, Cpu.ecallM, hecall]
      rfl
    · rw [Cpu.sTrap, hnone, Cpu.ecallS, hecall]
      rfl
  have hasy : (s.decided instMret).asy = true := by
    rw [decided_asy h (by decide)]
    decide
  have hriscv : s.riscv = some ((s.decided instMret).trapNow 0) := by
    rw [Cpu.riscv_of_fetch hfetch, Cpu.decode_decided (by decide), Cpu.trapsAtDecode, hasy]
    rfl
  have hmstatus : (s.decided instMret).csr .mstatus = 0 := ht.mstatus.trans hstatus
  rw [Cpu.trapNow, exception_of_mret hreturning] at hriscv
  refine ⟨_, hriscv, { ht with privilege := ?_, pc := ht.mepc, mstatus := ?_ }, rfl⟩
  · show (getMpp (copyBit ((s.decided instMret).csr .mstatus) mstatusMie mstatusMpie)).setWidth 8
      = 0
    rw [hmstatus]
    decide
  · show setBit (copyBit ((s.decided instMret).csr .mstatus) mstatusMie mstatusMpie) mstatusMpie
      &&& ~~~mstatusMpp = 0x80
    rw [hmstatus]
    decide

/-- The control after a write to a register that a step depends on. -/
def Control.set (c : Control) (r : Csr) (v : BitVec 32) : Control :=
  match r with
  | .satp => { c with satp := v }
  | .mtvec => { c with mtvec := v }
  | .mepc => { c with mepc := v }
  | _ => c

theorem At.setCsr (h : At c s) {r : Csr} (hr : r = .satp ∨ r = .mtvec ∨ r = .mepc)
    (v : BitVec 32) : At (c.set r v) (s.setCsr r v) := by
  rcases hr with rfl | rfl | rfl
  · exact { h with satp := rfl }
  · exact { h with mtvec := rfl }
  · exact { h with mepc := rfl }

/-- The instruction writes register `a` to the control register `r`, and reads nothing. -/
def IsCsrw (i : BitVec 32) (r : Csr) (a : Fin 32) : Prop :=
  i ∉ [instEbreak, instEcall, instMret, instSret, instWfi] ∧ opcode i = some .ecall ∧
    bits i 31 20 ≠ numberTime ∧ bits i 31 20 ≠ numberTimeh ∧
    cvtNumberToCsr (bits i 31 20) = some r ∧ funct3 i = 1 ∧ regD i = 0 ∧ regA i = a

instance (i : BitVec 32) (r : Csr) (a : Fin 32) : Decidable (IsCsrw i r a) :=
  inferInstanceAs (Decidable (_ ∧ _))

/-- **A write to a control register** in machine mode. -/
theorem riscv_csrw (h : At c s) {i v : BitVec 32} {r : Csr} {a : Fin 32}
    (hfetch : s.fetch = some (some i)) (hi : IsCsrw i r a)
    (hr : r = .satp ∨ r = .mtvec ∨ r = .mepc) (hv : s.gpr a = v) :
    ∃ s', s.riscv = some s' ∧ At { c.set r v with pc := c.pc + 4 } s' := by
  obtain ⟨hplain, hop, htime, htimeh, hcsr, hwrite, hrd, rfl⟩ := hi
  have ht := h.decided i
  have hriscv := riscv_plain h hfetch hplain
  have hinst : (s.decided i).instruction = i := rfl
  have hgpr : (s.decided i).gpr (regA i) = v := ((s.agree_decided i).gpr _ trivial).trans hv
  -- none of these registers has a view
  have hplainWrite (u : Cpu) : u.writeCsr r v = u.setCsr r v := by
    rcases hr with rfl | rfl | rfl <;> rfl
  have hexecute : (s.decided i).execute
      = some (.next (((s.decided i).traceRegisters (csrRegisters i)).setCsr r v).advance) := by
    have hoperand : ((s.decided i).traceRegisters (csrRegisters i)).csrOperand i = v := by
      rw [Cpu.csrOperand, hwrite]
      exact hgpr
    have hnoread : ¬ (funct3 i ≠ 1 ∨ regD i ≠ 0) := by simp [hwrite, hrd]
    unfold Cpu.execute
    rw [hinst, hop]
    unfold Cpu.rv32csr
    dsimp only
    rw [hinst, if_neg (not_or.mpr ⟨htime, htimeh⟩), hcsr]
    dsimp only
    rw [Cpu.csrAccess, hoperand, if_neg hnoread, if_pos (.inl hwrite), hwrite]
    exact congrArg (fun u => some (Flow.next u.advance)) (hplainWrite _)
  rw [hexecute, Option.map_some] at hriscv
  have hset := ht.setCsr hr v
  refine ⟨_, hriscv, At.finish ?_⟩
  have hpc : (c.set r v).pc = c.pc := by
    rcases hr with rfl | rfl | rfl <;> rfl
  exact { hset with pc := congrArg (· + 4) (hset.pc.trans hpc) }

end TraceSim.Ref
