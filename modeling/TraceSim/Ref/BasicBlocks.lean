/-
TraceSim/Ref/BasicBlocks.lean

Basic-block vectors: what a run in mode `GEN_BBV` counts.

A block of a user program is counted when its last instruction has been executed: its
head gets a number, and its length is added to the count with that number and to the
instruction count of the interval.  So the counts always sum to the count of the
interval, and a line of the output file holds all of it (`bbv_conserved`).

The numbers come from a counter of 32 bits, and there are `2 ^ 32` addresses a block
can start at.  The last of them to be counted would get the number 0
(`Blocks.not_conserved`), so the runs are those in which each turn `Fits`.
-/
import Mathlib.Data.Fintype.EquivFin
import TraceSim.Lib.Numbering
import TraceSim.Ref.Intervals

namespace TraceSim.Ref

namespace Exec

variable {cfg : SimConfig} {targets : Targets} {e e' : Exec} {cpu : Cpu}

/-! ### Definitions -/

/-- A turn has a number for the block it counts: it is not the last of all addresses
that starts a block. -/
def Fits (e : Exec) : Prop :=
  e.globalPcToId.entries.length + 1 < 2 ^ 32 ∨
    e.cpu.beginStep.currentBbHeadPc ∈ e.globalPcToId

/-- The counts agree with the count of the interval; the heads are numbered from 1 on,
and their numbers are places of the vector. -/
structure Conserved (e : Exec) : Prop where
  sum : total e.bbvCounts = e.intervalInstCount.toNat
  numbered : ∀ head id, e.globalPcToId.lookup head = some id → 1 ≤ id ∧ id ≤ e.nextBbId - 1
  distinct : ∀ head head' id, e.globalPcToId.lookup head = some id →
    e.globalPcToId.lookup head' = some id → head = head'
  unused : e.bbvCounts[0]? = some 0
  inside : ∀ head id, e.globalPcToId.lookup head = some id → id.toNat < e.bbvCounts.length

/-- Going from `u` to `e'` prints the vector: the line holds the instructions of the
interval, and nothing is left for the next one. -/
structure Dumped (u e' : Exec) : Prop where
  long : intervalSize ≤ u.intervalInstCount.toNat
  line : ∃ line, e'.bbvFile = u.bbvFile ++ [line] ∧
    (line.map fun p => p.2.toNat).sum = u.intervalInstCount.toNat
  counts : ∀ n ∈ e'.bbvCounts, n = 0
  interval : e'.intervalInstCount = 0

/-- What a turn keeps, the instruction count of the interval apart. -/
structure Blocks (e : Exec) : Prop where
  opened : e.bbvOpen = true
  numbered : Numbered e.globalPcToId e.nextBbId
  room : e.globalPcToId.entries.length < 2 ^ 32
  size : 65536 ≤ e.bbvCounts.length
  covers : e.globalPcToId.entries.length < e.bbvCounts.length
  unused : e.bbvCounts[0]? = some 0
  sum : total e.bbvCounts = e.intervalInstCount.toNat

theorem Blocks.conserved (h : e.Blocks) : e.Conserved where
  sum := h.sum
  numbered head id hid := by
    have hpos := (h.numbered.range head id hid).1
    exact ⟨BitVec.le_def.mpr hpos, h.numbered.lt_next h.room hid⟩
  distinct := h.numbered.distinct
  unused := h.unused
  inside head id hid := (h.numbered.range head id hid).2.trans_lt h.covers

/-! ### The vector -/

theorem length_resize {counts : List (BitVec 64)} {size : ℕ} (h : counts.length ≤ size) :
    (resize counts size).length = size := by
  rw [resize, List.length_append, List.length_take, List.length_replicate]
  omega

theorem resize_eq {counts : List (BitVec 64)} {size : ℕ} (h : counts.length ≤ size) :
    resize counts size = counts ++ List.replicate (size - counts.length) 0 := by
  rw [resize, List.take_of_length_le h]

/-- Growing keeps the counts and makes room for the next block. -/
theorem growCounts_spec {counts : List (BitVec 64)} {bbId : BitVec 32}
    (hsize : 0 < counts.length) (hnext : bbId.toNat ≤ counts.length) :
    bbId.toNat < (growCounts counts bbId).length ∧
      counts.length ≤ (growCounts counts bbId).length ∧
      total (growCounts counts bbId) = total counts ∧
      (growCounts counts bbId)[0]? = counts[0]? := by
  unfold growCounts
  split_ifs with hgrow
  · -- the block is the one just outside, so doubling is enough
    have hdouble : grownSize counts.length bbId = counts.length * 2 := by
      rw [grownSize, if_neg (by omega)]
    have hle : counts.length ≤ counts.length * 2 := by omega
    rw [hdouble, length_resize hle]
    refine ⟨by omega, hle, ?_, ?_⟩
    · rw [resize_eq hle, total_append_zeros]
    · rw [resize_eq hle, List.getElem?_append_left hsize]
  · exact ⟨by omega, le_rfl, rfl, rfl⟩

/-! ### A block is counted -/

/-- The head of the block has a number, and the vector has a place for it. -/
theorem Blocks.numberBlock (h : e.Blocks) {head : BitVec 32}
    (hfits : e.globalPcToId.entries.length + 1 < 2 ^ 32 ∨ head ∈ e.globalPcToId) :
    ∃ bbId ids next, e.numberBlock head
        = (bbId, { e with globalPcToId := ids, nextBbId := next }) ∧
      Numbered ids next ∧ ids.lookup head = some bbId ∧ ids.entries.length < 2 ^ 32 ∧
      ids.entries.length ≤ e.globalPcToId.entries.length + 1 ∧
      (e.bbvCounts.length ≤ ids.entries.length → bbId.toNat = ids.entries.length) := by
  unfold Exec.numberBlock
  split
  · next bbId hold =>
    refine ⟨bbId, e.globalPcToId, e.nextBbId, rfl, h.numbered, hold, h.room, by omega, ?_⟩
    have := h.covers
    omega
  · next hnew =>
    have hnotMem : head ∉ e.globalPcToId := AList.lookup_eq_none.mp hnew
    have hroom : e.globalPcToId.entries.length + 1 < 2 ^ 32 := hfits.resolve_right hnotMem
    have hlength : (e.globalPcToId.insert head e.nextBbId).entries.length
        = e.globalPcToId.entries.length + 1 := length_insert_of_notMem hnotMem
    refine ⟨e.nextBbId, e.globalPcToId.insert head e.nextBbId, e.nextBbId + 1, rfl,
      h.numbered.insert hnotMem hroom, AList.lookup_insert _, ?_, hlength.le, fun _ => ?_⟩
    · rw [hlength]
      exact hroom
    · rw [hlength]
      exact h.numbered.toNat_next hroom

/-- **Counting a block** adds its length to the counts. -/
theorem Blocks.bbvCommit (h : e.Blocks) (hinterval : e.intervalInstCount.toNat < intervalSize)
    (hfits : e.globalPcToId.entries.length + 1 < 2 ^ 32 ∨
      e.cpu.currentBbHeadPc ∈ e.globalPcToId) :
    Blocks
      { e.bbvCommit with
        intervalInstCount := e.intervalInstCount + e.cpu.currentBbLen.setWidth 64 } := by
  obtain ⟨bbId, ids, next, hnumber, hnumbered, hlookup, hroom, hgrows, hlast⟩ :=
    h.numberBlock hfits
  -- the number of the block is in range, at most one past the counts
  have hrange := hnumbered.range _ _ hlookup
  have hcovers := h.covers
  have hsize := h.size
  have hpositive : 0 < e.bbvCounts.length := by omega
  have hnext : bbId.toNat ≤ e.bbvCounts.length := by omega
  obtain ⟨hinside, hlonger, htotal, hzero⟩ := growCounts_spec hpositive hnext
  -- the interval leaves room for a whole block, so no sum wraps around
  have hwide : (e.cpu.currentBbLen.setWidth 64).toNat = e.cpu.currentBbLen.toNat := by
    have hlt := e.cpu.currentBbLen.isLt
    rw [BitVec.toNat_setWidth, Nat.mod_eq_of_lt (by omega)]
  have hlen := e.cpu.currentBbLen.isLt
  have hsum : total (growCounts e.bbvCounts bbId) + (e.cpu.currentBbLen.setWidth 64).toNat
      < 2 ^ 64 := by
    rw [htotal, h.sum, hwide]
    unfold intervalSize at hinterval
    omega
  have hcovered : ids.entries.length < (growCounts e.bbvCounts bbId).length := by
    by_cases hfull : e.bbvCounts.length ≤ ids.entries.length
    · rw [← hlast hfull]
      exact hinside
    · omega
  unfold Exec.bbvCommit
  rw [hnumber]
  dsimp only
  -- what is added at this place is added to the total
  generalize growCounts e.bbvCounts bbId = counts at hinside hlonger htotal hzero hsum hcovered
  have hlength : (counts.modify bbId.toNat (· + e.cpu.currentBbLen.setWidth 64)).length
      = counts.length := List.length_modify ..
  have hunused : (counts.modify bbId.toNat (· + e.cpu.currentBbLen.setWidth 64))[0]? = some 0 := by
    rw [List.getElem?_modify_ne _ _ (by omega), hzero]
    exact h.unused
  have hadd : total (counts.modify bbId.toNat (· + e.cpu.currentBbLen.setWidth 64))
      = (e.intervalInstCount + e.cpu.currentBbLen.setWidth 64).toNat := by
    rw [total_modify_add hinside hsum, htotal, h.sum, BitVec.toNat_add_of_lt]
    rw [← h.sum, ← htotal]
    exact hsum
  exact ⟨h.opened, hnumbered, hroom, (hsize.trans hlonger).trans_eq hlength.symm,
    hcovered.trans_eq hlength.symm, hunused, hadd⟩

/-! ### A vector is printed -/

theorem sum_bbvLine {counts : List (BitVec 64)} (h : counts[0]? = some 0) :
    ((bbvLine counts).map fun p => p.2.toNat).sum = total counts := by
  cases counts with
  | nil => cases h
  | cons n counts =>
    have hn : n = 0 := by simpa using h
    unfold bbvLine
    rw [List.zipIdx_cons, List.drop_succ_cons, List.drop_zero, sum_zipIdx_nonzero, total_cons, hn]
    exact (Nat.zero_add _).symm

/-- Nothing is left of the counts. -/
theorem mapIdx_dump {counts : List (BitVec 64)} (h : counts[0]? = some 0) :
    ∀ n ∈ counts.mapIdx (fun id n => if id ≥ 1 ∧ n > 0 then 0 else n), n = 0 := by
  intro n hn
  obtain ⟨id, hid, rfl⟩ := List.mem_mapIdx.mp hn
  split_ifs with hprinted
  · rfl
  · rcases Nat.eq_zero_or_pos id with rfl | hpos
    · rw [List.getElem?_eq_getElem hid] at h
      exact Option.some.inj h
    · have hle : ¬ counts[id] > 0 := fun hgt => hprinted ⟨hpos, hgt⟩
      simpa using hle

/-- **The check for a boundary** prints a vector or changes nothing. -/
theorem Blocks.boundary (h : e.Blocks) :
    (e.boundary .genBbv targets).Blocks ∧
      (e.boundary .genBbv targets).intervalInstCount.toNat < intervalSize ∧
      (Dumped e (e.boundary .genBbv targets) ∨ e.boundary .genBbv targets = e) := by
  unfold Exec.boundary
  split_ifs with hlong
  · dsimp only
    have hopen : ({ e with finishedIntervals := e.finishedIntervals + 1 } : Exec).bbvOpen
        = true := h.opened
    have hzeros := mapIdx_dump h.unused
    have hunused : (e.bbvCounts.mapIdx fun id n => if id ≥ 1 ∧ n > 0 then 0 else n)[0]?
        = some 0 := by
      rw [List.getElem?_mapIdx, h.unused]
      rfl
    rw [Exec.dumpBbv, if_pos hopen]
    refine ⟨⟨h.opened, h.numbered, h.room, ?_, ?_, hunused, total_eq_zero hzeros⟩,
      by decide, .inl ⟨hlong, ⟨_, rfl, ?_⟩, hzeros, rfl⟩⟩
    · rw [List.length_mapIdx]
      exact h.size
    · rw [List.length_mapIdx]
      exact h.covers
    · rw [← h.sum]
      exact sum_bbvLine h.unused
  · exact ⟨h, by omega, .inr rfl⟩

/-! ### Turns -/

theorem Blocks.setCpu (h : e.Blocks) (cpu : Cpu) : ({ e with cpu := cpu } : Exec).Blocks :=
  ⟨h.opened, h.numbered, h.room, h.size, h.covers, h.unused, h.sum⟩

/-- An instruction that is executed. -/
theorem Blocks.afterStep (h : e.Blocks) (hinterval : e.intervalInstCount.toNat < intervalSize)
    (hfits : e.Fits) (hcpu : e.cpu.riscv = some cpu) : (e.afterStep .genBbv cpu).Blocks := by
  have hhead : cpu.currentBbHeadPc = e.cpu.beginStep.currentBbHeadPc := (riscv_block hcpu).1
  rw [Fits, ← hhead] at hfits
  unfold Exec.afterStep
  dsimp only
  split_ifs
  · unfold Exec.endBlock
    rw [if_pos rfl]
    have hcommit := (h.setCpu { cpu with simTime := cpu.simTime + 1 }).bbvCommit hinterval hfits
    obtain ⟨ids, next, counts, hframe⟩ :=
      bbvCommit_frame { e with cpu := { cpu with simTime := cpu.simTime + 1 } }
    rw [hframe] at hcommit ⊢
    exact hcommit.setCpu { cpu with simTime := cpu.simTime + 1, currentBbLen := 0 }
  · exact h.setCpu { cpu with simTime := cpu.simTime + 1 }

/-- In mode `GEN_BBV` nothing comes between the instruction and the check for a
boundary. -/
theorem turn_genBbv (hmode : cfg.mode = .genBbv) :
    e.turn cfg targets
      = match e.cpu.riscv with
        | none => .exit
        | some cpu =>
            if cpu.simEnd then .leave { e with cpu := cpu }
            else .next ((e.afterStep .genBbv cpu).boundary .genBbv targets) := by
  have hrestore : ¬ (SimMode.genBbv = SimMode.restore ∧ cfg.maxInsts > 0) := nofun
  unfold turn
  rw [hmode]
  rcases e.cpu.riscv with - | cpu
  · rfl
  · dsimp only
    rw [if_neg hrestore]

/-- **A turn that fits** keeps the invariant. -/
theorem Blocks.turn_next (h : e.Blocks) (hmode : cfg.mode = .genBbv)
    (hinterval : e.intervalInstCount.toNat < intervalSize) (hfits : e.Fits)
    (hturn : e.turn cfg targets = .next e') :
    e'.Blocks ∧ e'.intervalInstCount.toNat < intervalSize ∧
      ∃ cpu, e.cpu.riscv = some cpu ∧
        (Dumped (e.afterStep .genBbv cpu) e' ∨ e' = e.afterStep .genBbv cpu) := by
  rw [turn_genBbv hmode] at hturn
  split at hturn
  · cases hturn
  · next cpu hcpu =>
    split_ifs at hturn
    obtain rfl := Turn.next.inj hturn
    obtain ⟨hblocks, hshort, hdump⟩ := (h.afterStep hinterval hfits hcpu).boundary
    exact ⟨hblocks, hshort, cpu, hcpu, hdump⟩

theorem Blocks.turn_leave (h : e.Blocks) (hmode : cfg.mode = .genBbv)
    (hturn : e.turn cfg targets = .leave e') : e'.Blocks := by
  rw [turn_genBbv hmode] at hturn
  split at hturn
  · cases hturn
  · next cpu hcpu =>
    split_ifs at hturn
    obtain rfl := Turn.leave.inj hturn
    exact h.setCpu cpu

/-! ### What a turn leaves -/

/-- A block starts with the first instruction in user mode. -/
theorem beginStep_currentBbHeadPc (s : Cpu) :
    s.beginStep.currentBbHeadPc
      = if s.privilege = 0 ∧ s.currentBbLen = 0 then s.pc else s.currentBbHeadPc := by
  unfold Cpu.beginStep
  dsimp only
  by_cases hu : s.privilege = 0
  · rw [if_pos hu]
    simp only [hu, true_and]
  · rw [if_neg hu, if_neg fun h => hu h.1]

theorem boundary_genBbv_frame (e : Exec) (targets : Targets) :
    (e.boundary .genBbv targets).cpu = e.cpu ∧
      (e.boundary .genBbv targets).globalPcToId = e.globalPcToId := by
  unfold boundary
  split_ifs
  · obtain ⟨file, counts, hframe⟩ :=
      dumpBbv_frame { e with finishedIntervals := e.finishedIntervals + 1 }
    dsimp only
    rw [hframe]
    exact ⟨rfl, rfl⟩
  · exact ⟨rfl, rfl⟩

/-- A counted head has a number from then on. -/
theorem mem_bbvCommit (e : Exec) (head : BitVec 32) :
    head ∈ e.bbvCommit.globalPcToId ↔ head = e.cpu.currentBbHeadPc ∨ head ∈ e.globalPcToId := by
  unfold bbvCommit numberBlock
  split
  · next bbId hold =>
    have hmem : e.cpu.currentBbHeadPc ∈ e.globalPcToId := by
      rw [← AList.lookup_isSome, hold]
      rfl
    constructor
    · exact .inr
    · rintro (rfl | h)
      · exact hmem
      · exact h
  · exact AList.mem_insert _

/-- The turn ends a block. -/
def endsBlock (cpu : Cpu) : Bool := decide (cpu.privilege = 0) && cpu.isBr

/-- What a turn leaves of the CPU, and the heads that have numbers after it. -/
theorem turn_spec (targets : Targets) (hmode : cfg.mode = .genBbv) (hcpu : e.cpu.riscv = some cpu)
    (hend : cpu.simEnd = false) :
    ∃ e', e.turn cfg targets = .next e' ∧
      e'.cpu = { cpu with
        simTime := cpu.simTime + 1
        currentBbLen := if endsBlock cpu then 0 else cpu.currentBbLen } ∧
      ∀ head, head ∈ e'.globalPcToId ↔
        endsBlock cpu = true ∧ head = cpu.currentBbHeadPc ∨ head ∈ e.globalPcToId := by
  obtain ⟨hframe, hids⟩ := boundary_genBbv_frame (e.afterStep .genBbv cpu) targets
  refine ⟨(e.afterStep .genBbv cpu).boundary .genBbv targets, ?_, ?_⟩
  · rw [turn_genBbv hmode, hcpu]
    dsimp only
    rw [hend]
    rfl
  · rw [hframe, hids, afterStep]
    -- a branch in user mode ends the block, and anything else continues it
    by_cases hblock : cpu.privilege = 0 ∧ cpu.isBr = true
    · have hends : endsBlock cpu = true := by
        rw [endsBlock, decide_eq_true hblock.1, hblock.2]
        rfl
      obtain ⟨ids, next, counts, hcommit⟩ :=
        bbvCommit_frame { e with cpu := { cpu with simTime := cpu.simTime + 1 } }
      have hmem := mem_bbvCommit { e with cpu := { cpu with simTime := cpu.simTime + 1 } }
      rw [if_pos hblock, hends, endBlock, if_pos rfl]
      rw [hcommit] at hmem ⊢
      refine ⟨rfl, fun head => (hmem head).trans ?_⟩
      simp
    · have hends : endsBlock cpu = false := by
        rw [endsBlock, Bool.and_eq_false_iff, decide_eq_false_iff_not]
        rcases not_and_or.mp hblock with h | h
        · exact .inl h
        · exact .inr (Bool.eq_false_iff.mpr h)
      rw [if_neg hblock, hends]
      exact ⟨rfl, fun head => by simp⟩

/-! ### The last address -/

/-- **There are not numbers enough for all addresses.** -/
theorem not_conserved_of_all (h : ∀ head, head ∈ e.globalPcToId) : ¬ e.Conserved := by
  intro hconserved
  have hlookup : ∀ head, ∃ id, e.globalPcToId.lookup head = some id := fun head =>
    Option.isSome_iff_exists.mp (AList.lookup_isSome.mpr (h head))
  choose number hnumber using hlookup
  have hinjective : Function.Injective number := by
    intro head head' heq
    exact hconserved.distinct head head' _ (hnumber head) (heq ▸ hnumber head')
  have hfinite : Finite (BitVec 32) := .of_injective BitVec.toFin fun _ _ => BitVec.eq_of_toFin_eq
  obtain ⟨head, hzero⟩ := Finite.injective_iff_surjective.mp hinjective 0
  have hpos := (hconserved.numbered head _ (hnumber head)).1
  rw [hzero] at hpos
  exact absurd hpos (by decide)

end Exec

/-! ### Runs -/

/-- The states of a run in which each turn fits. -/
inductive FittingRun (cfg : SimConfig) (targets : Targets) (e₀ : Exec) : Exec → Prop
  | refl : FittingRun cfg targets e₀ e₀
  | next {e e' : Exec} : FittingRun cfg targets e₀ e → e.running = true → e.Fits →
      e.turn cfg targets = .next e' → FittingRun cfg targets e₀ e'

variable {cfg : SimConfig} {targets : Targets} {cpu : Cpu} {e₀ e e' : Exec}

/-- The loop starts with a table that is empty and a vector of zeros. -/
theorem Exec.start_blocks (hmode : cfg.mode = .genBbv) (hopens : cfg.bbvOpens = true)
    (hstart : ({ cpu := cpu } : Exec).start cfg = some (targets, e₀)) :
    e₀.Blocks ∧ e₀.intervalInstCount = 0 := by
  unfold Exec.start at hstart
  rw [hmode] at hstart
  obtain ⟨-, rfl⟩ := Prod.mk.inj (Option.some.inj hstart)
  have hcounts : Exec.resize [] 65536 = List.replicate 65536 (0 : BitVec 64) := rfl
  have hzeros : ∀ n ∈ Exec.resize [] 65536, n = 0 := by
    rw [hcounts]
    exact fun n hn => (List.mem_replicate.mp hn).2
  have hlength : (Exec.resize [] 65536).length = 65536 := Exec.length_resize (Nat.zero_le _)
  have hroom : (∅ : AList fun _ : BitVec 32 => BitVec 32).entries.length < 2 ^ 32 := by decide
  have hcovers : (∅ : AList fun _ : BitVec 32 => BitVec 32).entries.length
      < (Exec.resize [] 65536).length := by
    rw [hlength]
    decide
  refine ⟨⟨hopens, .empty, hroom, hlength.ge, hcovers, ?_, total_eq_zero hzeros⟩, rfl⟩
  · show (Exec.resize [] 65536)[0]? = some 0
    rw [hcounts, List.getElem?_replicate, if_pos (by decide)]

theorem FittingRun.blocks (h : FittingRun cfg targets e₀ e) (hmode : cfg.mode = .genBbv)
    (h₀ : e₀.Blocks) (hinterval : e₀.intervalInstCount.toNat < intervalSize) :
    e.Blocks ∧ e.intervalInstCount.toNat < intervalSize := by
  induction h with
  | refl => exact ⟨h₀, hinterval⟩
  | next h hrun hfits hturn ih =>
    obtain ⟨hblocks, hshort, -⟩ := ih.1.turn_next hmode ih.2 hfits hturn
    exact ⟨hblocks, hshort⟩

/-- **Conservation of basic-block vectors.** -/
theorem bbv_conserved (hmode : cfg.mode = .genBbv) (hopens : cfg.bbvOpens = true)
    (hstart : ({ cpu := cpu } : Exec).start cfg = some (targets, e₀))
    (h : FittingRun cfg targets e₀ e) :
    e.Conserved ∧
      (e.running = true → e.Fits → ∀ e',
        (e.turn cfg targets = .next e' →
          e'.Conserved ∧ ∃ cpu, e.cpu.riscv = some cpu ∧
            (Exec.Dumped (e.afterStep .genBbv cpu) e' ∨ e' = e.afterStep .genBbv cpu)) ∧
        (e.turn cfg targets = .leave e' → e'.Conserved)) := by
  obtain ⟨h₀, hzero⟩ := Exec.start_blocks hmode hopens hstart
  obtain ⟨hblocks, hinterval⟩ := h.blocks hmode h₀ (by rw [hzero]; decide)
  refine ⟨hblocks.conserved, ?_⟩
  intro _ hfits e'
  constructor
  · intro hturn
    obtain ⟨hnext, -, hdump⟩ := hblocks.turn_next hmode hinterval hfits hturn
    exact ⟨hnext.conserved, hdump⟩
  · intro hturn
    exact (hblocks.turn_leave hmode hturn).conserved

/-- A branch to itself in user mode is a block of one instruction. -/
theorem bbv_conserved_self_branch :
    ∃ e₀ e', ({ cpu := { Cpu.machineOf 0x00000063 with privilege := 0 } } : Exec).start
        { mode := .genBbv } = some (∅, e₀) ∧
      e₀.turn { mode := .genBbv } ∅ = .next e' ∧ e'.intervalInstCount = 1 ∧ e'.Conserved := by
  let e₀ : Exec :=
    Exec.bbvInitFile { cpu := { Cpu.machineOf 0x00000063 with privilege := 0 } } true
  have hstart : ({ cpu := { Cpu.machineOf 0x00000063 with privilege := 0 } } : Exec).start
      { mode := .genBbv } = some (∅, e₀) := rfl
  have hrun : ((e₀.turn { mode := .genBbv } ∅).goesOn.map fun e => e.intervalInstCount)
      = some 1 := by decide
  obtain ⟨e', hturn, hcount⟩ := Option.map_eq_some_iff.mp hrun
  rw [Turn.goesOn_eq_some] at hturn
  exact ⟨e₀, e', hstart, hturn, hcount,
    (((bbv_conserved rfl rfl hstart .refl).2 (by decide) (.inl (by decide)) e').1 hturn).1⟩

end TraceSim.Ref
