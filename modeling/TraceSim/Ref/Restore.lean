/-
TraceSim/Ref/Restore.lean

Restoring a checkpoint (`Ref_cpu::restore_checkpoint` in `simpoint.cpp`).

The file is the sequence of bytes that `gzread` delivers, and `none` is an exit of
the process: a file that is too short, or a header that does not fit.  The records
are read as the host lays them out, little-endian and aligned.

`Checkpoint` is a well-formed file of version 2.  What is accepted is well-formed
(`run_restoreCheckpoint_iff`), so what a restore leaves behind can be told from the
parts of the file.
-/
import TraceSim.Lib.ByteReader
import TraceSim.Ref.Memory

namespace TraceSim.Ref

/-! ### The format -/

/-- The constant `CKPT_MAGIC`, the bytes "Rem" and a zero. -/
def ckptMagic : BitVec 32 := 0x006d6552

def ckptVersion : BitVec 32 := 2

/-- The member `ram_size`, after an `init` that did not exit. -/
def ramSize : BitVec 32 := 0x40000000

structure CkptIoRange where
  base : BitVec 32
  size : BitVec 32
  deriving DecidableEq, Repr

/-- The function `expected_io_layout`: the boot words, the UART, the PLIC and the timer. -/
def expectedIoLayout : List CkptIoRange :=
  [⟨0x00000000, 0x00002000⟩, ⟨0x10000000, 0x00000100⟩, ⟨0x0c000000, 0x00210000⟩,
    ⟨0x1fd0e000, 0x8⟩]

namespace CkptIoRange

/-- The address is in the range. -/
def Covers (r : CkptIoRange) (a : BitVec 32) : Prop := (a - r.base).toNat < r.size.toNat

/-- The range consists of words and does not wrap around. -/
def Regular (r : CkptIoRange) : Prop :=
  r.base.toNat % 4 = 0 ∧ r.size.toNat % 4 = 0 ∧ r.base.toNat + r.size.toNat ≤ kRamBase.toNat

instance (r : CkptIoRange) : Decidable r.Regular := inferInstanceAs (Decidable (_ ∧ _))

/-- One range ends before the other begins. -/
def Apart (r r' : CkptIoRange) : Prop :=
  r.base.toNat + r.size.toNat ≤ r'.base.toNat ∨ r'.base.toNat + r'.size.toNat ≤ r.base.toNat

instance (r r' : CkptIoRange) : Decidable (r.Apart r') := inferInstanceAs (Decidable (_ ∨ _))

variable {r r' : CkptIoRange} {a : BitVec 32}

theorem Regular.covers_iff (h : r.Regular) :
    r.Covers a ↔ r.base.toNat ≤ a.toNat ∧ a.toNat < r.base.toNat + r.size.toNat := by
  obtain ⟨-, -, hend⟩ := h
  have hbase : kRamBase.toNat = 0x80000000 := rfl
  have ha := a.isLt
  rw [Covers, BitVec.toNat_sub]
  omega

theorem Apart.not_covers (h : r.Apart r') (hr : r.Regular) (hr' : r'.Regular) (ha : r.Covers a) :
    ¬ r'.Covers a := by
  rw [hr.covers_iff] at ha
  rw [hr'.covers_iff]
  rcases h with h | h
  · omega
  · omega

end CkptIoRange

theorem regular_of_mem_layout : ∀ r ∈ expectedIoLayout, r.Regular := by decide

theorem layout_pairwise_apart : expectedIoLayout.Pairwise CkptIoRange.Apart := by decide

/-- The record `SimpointCpuStateV2`. -/
structure SimpointCpuStateV2 where
  gpr : Fin 32 → BitVec 32
  csr : Csr → BitVec 32
  pc : BitVec 32
  storeAddr : BitVec 32
  storeData : BitVec 32
  storeStrb : BitVec 32
  store : Bool
  reserveValid : Bool
  reserveAddr : BitVec 32

/-- The size of the record: two bytes of padding stand before the last word. -/
def stateSize : ℕ := 236

/-- The record that some bytes hold. -/
def SimpointCpuStateV2.ofBytes (bytes : List (BitVec 8)) : SimpointCpuStateV2 where
  gpr i := wordAt bytes (4 * i)
  csr r := wordAt bytes (128 + 4 * r.ctorIdx)
  pc := wordAt bytes 212
  storeAddr := wordAt bytes 216
  storeData := wordAt bytes 220
  storeStrb := wordAt bytes 224
  store := bytes.getD 228 0 ≠ 0
  reserveValid := bytes.getD 229 0 ≠ 0
  reserveAddr := wordAt bytes 232

/-! ### The restore -/

namespace Cpu

variable (s : Cpu)

/-- The function `restore_cpu_state_from_v2`. -/
def restoreCpuStateFromV2 (src : SimpointCpuStateV2) : Cpu :=
  { s with
    gpr := src.gpr
    csr := src.csr
    pc := src.pc
    storeAddr := src.storeAddr
    storeData := src.storeData
    storeStrb := src.storeStrb
    store := src.store }

/-- The bulk read of the RAM. -/
def restoreRam (bytes : List (BitVec 8)) : Cpu :=
  { s with memory := fun j => wordAt bytes (4 * j.toNat) }

/-- One turn of the loop over the words of an I/O range. -/
def restoreIoWord (base : BitVec 32) (bytes : List (BitVec 8))
    (ioWords : BitVec 32 → Option (BitVec 32)) (k : ℕ) : BitVec 32 → Option (BitVec 32) :=
  let word := wordAt bytes (4 * k)
  -- a zero is not stored
  if word ≠ 0 then Function.update ioWords (base + BitVec.ofNat 32 (4 * k)) (some word)
  else ioWords

/-- The words of an I/O range. -/
def restoreIoBytes (r : CkptIoRange) (bytes : List (BitVec 8)) : Cpu :=
  { s with
    ioWords := (List.range (r.size.toNat / 4)).foldl (restoreIoWord r.base bytes) s.ioWords }

/-- One turn of the loop over the I/O ranges. -/
def restoreIoRange (expected : CkptIoRange) : Reader (BitVec 8) Cpu := do
  let base ← Reader.word
  let size ← Reader.word
  Reader.check (base = expected.base ∧ size = expected.size)
  let ioBytes ← Reader.take size.toNat
  pure (s.restoreIoBytes ⟨base, size⟩ ioBytes)

/-- The loop over the I/O ranges. -/
def restoreIoRanges (layout : List CkptIoRange) : Reader (BitVec 8) Cpu :=
  layout.foldlM restoreIoRange s

/-- The method `restore_checkpoint`, from the open file on. -/
def restoreCheckpoint : Reader (BitVec 8) Cpu := do
  let magic ← Reader.word
  Reader.check (magic = ckptMagic)
  let version ← Reader.word
  let fileRamSize ← Reader.word
  let ioRangeCount ← Reader.word
  Reader.check (version = ckptVersion)
  Reader.check (fileRamSize = ramSize)
  let record ← Reader.take stateSize
  let count ← Reader.take 8
  let s := s.restoreCpuStateFromV2 (.ofBytes record)
  let s := { s with privilege := 0, simTime := doubleAt count 0 }
  let ram ← Reader.take ramSize.toNat
  let s := s.restoreRam ram
  Reader.check (ioRangeCount.toNat = expectedIoLayout.length)
  let s := { s with ioWords := fun _ => none }
  s.restoreIoRanges expectedIoLayout

end Cpu

/-! ### Well-formed files -/

/-- The payloads of some I/O ranges are as long as the ranges. -/
def FitsLayout (layout : List CkptIoRange) (payloads : List (List (BitVec 8))) : Prop :=
  payloads.map List.length = layout.map fun r => r.size.toNat

/-- A checkpoint of version 2: the record of the CPU, the instruction count, the RAM, and
the payloads of the I/O ranges, as bytes. -/
structure Checkpoint where
  record : List (BitVec 8)
  count : List (BitVec 8)
  ram : List (BitVec 8)
  io : List (List (BitVec 8))
  record_length : record.length = stateSize
  count_length : count.length = 8
  ram_length : ram.length = ramSize.toNat
  io_length : FitsLayout expectedIoLayout io

/-- The bytes of some I/O ranges. -/
def ioBytes (layout : List CkptIoRange) (payloads : List (List (BitVec 8))) : List (BitVec 8) :=
  (List.zipWith (fun r payload => bytesOfWord r.base ++ (bytesOfWord r.size ++ payload)) layout
    payloads).flatten

namespace Checkpoint

variable (c : Checkpoint)

/-- The record of the CPU. -/
def state : SimpointCpuStateV2 := .ofBytes c.record

/-- The stored instruction count. -/
def intervalInstCount : BitVec 64 := doubleAt c.count 0

/-- The file. -/
def file : List (BitVec 8) :=
  bytesOfWord ckptMagic ++ (bytesOfWord ckptVersion ++ (bytesOfWord ramSize ++
    (bytesOfWord 4 ++ (c.record ++ (c.count ++ (c.ram ++ ioBytes expectedIoLayout c.io))))))

end Checkpoint

namespace Cpu

variable (s : Cpu)

/-- The words of some I/O ranges, restored one range after the other. -/
def restoredIo (layout : List CkptIoRange) (payloads : List (List (BitVec 8))) : Cpu :=
  (layout.zip payloads).foldl (fun s p => s.restoreIoBytes p.1 p.2) s

/-- What a restore leaves behind. -/
def restored (c : Checkpoint) : Cpu :=
  let s := s.restoreCpuStateFromV2 c.state
  let s := { s with privilege := 0, simTime := c.intervalInstCount }
  { s.restoreRam c.ram with ioWords := fun _ => none }.restoredIo expectedIoLayout c.io

variable {s} {s' : Cpu} {file rest : List (BitVec 8)}

theorem run_restoreIoRange_iff {r : CkptIoRange} :
    (s.restoreIoRange r).run file = some (s', rest)
      ↔ ∃ payload, payload.length = r.size.toNat ∧
          file = bytesOfWord r.base ++ (bytesOfWord r.size ++ payload) ++ rest ∧
          s' = s.restoreIoBytes r payload := by
  unfold restoreIoRange
  simp only [Reader.run_bind_iff, Reader.run_word_iff, Reader.run_check_iff, Reader.run_take_iff,
    Reader.run_pure_iff]
  constructor
  · rintro ⟨base, _, rfl, size, _, rfl, -, _, ⟨⟨rfl, rfl⟩, rfl⟩, payload, _, ⟨rfl, hlen⟩, rfl, rfl⟩
    exact ⟨payload, hlen, by simp only [List.append_assoc], rfl⟩
  · rintro ⟨payload, hlen, rfl, rfl⟩
    exact ⟨r.base, _, by simp only [List.append_assoc], r.size, _, rfl, (), _, ⟨⟨rfl, rfl⟩, rfl⟩,
      payload, _, ⟨rfl, hlen⟩, rfl, rfl⟩

theorem run_restoreIoRanges_iff {layout : List CkptIoRange} :
    (s.restoreIoRanges layout).run file = some (s', rest)
      ↔ ∃ payloads, FitsLayout layout payloads ∧ file = ioBytes layout payloads ++ rest ∧
          s' = s.restoredIo layout payloads := by
  -- along the layout, one range after the other
  induction layout generalizing s file with
  | nil =>
    rw [restoreIoRanges, List.foldlM_nil, Reader.run_pure_iff]
    constructor
    · rintro ⟨rfl, rfl⟩
      exact ⟨[], rfl, rfl, rfl⟩
    · rintro ⟨payloads, hfits, rfl, rfl⟩
      obtain rfl : payloads = [] := List.map_eq_nil_iff.mp hfits
      exact ⟨rfl, rfl⟩
  | cons r layout ih =>
    rw [restoreIoRanges, List.foldlM_cons, Reader.run_bind_iff]
    constructor
    · rintro ⟨u, mid, hfirst, hrest⟩
      obtain ⟨payload, hlen, rfl, rfl⟩ := run_restoreIoRange_iff.mp hfirst
      obtain ⟨payloads, hfits, rfl, rfl⟩ := ih.mp hrest
      refine ⟨payload :: payloads, ?_, ?_, rfl⟩
      · rw [FitsLayout, List.map_cons, List.map_cons, hlen, hfits]
      · simp only [ioBytes, List.zipWith_cons_cons, List.flatten_cons, List.append_assoc]
    · rintro ⟨payloads, hfits, rfl, rfl⟩
      cases payloads with
      | nil => cases hfits
      | cons payload payloads =>
        obtain ⟨hlen, hfits⟩ := List.cons.inj hfits
        refine ⟨_, _, run_restoreIoRange_iff.mpr ⟨payload, hlen, ?_, rfl⟩,
          ih.mpr ⟨payloads, hfits, rfl, rfl⟩⟩
        simp only [ioBytes, List.zipWith_cons_cons, List.flatten_cons, List.append_assoc]

/-- **What a restore accepts, and what it leaves behind.** -/
theorem run_restoreCheckpoint_iff :
    s.restoreCheckpoint.run file = some (s', rest)
      ↔ ∃ c : Checkpoint, file = c.file ++ rest ∧ s' = s.restored c := by
  have hcount : ∀ {w : BitVec 32}, w.toNat = expectedIoLayout.length ↔ w = 4 := by
    intro w
    exact BitVec.toNat_inj (y := 4)
  unfold restoreCheckpoint
  simp only [Reader.run_bind_iff, Reader.run_word_iff, Reader.run_check_iff, Reader.run_take_iff,
    run_restoreIoRanges_iff]
  constructor
  · rintro ⟨magic, _, rfl, -, _, ⟨rfl, rfl⟩, version, _, rfl, size, _, rfl, ranges, _, rfl, -, _,
      ⟨rfl, rfl⟩, -, _, ⟨rfl, rfl⟩, record, _, ⟨rfl, hrecord⟩, count, _, ⟨rfl, hcountlen⟩, ram, _,
      ⟨rfl, hram⟩, -, _, ⟨hranges, rfl⟩, io, hio, rfl, rfl⟩
    obtain rfl := hcount.mp hranges
    refine ⟨⟨record, count, ram, io, hrecord, hcountlen, hram, hio⟩, ?_, rfl⟩
    simp only [Checkpoint.file, List.append_assoc]
  · rintro ⟨c, rfl, rfl⟩
    refine ⟨ckptMagic, _, ?_, (), _, ⟨rfl, rfl⟩, ckptVersion, _, rfl, ramSize, _, rfl, 4, _, rfl,
      (), _, ⟨rfl, rfl⟩, (), _, ⟨rfl, rfl⟩, c.record, _, ⟨rfl, c.record_length⟩, c.count, _,
      ⟨rfl, c.count_length⟩, c.ram, _, ⟨rfl, c.ram_length⟩, (), _, ⟨rfl, rfl⟩, c.io, c.io_length,
      rfl, rfl⟩
    simp only [Checkpoint.file, List.append_assoc]

/-! ### I/O words -/

/-- The loop over the words of a range: a word of the range that is not zero is stored. -/
theorem foldl_restoreIoWord (base : BitVec 32) (bytes : List (BitVec 8))
    (ioWords : BitVec 32 → Option (BitVec 32)) {n : ℕ} (hn : 4 * n ≤ 2 ^ 32) (a : BitVec 32) :
    (List.range n).foldl (restoreIoWord base bytes) ioWords a
      = if (a - base).toNat < 4 * n ∧ (a - base).toNat % 4 = 0 ∧ wordAt bytes (a - base).toNat ≠ 0
        then some (wordAt bytes (a - base).toNat) else ioWords a := by
  induction n with
  | zero =>
    rw [if_neg (by omega)]
    rfl
  | succ n ih =>
    have hat : a = base + BitVec.ofNat 32 (4 * n) ↔ (a - base).toNat = 4 * n := by
      have hmod : (4 * n) % 2 ^ 32 = 4 * n := Nat.mod_eq_of_lt (by omega)
      rw [BitVec.add_comm, ← BitVec.sub_eq_iff_eq_add, ← BitVec.toNat_inj, BitVec.toNat_ofNat, hmod]
    have ih := ih (by omega)
    rw [List.range_succ, List.foldl_append, List.foldl_cons, List.foldl_nil, restoreIoWord]
    generalize (List.range n).foldl (restoreIoWord base bytes) ioWords = io at ih ⊢
    by_cases ha : (a - base).toNat = 4 * n
    · -- the last word of the loop
      by_cases hword : wordAt bytes (4 * n) = 0
      · rw [ha] at ih ⊢
        rw [if_neg (not_not.mpr hword), ih, if_neg (by omega), if_neg fun h => h.2.2 hword]
      · rw [if_pos hword, Function.update_apply, if_pos (hat.mpr ha), ha,
          if_pos ⟨by omega, by omega, hword⟩]
    · have hkeep : (if wordAt bytes (4 * n) ≠ 0 then
          Function.update io (base + BitVec.ofNat 32 (4 * n)) (some (wordAt bytes (4 * n)))
          else io) a = io a := by
        split_ifs
        · exact Function.update_of_ne (mt hat.mp ha) _ _
        · rfl
      rw [hkeep, ih]
      refine if_congr ⟨fun h => ⟨by omega, h.2⟩, fun h => ⟨?_, h.2⟩⟩ rfl rfl
      have hmod := h.2.1
      omega

/-- A restored range: its words are those of the payload, where these are not zero. -/
theorem restoreIoBytes_ioWords {r : CkptIoRange} (hr : r.size.toNat % 4 = 0)
    (bytes : List (BitVec 8)) (a : BitVec 32) :
    (s.restoreIoBytes r bytes).ioWords a
      = if (a - r.base).toNat < r.size.toNat ∧ (a - r.base).toNat % 4 = 0 ∧
            wordAt bytes (a - r.base).toNat ≠ 0
        then some (wordAt bytes (a - r.base).toNat) else s.ioWords a := by
  have hlt := r.size.isLt
  have hsize : 4 * (r.size.toNat / 4) = r.size.toNat := by omega
  rw [restoreIoBytes]
  dsimp only
  rw [foldl_restoreIoWord r.base bytes s.ioWords (by omega) a, hsize]

/-- The I/O words that restored ranges do not cover are left alone. -/
theorem restoredIo_of_not_covered {layout : List CkptIoRange} (hregular : ∀ r ∈ layout, r.Regular)
    {a : BitVec 32} (ha : ∀ r ∈ layout, ¬ r.Covers a) (payloads : List (List (BitVec 8))) :
    (s.restoredIo layout payloads).ioWords a = s.ioWords a := by
  induction layout generalizing s payloads with
  | nil => rfl
  | cons r layout ih =>
    cases payloads with
    | nil => rfl
    | cons payload payloads =>
      have hnot := ha r List.mem_cons_self
      refine (ih (fun r' h => hregular r' (List.mem_cons_of_mem r h))
        (fun r' h => ha r' (List.mem_cons_of_mem r h)) payloads).trans ?_
      rw [restoreIoBytes_ioWords (hregular r List.mem_cons_self).2.1, if_neg fun h => hnot h.1]

/-- A word of a restored range is the word of its payload, where no word was stored before. -/
theorem restoredIo_of_covered {layout : List CkptIoRange} (hregular : ∀ r ∈ layout, r.Regular)
    (hapart : layout.Pairwise CkptIoRange.Apart) {payloads : List (List (BitVec 8))}
    {r : CkptIoRange} {payload : List (BitVec 8)} (hr : (r, payload) ∈ layout.zip payloads)
    {a : BitVec 32} (hcovers : r.Covers a) (haligned : a.toNat % 4 = 0)
    (hnone : s.ioWords a = none) :
    ((s.restoredIo layout payloads).ioWords a).getD 0 = wordAt payload (a - r.base).toNat := by
  induction layout generalizing s payloads with
  | nil => cases hr
  | cons r' layout ih =>
    cases payloads with
    | nil => cases hr
    | cons payload' payloads =>
      obtain ⟨hfirst, hapart⟩ := List.pairwise_cons.mp hapart
      have hrest := fun q h => hregular q (List.mem_cons_of_mem r' h)
      have hregular' := hregular r' List.mem_cons_self
      rcases List.mem_cons.mp hr with heq | hr
      · -- the range itself; those after it do not cover the address
        obtain ⟨rfl, rfl⟩ := Prod.mk.inj heq
        have hlater : ∀ q ∈ layout, ¬ q.Covers a := fun q hq =>
          (hfirst q hq).not_covers hregular' (hrest q hq) hcovers
        have hmod : (a - r.base).toNat % 4 = 0 := by
          obtain ⟨hbase, -, -⟩ := hregular'
          rw [BitVec.toNat_sub]
          omega
        have hword := (restoredIo_of_not_covered hrest hlater payloads).trans
          (restoreIoBytes_ioWords (s := s) hregular'.2.1 payload a)
        refine (congrArg (Option.getD · 0) hword).trans ?_
        by_cases hzero : wordAt payload (a - r.base).toNat = 0
        · rw [if_neg fun h => h.2.2 hzero, hnone, hzero]
          rfl
        · rw [if_pos ⟨hcovers, hmod, hzero⟩]
          rfl
      · have hmem := (List.of_mem_zip hr).1
        have hnot : ¬ r'.Covers a := fun h =>
          (hfirst r hmem).not_covers hregular' (hrest r hmem) h hcovers
        refine ih hrest hapart hr ?_
        rw [restoreIoBytes_ioWords hregular'.2.1, if_neg fun h => hnot h.1, hnone]

theorem restoredIo_frame (layout : List CkptIoRange) (payloads : List (List (BitVec 8))) :
    s.restoredIo layout payloads
      = { s with ioWords := (s.restoredIo layout payloads).ioWords } := by
  induction layout generalizing s payloads with
  | nil => rfl
  | cons r layout ih =>
    cases payloads with
    | nil => rfl
    | cons payload payloads => exact ih (s := s.restoreIoBytes r payload) payloads

end Cpu

/-! ### What a restore reproduces -/

/-- The machine is the one that was saved. -/
structure Checkpoint.ReproducedBy (c : Checkpoint) (s : Cpu) : Prop where
  gpr : s.gpr = c.state.gpr
  csr : s.csr = c.state.csr
  pc : s.pc = c.state.pc
  storeAddr : s.storeAddr = c.state.storeAddr
  storeData : s.storeData = c.state.storeData
  storeStrb : s.storeStrb = c.state.storeStrb
  store : s.store = c.state.store
  reserveValid : s.reserveValid = c.state.reserveValid
  reserveAddr : s.reserveAddr = c.state.reserveAddr
  ram : ∀ j, s.memory j = wordAt c.ram (4 * j.toNat)
  io : ∀ r payload, (r, payload) ∈ expectedIoLayout.zip c.io → ∀ addr, r.Covers (wordAddr addr) →
    s.loadWord addr = some (wordAt payload (wordAddr addr - r.base).toNat)
  otherIo : ∀ addr, isRamRange (wordAddr addr) 4 = false → checkMemRange (wordAddr addr) 4 = true →
    (∀ r ∈ expectedIoLayout, ¬ r.Covers (wordAddr addr)) → s.loadWord addr = some 0
  simTime : s.simTime = c.intervalInstCount

/-- An I/O word in a regular range is no RAM word, and can be loaded. -/
theorem CkptIoRange.Regular.io {r : CkptIoRange} (h : r.Regular) {a : BitVec 32}
    (ha : r.Covers a) (haligned : a.toNat % 4 = 0) :
    isRamRange a 4 = false ∧ checkMemRange a 4 = true := by
  have hbase : kRamBase.toNat = 0x80000000 := rfl
  have hcovers := h.covers_iff.mp ha
  obtain ⟨hb, hs, hend⟩ := h
  constructor
  · have hlt : a < kRamBase := by
      rw [BitVec.lt_def]
      omega
    rw [isRamRange, if_pos (.inr hlt)]
  · rw [checkMemRange, decide_eq_true (show a.toNat + 4 - 1 < kRamUpperBound by
      rw [kRamUpperBound]; omega), Bool.or_true]

namespace Cpu

variable {s s' : Cpu} {c : Checkpoint} {rest rest' : List (BitVec 8)}

/-- **A well-formed file is accepted**, whatever the CPU held before. -/
theorem run_restoreCheckpoint_file (s : Cpu) (c : Checkpoint) (rest : List (BitVec 8)) :
    s.restoreCheckpoint.run (c.file ++ rest) = some (s.restored c, rest) :=
  run_restoreCheckpoint_iff.mpr ⟨c, rfl, rfl⟩

/-- What a restore does to the fields of the CPU. -/
theorem restored_frame (s : Cpu) (c : Checkpoint) :
    s.restored c
      = { s with
          gpr := c.state.gpr
          csr := c.state.csr
          pc := c.state.pc
          storeAddr := c.state.storeAddr
          storeData := c.state.storeData
          storeStrb := c.state.storeStrb
          store := c.state.store
          privilege := 0
          simTime := c.intervalInstCount
          memory := fun j => wordAt c.ram (4 * j.toNat)
          ioWords := (s.restored c).ioWords } :=
  restoredIo_frame expectedIoLayout c.io

theorem restored_io {r : CkptIoRange} {payload : List (BitVec 8)}
    (hr : (r, payload) ∈ expectedIoLayout.zip c.io) {addr : BitVec 32}
    (hcovers : r.Covers (wordAddr addr)) :
    (s.restored c).loadWord addr = some (wordAt payload (wordAddr addr - r.base).toNat) := by
  have haligned : (wordAddr addr).toNat % 4 = 0 := by
    rw [toNat_wordAddr]
    omega
  have hregular := regular_of_mem_layout r (List.of_mem_zip hr).1
  obtain ⟨hram, hcheck⟩ := hregular.io hcovers haligned
  rw [loadWord, hram, if_neg Bool.false_ne_true, if_pos hcheck]
  exact congrArg some (restoredIo_of_covered regular_of_mem_layout layout_pairwise_apart hr hcovers
    haligned rfl)

theorem restored_otherIo {addr : BitVec 32} (hram : isRamRange (wordAddr addr) 4 = false)
    (hcheck : checkMemRange (wordAddr addr) 4 = true)
    (hnot : ∀ r ∈ expectedIoLayout, ¬ r.Covers (wordAddr addr)) :
    (s.restored c).loadWord addr = some 0 := by
  rw [loadWord, hram, if_neg Bool.false_ne_true, if_pos hcheck, restored,
    restoredIo_of_not_covered regular_of_mem_layout hnot]
  rfl

/-- **A restore reproduces the saved machine exactly where the reservation was the saved one
before**: the two fields of the reservation are not restored. -/
theorem restore_reproduces_iff
    (h : s.restoreCheckpoint.run (c.file ++ rest) = some (s', rest')) :
    c.ReproducedBy s' ↔
      s.reserveValid = c.state.reserveValid ∧ s.reserveAddr = c.state.reserveAddr := by
  rw [run_restoreCheckpoint_file] at h
  obtain ⟨rfl, -⟩ := Prod.mk.inj (Option.some.inj h)
  have hframe := restored_frame s c
  have hvalid : (s.restored c).reserveValid = s.reserveValid := by rw [hframe]
  have haddr : (s.restored c).reserveAddr = s.reserveAddr := by rw [hframe]
  constructor
  · intro hc
    exact ⟨hvalid.symm.trans hc.reserveValid, haddr.symm.trans hc.reserveAddr⟩
  · rintro ⟨hsaved, hsavedAddr⟩
    exact
      { gpr := congrArg Cpu.gpr hframe
        csr := congrArg Cpu.csr hframe
        pc := congrArg Cpu.pc hframe
        storeAddr := congrArg Cpu.storeAddr hframe
        storeData := congrArg Cpu.storeData hframe
        storeStrb := congrArg Cpu.storeStrb hframe
        store := congrArg Cpu.store hframe
        reserveValid := hvalid.trans hsaved
        reserveAddr := haddr.trans hsavedAddr
        ram := fun j => congrFun (congrArg Cpu.memory hframe) j
        io := fun r payload hr addr => restored_io hr
        otherIo := fun addr => restored_otherIo
        simTime := congrArg Cpu.simTime hframe }

/-- A checkpoint of a machine that held a reservation, and is zero else. -/
def reservedCheckpoint : Checkpoint where
  record := (List.replicate stateSize 0).set 229 1
  count := List.replicate 8 0
  ram := List.replicate ramSize.toNat 0
  io := expectedIoLayout.map fun r => List.replicate r.size.toNat 0
  record_length := by rw [List.length_set, List.length_replicate]
  count_length := rfl
  ram_length := List.length_replicate
  io_length := by
    rw [FitsLayout, List.map_map]
    exact List.map_congr_left fun r _ => List.length_replicate

/-- The reservation of the checkpoint is lost. -/
theorem restore_loses_reservation :
    ∃ s', zero.restoreCheckpoint.run (reservedCheckpoint.file ++ []) = some (s', []) ∧
      ¬ reservedCheckpoint.ReproducedBy s' := by
  refine ⟨_, run_restoreCheckpoint_file zero reservedCheckpoint [], ?_⟩
  intro h
  have hsaved : reservedCheckpoint.state.reserveValid = true := by decide
  have hheld : (zero.restored reservedCheckpoint).reserveValid = false := by
    rw [restored_frame]
    rfl
  have hlost := h.reserveValid
  rw [hsaved, hheld] at hlost
  cases hlost

/-- A CPU that holds the reservation of the checkpoint is restored as it was saved. -/
theorem restore_reproduces_iff_reserved :
    reservedCheckpoint.ReproducedBy
      (({ zero with reserveValid := true } : Cpu).restored reservedCheckpoint) :=
  (restore_reproduces_iff (run_restoreCheckpoint_file _ reservedCheckpoint [])).mpr
    ⟨by decide, by decide⟩

end Cpu

end TraceSim.Ref
