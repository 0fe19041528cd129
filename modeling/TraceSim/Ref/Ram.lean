/-
TraceSim/Ref/Ram.lean

RAM as a memory of bytes.

The reference CPU keeps RAM in words, and a store of a byte reads the word, merges and
writes it back.  In M mode the bytes of RAM are nevertheless a byte map: a store is the
store of the byte map and a load is its load, so after any list of stores a load returns
the bytes last written (`ram_byteMap`).
-/
import TraceSim.Lib.Bytes
import TraceSim.Ref.Reservation

namespace TraceSim.Ref

variable {s u : Cpu} {a : BitVec 32} {n : ℕ}

/-! ### The bytes of RAM -/

/-- The number of words of the RAM array. -/
def ramWords : ℕ := (kRamUpperBound - kRamBase.toNat) / 4

/-- The subscript of a word in the RAM array, as the source computes it. -/
def ramSubscript (addr : BitVec 32) : BitVec 32 := (wordAddr addr - kRamBase) >>> 2

/-- The place of a byte in RAM. -/
def ramOffset (addr : BitVec 32) : BitVec 30 := (addr - kRamBase).setWidth 30

/-- The RAM as a byte map. -/
def Cpu.ramBytes (s : Cpu) : ByteMap 30 :=
  fun x => byteOf (s.memory ((x >>> 2).setWidth 28)) (x.toNat % 4)

/-- A naturally aligned access of `n` bytes in RAM. -/
structure RamAccess (a : BitVec 32) (n : ℕ) : Prop where
  size : n = 1 ∨ n = 2 ∨ n = 4
  aligned : a.toNat % n = 0
  lower : 0x80000000 ≤ a.toNat
  upper : a.toNat + n ≤ 0xC0000000

theorem kRamBase_toNat : kRamBase.toNat = 0x80000000 := rfl

namespace RamAccess

theorem pos (h : RamAccess a n) : 0 < n := by
  have := h.size
  omega

theorem toNat_sub (h : RamAccess a n) : (a - kRamBase).toNat = a.toNat - 0x80000000 := by
  rw [BitVec.toNat_sub, kRamBase_toNat]
  have := h.lower
  have := a.isLt
  omega

theorem toNat_ramOffset (h : RamAccess a n) : (ramOffset a).toNat = a.toNat - 0x80000000 := by
  rw [ramOffset, BitVec.toNat_setWidth, h.toNat_sub]
  have := h.upper
  have := h.pos
  omega

theorem toNat_ramSubscript (h : RamAccess a n) :
    (ramSubscript a).toNat = (a.toNat - 0x80000000) / 4 := by
  rw [ramSubscript, BitVec.toNat_ushiftRight, BitVec.toNat_sub, toNat_wordAddr,
    kRamBase_toNat, Nat.shiftRight_eq_div_pow]
  have := h.lower
  have := a.isLt
  omega

/-- **The subscript is inside the array.** -/
theorem ramSubscript_lt (h : RamAccess a n) : (ramSubscript a).toNat < ramWords := by
  rw [h.toNat_ramSubscript]
  have := h.upper
  have := h.pos
  have hwords : ramWords = 0x10000000 := rfl
  omega

theorem toNat_ramIndex (h : RamAccess a n) :
    (ramIndex (wordAddr a)).toNat = (a.toNat - 0x80000000) / 4 := by
  have hsub : ramIndex (wordAddr a) = (ramSubscript a).setWidth 28 := rfl
  rw [hsub, BitVec.toNat_setWidth, h.toNat_ramSubscript]
  have := h.upper
  have := h.pos
  omega

theorem isRamRange (h : RamAccess a n) : isRamRange (wordAddr a) 4 = true := by
  have hword := toNat_wordAddr a
  have hlow : ¬ (4 = 0 ∨ wordAddr a < kRamBase) := by
    rw [BitVec.lt_def, kRamBase_toNat]
    have := h.lower
    omega
  have hend : (wordAddr a).toNat + 4 - 1 < kRamUpperBound := by
    have := h.upper
    have := h.pos
    rw [kRamUpperBound]
    omega
  rw [Ref.isRamRange, if_neg hlow]
  exact decide_eq_true hend

theorem checkMemRange (h : RamAccess a n) : checkMemRange a n = true := by
  have hend : a.toNat + n - 1 < kRamUpperBound := by
    have := h.upper
    have := h.pos
    rw [kRamUpperBound]
    omega
  rw [Ref.checkMemRange, decide_eq_true hend, Bool.or_true]

/-- The word of a byte is the word of the access exactly for the bytes next to it. -/
theorem word_eq_iff (h : RamAccess a n) (x : BitVec 30) :
    (x >>> 2).setWidth 28 = ramIndex (wordAddr a) ↔ x.toNat / 4 = (ramOffset a).toNat / 4 := by
  rw [BitVec.toNat_eq, BitVec.toNat_setWidth, BitVec.toNat_ushiftRight,
    Nat.shiftRight_eq_div_pow, h.toNat_ramIndex, h.toNat_ramOffset]
  have := x.isLt
  omega

/-- An aligned access stays in its word. -/
theorem place_add_le (h : RamAccess a n) : a.toNat % 4 + n ≤ 4 := by
  have := h.aligned
  rcases h.size with rfl | rfl | rfl <;> omega

end RamAccess

/-! ### The merged word -/

/-- The strobe of a store of `n` bytes. -/
def sizeStrobe (n : ℕ) : BitVec 32 := BitVec.ofNat 32 (2 ^ n - 1)

theorem getLsbD_strobeMask (strb : BitVec 32) {i : ℕ} (hi : i < 32) :
    (strobeMask strb).getLsbD i = strb.getLsbD (i / 8) := by
  have hbyte (k : ℕ) : (if strb.getLsbD k then 0xFF#32 <<< (8 * k) else 0#32).getLsbD i
      = (strb.getLsbD k && decide (i / 8 = k)) := by
    cases strb.getLsbD k
    · simp
    · rw [if_pos rfl, getLsbD_byteMask, decide_eq_true hi]
  have hmask : strobeMask strb
      = (if strb.getLsbD 0 then 0xFF#32 <<< (8 * 0) else 0#32)
        ||| (if strb.getLsbD 1 then 0xFF#32 <<< (8 * 1) else 0#32)
        ||| (if strb.getLsbD 2 then 0xFF#32 <<< (8 * 2) else 0#32)
        ||| (if strb.getLsbD 3 then 0xFF#32 <<< (8 * 3) else 0#32) := rfl
  rw [hmask, BitVec.getLsbD_or, BitVec.getLsbD_or, BitVec.getLsbD_or, hbyte, hbyte, hbyte, hbyte]
  have hlt : i / 8 < 4 := by omega
  generalize i / 8 = q at hlt
  obtain rfl | rfl | rfl | rfl : q = 0 ∨ q = 1 ∨ q = 2 ∨ q = 3 := by omega
  all_goals simp

theorem getLsbD_storeMerge (strb data addr old : BitVec 32) {i : ℕ} (hi : i < 32) :
    (storeMerge strb data addr old).getLsbD i
      = if (strb <<< (addr &&& 3).toNat).getLsbD (i / 8) then
          (data <<< ((addr &&& 3).toNat * 8)).getLsbD i else old.getLsbD i := by
  unfold storeMerge
  dsimp only
  rw [BitVec.getLsbD_or, BitVec.getLsbD_and, BitVec.getLsbD_and, BitVec.getLsbD_not,
    getLsbD_strobeMask _ hi]
  cases (strb <<< (addr &&& 3).toNat).getLsbD (i / 8) <;> simp [hi]

/-- The bytes that an access covers are those of the value, the others are the old ones. -/
theorem byteOf_storeMerge (h : RamAccess a n) (data old : BitVec 32) {k : ℕ} (hk : k < 4) :
    byteOf (storeMerge (sizeStrobe n) data a old) k
      = if a.toNat % 4 ≤ k ∧ k < a.toNat % 4 + n then byteOf data (k - a.toNat % 4)
        else byteOf old k := by
  have hplace := h.place_add_le
  refine BitVec.eq_of_getLsbD_eq fun j hj => ?_
  have hstrobe : (sizeStrobe n <<< (a &&& 3).toNat).getLsbD k
      = decide (a.toNat % 4 ≤ k ∧ k < a.toNat % 4 + n) := by
    rw [BitVec.getLsbD_shiftLeft, sizeStrobe, BitVec.getLsbD_ofNat, Nat.testBit_two_pow_sub_one,
      toNat_place]
    grind
  rw [getLsbD_byteOf, decide_eq_true hj, Bool.true_and, getLsbD_storeMerge _ _ _ _ (by omega),
    show (8 * k + j) / 8 = k by omega, hstrobe]
  by_cases hin : a.toNat % 4 ≤ k ∧ k < a.toNat % 4 + n
  · rw [if_pos (decide_eq_true hin), if_pos hin, getLsbD_byteOf, BitVec.getLsbD_shiftLeft,
      toNat_place, show 8 * k + j - a.toNat % 4 * 8 = 8 * (k - a.toNat % 4) + j by omega]
    grind
  · rw [if_neg (by simpa using hin), if_neg hin, getLsbD_byteOf, decide_eq_true hj, Bool.true_and]

/-! ### Stores -/

/-- **A store in RAM is the store of the byte map.** -/
theorem ramBytes_store (h : RamAccess a n) (data : BitVec 32)
    (hmem : u.memory = Function.update s.memory (ramIndex (wordAddr a))
      (storeMerge (sizeStrobe n) data a (s.memory (ramIndex (wordAddr a))))) :
    u.ramBytes = s.ramBytes.store (ramOffset a) n data := by
  have hplace := h.place_add_le
  have hoffset := h.toNat_ramOffset
  have hlower := h.lower
  have hupper := h.upper
  funext x
  have hx := x.isLt
  have hsub : (x - ramOffset a).toNat = (2 ^ 30 - (ramOffset a).toNat + x.toNat) % 2 ^ 30 :=
    BitVec.toNat_sub ..
  simp only [Cpu.ramBytes, ByteMap.store, hmem]
  by_cases hword : (x >>> 2).setWidth 28 = ramIndex (wordAddr a)
  · have hquot := (h.word_eq_iff x).mp hword
    rw [hword, Function.update_self, byteOf_storeMerge h _ _ (by omega)]
    by_cases hin : a.toNat % 4 ≤ x.toNat % 4 ∧ x.toNat % 4 < a.toNat % 4 + n
    · rw [if_pos hin, if_pos (by omega)]
      congr 1
      omega
    · rw [if_neg hin, if_neg (by omega)]
  · have hquot := mt (h.word_eq_iff x).mpr hword
    rw [Function.update_of_ne hword, if_neg (by omega)]

theorem commitStoreData_access (h : RamAccess s.storeAddr n) (hstore : s.store = true)
    (hstrb : s.storeStrb = sizeStrobe n) :
    s.commitStoreData = some { s with
      reserveValid := false
      memory := Function.update s.memory (ramIndex (wordAddr s.storeAddr))
        (storeMerge (sizeStrobe n) s.storeData s.storeAddr
          (s.memory (ramIndex (wordAddr s.storeAddr)))) } := by
  have hbase : ¬ s.storeAddr < kRamBase := by
    rw [BitVec.lt_def, kRamBase_toNat]
    have := h.lower
    omega
  have hsize : s.storeSize = n := by
    rw [Cpu.storeSize, hstrb]
    rcases h.size with rfl | rfl | rfl <;> rfl
  exact commitStoreData_merge hstore hstrb h.isRamRange (hsize.symm ▸ h.checkMemRange) hbase

/-! ### The instructions -/

/-- A store instruction that accesses RAM, with the registers it finds. -/
structure RamStore where
  instruction : BitVec 32
  gpr : Fin 32 → BitVec 32
  opcode_eq : opcode instruction = some .sb
  kind : funct3 instruction = 0 ∨ funct3 instruction = 1 ∨ funct3 instruction = 2
  access : RamAccess (gpr (regA instruction) + immS instruction)
    (accessSize (funct3 instruction))

/-- A load instruction that accesses RAM, with the registers it finds. -/
structure RamLoad where
  instruction : BitVec 32
  gpr : Fin 32 → BitVec 32
  opcode_eq : opcode instruction = some .lb
  kind : funct3 instruction = 0 ∨ funct3 instruction = 1 ∨ funct3 instruction = 2 ∨
    funct3 instruction = 4 ∨ funct3 instruction = 5
  access : RamAccess (gpr (regA instruction) + immI instruction)
    (accessSize (funct3 instruction &&& 3))

namespace RamStore

variable (st : RamStore)

def addr : BitVec 32 := st.gpr (regA st.instruction) + immS st.instruction

/-- What the instruction should do to the bytes of RAM. -/
def write : ByteStore 30 where
  addr := ramOffset st.addr
  size := accessSize (funct3 st.instruction)
  data := st.gpr (regB st.instruction)

end RamStore

namespace RamLoad

variable (ld : RamLoad)

def addr : BitVec 32 := ld.gpr (regA ld.instruction) + immI ld.instruction

/-- What the instruction should load from a memory of bytes: the unsigned loads extend
with zeros, the others with the sign. -/
def value (m : ByteMap 30) : BitVec 32 :=
  let size := accessSize (funct3 ld.instruction &&& 3)
  let data := m.load (ramOffset ld.addr) size
  if (funct3 ld.instruction).getLsbD 2 then data else sext data (8 * size)

end RamLoad

namespace Cpu

/-- The CPU about to execute an instruction. -/
def about (s : Cpu) (instruction : BitVec 32) (gpr : Fin 32 → BitVec 32) : Cpu :=
  { s with instruction := instruction, gpr := gpr }

/-- The result of an instruction that does not trap. -/
def perform (s : Cpu) (instruction : BitVec 32) (gpr : Fin 32 → BitVec 32) : Option Cpu :=
  match (s.about instruction gpr).rv32im with
  | some (.next u) => some u
  | _ => none

/-- The result of a list of stores. -/
def performs (s : Cpu) : List RamStore → Option Cpu
  | [] => some s
  | st :: l => (s.perform st.instruction st.gpr).bind (·.performs l)

end Cpu

/-- In M mode addresses are not translated. -/
theorem translate_machine (hm : s.privilege = 3) (v : BitVec 32) (type : AccessType) :
    s.translate v type = some (some v) := by
  rw [Cpu.translate, Cpu.paging, hm]
  simp

theorem traceIo_access (h : RamAccess a n) (s : Cpu) : s.traceIo a = s := by
  have hbase : ¬ a < kRamBase := by
    rw [BitVec.lt_def, kRamBase_toNat]
    have := h.lower
    omega
  exact if_neg hbase

/-- An aligned access is not reported as misaligned. -/
theorem misaligned_access {size : BitVec 32} (h : RamAccess a (accessSize size)) :
    misaligned size a = false := by
  have hodd : size = 1 → a.getLsbD 0 = false := by
    rintro rfl
    have heven : a.toNat % 2 = 0 := h.aligned
    rw [BitVec.getLsbD, Nat.testBit_zero, heven]
    rfl
  have hplace : size = 2 → a &&& 3 = 0 := by
    rintro rfl
    have hfour : a.toNat % 4 = 0 := h.aligned
    exact BitVec.eq_of_toNat_eq ((toNat_place a).trans hfour)
  rw [Bool.eq_false_iff]
  intro hmis
  rw [misaligned, Bool.or_eq_true, Bool.and_eq_true, Bool.and_eq_true, decide_eq_true_eq,
    decide_eq_true_eq, decide_eq_true_eq] at hmis
  rcases hmis with ⟨h1, hbit⟩ | ⟨h2, hne⟩
  · rw [hodd h1] at hbit
    cases hbit
  · exact hne (hplace h2)

/-- The states differ in the bytes that the store writes, and CSRs, device words and
privilege are the same. -/
structure StoresRight (s u : Cpu) (st : ByteStore 30) : Prop where
  ramBytes : u.ramBytes = s.ramBytes.store st.addr st.size st.data
  ioWords : u.ioWords = s.ioWords
  csr : u.csr = s.csr
  privilege : u.privilege = s.privilege

theorem byteOf_and_ones (v : BitVec 32) {n k : ℕ} (hk : k < n) :
    byteOf (v &&& BitVec.ofNat 32 (2 ^ (8 * n) - 1)) k = byteOf v k := by
  refine BitVec.eq_of_getLsbD_eq fun j hj => ?_
  rw [getLsbD_byteOf, getLsbD_byteOf, BitVec.getLsbD_and, BitVec.getLsbD_ofNat,
    Nat.testBit_two_pow_sub_one]
  by_cases hi : 8 * k + j < 32
  · simp [hi, show 8 * k + j < 8 * n by omega]
  · simp [BitVec.getLsbD_of_ge v _ (by omega : 32 ≤ 8 * k + j)]

/-- The fields a store hands over, for the three sizes. -/
theorem prepareStore_kind (s : Cpu) {f3 : BitVec 32} (h : f3 = 0 ∨ f3 = 1 ∨ f3 = 2)
    (p b : BitVec 32) :
    ∃ data, s.prepareStore f3 p b =
        { s with
          store := true, storeAddr := p, storeStrb := sizeStrobe (accessSize f3)
          storeData := data } ∧
      ∀ k < accessSize f3, byteOf data k = byteOf b k := by
  rcases h with rfl | rfl | rfl
  · exact ⟨b &&& 0xFF, rfl, fun k hk => byteOf_and_ones b (n := 1) hk⟩
  · exact ⟨b &&& 0xFFFF, rfl, fun k hk => byteOf_and_ones b (n := 2) hk⟩
  · exact ⟨b, rfl, fun _ _ => rfl⟩

/-- **One store instruction**: it does not trap, and it writes its bytes. -/
theorem perform_store (hm : s.privilege = 3) (st : RamStore) :
    ∃ u, s.perform st.instruction st.gpr = some u ∧ StoresRight s u st.write := by
  have haccess : RamAccess st.addr (accessSize (funct3 st.instruction)) := st.access
  let t := ((s.about st.instruction st.gpr).traceRegisters (rv32imRegisters st.instruction)).trace
    fun t => { t with isStore := true, memAddr := st.addr }
  -- the merged word and its strobe, by the size of the store
  obtain ⟨data, hprepare, hdata⟩ :=
    prepareStore_kind t st.kind st.addr (st.gpr (regB st.instruction))
  have hcommit := commitStoreData_access (s := t.prepareStore (funct3 st.instruction) st.addr
    (st.gpr (regB st.instruction))) (n := accessSize (funct3 st.instruction))
    (by rw [hprepare]; exact haccess) (by rw [hprepare]) (by rw [hprepare])
  rw [hprepare] at hcommit
  let u : Cpu := { t with
    store := true, storeAddr := st.addr, storeData := data
    storeStrb := sizeStrobe (accessSize (funct3 st.instruction)), reserveValid := false
    memory := Function.update s.memory (ramIndex (wordAddr st.addr))
      (storeMerge (sizeStrobe (accessSize (funct3 st.instruction))) data st.addr
        (s.memory (ramIndex (wordAddr st.addr)))) }
  -- aligned, in range and in M mode, the step reaches the store
  have hstep : (s.about st.instruction st.gpr).rv32im = some (.next u.advance) := by
    unfold Cpu.rv32im
    dsimp only
    rw [show (s.about st.instruction st.gpr).instruction = st.instruction by rfl, st.opcode_eq]
    change Cpu.storeCase _ st.instruction (st.gpr (regA st.instruction))
      (st.gpr (regB st.instruction)) = _
    unfold Cpu.storeCase
    dsimp only
    rw [misaligned_access st.access, if_neg Bool.false_ne_true, translate_machine (by exact hm),
      Option.bind_eq_bind, Option.bind_some]
    dsimp only
    rw [if_pos st.access.checkMemRange, traceIo_access st.access]
    change ((t.prepareStore (funct3 st.instruction) st.addr
      (st.gpr (regB st.instruction))).commitStoreData).map _ = _
    rw [hprepare, hcommit]
    rfl
  refine ⟨u.advance, ?_, ?_⟩
  · rw [Cpu.perform, hstep]
  · exact
      { ramBytes := (ramBytes_store (s := s) (u := u.advance) haccess data rfl).trans
          (ByteMap.store_congr hdata _ _)
        ioWords := rfl
        csr := rfl
        privilege := rfl }

/-! ### Loads -/

/-- The low `n` bytes of a word. -/
theorem getLsbD_lowBytes (d : BitVec 32) (n i : ℕ) :
    (d &&& BitVec.ofNat 32 (2 ^ (8 * n) - 1)).getLsbD i
      = (decide (i < 8 * n) && d.getLsbD i) := by
  rw [BitVec.getLsbD_and, BitVec.getLsbD_ofNat, Nat.testBit_two_pow_sub_one]
  by_cases hi : i < 32
  · simp [hi, Bool.and_comm]
  · simp [BitVec.getLsbD_of_ge d i (by omega)]

/-- **A load of the byte map** is the shifted and masked word. -/
theorem ramBytes_load (h : RamAccess a n) (s : Cpu) :
    s.ramBytes.load (ramOffset a) n
      = (s.memory (ramIndex (wordAddr a)) >>> ((a &&& 3).toNat * 8))
        &&& BitVec.ofNat 32 (2 ^ (8 * n) - 1) := by
  have hplace := h.place_add_le
  have hoffset := h.toNat_ramOffset
  have hlower := h.lower
  have hupper := h.upper
  refine BitVec.eq_of_getLsbD_eq fun i hi => ?_
  rw [ByteMap.getLsbD_load _ _ (by omega), getLsbD_lowBytes, BitVec.getLsbD_ushiftRight]
  by_cases hin : i < 8 * n
  · have hsum : (ramOffset a + BitVec.ofNat 30 (i / 8)).toNat = (ramOffset a).toNat + i / 8 := by
      rw [BitVec.toNat_add, BitVec.toNat_ofNat]
      omega
    have hword := (h.word_eq_iff (ramOffset a + BitVec.ofNat 30 (i / 8))).mpr (by omega)
    rw [Cpu.ramBytes, hword, getLsbD_byteOf, toNat_place,
      show 8 * ((ramOffset a + BitVec.ofNat 30 (i / 8)).toNat % 4) + i % 8
        = a.toNat % 4 * 8 + i by omega,
      decide_eq_true (show i % 8 < 8 by omega), Bool.true_and]
  · rw [decide_eq_false hin, Bool.false_and, Bool.false_and]

/-- The sign over the low `n` bytes. -/
theorem sext_lowBytes (d : BitVec 32) {n : ℕ} (hpos : 0 < n) (hn : n < 4) :
    sext (d &&& BitVec.ofNat 32 (2 ^ (8 * n) - 1)) (8 * n)
      = (d &&& BitVec.ofNat 32 (2 ^ (8 * n) - 1))
        ||| (if d.getLsbD (8 * n - 1) then ~~~BitVec.ofNat 32 (2 ^ (8 * n) - 1) else 0) := by
  have hones (j : ℕ) (hj : j < 32) :
      (BitVec.ofNat 32 (2 ^ (8 * n) - 1)).getLsbD j = decide (j < 8 * n) := by
    rw [BitVec.getLsbD_ofNat, Nat.testBit_two_pow_sub_one, decide_eq_true hj, Bool.true_and]
  refine BitVec.eq_of_getLsbD_eq fun i hi => ?_
  rw [sext, BitVec.getLsbD_signExtend, BitVec.msb_eq_getLsbD_last, BitVec.getLsbD_setWidth,
    BitVec.getLsbD_setWidth, BitVec.getLsbD_or, getLsbD_lowBytes, getLsbD_lowBytes,
    decide_eq_true hi, decide_eq_true (show 8 * n - 1 < 8 * n by omega)]
  cases d.getLsbD (8 * n - 1)
  · by_cases hin : i < 8 * n <;> simp [hin]
  · rw [if_pos rfl, BitVec.getLsbD_not, hones i hi]
    by_cases hin : i < 8 * n <;> simp [hin, hi]

/-- **The value of a load instruction** is that of the byte map, extended. -/
theorem loadValue_ram (ld : RamLoad) (s : Cpu) :
    loadValue (funct3 ld.instruction) ld.addr (s.memory (ramIndex (wordAddr ld.addr)))
      = ld.value s.ramBytes := by
  have haccess : RamAccess ld.addr (accessSize (funct3 ld.instruction &&& 3)) := ld.access
  unfold RamLoad.value
  dsimp only
  rw [ramBytes_load haccess]
  unfold loadValue
  dsimp only
  generalize s.memory (ramIndex (wordAddr ld.addr)) >>> ((ld.addr &&& 3).toNat * 8) = d
  -- by the width of the load, signed and unsigned
  rcases ld.kind with h | h | h | h | h <;> rw [h]
  · change (d &&& 0xFF) ||| (if d.getLsbD 7 ∧ ¬ (0#32).getLsbD 2 then 0xFFFFFF00 else 0)
      = sext (d &&& BitVec.ofNat 32 (2 ^ (8 * 1) - 1)) (8 * 1)
    rw [sext_lowBytes d (by decide) (by decide)]
    cases d.getLsbD 7 <;> rfl
  · change (d &&& 0xFFFF) ||| (if d.getLsbD 15 ∧ ¬ (1#32).getLsbD 2 then 0xFFFF0000 else 0)
      = sext (d &&& BitVec.ofNat 32 (2 ^ (8 * 2) - 1)) (8 * 2)
    rw [sext_lowBytes d (by decide) (by decide)]
    cases d.getLsbD 15 <;> rfl
  · change d = sext (d &&& BitVec.allOnes 32) 32
    rw [BitVec.and_allOnes, sext, BitVec.setWidth_eq, BitVec.signExtend_eq]
  · change (d &&& 0xFF) ||| (if d.getLsbD 7 ∧ ¬ (4#32).getLsbD 2 then 0xFFFFFF00 else 0)
      = d &&& 0xFF
    rw [if_neg (fun hsign => hsign.2 rfl)]
    exact BitVec.or_zero
  · change (d &&& 0xFFFF) ||| (if d.getLsbD 15 ∧ ¬ (5#32).getLsbD 2 then 0xFFFF0000 else 0)
      = d &&& 0xFFFF
    rw [if_neg (fun hsign => hsign.2 rfl)]
    exact BitVec.or_zero

/-- **One load instruction**: it does not trap, and its destination holds its value. -/
theorem perform_load (hm : s.privilege = 3) (ld : RamLoad) :
    ∃ u, s.perform ld.instruction ld.gpr = some u ∧
      u.gpr (regD ld.instruction) = ld.value s.ramBytes := by
  have haccess : RamAccess ld.addr (accessSize (funct3 ld.instruction &&& 3)) := ld.access
  let t := ((s.about ld.instruction ld.gpr).traceRegisters (rv32imRegisters ld.instruction)).trace
    fun t => { t with isLoad := true, memAddr := ld.addr }
  have hbase : 0x80000000 ≤ ld.addr.toNat := haccess.lower
  -- the timer is not in RAM
  have hdata (word : BitVec 32) : t.loadData (funct3 ld.instruction) ld.addr word
      = loadValue (funct3 ld.instruction) ld.addr word := by
    have hne (p : BitVec 32) (hp : p.toNat < 0x80000000) : ld.addr ≠ p := by
      rintro rfl
      omega
    rw [Cpu.loadData, if_neg (hne _ (by decide)), if_neg (hne _ (by decide))]
  have hstep : (s.about ld.instruction ld.gpr).rv32im
      = some (.next (t.setGpr (regD ld.instruction) (ld.value s.ramBytes)).advance) := by
    unfold Cpu.rv32im
    dsimp only
    rw [show (s.about ld.instruction ld.gpr).instruction = ld.instruction by rfl, ld.opcode_eq]
    change Cpu.load _ ld.instruction (ld.gpr (regA ld.instruction)) = _
    unfold Cpu.load
    dsimp only
    rw [misaligned_access ld.access, if_neg Bool.false_ne_true, translate_machine (by exact hm),
      Option.bind_eq_bind, Option.bind_some]
    dsimp only
    rw [if_pos ld.access.checkMemRange, Cpu.loadWord, if_pos ld.access.isRamRange,
      traceIo_access ld.access, ← loadValue_ram, ← hdata]
    rfl
  refine ⟨(t.setGpr (regD ld.instruction) (ld.value s.ramBytes)).advance, ?_, ?_⟩
  · rw [Cpu.perform, hstep]
  · exact Function.update_self ..

/-! ### Runs -/

/-- Any list of stores runs through, and the bytes of RAM are those of the byte map. -/
theorem performs_stores (hm : s.privilege = 3) (l : List RamStore) :
    ∃ u, s.performs l = some u ∧ u.ramBytes = s.ramBytes.stores (l.map RamStore.write) ∧
      u.ioWords = s.ioWords ∧ u.csr = s.csr ∧ u.privilege = 3 := by
  induction l generalizing s with
  | nil => exact ⟨s, rfl, rfl, rfl, rfl, hm⟩
  | cons st l ih =>
    obtain ⟨t, ht, hst⟩ := perform_store hm st
    obtain ⟨u, hu, hbytes, hio, hcsr, hpriv⟩ := ih (hst.privilege.trans hm)
    refine ⟨u, ?_, ?_, hio.trans hst.ioWords, hcsr.trans hst.csr, hpriv⟩
    · rw [Cpu.performs, ht, Option.bind_some, hu]
    · rw [hbytes, hst.ramBytes]
      rfl

/-- **RAM is a memory of bytes.** In M mode any list of aligned stores to RAM runs
through, and each changes its bytes and no other.  Every byte of RAM then is the one last
written there, or the initial one, and the device words and the CSRs are untouched.  A
load that follows returns the value of these bytes.  All subscripts are inside the
array. -/
theorem ram_byteMap (s : Cpu) (hm : s.privilege = 3) (l : List RamStore) (ld : RamLoad) :
    ∃ u v, s.performs l = some u ∧ u.perform ld.instruction ld.gpr = some v ∧
      (∀ x, u.ramBytes x
        = (ByteStore.lastWritten (l.map RamStore.write) x).getD (s.ramBytes x)) ∧
      u.ioWords = s.ioWords ∧ u.csr = s.csr ∧
      v.gpr (regD ld.instruction) = ld.value u.ramBytes ∧
      (∀ l₁ st l₂, l = l₁ ++ st :: l₂ → ∃ t t', s.performs l₁ = some t ∧
        t.perform st.instruction st.gpr = some t' ∧ StoresRight t t' st.write) ∧
      (∀ st ∈ l, (ramSubscript st.addr).toNat < ramWords) ∧
      (ramSubscript ld.addr).toNat < ramWords := by
  obtain ⟨u, hu, hbytes, hio, hcsr, hpriv⟩ := performs_stores hm l
  obtain ⟨v, hv, hvalue⟩ := perform_load hpriv ld
  refine ⟨u, v, hu, hv, fun x => ?_, hio, hcsr, hvalue, fun l₁ st _ _ => ?_,
    fun st _ => ?_, ?_⟩
  · rw [hbytes]
    exact ByteMap.stores_apply _ _ x
  · obtain ⟨t, ht, -, -, -, hpriv⟩ := performs_stores hm l₁
    obtain ⟨t', ht', hright⟩ := perform_store hpriv st
    exact ⟨t, t', ht, ht', hright⟩
  · exact RamAccess.ramSubscript_lt (n := accessSize (funct3 st.instruction)) st.access
  · exact RamAccess.ramSubscript_lt (n := accessSize (funct3 ld.instruction &&& 3)) ld.access

/-- `sb x2, 0(x1)`: the byte 0x80 to the last byte of RAM. -/
def lastByteStore : RamStore where
  instruction := 0x00208023
  gpr := fun r => if r = 1 then 0xBFFFFFFF else if r = 2 then 0x80 else 0
  opcode_eq := by decide
  kind := by decide
  access := ⟨by decide, by decide, by decide, by decide⟩

/-- `lh x3, -1(x1)` from the last half word of RAM. -/
def lastHalfLoad : RamLoad where
  instruction := 0xFFF09183
  gpr := fun r => if r = 1 then 0xBFFFFFFF else 0
  opcode_eq := by decide
  kind := by decide
  access := ⟨by decide, by decide, by decide, by decide⟩

theorem ram_byteMap_last :
    ∃ u v, (Cpu.machineOf 0).performs [lastByteStore] = some u ∧
      u.perform lastHalfLoad.instruction lastHalfLoad.gpr = some v ∧
      v.gpr 3 = lastHalfLoad.value u.ramBytes := by
  obtain ⟨u, v, hu, hv, -, -, -, hvalue, -⟩ :=
    ram_byteMap (Cpu.machineOf 0) rfl [lastByteStore] lastHalfLoad
  exact ⟨u, v, hu, hv, hvalue⟩

end TraceSim.Ref
