/-
TraceSim/Mem/StrideOverflow.lean

Overflow in the stride prefetcher (`PcStridePrefetcher::on_access`).

The stride and the candidate are computed with `int32_t`, and an overflow of a signed
operation is undefined in the source.  With partial operations a run is defined just if
every line of a pc, and every candidate, follows the line before it in the same half of
the address space or by the way around its end (`strideArithmetic_iff`).  The cut is at
`0x80000000`, not at 0, where addresses wrap around.
-/
import TraceSim.Lib.Lists
import TraceSim.Lib.SignedRange
import TraceSim.Mem.StrideRuns

namespace TraceSim

/-! ### The partial operations -/

/-- A difference of two `int32_t`, undefined on overflow. -/
def subInt32 (x y : BitVec 32) : Option (BitVec 32) :=
  if x.ssubOverflow y then none else some (x - y)

/-- A sum of two `int32_t`, undefined on overflow. -/
def addInt32 (x y : BitVec 32) : Option (BitVec 32) :=
  if x.saddOverflow y then none else some (x + y)

/-- What a line address does to the entry of its pc, with the operations of the
source. -/
def StrideEntry.observeDefined (entry : StrideEntry) (line : BitVec 32) :
    Option (Option PrefetchRequest × StrideEntry) :=
  if !entry.valid then
    some (none, { valid := true, lastLineAddr := line, lastStride := 0, confidence := 0 })
  else do
    let stride ← subInt32 line entry.lastLineAddr
    if stride = 0 then some (none, entry)
    else
      let trained :=
        if stride = entry.lastStride then
          { entry with
            confidence :=
              if entry.confidence < kMaxConfidence then entry.confidence + 1
              else entry.confidence }
        else { entry with lastStride := stride, confidence := 0 }
      let moved := { trained with lastLineAddr := line }
      if moved.confidence ≥ kTriggerConfidence then do
        let candidate ← addInt32 line stride
        some (some ⟨candidate⟩, moved)
      else some (none, moved)

/-- The method `PcStridePrefetcher::on_access` with the operations of the source. -/
def StrideTable.onAccessDefined (table : StrideTable) (info : PrefetcherAccessInfo) :
    Option (List PrefetchRequest × StrideTable) :=
  if info.pc = 0 ∨ info.lineSize = 0 then some ([], table)
  else do
    let (candidate, entry) ←
      (table info.pc).observeDefined (lineAddr info.addr info.lineSize)
    some (candidate.toList, Function.update table info.pc entry)

/-- The table after a sequence of accesses, if no operation has overflowed. -/
def onAccessesDefined (calls : List PrefetcherAccessInfo) : Option StrideTable :=
  calls.foldlM (fun table info => (table.onAccessDefined info).map Prod.snd) fun _ => {}

/-! ### Lines in range -/

/-- After the history `h` a line address follows the previous one, and the candidate
that it triggers follows the line. -/
def StrideInRange (h : List (BitVec 32)) (line : BitVec 32) : Prop :=
  (∀ prev, h.head? = some prev → Follows prev line) ∧
    ∀ s, StrideTriggers h line s → Follows line (line + s)

/-- Each access with a pc is in range after the accesses before it. -/
def CallsInRange (calls : List PrefetcherAccessInfo) : Prop :=
  ∀ before info after, calls = before ++ info :: after → info.pc ≠ 0 →
    StrideInRange (lineHistory info.pc before) (lineAddr info.addr info.lineSize)

theorem callsInRange_nil : CallsInRange [] := by
  intro before info after h
  exact absurd h (List.append_ne_nil_of_right_ne_nil _ (List.cons_ne_nil _ _)).symm

theorem callsInRange_concat (calls : List PrefetcherAccessInfo) (info : PrefetcherAccessInfo) :
    CallsInRange (calls ++ [info]) ↔ CallsInRange calls ∧ (info.pc ≠ 0 →
      StrideInRange (lineHistory info.pc calls) (lineAddr info.addr info.lineSize)) := by
  constructor
  · intro h
    refine ⟨?_, h calls info [] rfl⟩
    rintro before i after rfl
    exact h before i (after ++ [info]) (by rw [List.append_assoc, List.cons_append])
  · rintro ⟨hcalls, hinfo⟩ before i after h
    rcases append_eq_append_cons h with ⟨rest, rfl, -⟩ | ⟨rest, rfl, hlast⟩
    · exact hcalls before i rest rfl
    · obtain ⟨rfl, rfl, -⟩ : rest = [] ∧ info = i ∧ after = [] := by
        cases rest with
        | nil =>
          obtain ⟨hi, hafter⟩ := List.cons.inj hlast
          exact ⟨rfl, hi, hafter.symm⟩
        | cons j rest => simp at hlast
      rwa [List.append_nil]

/-! ### One access -/

section Operations

variable {x y : BitVec 32}

theorem subInt32_of_follows (h : Follows y x) : subInt32 x y = some (x - y) := by
  rw [subInt32, (ssubOverflow_eq_false_iff x y).mpr h]
  rfl

theorem subInt32_of_not_follows (h : ¬ Follows y x) : subInt32 x y = none := by
  rw [subInt32, if_pos]
  rwa [← Bool.not_eq_false, ssubOverflow_eq_false_iff]

theorem addInt32_of_follows (h : Follows x (x + y)) : addInt32 x y = some (x + y) := by
  rw [addInt32, saddOverflow_eq, (ssubOverflow_eq_false_iff _ x).mpr h]
  rfl

theorem addInt32_of_not_follows (h : ¬ Follows x (x + y)) : addInt32 x y = none := by
  rw [addInt32, saddOverflow_eq, if_pos]
  rwa [← Bool.not_eq_false, ssubOverflow_eq_false_iff]

end Operations

namespace StrideEntry

variable {entry : StrideEntry} {line : BitVec 32}

/-- What the two operations need of an entry and a line address. -/
def InRange (entry : StrideEntry) (line : BitVec 32) : Prop :=
  (entry.valid = true → Follows entry.lastLineAddr line) ∧
    ∀ request, (entry.observe line).1 = some request → Follows line request.addr

theorem observeDefined_first (hv : entry.valid = false) (line : BitVec 32) :
    entry.observeDefined line = some (entry.observe line) := by
  rw [observeDefined, observe, hv]
  rfl

theorem observeDefined_same (hv : entry.valid = true) (hline : line = entry.lastLineAddr) :
    entry.observeDefined line = some (entry.observe line) := by
  have hself : Follows entry.lastLineAddr entry.lastLineAddr := .inl rfl
  rw [observe_same hv hline, observeDefined, hv, hline, subInt32_of_follows hself,
    BitVec.sub_self]
  rfl

/-- A line that is not the previous one, and the stride in range. -/
theorem observeDefined_moved (hv : entry.valid = true) (hsub : Follows entry.lastLineAddr line)
    (hline : line - entry.lastLineAddr ≠ 0) :
    entry.observeDefined line
      = if kTriggerConfidence ≤ entry.trained (line - entry.lastLineAddr) then
          (addInt32 line (line - entry.lastLineAddr)).map fun candidate =>
            (some ⟨candidate⟩, (entry.observe line).2)
        else some (entry.observe line) := by
  rw [observe_moved hv hline, trained, observeDefined, subInt32_of_follows hsub, hv,
    Bool.not_true, if_neg Bool.false_ne_true]
  simp only [Option.bind_eq_bind, Option.bind_some, if_neg hline]
  by_cases hs : line - entry.lastLineAddr = entry.lastStride
  · simp only [hs, ge_iff_le, if_true]
    split_ifs
    · exact Option.map_eq_bind.symm
    · rfl
    · exact Option.map_eq_bind.symm
    · rfl
  · simp only [if_neg hs, ge_iff_le]
    split_ifs
    · exact Option.map_eq_bind.symm
    · rfl

/-- The stride is out of range. -/
theorem observeDefined_overflow (hv : entry.valid = true)
    (hsub : ¬ Follows entry.lastLineAddr line) : entry.observeDefined line = none := by
  rw [observeDefined, hv, subInt32_of_not_follows hsub]
  rfl

theorem inRange_first (hv : entry.valid = false) (line : BitVec 32) : entry.InRange line := by
  refine ⟨?_, ?_⟩
  · rw [hv]
    exact nofun
  · rw [observe_first hv]
    exact nofun

theorem inRange_same (hv : entry.valid = true) (hline : line = entry.lastLineAddr) :
    entry.InRange line := by
  refine ⟨?_, ?_⟩
  · intro _
    exact .inl (congrArg BitVec.msb hline.symm)
  · rw [observe_same hv hline]
    exact nofun

theorem inRange_moved (hv : entry.valid = true) (hline : line - entry.lastLineAddr ≠ 0) :
    entry.InRange line ↔ Follows entry.lastLineAddr line ∧
      (kTriggerConfidence ≤ entry.trained (line - entry.lastLineAddr) →
        Follows line (line + (line - entry.lastLineAddr))) := by
  rw [InRange, hv, observe_moved hv hline]
  simp only [true_implies, Option.ite_none_right_eq_some, Option.some.injEq]
  constructor
  · rintro ⟨hsub, hadd⟩
    exact ⟨hsub, fun ht => hadd _ ⟨ht, rfl⟩⟩
  · rintro ⟨hsub, hadd⟩
    refine ⟨hsub, ?_⟩
    rintro request ⟨ht, rfl⟩
    exact hadd ht

/-- **An access is defined** just if it is in range, and then computes what it does with
wrapping operations. -/
theorem observeDefined_eq (entry : StrideEntry) (line : BitVec 32) :
    (entry.InRange line → entry.observeDefined line = some (entry.observe line)) ∧
      (¬ entry.InRange line → entry.observeDefined line = none) := by
  rcases hv : entry.valid with - | -
  · exact ⟨fun _ => observeDefined_first hv line, fun h => absurd (inRange_first hv line) h⟩
  by_cases hline : line - entry.lastLineAddr = 0
  · have hsame := (BitVec.sub_eq_iff_eq_add.mp hline).trans (BitVec.zero_add _)
    exact ⟨fun _ => observeDefined_same hv hsame, fun h => absurd (inRange_same hv hsame) h⟩
  rw [inRange_moved hv hline]
  by_cases hsub : Follows entry.lastLineAddr line
  · rw [observeDefined_moved hv hsub hline]
    by_cases ht : kTriggerConfidence ≤ entry.trained (line - entry.lastLineAddr)
    · have hobs := observe_moved hv hline
      rw [if_pos ht] at hobs
      rw [if_pos ht]
      constructor
      · rintro ⟨-, hadd⟩
        rw [addInt32_of_follows (hadd ht), hobs]
        rfl
      · intro h
        rw [addInt32_of_not_follows fun hadd => h ⟨hsub, fun _ => hadd⟩]
        rfl
    · rw [if_neg ht]
      exact ⟨fun _ => rfl, fun h => absurd ⟨hsub, fun h' => absurd h' ht⟩ h⟩
  · rw [observeDefined_overflow hv hsub]
    exact ⟨fun h => absurd h.1 hsub, fun _ => rfl⟩

/-- The condition in terms of the history of the pc. -/
theorem Represents.inRange_iff {h : List (BitVec 32)} (hrep : entry.Represents h) :
    entry.InRange line ↔ StrideInRange h line := by
  have hobs := (hrep.observe line).2
  have hfirst : (entry.valid = true → Follows entry.lastLineAddr line)
      ↔ ∀ prev, h.head? = some prev → Follows prev line := by
    rw [hrep.valid, hrep.lastLineAddr]
    cases h with
    | nil => simp
    | cons last rest => simp
  rw [InRange, StrideInRange, hfirst]
  refine and_congr_right fun _ => ?_
  constructor
  · intro hadd s hs
    exact hadd ⟨line + s⟩ ((hobs _).mpr ⟨s, hs, rfl⟩)
  · intro hadd request hrequest
    obtain ⟨s, hs, rfl⟩ := (hobs request).mp hrequest
    exact hadd s hs

end StrideEntry

/-! ### Runs -/

variable {calls : List PrefetcherAccessInfo} {info : PrefetcherAccessInfo} {table : StrideTable}

/-- One access of a run. -/
theorem StrideTable.Summarizes.onAccessDefined (h : table.Summarizes calls)
    (hls : info.lineSize ≠ 0) :
    ((info.pc ≠ 0 →
        StrideInRange (lineHistory info.pc calls) (lineAddr info.addr info.lineSize)) →
      table.onAccessDefined info = some (table.onAccess info)) ∧
    (¬ (info.pc ≠ 0 →
        StrideInRange (lineHistory info.pc calls) (lineAddr info.addr info.lineSize)) →
      table.onAccessDefined info = none) := by
  by_cases hpc : info.pc = 0
  · rw [StrideTable.onAccess_zero table hpc, StrideTable.onAccessDefined, if_pos (.inl hpc)]
    exact ⟨fun _ => rfl, fun hnot => absurd (fun hne => absurd hpc hne) hnot⟩
  · obtain ⟨hdefined, hundefined⟩ :=
      (table info.pc).observeDefined_eq (lineAddr info.addr info.lineSize)
    rw [(h info.pc hpc).inRange_iff] at hdefined hundefined
    rw [StrideTable.onAccess_pc table hpc hls, StrideTable.onAccessDefined,
      if_neg (not_or.mpr ⟨hpc, hls⟩)]
    constructor
    · intro hin
      rw [hdefined (hin hpc)]
      rfl
    · intro hnot
      rw [hundefined fun hin => hnot fun _ => hin]
      rfl

theorem onAccessesDefined_concat (calls : List PrefetcherAccessInfo)
    (info : PrefetcherAccessInfo) :
    onAccessesDefined (calls ++ [info])
      = (onAccessesDefined calls).bind fun table =>
          (table.onAccessDefined info).map Prod.snd := by
  rw [onAccessesDefined, List.foldlM_append]
  simp only [List.foldlM_cons, List.foldlM_nil, bind_pure]
  rfl

/-- **A run is defined** just if all its accesses are in range. -/
theorem onAccessesDefined_eq (hls : ∀ info ∈ calls, info.lineSize ≠ 0) :
    (CallsInRange calls → ∃ table, onAccessesDefined calls = some table ∧
        onAccesses (makePrefetcher .pcStride) calls = .pcStride table) ∧
      (¬ CallsInRange calls → onAccessesDefined calls = none) := by
  -- from the last call backwards
  induction calls using List.reverseRecOn with
  | nil => exact ⟨fun _ => ⟨_, rfl, rfl⟩, fun h => absurd callsInRange_nil h⟩
  | append_singleton calls info ih =>
    have hcalls : ∀ i ∈ calls, i.lineSize ≠ 0 := fun i hi => hls i (List.mem_append_left _ hi)
    have hinfo : info.lineSize ≠ 0 := hls info (by simp)
    obtain ⟨ihdefined, ihundefined⟩ := ih hcalls
    rw [callsInRange_concat, onAccessesDefined_concat]
    -- undefined once is undefined for good
    by_cases hbefore : CallsInRange calls
    · obtain ⟨table, hdefined, htable⟩ := ihdefined hbefore
      obtain ⟨table', htable', hsum⟩ := exists_summarizes hcalls
      obtain rfl : table = table' :=
        BuiltinPrefetcher.pcStride.inj (htable.symm.trans htable')
      obtain ⟨hlast, hundefined⟩ := hsum.onAccessDefined hinfo
      rw [hdefined, Option.bind_some]
      constructor
      · rintro ⟨-, hin⟩
        refine ⟨(table.onAccess info).2, ?_, ?_⟩
        · rw [hlast hin]
          rfl
        · rw [onAccesses, List.foldl_append]
          rw [onAccesses] at htable
          rw [htable]
          rfl
      · intro hnot
        rw [hundefined fun hin => hnot ⟨hbefore, hin⟩]
        rfl
    · rw [ihundefined hbefore]
      exact ⟨fun h => absurd h.1 hbefore, fun _ => rfl⟩

/-- **The stride arithmetic of a run stays in range** just if every line address of a
pc follows the one before it, and every candidate follows its line. -/
theorem strideArithmetic_iff (hls : ∀ info ∈ calls, info.lineSize ≠ 0) :
    (∃ table, onAccessesDefined calls = some table ∧
      onAccesses (makePrefetcher .pcStride) calls = .pcStride table) ↔ CallsInRange calls := by
  obtain ⟨hdefined, hundefined⟩ := onAccessesDefined_eq hls
  constructor
  · rintro ⟨table, htable, -⟩
    by_contra hnot
    rw [hundefined hnot] at htable
    cases htable
  · exact hdefined

/-- A stream of one pc in the upper half. -/
def kernelCalls : List PrefetcherAccessInfo :=
  [{ pc := 8, addr := 0xC0001004, lineSize := 64 },
    { pc := 8, addr := 0xC0001044, lineSize := 64 },
    { pc := 8, addr := 0xC0001084, lineSize := 64 },
    { pc := 8, addr := 0xC00010C4, lineSize := 64 }]

theorem strideArithmetic_kernelCalls : CallsInRange kernelCalls :=
  (strideArithmetic_iff (by decide)).mp ⟨_, rfl, rfl⟩

/-- A line of the lower half and one of the upper half, and a stream that reaches the
end of the lower half: the stride overflows, and the candidate. -/
theorem stride_overflows :
    onAccessesDefined
        [{ pc := 8, addr := 0x00001000, lineSize := 64 },
          { pc := 8, addr := 0x80000000, lineSize := 64 }] = none ∧
      onAccessesDefined
        [{ pc := 8, addr := 0x7FFFFF00, lineSize := 64 },
          { pc := 8, addr := 0x7FFFFF40, lineSize := 64 },
          { pc := 8, addr := 0x7FFFFF80, lineSize := 64 },
          { pc := 8, addr := 0x7FFFFFC0, lineSize := 64 }] = none := by
  constructor
  · rfl
  · rfl

end TraceSim
