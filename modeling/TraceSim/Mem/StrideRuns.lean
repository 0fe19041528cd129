/-
TraceSim/Mem/StrideRuns.lean

What the stride prefetcher means (`PcStridePrefetcher`).

Its table keeps of every pc the last line, the last stride and a saturating
confidence.  These are functions of the history of the pc's line addresses without
consecutive repetitions (`StrideEntry.Represents`): the confidence is the number of
times the newest stride was repeated, cut off at `kMaxConfidence`.
-/
import Mathlib.Data.List.Induction
import TraceSim.Lib.Strides
import TraceSim.Mem.Prefetcher

namespace TraceSim

/-! ### One entry and one history -/

/-- The entry is the summary of the collapsed history `h`, newest line first. -/
structure StrideEntry.Represents (entry : StrideEntry) (h : List (BitVec 32)) : Prop where
  valid : entry.valid = !h.isEmpty
  lastLineAddr : entry.lastLineAddr = h.headD 0
  lastStride : entry.lastStride = (strides h).headD 0
  confidence : entry.confidence = min kMaxConfidence (repeats (strides h))

theorem StrideEntry.represents_nil : StrideEntry.Represents {} [] := by
  constructor <;> rfl

/-- After the history `h`, a line address triggers a prefetch with the stride
`s`: it differs from the previous line and makes the last three strides `s`. -/
def StrideTriggers (h : List (BitVec 32)) (line s : BitVec 32) : Prop :=
  h.head? ≠ some line ∧ (strides (line :: h)).take 3 = [s, s, s]

/-- The history after a further line address. -/
def extendHistory (h : List (BitVec 32)) (line : BitVec 32) : List (BitVec 32) :=
  if h.head? = some line then h else line :: h

/-- The confidence that a stride leaves behind. -/
def StrideEntry.trained (entry : StrideEntry) (stride : BitVec 32) : ℕ :=
  if stride = entry.lastStride then
    if entry.confidence < kMaxConfidence then entry.confidence + 1 else entry.confidence
  else 0

theorem StrideEntry.Represents.trained {entry : StrideEntry} {h : List (BitVec 32)}
    (hrep : entry.Represents h) {stride : BitVec 32} (hs : stride ≠ 0) :
    entry.trained stride = min kMaxConfidence (repeats (stride :: strides h)) := by
  rw [StrideEntry.trained, hrep.lastStride, hrep.confidence]
  rcases strides h with - | ⟨last, rest⟩
  · rw [List.headD_nil, if_neg hs]
    rfl
  · rw [List.headD_cons]
    by_cases hlast : stride = last
    · subst hlast
      rw [if_pos rfl, repeats_cons_self]
      split_ifs with hlt
      · omega
      · omega
    · rw [if_neg hlast, repeats_cons_of_ne hlast]
      rfl

/-! ### One access -/

theorem StrideEntry.observe_first {entry : StrideEntry} (hv : entry.valid = false)
    (line : BitVec 32) :
    entry.observe line = (none, { valid := true, lastLineAddr := line }) := by
  rw [observe, if_pos (by rw [hv]; rfl)]

theorem StrideEntry.observe_same {entry : StrideEntry} (hv : entry.valid = true)
    {line : BitVec 32} (hline : line = entry.lastLineAddr) :
    entry.observe line = (none, entry) := by
  rw [observe, if_neg (by rw [hv]; decide), hline]
  exact if_pos (BitVec.sub_self _)

theorem StrideEntry.observe_moved {entry : StrideEntry} (hv : entry.valid = true)
    {line : BitVec 32} (hline : line - entry.lastLineAddr ≠ 0) :
    entry.observe line
      = (if kTriggerConfidence ≤ entry.trained (line - entry.lastLineAddr)
          then some ⟨line + (line - entry.lastLineAddr)⟩ else none,
        { lastLineAddr := line, lastStride := line - entry.lastLineAddr,
          confidence := entry.trained (line - entry.lastLineAddr), valid := true }) := by
  rw [observe, if_neg (by rw [hv]; decide), StrideEntry.trained]
  simp only [if_neg hline]
  by_cases hs : line - entry.lastLineAddr = entry.lastStride
  · simp only [hs, ge_iff_le, hv]
    split_ifs <;> rfl
  · simp only [if_neg hs, ge_iff_le, hv]
    split_ifs <;> rfl

/-- **One access** keeps the entry a summary of the history, and yields the next
line of the stride exactly if the last three strides agree. -/
theorem StrideEntry.Represents.observe {entry : StrideEntry} {h : List (BitVec 32)}
    (hrep : entry.Represents h) (line : BitVec 32) :
    (entry.observe line).2.Represents (extendHistory h line) ∧
      ∀ request, (entry.observe line).1 = some request ↔
        ∃ s, StrideTriggers h line s ∧ request = ⟨line + s⟩ := by
  rcases h with - | ⟨last, rest⟩
  · -- the first line of the pc has no stride
    rw [StrideEntry.observe_first hrep.valid, extendHistory, if_neg (by simp)]
    refine ⟨⟨rfl, rfl, rfl, rfl⟩, fun request => ⟨nofun, ?_⟩⟩
    rintro ⟨s, ⟨-, hs⟩, -⟩
    cases hs
  have hlast : entry.lastLineAddr = last := hrep.lastLineAddr
  by_cases hline : line = last
  · -- the line of the previous access
    rw [StrideEntry.observe_same hrep.valid (hline.trans hlast.symm), extendHistory,
      if_pos (by rw [hline]; rfl)]
    refine ⟨hrep, fun request => ⟨nofun, ?_⟩⟩
    rintro ⟨s, ⟨hne, -⟩, -⟩
    exact absurd (by rw [hline]; rfl) hne
  · have hs : line - last ≠ 0 := fun h => hline (BitVec.sub_eq_iff_eq_add.1 h |>.trans (by simp))
    have hhead : (last :: rest).head? ≠ some line := fun h => hline (Option.some.inj h).symm
    have htrained := hrep.trained hs
    rw [StrideEntry.observe_moved hrep.valid (by rwa [hlast]), extendHistory, if_neg hhead, hlast]
    refine ⟨⟨rfl, rfl, rfl, htrained⟩, ?_⟩
    intro request
    have htrigger : kTriggerConfidence ≤ entry.trained (line - last)
        ↔ ∃ s, (strides (line :: last :: rest)).take 3 = [s, s, s] := by
      rw [← two_le_repeats, htrained, strides_cons_cons, Nat.le_min]
      exact ⟨fun h => h.2, fun h => ⟨by decide, h⟩⟩
    constructor
    · intro h
      split_ifs at h with ht
      · obtain ⟨s, htake⟩ := htrigger.1 ht
        have hhd : line - last = s := by
          rw [strides_cons_cons, List.take_succ_cons] at htake
          exact (List.cons.inj htake).1
        exact ⟨s, ⟨hhead, htake⟩, by rw [← hhd]; exact (Option.some.inj h).symm⟩
    · rintro ⟨s, ⟨-, htake⟩, rfl⟩
      have hhd : line - last = s := by
        rw [strides_cons_cons, List.take_succ_cons] at htake
        exact (List.cons.inj htake).1
      rw [if_pos (htrigger.2 ⟨s, htake⟩), hhd]

/-! ### Runs -/

/-- The state after a sequence of accesses. -/
def onAccesses (p : BuiltinPrefetcher) (calls : List PrefetcherAccessInfo) : BuiltinPrefetcher :=
  calls.foldl (fun p info => (p.onAccess info).2) p

/-- The line addresses of a pc, newest first and without consecutive
repetitions. -/
def lineHistory (pc : BitVec 32) (calls : List PrefetcherAccessInfo) : List (BitVec 32) :=
  collapse (((calls.filter fun info => info.pc = pc).map
    fun info => lineAddr info.addr info.lineSize).reverse)

/-- Every entry of the table is the summary of the history of its pc. -/
def StrideTable.Summarizes (table : StrideTable) (calls : List PrefetcherAccessInfo) : Prop :=
  ∀ pc, pc ≠ 0 → (table pc).Represents (lineHistory pc calls)

theorem lineHistory_append (pc : BitVec 32) (calls : List PrefetcherAccessInfo)
    (info : PrefetcherAccessInfo) :
    lineHistory pc (calls ++ [info])
      = if info.pc = pc then
          extendHistory (lineHistory pc calls) (lineAddr info.addr info.lineSize)
        else lineHistory pc calls := by
  rw [lineHistory, List.filter_append, List.map_append, List.reverse_append]
  by_cases hpc : info.pc = pc
  · rw [if_pos hpc, List.filter_cons_of_pos (by simpa using hpc)]
    rfl
  · rw [if_neg hpc, List.filter_cons_of_neg (by simpa using hpc)]
    rfl

/-- An access with a pc. -/
theorem StrideTable.onAccess_pc (table : StrideTable) {info : PrefetcherAccessInfo}
    (hpc : info.pc ≠ 0) (hls : info.lineSize ≠ 0) :
    table.onAccess info
      = (((table info.pc).observe (lineAddr info.addr info.lineSize)).1.toList,
        Function.update table info.pc
          ((table info.pc).observe (lineAddr info.addr info.lineSize)).2) := by
  rw [onAccess, if_neg (not_or.2 ⟨hpc, hls⟩)]

/-- An access without a pc. -/
theorem StrideTable.onAccess_zero (table : StrideTable) {info : PrefetcherAccessInfo}
    (hpc : info.pc = 0) : table.onAccess info = ([], table) := by
  rw [onAccess, if_pos (Or.inl hpc)]

theorem StrideTable.Summarizes.onAccess {table : StrideTable}
    {calls : List PrefetcherAccessInfo} (h : table.Summarizes calls)
    {info : PrefetcherAccessInfo} (hls : info.lineSize ≠ 0) :
    (table.onAccess info).2.Summarizes (calls ++ [info]) := by
  intro pc hpc
  rw [lineHistory_append]
  by_cases hzero : info.pc = 0
  · rw [StrideTable.onAccess_zero table hzero, if_neg (by rw [hzero]; exact hpc.symm)]
    exact h pc hpc
  rw [StrideTable.onAccess_pc table hzero hls]
  by_cases hinfo : info.pc = pc
  · subst hinfo
    rw [if_pos rfl]
    simp only [Function.update_self]
    exact ((h info.pc hpc).observe _).1
  · rw [if_neg hinfo]
    simp only [Function.update_of_ne (Ne.symm hinfo)]
    exact h pc hpc

/-- **The table after any run** summarizes the histories of all pcs. -/
theorem exists_summarizes {calls : List PrefetcherAccessInfo}
    (hls : ∀ info ∈ calls, info.lineSize ≠ 0) :
    ∃ table : StrideTable, onAccesses (makePrefetcher .pcStride) calls = .pcStride table
      ∧ table.Summarizes calls := by
  induction calls using List.reverseRecOn with
  | nil => exact ⟨fun _ => {}, rfl, fun _ _ => StrideEntry.represents_nil⟩
  | append_singleton calls info ih =>
      obtain ⟨table, htable, hsum⟩ := ih fun i hi => hls i (List.mem_append_left _ hi)
      refine ⟨(table.onAccess info).2, ?_, hsum.onAccess (hls info (by simp))⟩
      rw [onAccesses, List.foldl_append]
      rw [onAccesses] at htable
      rw [htable]
      rfl

/-- Accesses without a pc leave no trace in a run. -/
theorem onAccesses_filter (table : StrideTable) (calls : List PrefetcherAccessInfo) :
    onAccesses (.pcStride table) (calls.filter fun info => info.pc ≠ 0)
      = onAccesses (.pcStride table) calls := by
  induction calls generalizing table with
  | nil => rfl
  | cons info calls ih =>
      by_cases hpc : info.pc = 0
      · rw [List.filter_cons_of_neg (by simp [hpc]), ih]
        show _ = onAccesses (.pcStride (table.onAccess info).2) calls
        rw [StrideTable.onAccess_zero table hpc]
      · rw [List.filter_cons_of_pos (by simpa using hpc)]
        exact ih (table.onAccess info).2

/-- **The stride prefetcher equals its meaning.**  After any sequence of accesses,
an access with a pc yields a candidate exactly if its line differs from the
previous one of the pc and the last three strides agree, and then the one line that
follows with that stride; an access without a pc yields nothing and changes
nothing, in this and in every later call. -/
theorem pcStride_spec {n : ℕ} (hn : n < 32) (calls : List PrefetcherAccessInfo)
    (info : PrefetcherAccessInfo)
    (hls : ∀ i ∈ info :: calls, i.lineSize = BitVec.twoPow 32 n) :
    let p := onAccesses (makePrefetcher .pcStride) calls
    let line := lineAddr info.addr info.lineSize
    let history := lineHistory info.pc calls
    (info.pc ≠ 0 →
        ((p.onAccess info).1 ≠ [] ↔ ∃ s, StrideTriggers history line s) ∧
        ∀ s, StrideTriggers history line s → (p.onAccess info).1 = [⟨line + s⟩]) ∧
      (info.pc = 0 → p.onAccess info = ([], p)) ∧
      onAccesses (makePrefetcher .pcStride) (calls.filter fun i => i.pc ≠ 0) = p := by
  -- a power of two that fits is not 0
  have hne : ∀ i ∈ info :: calls, i.lineSize ≠ 0 := by
    intro i hi
    rw [hls i hi]
    intro h
    have hpow : (BitVec.twoPow 32 n).toNat = 0 := congrArg BitVec.toNat h
    rw [BitVec.toNat_twoPow, Nat.mod_eq_of_lt (Nat.pow_lt_pow_right (by decide) hn)] at hpow
    exact absurd hpow (Nat.ne_of_gt (Nat.two_pow_pos n))
  -- the table summarises the lines that each pc has accessed
  obtain ⟨table, htable, hsum⟩ := exists_summarizes fun i hi => hne i (List.mem_cons_of_mem _ hi)
  intro p line history
  have hp : p = .pcStride table := htable
  refine ⟨?_, ?_, onAccesses_filter _ calls⟩
  · intro hpc
    have hlist : (p.onAccess info).1 = ((table info.pc).observe line).1.toList := by
      rw [hp]
      show (table.onAccess info).1 = _
      rw [StrideTable.onAccess_pc table hpc (hne info List.mem_cons_self)]
    have hobs := ((hsum info.pc hpc).observe line).2
    rw [hlist]
    refine ⟨⟨?_, ?_⟩, ?_⟩
    · intro h
      rcases ho : ((table info.pc).observe line).1 with - | request
      · exact absurd (by rw [ho]; rfl) h
      · obtain ⟨s, hs, -⟩ := (hobs request).1 ho
        exact ⟨s, hs⟩
    · rintro ⟨s, hs⟩
      rw [(hobs _).2 ⟨s, hs, rfl⟩]
      exact List.cons_ne_nil _ _
    · intro s hs
      rw [(hobs _).2 ⟨s, hs, rfl⟩]
      rfl
  · intro hpc
    rw [hp]
    show ((table.onAccess info).1, BuiltinPrefetcher.pcStride (table.onAccess info).2) = _
    rw [StrideTable.onAccess_zero table hpc]

/-- Three calls of one pc at consecutive lines, with calls of another pc and of
none in between. -/
def strideCalls : List PrefetcherAccessInfo :=
  [{ pc := 8, addr := 0x1004, lineSize := 64 }, { pc := 12, addr := 0x5000, lineSize := 64 },
    { pc := 8, addr := 0x1008, lineSize := 64 }, { pc := 8, addr := 0x1040, lineSize := 64 },
    { pc := 0, addr := 0x7000, lineSize := 64 }, { pc := 8, addr := 0x1080, lineSize := 64 }]

/-- The fourth line of the stream in `strideCalls` triggers. -/
theorem pcStride_spec_strideCalls :
    ((onAccesses (makePrefetcher .pcStride) strideCalls).onAccess
      { pc := 8, addr := 0x10c0, lineSize := 64 }).1 = [⟨0x1100⟩] :=
  ((pcStride_spec (n := 6) (by decide) strideCalls
      { pc := 8, addr := 0x10c0, lineSize := 64 } (by decide)).1 (by decide)).2
    64 ⟨by decide, by decide⟩

end TraceSim
