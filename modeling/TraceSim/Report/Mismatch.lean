/-
TraceSim/Report/Mismatch.lean

No report is accepted by its reader.

The reader asks for the line `--- Phase Simulation Statistics ---`, which no function
prints, and for cache lines of the form `I-Cache: 5 accesses, Hit Rate: 80.00%`,
where the printer writes `I-Cache: hit/access=4/5`.  What a run prints, whatever its
counters are, is `Plain`: it holds no escape sequence, no `P` in front of an `h` and
no `s` in front of a comma.  The header needs the first pair and a cache line the
second, so `parse_log` reports a missing section (`Reported.parseLog_eq`), and would
find no cache line if it went on (`Reported.cacheLines_eq_nil`).
-/
import TraceSim.Report.ParseLog

namespace TraceSim

/-! ### Texts without a match -/

/-- The text lacks what the patterns need: the start of an escape sequence, a `P` in front
of an `h`, an `s` in front of a comma.  No piece ends in `P` or `s`, so that pieces can be
joined. -/
structure Plain (t : Text) : Prop where
  escape : '\x1b' ∉ t
  phase : Apart 'P' 'h' t
  comma : Apart 's' ',' t

namespace Plain

variable {t t' : Text}

instance : Decidable (Plain t) :=
  decidable_of_iff ('\x1b' ∉ t ∧ Apart 'P' 'h' t ∧ Apart 's' ',' t)
    ⟨fun h => ⟨h.1, h.2.1, h.2.2⟩, fun h => ⟨h.escape, h.phase, h.comma⟩⟩

theorem nil : Plain [] := ⟨List.not_mem_nil, .nil, .nil⟩

theorem append (h : Plain t) (h' : Plain t') : Plain (t ++ t') :=
  ⟨fun hesc => (List.mem_append.mp hesc).elim h.escape h'.escape,
    h.phase.append h'.phase, h.comma.append h'.comma⟩

theorem flatten {ts : List Text} (h : ∀ t ∈ ts, Plain t) : Plain ts.flatten := by
  refine ⟨?_, .flatten fun t ht => (h t ht).phase, .flatten fun t ht => (h t ht).comma⟩
  intro hesc
  obtain ⟨t, ht, hmem⟩ := List.mem_flatten.mp hesc
  exact (h t ht).escape hmem

theorem ite {c : Prop} [Decidable c] (h : c → Plain t) (h' : Plain t') :
    Plain (if c then t else t') := by
  split_ifs with hc
  · exact h hc
  · exact h'

/-- Digits, blanks and points are plain. -/
theorem of_forall (h : ∀ c ∈ t, c ≠ '\x1b' ∧ c ≠ 'P' ∧ c ≠ 's') : Plain t :=
  ⟨fun hmem => (h _ hmem).1 rfl, .of_notMem fun hmem => (h _ hmem).2.1 rfl,
    .of_notMem fun hmem => (h _ hmem).2.2 rfl⟩

/-- There is nothing to strip. -/
theorem stripAnsi_eq (h : Plain t) : stripAnsi t = t := by
  have hneeds : Reader.Needs ['\x1b'] regexAnsi :=
    ((Reader.needs_lit (str "\x1b[")).mono ⟨[], ['['], rfl⟩).bind
  refine Reader.Needs.remove (fun _ => hneeds) fun hfound => ?_
  exact h.escape (hfound.subset (List.mem_singleton_self _))

/-- The header has `Phase` in it. -/
theorem phaseHeader_not_infix (h : Plain t) : ¬ phaseHeader <:+: t := fun hfound =>
  h.phase.not_infix
    (List.IsInfix.trans ⟨str "--- ", str "ase Simulation Statistics ---", rfl⟩ hfound)

/-- **The reader rejects a text that is plain.** -/
theorem parseLog_eq (h : Plain t) : parseLog t = .error "missing phase statistics section" := by
  unfold parseLog
  rw [h.stripAnsi_eq, if_pos h.phaseHeader_not_infix]

end Plain

/-- A group reads its word and gives it back. -/
theorem consumes_group (w : Text) : (group w).Consumes :=
  (Reader.consumes_lit w).bind fun _ => Reader.consumes_pure w

/-- A cache line has the word `accesses,` in it, behind the name of the cache and a
number. -/
theorem needs_regexCacheLine (prev : Option Char) :
    Reader.Needs ['s', ','] (regexCacheLine prev) := by
  have hword : Reader.Needs ['s', ','] (Reader.lit (str "accesses,")) :=
    (Reader.needs_lit _).mono ⟨str "accesse", [], rfl⟩
  refine .after (Reader.consumes_check _) fun _ => ?_
  refine .after ((consumes_group _).orElse ((consumes_group _).orElse (consumes_group _)))
    fun _ => ?_
  refine .after (Reader.consumes_lit _) fun _ => ?_
  refine .after (Reader.consumes_many1 _) fun _ => ?_
  refine .after (Reader.consumes_many1 _) fun _ => ?_
  refine .after (Reader.consumes_many1 _) fun _ => ?_
  exact hword.bind

/-- The report has no such word. -/
theorem Plain.cacheLines_eq_nil {t : Text} (h : Plain t) :
    Reader.findAll regexCacheLine (stripAnsi t) = [] := by
  rw [h.stripAnsi_eq]
  exact Reader.Needs.findAll needs_regexCacheLine h.comma.not_infix

/-! ### Numbers -/

/-- The characters of a number are digits of its base. -/
theorem mem_toDigits {b n : ℕ} {c : Char} (hb : 1 < b) (h : c ∈ Nat.toDigits b n) :
    ∃ d < b, c = Nat.digitChar d := by
  induction n using Nat.strong_induction_on with
  | _ n ih =>
    rcases Nat.lt_or_ge n b with hn | hn
    · rw [Nat.toDigits_of_lt_base hn, List.mem_singleton] at h
      exact ⟨n, hn, h⟩
    · rw [Nat.toDigits_of_base_le hb hn, List.mem_append, List.mem_singleton] at h
      rcases h with h | h
      · exact ih (n / b) (Nat.div_lt_self (by omega) hb) h
      · exact ⟨n % b, Nat.mod_lt n (by omega), h⟩

/-- No digit up to base 16 is one of the letters in question. -/
theorem plain_toDigits {b : ℕ} (hb : 1 < b) (hb' : b ≤ 16) (n : ℕ) :
    Plain (Nat.toDigits b n) := by
  refine .of_forall fun c hc => ?_
  obtain ⟨d, hd, rfl⟩ := mem_toDigits hb hc
  have hdigits : ∀ d < 16, Nat.digitChar d ≠ '\x1b' ∧ Nat.digitChar d ≠ 'P'
      ∧ Nat.digitChar d ≠ 's' := by decide
  exact hdigits d (hd.trans_le hb')

/-- Counters, in whatever size. -/
theorem plain_dec (n : ℕ) : Plain (dec n) := plain_toDigits (by decide) (by decide) n

/-- And the pc, which is printed in base 16. -/
theorem plain_hex (n : ℕ) : Plain (hex n) := plain_toDigits (by decide) (by decide) n

/-- Digits and a point, however the format rounds. -/
theorem FloatFormat.plain_fixed (fmt : FloatFormat) (precision num scale : ℕ) {den : ℕ}
    (hden : 0 < den) : Plain (fmt.fixed precision num scale den) := by
  refine .of_forall fun c hc => ?_
  rcases fmt.chars precision num scale den hden c hc with hdigit | rfl
  · refine ⟨?_, ?_, ?_⟩
    all_goals
      rintro rfl
      exact absurd hdigit (by decide)
  · decide

/-- Padding adds blanks in front. -/
theorem plain_leftpad {t : Text} (n : ℕ) (h : Plain t) : Plain (t.leftpad n ' ') := by
  refine .append (.of_forall fun c hc => ?_) h
  rw [(List.mem_replicate.mp hc).2]
  decide

/-! ### The printed pieces -/

section Pieces

variable (fmt : FloatFormat)

/-- The names of the buckets are plain, as one finds by going through them. -/
theorem plain_bucketLine (bucket : TopDownBucket) (count : ℕ) {relCycles : ℕ}
    (h : 0 < relCycles) : Plain (Profiler.bucketLine fmt bucket count relCycles) := by
  have hname : Plain ((Profiler.bucketToString bucket).rightpad 20 ' ') := by
    cases bucket <;> decide
  have hpercent := plain_leftpad 6 (fmt.plain_fixed 1 count 100 h)
  refine .flatten ?_
  simp only [List.forall_mem_cons, hname, hpercent, plain_dec, true_and]
  decide

/-- The summary of the profiler, with or without cycles and branches to report on. -/
theorem plain_printSummary (p : Profiler) : Plain (p.printSummary fmt) := by
  unfold Profiler.printSummary
  extract_lets relInst relCycles
  have hipc : Plain (if 0 < relCycles then
      [str "  Overall IPC:          ", fmt.fixed 2 relInst 1 relCycles, str "\n"].flatten
      else []) := by
    refine .ite (fun h => .flatten ?_) .nil
    simp only [List.forall_mem_cons, fmt.plain_fixed 2 relInst 1 h, true_and]
    decide
  have hmatrix : Plain (if 0 < relCycles then
      (Profiler.printOrder.map fun bucket =>
        Profiler.bucketLine fmt bucket (p.topdownCounters bucket) relCycles).flatten
      else []) := by
    refine .ite (fun h => .flatten fun t ht => ?_) .nil
    obtain ⟨bucket, -, rfl⟩ := List.mem_map.mp ht
    exact plain_bucketLine fmt bucket _ h
  have hbranches : Plain (if 0 < p.stats.totalBranches then
      [str "  Total Branches:       ", dec p.stats.totalBranches, str "\n",
        str "  Accuracy:             ",
        fmt.fixed 2 p.stats.correctBranches 100 p.stats.totalBranches, str "%\n"].flatten
      else []) := by
    refine .ite (fun h => .flatten ?_) .nil
    simp only [List.forall_mem_cons, fmt.plain_fixed 2 _ 100 h, plain_dec, true_and]
    decide
  refine .flatten ?_
  simp only [List.forall_mem_cons, hipc, hmatrix, hbranches, plain_dec, true_and]
  decide

/-- `hit/access=` and the others are no `accesses,`. -/
theorem plain_printCacheStats {name : Text} (h : Plain name) (cur base : CacheCounters) :
    Plain (printCacheStats name cur base) := by
  refine .flatten ?_
  simp only [List.forall_mem_cons, h, plain_dec, true_and]
  decide

/-- The counters of a prefetch queue. -/
theorem plain_printQueueStats {name : Text} (h : Plain name)
    (cur base : QueueCounterSnapshot) : Plain (printQueueStats name cur base) := by
  refine .flatten ?_
  simp only [List.forall_mem_cons, h, plain_dec, true_and]
  decide

/-- The names are `I-Cache`, `D-Cache` and `LLC`. -/
theorem MemSubsystem.plain_printStats {P : Type} (m : MemSubsystem P) :
    Plain m.printStats := by
  have hicache : Plain (str "I-Cache") := by decide
  have hdcache : Plain (str "D-Cache") := by decide
  have hllc : Plain (str "LLC") := by decide
  refine .flatten ?_
  simp only [List.forall_mem_cons, plain_printCacheStats hicache,
    plain_printCacheStats hdcache, plain_printCacheStats hllc, plain_printQueueStats hicache,
    plain_printQueueStats hdcache, true_and]
  decide

/-- The line about the record that ends the trace. -/
theorem Sim.plain_printEncounter (inst : TraceInst) : Plain (Sim.printEncounter inst) := by
  refine .ite (fun _ => .flatten ?_) .nil
  have hname : Plain (if inst.isWfi then str "WFI" else str "EBREAK") :=
    .ite (fun _ => by decide) (by decide)
  simp only [List.forall_mem_cons, hname, plain_hex, true_and]
  decide

end Pieces

/-! ### The report of a run -/

namespace Sim

variable {P B : Type} {cfg : Config P B} {fmt : FloatFormat}

/-- The profile of the loads, with the mean latency where there is one. -/
theorem plain_printLoadProfile (s : Sim P B) : Plain (s.printLoadProfile fmt) := by
  unfold printLoadProfile
  extract_lets cur base total
  have hlatency : Plain (if 0 < total then
      [str ", avg_latency=",
        fmt.fixed 2 (u64Sub cur.totalLatency base.totalLatency) 1 total].flatten
      else []) := by
    refine .ite (fun h => .flatten ?_) .nil
    simp only [List.forall_mem_cons, fmt.plain_fixed 2 _ 1 h, true_and]
    decide
  refine .flatten ?_
  simp only [List.forall_mem_cons, hlatency, plain_dec, true_and]
  decide

/-- What `print_stats` prints, which is the same at the end of the warm-up and at the end
of the run. -/
theorem plain_printStats (s : Sim P B) : Plain (s.printStats cfg fmt) := by
  have hprofile : Plain (if cfg.enableDependentLoadProfiling then s.printLoadProfile fmt
      else []) := .ite (fun _ => s.plain_printLoadProfile) .nil
  refine .flatten ?_
  simp only [List.forall_mem_cons, plain_printSummary, MemSubsystem.plain_printStats, hprofile,
    true_and]
  decide

/-- The banner names the sizes of the machine. -/
theorem plain_banner : Plain (banner cfg) := by
  refine .flatten ?_
  simp only [List.forall_mem_cons, plain_dec, true_and]
  decide

/-- The header of this section is `--- WARMUP PHASE STATISTICS ---`, in capitals. -/
theorem plain_printWarmup (s : Sim P B) : Plain (s.printWarmup cfg fmt) := by
  refine .ite (fun _ => .flatten ?_) .nil
  simp only [List.forall_mem_cons, plain_printStats]
  decide

/-- The text behind the loop. -/
theorem plain_printEnd (s : Sim P B) : Plain (s.printEnd cfg fmt) := by
  have htimeout : Plain (if s.totalCycles > maxSimTime then
      str "Simulation timeout reached!\n" else []) := .ite (fun _ => by decide) .nil
  refine .flatten ?_
  simp only [List.forall_mem_cons, htimeout, plain_printStats]
  decide

variable [CachePrefetcher P] [BranchPredictor B] {env : Env} {s : Sim P B} {t : Text}

/-- What an iteration prints: the end of the trace where it takes it, and the warm-up
statistics where it ends it. -/
theorem plain_printCycle (s : Sim P B) : Plain (s.printCycle cfg env fmt) := by
  unfold printCycle
  extract_lets taken
  have htaken : Plain (taken.map fun k => printEncounter (env.stream k)).flatten := by
    refine .flatten fun t ht => ?_
    obtain ⟨k, -, rfl⟩ := List.mem_map.mp ht
    exact plain_printEncounter _
  refine .flatten ?_
  simp only [List.forall_mem_cons, plain_printWarmup, htaken]
  decide

/-- Whatever the counters of the run are. -/
theorem Printed.plain (h : Printed cfg env fmt s t) : Plain t := by
  induction h with
  | start => exact plain_banner
  | @cycle s t _ _ ih => exact ih.append s.plain_printCycle

/-- A report is the text of the run and of its end. -/
theorem Reported.plain (h : Reported cfg env fmt s t) : Plain t := by
  obtain ⟨hprinted, -⟩ := h
  exact hprinted.plain.append s.plain_printEnd

/-- The reader stops at the first section it asks for. -/
theorem Reported.parseLog_eq (h : Reported cfg env fmt s t) :
    parseLog t = .error "missing phase statistics section" :=
  h.plain.parseLog_eq

/-- And it would find no cache line behind it. -/
theorem Reported.cacheLines_eq_nil (h : Reported cfg env fmt s t) :
    Reader.findAll regexCacheLine (stripAnsi t) = [] :=
  h.plain.cacheLines_eq_nil

/-! ### Acceptance -/

/-- The reader accepts the report `t` of a run that ended in `s`: it returns a result,
with the access counts the report prints. -/
def Accepted (s : Sim P B) (t : Text) : Prop :=
  ∃ r, parseLog t = .ok r ∧
    r.cache.l1iAccess = accessCount s.mem.icache.counters s.mem.baselines.icache ∧
    r.cache.l1dAccess = accessCount s.mem.dcache.counters s.mem.baselines.dcache ∧
    r.cache.llcAccess = accessCount s.mem.llc.counters s.mem.baselines.llc

omit [CachePrefetcher P] [BranchPredictor B] in
/-- An error is no result. -/
theorem not_accepted_of_error {e : String} (h : parseLog t = .error e) : ¬ Accepted s t := by
  rintro ⟨r, hr, -⟩
  rw [h] at hr
  cases hr

/-- **No report is accepted**: the reader returns an error, and with the section it asks
for it would still find none of the cache lines. -/
theorem report_never_accepted (h : Reported cfg env fmt s t) :
    ¬ Accepted s t ∧ Reader.findAll regexCacheLine (stripAnsi t) = [] :=
  ⟨not_accepted_of_error h.parseLog_eq, h.cacheLines_eq_nil⟩

end Sim

/-! ### A report -/

/-- The exact quotient, rounded to the nearest number with `precision` digits behind
the point. -/
def roundedText (precision num scale den : ℕ) : Text :=
  let value := (2 * num * scale * 10 ^ precision + den) / (2 * den)
  let digits := dec (value % 10 ^ precision)
  [dec (value / 10 ^ precision), str ".", digits.leftpad precision '0'].flatten

/-- The digits are those of the rounded quotient. -/
def roundedFormat : FloatFormat where
  fixed := roundedText
  chars precision num scale den _ c hc := by
    have hdec : ∀ n, c ∈ dec n → c.isDigit ∨ c = '.' := fun n h =>
      Or.inl (Nat.isDigit_of_mem_toDigits (by decide) (by decide) h)
    simp only [roundedText, List.mem_flatten, List.mem_cons, List.not_mem_nil, or_false,
      List.leftpad, exists_eq_or_imp, exists_eq_left, List.mem_append] at hc
    rcases hc with h | h | h | h
    · exact hdec _ h
    · exact Or.inr (List.mem_singleton.mp h)
    · rw [(List.mem_replicate.mp h).2]
      exact Or.inl (by decide)
    · exact hdec _ h

namespace Sim

/-- The run of a trace that is an ebreak ends after one iteration. -/
theorem ebreak_reported :
    ∃ s t, Reported shippedConfig (ofTrace []) roundedFormat s t ∧ 0 < s.totalCycles := by
  have hfirst : (Sim.new shippedConfig).running = true := by decide
  have hlast : ((Sim.new shippedConfig).cycle shippedConfig (ofTrace [])).running = false := by
    decide +kernel
  have hcycles :
      0 < ((Sim.new shippedConfig).cycle shippedConfig (ofTrace [])).totalCycles := by
    decide +kernel
  refine ⟨_, _, .done (.cycle .start hfirst) ?_, hcycles⟩
  rw [hlast]
  exact Bool.false_ne_true

/-- The shortest run, of one cycle. -/
theorem report_never_accepted_ebreak :
    ∃ s t, Reported shippedConfig (ofTrace []) roundedFormat s t ∧ 0 < s.totalCycles ∧
      ¬ Accepted s t ∧ Reader.findAll regexCacheLine (stripAnsi t) = [] := by
  obtain ⟨s, t, h, hcycles⟩ := ebreak_reported
  exact ⟨s, t, h, hcycles, report_never_accepted h⟩

/-- The reader calls the report of that run a report without statistics. -/
theorem ebreak_report_rejected :
    ¬ ∀ s t, Reported shippedConfig (ofTrace []) roundedFormat s t → 0 < s.totalCycles →
      Accepted s t := by
  intro h
  obtain ⟨s, t, hreported, hcycles⟩ := ebreak_reported
  exact not_accepted_of_error hreported.parseLog_eq (h s t hreported hcycles)

end Sim

end TraceSim
