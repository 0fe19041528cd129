/-
TraceSim/Lib/Scan.lean

The erase-while-iterating loop.

    for (it = q.begin(); it != q.end() && taken < width; )
        if (attempt(*it)) { taken++; it = q.erase(it); } else ++it;

`scan attempt width q s` runs this loop from state `s`: it tries the elements of
`q` in order, drops those whose attempt succeeds and stops looking once `width`
attempts have succeeded.  The loop is generic in the state and the elements.
-/
import Mathlib.Data.List.Basic

namespace TraceSim

variable {σ α β : Type*}

/-- Run the loop; the result is the final state and the elements that stay. -/
def scan (attempt : σ → α → σ × Bool) : ℕ → List α → σ → σ × List α
  | _, [], s => (s, [])
  | 0, a :: q, s => (s, a :: q)
  | w + 1, a :: q, s =>
      if (attempt s a).2 then scan attempt w q (attempt s a).1
      else
        let rest := scan attempt (w + 1) q (attempt s a).1
        (rest.1, a :: rest.2)

/-- The successful attempts of a scan: each with the state it was made in. -/
def scanTaken (attempt : σ → α → σ × Bool) : ℕ → List α → σ → List (σ × α)
  | _, [], _ => []
  | 0, _ :: _, _ => []
  | w + 1, a :: q, s =>
      if (attempt s a).2 then (s, a) :: scanTaken attempt w q (attempt s a).1
      else scanTaken attempt (w + 1) q (attempt s a).1

/-- What is recorded of the attempts of a scan, in their order. -/
def scanLog (attempt : σ → α → σ × Bool) (record : σ → α → List β) :
    ℕ → List α → σ → List β
  | _, [], _ => []
  | 0, _ :: _, _ => []
  | w + 1, a :: q, s =>
      if (attempt s a).2 then record s a ++ scanLog attempt record w q (attempt s a).1
      else record s a ++ scanLog attempt record (w + 1) q (attempt s a).1

/-- The attempts of a scan: each with the state it was made in. -/
def scanTried (attempt : σ → α → σ × Bool) : ℕ → List α → σ → List (σ × α) :=
  scanLog attempt fun s a => [(s, a)]

variable {attempt : σ → α → σ × Bool} {record : σ → α → List β}

@[simp] theorem scan_nil (w : ℕ) (s : σ) : scan attempt w [] s = (s, []) := by
  cases w <;> rfl

@[simp] theorem scan_zero (q : List α) (s : σ) : scan attempt 0 q s = (s, q) := by
  cases q <;> rfl

@[simp] theorem scanTaken_nil (w : ℕ) (s : σ) : scanTaken attempt w [] s = [] := by
  cases w <;> rfl

@[simp] theorem scanTaken_zero (q : List α) (s : σ) :
    scanTaken attempt 0 q s = [] := by
  cases q <;> rfl

/-- **The rule of the loop.**  `I kept rest s` is the invariant at the point
where the elements of `kept` have been tried and stay, and those of `rest` are
still to be tried.  If every attempt keeps it, moving the element to `kept` when
it fails, it holds at the end with nothing left to try or with untried elements
in the queue. -/
theorem scan_rule {I : List α → List α → σ → Prop}
    (hstep : ∀ kept a rest s, I kept (a :: rest) s →
      ((attempt s a).2 = true → I kept rest (attempt s a).1) ∧
      ((attempt s a).2 = false → I (kept ++ [a]) rest (attempt s a).1))
    (w : ℕ) (kept rest : List α) (s : σ) (h : I kept rest s) :
    ∃ k r, kept ++ (scan attempt w rest s).2 = k ++ r ∧
      I k r (scan attempt w rest s).1 := by
  induction rest generalizing w kept s with
  | nil => exact ⟨kept, [], by simp, by simpa using h⟩
  | cons a rest ih =>
    cases w with
    | zero => exact ⟨kept, a :: rest, by simp, by simpa using h⟩
    | succ w =>
      rcases e : (attempt s a).2 with - | -
      · obtain ⟨k, r, hk, hI⟩ := ih (w + 1) (kept ++ [a]) _ ((hstep _ _ _ _ h).2 e)
        refine ⟨k, r, ?_, ?_⟩
        · simpa [scan, e] using hk
        · simpa [scan, e] using hI
      · obtain ⟨k, r, hk, hI⟩ := ih w kept _ ((hstep _ _ _ _ h).1 e)
        refine ⟨k, r, ?_, ?_⟩
        · simpa [scan, e] using hk
        · simpa [scan, e] using hI

@[simp] theorem scanLog_nil (w : ℕ) (s : σ) : scanLog attempt record w [] s = [] := by
  cases w <;> rfl

@[simp] theorem scanLog_zero (q : List α) (s : σ) : scanLog attempt record 0 q s = [] := by
  cases q <;> rfl

/-- Where nothing is recorded, the log stays empty. -/
theorem scanLog_empty (h : ∀ s a, record s a = []) (w : ℕ) (q : List α) (s : σ) :
    scanLog attempt record w q s = [] := by
  induction q generalizing w s with
  | nil => exact scanLog_nil w s
  | cons a q ih =>
    cases w with
    | zero => rfl
    | succ w =>
      rw [scanLog, h, List.nil_append, List.nil_append, ih, ih]
      exact ite_self []

/-- The rule of the loop, for an invariant that also speaks of what has been
recorded. -/
theorem scanLog_rule {I : List α → List α → σ → List β → Prop}
    (hstep : ∀ kept a rest s log, I kept (a :: rest) s log →
      ((attempt s a).2 = true → I kept rest (attempt s a).1 (log ++ record s a)) ∧
      ((attempt s a).2 = false →
        I (kept ++ [a]) rest (attempt s a).1 (log ++ record s a)))
    (w : ℕ) (kept rest : List α) (s : σ) (log : List β) (h : I kept rest s log) :
    ∃ k r, kept ++ (scan attempt w rest s).2 = k ++ r ∧
      I k r (scan attempt w rest s).1 (log ++ scanLog attempt record w rest s) := by
  induction rest generalizing w kept s log with
  | nil => exact ⟨kept, [], by simp, by simpa using h⟩
  | cons a rest ih =>
    cases w with
    | zero => exact ⟨kept, a :: rest, by simp, by simpa using h⟩
    | succ w =>
      rcases e : (attempt s a).2 with - | -
      · obtain ⟨k, r, hk, hI⟩ :=
          ih (w + 1) (kept ++ [a]) _ _ ((hstep _ _ _ _ _ h).2 e)
        refine ⟨k, r, ?_, ?_⟩
        · simpa [scan, e] using hk
        · simpa [scan, scanLog, e] using hI
      · obtain ⟨k, r, hk, hI⟩ := ih w kept _ _ ((hstep _ _ _ _ _ h).1 e)
        refine ⟨k, r, ?_, ?_⟩
        · simpa [scan, e] using hk
        · simpa [scan, scanLog, e] using hI

/-- **The rule for the attempts of the loop**: what the invariant says at each
successful attempt. -/
theorem scanTaken_rule {I : List α → List α → σ → Prop}
    (hstep : ∀ kept a rest s, I kept (a :: rest) s →
      ((attempt s a).2 = true → I kept rest (attempt s a).1) ∧
      ((attempt s a).2 = false → I (kept ++ [a]) rest (attempt s a).1))
    (w : ℕ) (kept rest : List α) (s : σ) (h : I kept rest s) :
    ∀ p ∈ scanTaken attempt w rest s,
      (attempt p.1 p.2).2 = true ∧ ∃ k r, I k (p.2 :: r) p.1 := by
  induction rest generalizing w kept s with
  | nil => simp
  | cons a rest ih =>
    cases w with
    | zero => simp
    | succ w =>
      rcases e : (attempt s a).2 with - | -
      · simpa [scanTaken, e] using ih (w + 1) (kept ++ [a]) _ ((hstep _ _ _ _ h).2 e)
      · intro p hp
        simp only [scanTaken, e, if_true, List.mem_cons] at hp
        rcases hp with rfl | hp
        · exact ⟨e, kept, rest, h⟩
        · exact ih w kept _ ((hstep _ _ _ _ h).1 e) p hp

/-- The rule for the attempts that may fail. -/
theorem scanTried_rule {I : List α → List α → σ → Prop}
    (hstep : ∀ kept a rest s, I kept (a :: rest) s →
      ((attempt s a).2 = true → I kept rest (attempt s a).1) ∧
      ((attempt s a).2 = false → I (kept ++ [a]) rest (attempt s a).1))
    (w : ℕ) (kept rest : List α) (s : σ) (h : I kept rest s) :
    ∀ p ∈ scanTried attempt w rest s, ∃ k r, I k (p.2 :: r) p.1 := by
  have hpoint (kept : List α) (a : α) (rest : List α) (s : σ) (log : List (σ × α))
      (hs : I kept (a :: rest) s) (hlog : ∀ p ∈ log, ∃ k r, I k (p.2 :: r) p.1) :
      ∀ p ∈ log ++ [(s, a)], ∃ k r, I k (p.2 :: r) p.1 := by
    intro p hp
    rcases List.mem_append.mp hp with hp | hp
    · exact hlog p hp
    · obtain rfl := List.mem_singleton.mp hp
      exact ⟨kept, rest, hs⟩
  obtain ⟨-, -, -, -, htried⟩ := scanLog_rule
    (I := fun kept rest s log => I kept rest s ∧ ∀ p ∈ log, ∃ k r, I k (p.2 :: r) p.1)
    (fun kept a rest s log hs =>
      ⟨fun hok => ⟨(hstep kept a rest s hs.1).1 hok, hpoint kept a rest s log hs.1 hs.2⟩,
        fun hok => ⟨(hstep kept a rest s hs.1).2 hok, hpoint kept a rest s log hs.1 hs.2⟩⟩)
    w kept rest s [] ⟨h, fun p hp => absurd hp List.not_mem_nil⟩
  exact htried

/-- **Two loops in lockstep**: attempts that go together under a map of the states keep the
scans together. -/
theorem scan_map {τ : Type*} {attempt' : τ → α → τ × Bool} (f : σ → τ)
    (h : ∀ s a, attempt' (f s) a = Prod.map f id (attempt s a)) (w : ℕ) (q : List α) (s : σ) :
    scan attempt' w q (f s) = Prod.map f id (scan attempt w q s) := by
  induction q generalizing w s with
  | nil => rw [scan_nil, scan_nil, Prod.map_apply, id_eq]
  | cons a q ih =>
    cases w with
    | zero => rfl
    | succ w =>
      rw [scan, scan, h, apply_ite (Prod.map f id)]
      refine ite_congr rfl (fun _ => ih w _) fun _ => ?_
      rw [Prod.map_fst, ih]
      rfl

end TraceSim
