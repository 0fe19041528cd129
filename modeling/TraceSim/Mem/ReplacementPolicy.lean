/-
TraceSim/Mem/ReplacementPolicy.lean

Replacement policies (`trace_sim/mem/ReplacementPolicy.h`).

A policy is a record of the three hooks of `CacheReplacementPolicy`, working on
the views of the ways of one set.  The hooks of the C++ interface could do
anything to the views; the record carries, as fields, what the cache relies on:

* the victim of a non-empty set is one of its ways;
* the hit and fill hooks change neither the number of ways nor a valid bit nor
  a tag.

The LRU and FIFO policies scan the ways with the same loop and differ only in
the time stamp they compare, so the loop is one definition.
-/
import TraceSim.SimConfig
import Mathlib.Data.List.Basic

namespace TraceSim

/-- One way of a set, as a replacement policy sees it. -/
structure LineView where
  valid : Bool := false
  tag : BitVec 32 := 0
  lastAccess : ℕ := 0
  insertionTime : ℕ := 0
  deriving DecidableEq, Repr

/-- What decides a lookup: the valid bit and the tag. -/
def LineView.key (v : LineView) : Bool × BitVec 32 := (v.valid, v.tag)

/-- The hooks of a replacement policy and the laws the cache relies on. -/
structure CacheReplacementPolicy where
  chooseVictim : BitVec 32 → List LineView → ℕ
  onCacheHit : BitVec 32 → ℕ → ℕ → List LineView → List LineView
  onCacheFill : BitVec 32 → ℕ → ℕ → List LineView → List LineView
  chooseVictim_lt : ∀ setIndex views, views ≠ [] →
    chooseVictim setIndex views < views.length
  onCacheHit_key : ∀ setIndex way cycle views,
    (onCacheHit setIndex way cycle views).map LineView.key = views.map LineView.key
  onCacheFill_key : ∀ setIndex way cycle views,
    (onCacheFill setIndex way cycle views).map LineView.key = views.map LineView.key

/-! ### The victim scan -/

/-- The largest `uint64_t`, from which the scan for the oldest way starts. -/
def uint64Max : ℕ := 2 ^ 64 - 1

/-- The scan of `choose_victim`: the first invalid way, else the first way whose
stamp is least.  The arguments are the ways still to scan, the number of the
next way, and the victim and stamp found so far. -/
def oldestWay (stamp : LineView → ℕ) : List LineView → ℕ → ℕ → ℕ → ℕ
  | [], _, victim, _ => victim
  | v :: rest, i, victim, least =>
      if !v.valid then i
      else if stamp v < least then oldestWay stamp rest (i + 1) i (stamp v)
      else oldestWay stamp rest (i + 1) victim least

theorem oldestWay_lt (stamp : LineView → ℕ) (views : List LineView)
    (i victim least : ℕ) (hv : victim < i + views.length) :
    oldestWay stamp views i victim least < i + views.length := by
  induction views generalizing i victim least with
  | nil => simpa [oldestWay] using hv
  | cons v rest ih =>
    simp only [List.length_cons] at hv ⊢
    have hlen : i + (rest.length + 1) = i + 1 + rest.length := by omega
    unfold oldestWay
    split_ifs with h₁ h₂
    · omega
    · rw [hlen]
      exact ih (i + 1) i (stamp v) (by omega)
    · rw [hlen]
      exact ih (i + 1) victim least (by omega)

theorem oldestWay_start_lt (stamp : LineView → ℕ) {views : List LineView}
    (h : views ≠ []) : oldestWay stamp views 0 0 uint64Max < views.length := by
  have hpos := List.length_pos_of_ne_nil h
  simpa using oldestWay_lt stamp views 0 0 uint64Max (by omega)

/-- What the scan finds.  If it ends at a valid way, then all ways are valid and none has
a smaller stamp; `pre` are the ways scanned before. -/
theorem oldestWay_least (stamp : LineView → ℕ) (pre rest : List LineView) {victim least : ℕ}
    (hpre : ∀ u ∈ pre, u.valid = true ∧ least ≤ stamp u)
    (hvictim : ∀ v, (pre ++ rest)[victim]? = some v → v.valid = true → stamp v ≤ least)
    {v : LineView}
    (hv : (pre ++ rest)[oldestWay stamp rest pre.length victim least]? = some v)
    (hvalid : v.valid = true) :
    ∀ u ∈ pre ++ rest, u.valid = true ∧ stamp v ≤ stamp u := by
  induction rest generalizing pre victim least with
  | nil =>
    intro u hu
    rw [List.append_nil] at hu
    obtain ⟨huvalid, hle⟩ := hpre u hu
    exact ⟨huvalid, Nat.le_trans (hvictim v hv hvalid) hle⟩
  | cons x rest ih =>
    have hx : (pre ++ x :: rest)[pre.length]? = some x := by simp
    have hassoc : pre ++ x :: rest = (pre ++ [x]) ++ rest := by simp
    have hlen : (pre ++ [x]).length = pre.length + 1 := by simp
    rw [oldestWay] at hv
    split_ifs at hv with hinvalid hless
    · -- the scan stops at an invalid way
      obtain rfl := Option.some.inj (hx.symm.trans hv)
      rw [hvalid] at hinvalid
      cases hinvalid
    -- a smaller stamp is the least of those scanned
    · rw [← hlen, hassoc] at hv
      rw [hassoc]
      refine ih (pre ++ [x]) (fun u hu => ?_) (fun u hu _ => ?_) hv
      · rcases List.mem_append.mp hu with hu | hu
        · obtain ⟨huvalid, hle⟩ := hpre u hu
          exact ⟨huvalid, Nat.le_trans (Nat.le_of_lt hless) hle⟩
        · rw [List.mem_singleton.mp hu]
          exact ⟨by simpa using hinvalid, Nat.le_refl _⟩
      · rw [← hassoc, hx] at hu
        exact Nat.le_of_eq (congrArg stamp (Option.some.inj hu).symm)
    -- the least of those scanned stays
    · rw [← hlen, hassoc] at hv
      rw [hassoc] at hvictim ⊢
      refine ih (pre ++ [x]) (fun u hu => ?_) hvictim hv
      rcases List.mem_append.mp hu with hu | hu
      · exact hpre u hu
      · rw [List.mem_singleton.mp hu]
        exact ⟨by simpa using hinvalid, Nat.le_of_not_lt hless⟩

theorem oldestWay_start_least (stamp : LineView → ℕ) {views : List LineView}
    (hbound : ∀ v, views[0]? = some v → v.valid = true → stamp v ≤ uint64Max) {v : LineView}
    (hv : views[oldestWay stamp views 0 0 uint64Max]? = some v) (hvalid : v.valid = true) :
    ∀ u ∈ views, u.valid = true ∧ stamp v ≤ stamp u :=
  oldestWay_least stamp [] views nofun hbound hv hvalid

/-- The scan depends on the valid bits and the stamps only. -/
theorem oldestWay_map {stamp : LineView → ℕ} {f : LineView → LineView}
    (hvalid : ∀ v, (f v).valid = v.valid) (hstamp : ∀ v, stamp (f v) = stamp v)
    (views : List LineView) (i victim least : ℕ) :
    oldestWay stamp (views.map f) i victim least = oldestWay stamp views i victim least := by
  induction views generalizing i victim least with
  | nil => rfl
  | cons v rest ih => rw [List.map_cons, oldestWay, oldestWay, hvalid, hstamp, ih, ih]

/-! ### The time-stamp hooks -/

/-- Set the access stamp of one way. -/
def touchWay (_setIndex : BitVec 32) (way cycle : ℕ) (views : List LineView) :
    List LineView :=
  views.modify way fun v => { v with lastAccess := cycle }

/-- Set both stamps of one way. -/
def stampWay (_setIndex : BitVec 32) (way cycle : ℕ) (views : List LineView) :
    List LineView :=
  views.modify way fun v => { v with lastAccess := cycle, insertionTime := cycle }

theorem map_key_modify (f : LineView → LineView) (hf : ∀ v, (f v).key = v.key)
    (way : ℕ) (views : List LineView) :
    (views.modify way f).map LineView.key = views.map LineView.key := by
  induction views generalizing way with
  | nil => simp
  | cons v rest ih =>
    cases way with
    | zero => simp [hf]
    | succ n => simp [ih]

theorem touchWay_key (setIndex : BitVec 32) (way cycle : ℕ) (views : List LineView) :
    (touchWay setIndex way cycle views).map LineView.key = views.map LineView.key := by
  apply map_key_modify
  intro v
  rfl

theorem stampWay_key (setIndex : BitVec 32) (way cycle : ℕ) (views : List LineView) :
    (stampWay setIndex way cycle views).map LineView.key = views.map LineView.key := by
  apply map_key_modify
  intro v
  rfl

/-! ### The built-in policies -/

/-- The policy `LruReplacementPolicy`: the victim is the way accessed longest ago. -/
def lruReplacementPolicy : CacheReplacementPolicy where
  chooseVictim _ views := oldestWay LineView.lastAccess views 0 0 uint64Max
  onCacheHit := touchWay
  onCacheFill := stampWay
  chooseVictim_lt _ _ h := oldestWay_start_lt _ h
  onCacheHit_key := touchWay_key
  onCacheFill_key := stampWay_key

/-- The policy `FifoReplacementPolicy`: the victim is the way filled longest ago;
a hit leaves no trace. -/
def fifoReplacementPolicy : CacheReplacementPolicy where
  chooseVictim _ views := oldestWay LineView.insertionTime views 0 0 uint64Max
  onCacheHit _ _ _ views := views
  onCacheFill := stampWay
  chooseVictim_lt _ _ h := oldestWay_start_lt _ h
  onCacheHit_key _ _ _ _ := rfl
  onCacheFill_key := stampWay_key

/-- The scan of `TemplateReplacementPolicy`: the first invalid way, else way 0. -/
def firstInvalidWay (views : List LineView) : ℕ :=
  (views.findIdx? fun v => !v.valid).getD 0

theorem firstInvalidWay_lt {views : List LineView} (h : views ≠ []) :
    firstInvalidWay views < views.length := by
  have hpos := List.length_pos_of_ne_nil h
  rcases e : views.findIdx? (fun v => !v.valid) with - | i
  · rw [firstInvalidWay, e]
    exact hpos
  · rw [firstInvalidWay, e]
    exact (List.findIdx?_eq_some_iff_getElem.mp e).1

def templateReplacementPolicy : CacheReplacementPolicy where
  chooseVictim _ views := firstInvalidWay views
  onCacheHit := touchWay
  onCacheFill := stampWay
  chooseVictim_lt _ _ h := firstInvalidWay_lt h
  onCacheHit_key := touchWay_key
  onCacheFill_key := stampWay_key

def makeReplacementPolicy : ReplacementPolicyType → CacheReplacementPolicy
  | .fifo => fifoReplacementPolicy
  | .lru => lruReplacementPolicy

end TraceSim
