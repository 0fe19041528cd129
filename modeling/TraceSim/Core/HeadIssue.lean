/-
TraceSim/Core/HeadIssue.lean

The oldest op issues as soon as its registers are ready.

The head of the reorder buffer is the first slot of its queue, so it is tried first; no
store in the store queue is older, whatever the commits have popped; and the data cache
serves it when an MSHR is free, since the last level refuses nothing the first level
accepts.  So once every register is ready, only a full data cache can hold it up.
-/
import TraceSim.Core.Backlog
import TraceSim.Core.StoreQueue
import TraceSim.Core.Memory

namespace TraceSim

open Relation Sim

/-- An op that has not executed waits in some queue. -/
theorem LiveOp.exists_awaits {op : OpEntry} (h : LiveOp op) (hexec : op.executed = false) :
    ∃ q : Iq, q.awaits op = true := by
  by_cases ht : iqTarget op = .store
  -- one of the halves is still to be done
  · have hhalves := h.executed ht
    rw [hexec, eq_comm, Bool.and_eq_false_iff] at hhalves
    rcases hhalves with hsta | hstd
    · exact ⟨.sta, by simp [Iq.awaits, ht, hsta]⟩
    · exact ⟨.std, by simp [Iq.awaits, ht, hstd]⟩
  · obtain ⟨q, hq, htarget⟩ := h.exists_queue ht
    refine ⟨q, ?_⟩
    rw [Iq.awaits_of_isHalf hq htarget, hexec, Bool.not_false]

theorem Iq.all_split (q : Iq) : ∃ after, Iq.all = q.before ++ q :: after := by
  cases q <;> exact ⟨_, rfl⟩

namespace Sim

variable {P B : Type} {cfg : Config P B} {env : Env} {s s' : Sim P B}

/-! ### The stores of the store queue -/

/-- The store queue holds stores of the reorder buffer only, oldest first; some may be
missing. -/
structure StoresLive (cfg : Config P B) (s : Sim P B) : Prop where
  represents : Represents cfg s
  sublist : s.storeIndices.Sublist (s.storeSlots cfg)

/-- Whatever a commit pops, what stays are stores that stay. -/
theorem StoresLive.commitOne (h : StoresLive cfg s) (hdone : s.headDone = true) :
    StoresLive cfg (s.commitOne cfg) := by
  refine ⟨h.represents.commitOne hdone, ?_⟩
  have hslots := h.represents.storeSlots_pop (headDone_iff.mp hdone).1
  have hsub := h.sublist
  rw [hslots] at hsub
  show (if (s.rob s.robHead).inst.isStore then s.storeIndices.tail else s.storeIndices).Sublist
    ((s.commitOne cfg).storeSlots cfg)
  by_cases ht : iqTarget (s.rob s.robHead) = .store
  · rw [if_pos (iqTarget_eq_store_iff.mp ht).2.2.2]
    rw [if_pos ht] at hsub
    exact hsub.tail
  · rw [if_neg ht, List.nil_append] at hsub
    split
    · exact (List.tail_sublist _).trans hsub
    · exact hsub

/-- **Every step** keeps only live stores in the store queue. -/
theorem storesLive_invariant [CachePrefetcher P] (cfg : Config P B) (env : Env)
    (C : Sim P B → Prop) : StepInvariant cfg env C (StoresLive cfg) where
  new := ⟨represents_new cfg, List.Sublist.refl []⟩
  step {s s'} h hstep := by
    have hr := (represents_invariant cfg env C).step h.represents hstep
    -- only the commit and the dispatch of a store change the store queue
    have hsame : SamePipe s s' → StoresLive cfg s' := fun hpipe => by
      refine ⟨hr, ?_⟩
      rw [hpipe.storeIndices, storeSlots, hpipe.slots, hpipe.rob]
      exact h.sublist
    cases hstep with
    | quiet _ hquiet => exact hsame hquiet.samePipe
    | commits hdone _ => exact h.commitOne hdone
    | waits q i _ hmem houtcome =>
      have hstores := houtcome.stores (s'.iq q)
      rw [setIq_self] at hstores
      obtain ⟨hindices, hslots⟩ := hstores
      refine ⟨hr, ?_⟩
      rw [hindices, hslots]
      exact h.sublist
    | issues q kept i rest s₁ hqueue houtcome =>
      obtain ⟨hindices, hslots⟩ := houtcome.stores (kept ++ rest)
      refine ⟨hr, ?_⟩
      rw [hindices, hslots]
      exact h.sublist
    | dispatches op rest hqueue hfree =>
      refine ⟨hr, ?_⟩
      rw [dispatchOne_storeIndices, h.represents.storeSlots_dispatchOne hfree]
      exact h.sublist.append (List.Sublist.refl _)
    | decodes op rest hbuffer hroom =>
      exact hsame ⟨rfl, rfl, rfl, rfl, fun q => by cases q <;> rfl, rfl⟩
    | fetches _ hturn => exact hsame hturn.samePipe.1

/-- The scan of the older stores stops at the first younger one. -/
theorem scanStores_younger (model : MemDepModel) {rob : ℕ → OpEntry} {op : OpEntry}
    {l : List ℕ} (h : ∀ j ∈ l, op.entryId ≤ (rob j).entryId) (src : Option ℕ) :
    scanStores model rob op l src = (false, src) := by
  cases l with
  | nil => rfl
  | cons j l =>
    rw [scanStores]
    exact if_pos (h j List.mem_cons_self)

/-- **The head is older than every store in the store queue.** -/
theorem StoresLive.olderStores_head (h : StoresLive cfg s) (hc : Conserved cfg env s)
    (hcount : 0 < s.robCount) : s.olderStores cfg s.robHead = (false, none) := by
  refine scanStores_younger _ (fun j hj => ?_) none
  have hslot : j ∈ s.slots cfg := (List.mem_filter.mp (h.sublist.subset hj)).1
  have hids := hc.pairwise_slots
  rw [h.represents.slots_pop hcount] at hslot hids
  rcases List.mem_cons.mp hslot with rfl | hslot
  · exact le_rfl
  · exact ((List.pairwise_cons.mp hids).1 j hslot).le

/-! ### Attempts that succeed -/

section

variable [CachePrefetcher P]

/-- **An attempt succeeds** when every register is ready and, for a load, no older store is
in the way and the data cache serves it. -/
theorem attempt_succeeds {q : Iq} {i : ℕ} (hregs : ∀ r, s.regReadyTime r ≤ s.totalCycles)
    (hstores : s.olderStores cfg i = (false, none))
    (hserved : q = .ldu →
      (s.mem.accessDcacheLoad (s.rob i).inst.memAddr s.totalCycles).1.blocked = false) :
    (attempt cfg q s i).2 = true := by
  -- every operand is ready
  have hready (r : Fin 32) : s.isRegisterReady r = true := decide_eq_true (hregs r)
  have hexec (latency : ℕ) : (execAttempt latency s i).2 = true := by
    unfold execAttempt
    dsimp only
    rw [hready, hready, Bool.and_self, if_pos rfl]
  cases q with
  | alu => exact hexec aluLatency
  | ldu =>
    have hout := lduAttempt_outcome cfg s i
    show (lduAttempt cfg s i).2 = true
    generalize (lduAttempt cfg s i).1 = s', (lduAttempt cfg s i).2 = ok at hout ⊢
    -- a load is not stopped: no older store is in its way, and the cache serves it
    cases hout with
    | notReady sources => exact absurd (hready _) (sources ▸ Bool.false_ne_true)
    | stalled op' same executed cycle dep =>
      rw [mustWait, hstores] at dep
      exact absurd dep Bool.false_ne_true
    | forwarded sources src dep stlf data time op' same executed cycle stats => rfl
    | refused dep r mem access blocked op' same executed cycle =>
      have hfree := hserved rfl
      rw [access] at hfree
      exact absurd (hfree.symm.trans blocked) Bool.false_ne_true
    | accessed sources dep r mem access served op' same executed cycle stats => rfl
  | sta =>
    show (staAttempt s i).2 = true
    unfold staAttempt
    dsimp only
    rw [hready, if_pos rfl]
  | std =>
    show (stdAttempt s i).2 = true
    unfold stdAttempt
    dsimp only
    rw [hready, if_pos rfl]
  | bru => exact hexec bruLatency

/-! ### The issue stage -/

/-- The loop over a queue whose first op issues, from that point on. -/
theorem issueIq_first (env : Env) (C : Sim P B → Prop) {q : Iq} {i : ℕ} {rest : List ℕ}
    (hqueue : s.iq q = i :: rest) (hunits : 1 ≤ units cfg q)
    (hok : (attempt cfg q s i).2 = true) :
    ReflTransGen (Step cfg env C) ((attempt cfg q s i).1.setIq q rest) (s.issueIq cfg q) := by
  obtain ⟨w, hw⟩ : ∃ w, units cfg q = w + 1 := ⟨units cfg q - 1, by omega⟩
  have hstart : Scanning cfg env C ((attempt cfg q s i).1.setIq q rest) q [] rest
      (attempt cfg q s i).1 := ReflTransGen.refl
  obtain ⟨kept, left, hlist, hscan⟩ := scan_rule (scanning_step cfg env C _ q) w [] rest _ hstart
  rw [List.nil_append] at hlist
  unfold issueIq
  rw [hqueue, hw, scan, if_pos hok]
  rwa [Scanning, ← hlist] at hscan

theorem Represents.issueIq_moves (h : Represents cfg s) (env : Env) {q : Iq} {i : ℕ}
    {rest : List ℕ} (hqueue : s.iq q = i :: rest) (hunits : 1 ≤ units cfg q)
    (hok : (attempt cfg q s i).2 = true) : Moves cfg s (s.issueIq cfg q) := by
  have hout := attempt_outcome cfg q s i
  rw [hok] at hout
  have hsplit : s.iq q = [] ++ i :: rest := hqueue
  have hfirst : Represents cfg ((attempt cfg q s i).1.setIq q rest) := h.issues hsplit hout
  have hmoves : Moves cfg s ((attempt cfg q s i).1.setIq q rest) := hout.moves hsplit
  exact hmoves.trans_progresses
    (hfirst.progresses (issueIq_first env (fun _ => True) hqueue hunits hok))

omit [CachePrefetcher P] in
/-- The head is the first slot of the queues it waits in. -/
theorem Represents.iq_head (h : Represents cfg s) (hcount : 0 < s.robCount) {q : Iq}
    (haw : q.awaits (s.rob s.robHead) = true) : ∃ rest, s.iq q = s.robHead :: rest := by
  rw [h.queue, h.slots_pop hcount, List.filter_cons_of_pos (by exact haw)]
  exact ⟨_, rfl⟩

/-- The loop over the ALU queue leaves the memory subsystem alone. -/
theorem issueIq_alu_mem (cfg : Config P B) (s : Sim P B) : (s.issueIq cfg .alu).mem = s.mem := by
  have hattempt (s₁ : Sim P B) (i : ℕ) : (attempt cfg .alu s₁ i).1.mem = s₁.mem := by
    show (execAttempt aluLatency s₁ i).1.mem = s₁.mem
    unfold execAttempt
    dsimp only
    split
    · rw [markLoadExecuted_eq]
    · rfl
  obtain ⟨kept, left, -, hscan⟩ := scan_rule (I := fun _ _ s₁ => s₁.mem = s.mem)
    (fun kept i rest s₁ hs₁ =>
      ⟨fun _ => (hattempt s₁ i).trans hs₁, fun _ => (hattempt s₁ i).trans hs₁⟩)
    (units cfg .alu) [] (s.iq .alu) s rfl
  exact (setIq_mem _ .alu _).trans hscan

/-- **The head issues** once every register is ready and the data cache has an MSHR
free. -/
theorem issueStage_moves (hlive : StoresLive cfg s) (hc : Conserved cfg env s)
    {last : Option ℕ} (hm : s.mem.Roomy last) (hcount : 0 < s.robCount)
    (hexec : (s.rob s.robHead).executed = false) (hunits : ∀ q, 1 ≤ units cfg q)
    (hregs : ∀ r, s.regReadyTime r ≤ s.totalCycles)
    (hroom : s.mem.dcache.inflight.entries.length < s.mem.dcache.maxInflight) :
    Moves cfg s (s.issueStage cfg) := by
  have hr := hc.represents
  have hhead : s.robHead ∈ s.slots cfg := by
    rw [hr.slots_pop hcount]
    exact List.mem_cons_self
  obtain ⟨q, haw⟩ := (hr.live _ hhead).exists_awaits hexec
  obtain ⟨after, hsplit⟩ := q.all_split
  rw [issueStage_eq, show [Iq.alu, .ldu, .sta, .std, .bru] = Iq.all from rfl, hsplit,
    List.foldl_append, List.foldl_cons]
  -- the queues before that of the head
  have hbefore := issueIqs_steps cfg env (fun _ => True) s q.before
  generalize hs₁ : q.before.foldl (issueIq cfg) s = s₁ at hbefore
  have hr₁ := (represents_invariant cfg env _).steps hr hbefore
  have hafter {s₂ : Sim P B} (hr₂ : Represents cfg s₂) :
      Progresses cfg s₂ (after.foldl (issueIq cfg) s₂) :=
    hr₂.progresses (issueIqs_steps cfg env (fun _ => True) s₂ after)
  have hr₂ := (represents_invariant cfg env (fun _ => True)).steps hr₁
    (issueIq_steps cfg env _ s₁ q)
  rcases hr.progresses hbefore with hmoves | hstill
  · exact (hmoves.trans_progresses
      (hr₁.progresses (issueIq_steps cfg env (fun _ => True) s₁ q))).trans_progresses (hafter hr₂)
  -- they changed nothing the head can see, so its attempt is the first of its queue
  obtain ⟨hsame, hexec₁, -⟩ := hstill.head hcount
  have hcount₁ := hcount.trans_le hstill.robCount
  have haw₁ : q.awaits (s₁.rob s₁.robHead) = true := by
    rw [hstill.robHead, Iq.awaits_congr hsame hexec₁]
    exact haw
  obtain ⟨rest, hqueue⟩ := hr₁.iq_head hcount₁ haw₁
  have hclock : s₁.totalCycles = s.totalCycles := by
    rw [← hs₁]
    exact (issueIqs_memDuring cfg s q.before).totalCycles
  have hok : (attempt cfg q s₁ s₁.robHead).2 = true := by
    refine attempt_succeeds (fun r => ?_) ?_ ?_
    · rw [hstill.regReadyTime, hclock]
      exact hregs r
    · exact ((storesLive_invariant cfg env _).steps hlive hbefore).olderStores_head
        ((conserved_invariant cfg env _).steps hc hbefore) hcount₁
    -- only the ALU queue comes before that of the loads
    · intro hq
      subst hq
      have hmem : s₁.mem = s.mem := hs₁ ▸ issueIq_alu_mem cfg s
      rw [hmem, hstill.robHead]
      exact hm.served (x := .dcache) hroom _ _
  exact (hstill.trans_moves (hr₁.issueIq_moves env hqueue (hunits q) hok)).trans_progresses
    (hafter hr₂)

end

end Sim

end TraceSim
