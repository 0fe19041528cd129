/-
TraceSim/Mem/Owners.lean

The last level never refuses, whatever the line sizes.

A miss of the last level is made for a miss of a first level, its owner: the request
of the first level is in flight until no earlier a cycle, and no other block of the
last level has that owner.  So a last level with as many MSHRs as both first levels
together has one free whenever a first level has.
-/
import TraceSim.Mem.Mshrs

namespace TraceSim

variable {P : Type}

/-- The last level has as many MSHRs as both first levels together. -/
def MemConfig.Ample (cfg : MemConfig P) : Prop :=
  cfg.icache.mshrSize.toNat + cfg.dcache.mshrSize.toNat ≤ cfg.llc.mshrSize.toNat

theorem MemConfig.Backed.ample {cfg : MemConfig P} (h : cfg.Backed) : cfg.Ample := h.mshrs

namespace MemSubsystem

/-! ### Owners -/

/-- Each block in flight in the last level has an owner, which is in flight in its
first level until no earlier a cycle; no two blocks have one owner. -/
structure OwnedBy (owner : BitVec 32 → L1 × BitVec 32) (m : MemSubsystem P) : Prop where
  waits : ∀ b f, m.llc.ready b = some f →
    ∃ f', (m.l1 (owner b).1).ready (owner b).2 = some f' ∧ f ≤ f'
  injective : ∀ b b', b ∈ m.llc.inflight → b' ∈ m.llc.inflight → owner b = owner b' → b = b'

def Owned (m : MemSubsystem P) : Prop := ∃ owner, m.OwnedBy owner

variable {m : MemSubsystem P} {owner : BitVec 32 → L1 × BitVec 32} {x : L1}
  {l1' llc' : Cache P}

/-- **A counting argument**: the last level has no more in flight than the first levels
together. -/
theorem OwnedBy.length_le (h : m.OwnedBy owner) :
    m.llc.inflight.entries.length
      ≤ (m.l1 .icache).inflight.entries.length + (m.l1 .dcache).inflight.entries.length := by
  have hnodup : (m.llc.inflight.keys.map owner).Nodup := by
    refine m.llc.inflight.keys_nodup.map_on fun b hb b' hb' heq => ?_
    exact h.injective b b' (AList.mem_keys.mpr hb) (AList.mem_keys.mpr hb') heq
  have hsub : m.llc.inflight.keys.map owner
      ⊆ (m.l1 .icache).inflight.keys.map (Prod.mk L1.icache)
        ++ (m.l1 .dcache).inflight.keys.map (Prod.mk L1.dcache) := by
    intro o ho
    obtain ⟨b, hb, rfl⟩ := List.mem_map.mp ho
    obtain ⟨f, hf⟩ := Cache.mem_inflight_iff.mp (AList.mem_keys.mpr hb)
    obtain ⟨f', hf', -⟩ := h.waits b f hf
    have hin := AList.mem_keys.mp (Cache.mem_inflight_iff.mpr ⟨f', hf'⟩)
    rcases e : owner b with ⟨- | -, b'⟩
    · rw [e] at hin
      exact List.mem_append_left _ (List.mem_map_of_mem hin)
    · rw [e] at hin
      exact List.mem_append_right _ (List.mem_map_of_mem hin)
  have hle := (List.subperm_of_subset hnodup hsub).length_le
  simpa only [List.length_append, List.length_map, length_keys] using hle

/-- A step in which the last level gets nothing new keeps the owners. -/
theorem OwnedBy.putCaches (h : m.OwnedBy owner)
    (hl1 : ∀ b f, (m.l1 x).ready b = some f → l1'.ready b = some f)
    (hllc : ∀ b f, llc'.ready b = some f → m.llc.ready b = some f) :
    (m.putCaches x l1' llc').OwnedBy owner where
  waits b f hf := by
    rw [putCaches_llc] at hf
    obtain ⟨f', hf', hle⟩ := h.waits b f (hllc b f hf)
    refine ⟨f', ?_, hle⟩
    rw [putCaches_l1]
    split_ifs with hx
    · exact hl1 _ _ (hx ▸ hf')
    · exact hf'
  injective b b' hb hb' heq := by
    rw [putCaches_llc, Cache.mem_inflight_iff] at hb hb'
    obtain ⟨f, hf⟩ := hb
    obtain ⟨f', hf'⟩ := hb'
    exact h.injective b b' (Cache.mem_inflight_iff.mpr ⟨f, hllc b f hf⟩)
      (Cache.mem_inflight_iff.mpr ⟨f', hllc b' f' hf'⟩) heq

/-- A fill in both levels: the block of the first level owns that of the last. -/
theorem OwnedBy.fill (h : m.OwnedBy owner) {b₁ b₂ : BitVec 32} {f₁ f₂ : ℕ}
    (hidle₁ : (m.l1 x).ready b₁ = none)
    (hl1 : ∀ b, l1'.ready b = if b = b₁ then some f₁ else (m.l1 x).ready b)
    (hidle₂ : m.llc.ready b₂ = none)
    (hllc : ∀ b, llc'.ready b = if b = b₂ then some f₂ else m.llc.ready b) (hle : f₂ ≤ f₁) :
    (m.putCaches x l1' llc').OwnedBy (Function.update owner b₂ (x, b₁)) := by
  have hold {b : BitVec 32} (hb : b ∈ llc'.inflight) (hne : b ≠ b₂) : b ∈ m.llc.inflight := by
    rw [Cache.mem_inflight_iff] at hb ⊢
    simpa only [hllc, if_neg hne] using hb
  -- no block has this owner yet
  have hfree : ∀ b ∈ m.llc.inflight, owner b ≠ (x, b₁) := by
    intro b hb heq
    obtain ⟨f, hf⟩ := Cache.mem_inflight_iff.mp hb
    obtain ⟨f', hf', -⟩ := h.waits b f hf
    rw [heq] at hf'
    cases hidle₁.symm.trans hf'
  refine ⟨fun b f hf => ?_, fun b b' hb hb' heq => ?_⟩
  · rw [putCaches_llc, hllc] at hf
    by_cases hb : b = b₂
    · subst hb
      rw [if_pos rfl, Option.some.injEq] at hf
      rw [Function.update_self, putCaches_l1, if_pos rfl]
      exact ⟨f₁, by rw [hl1, if_pos rfl], hf ▸ hle⟩
    · rw [if_neg hb] at hf
      obtain ⟨f', hf', hle'⟩ := h.waits b f hf
      have hne := hfree b (Cache.mem_inflight_iff.mpr ⟨f, hf⟩)
      rw [Function.update_of_ne hb, putCaches_l1]
      refine ⟨f', ?_, hle'⟩
      split_ifs with hx
      · rw [hl1, if_neg (fun hb₁ => hne (Prod.ext hx hb₁)), ← hx]
        exact hf'
      · exact hf'
  · rw [putCaches_llc] at hb hb'
    by_cases hb₂ : b = b₂
    · by_cases hb₂' : b' = b₂
      · rw [hb₂, hb₂']
      · rw [hb₂, Function.update_self, Function.update_of_ne hb₂'] at heq
        exact absurd heq.symm (hfree b' (hold hb' hb₂'))
    · by_cases hb₂' : b' = b₂
      · rw [hb₂', Function.update_self, Function.update_of_ne hb₂] at heq
        exact absurd heq (hfree b (hold hb hb₂))
      · rw [Function.update_of_ne hb₂, Function.update_of_ne hb₂'] at heq
        exact h.injective b b' (hold hb hb₂) (hold hb' hb₂') heq

/-- **An answer of the last level** and the fill behind it keep the blocks owned. -/
theorem Owned.answer (h : m.Owned) {addr : BitVec 32} (hacc : (m.l1 x).Accepts addr)
    {t f f' : ℕ} {pf : Bool} {s : AccessStatus}
    (hanswer : m.llc.LlcOutcome addr t pf s f llc') (hle : f ≤ f') :
    (m.putCaches x (((m.l1 x).request addr t pf).2.scheduleFill addr f' pf) llc').Owned := by
  obtain ⟨owner, h⟩ := h
  have hkept (b g) (hg : (m.l1 x).ready b = some g) := (hacc.frame hg t f' pf).1
  have hreq := (Cache.request_spec m.llc addr t pf).1
  cases hanswer with
  | hit resident =>
    exact ⟨owner, h.putCaches hkept fun b g hg => (hreq.ready b).symm.trans hg⟩
  | merged f absent pending =>
    exact ⟨owner, h.putCaches hkept fun b g hg => (hreq.ready b).symm.trans hg⟩
  | new absent idle room =>
    exact ⟨_, h.fill hacc.idle (hacc.ready t f' pf) idle
      (Cache.Accepts.ready ⟨absent, idle, room⟩ t _ pf) hle⟩

/-- A step in which neither level gets anything new. -/
theorem Owned.same (h : m.Owned) (hl1 : Cache.Same (m.l1 x) l1')
    (hllc : Cache.Same m.llc llc') : (m.putCaches x l1' llc').Owned := by
  obtain ⟨owner, h⟩ := h
  exact ⟨owner, h.putCaches (fun b f hf => (hl1.ready b).trans hf)
    fun b f hf => (hllc.ready b).symm.trans hf⟩

/-- The returns of a cycle: what the last level still waits for, its owner waits for
too. -/
theorem Owned.processReturns (h : m.Owned) (t : ℕ) (i d l : TableOrder) :
    (m.processReturns t i d l).Owned := by
  obtain ⟨owner, h⟩ := h
  refine ⟨owner, fun b f hf => ?_, fun b b' hb hb' heq => ?_⟩
  · change (m.llc.processReturns t l).ready b = some f at hf
    rw [Cache.processReturns_ready] at hf
    obtain ⟨hready, hlt⟩ := Option.filter_eq_some_iff.mp hf
    obtain ⟨f', hf', hle⟩ := h.waits b f hready
    refine ⟨f', ?_, hle⟩
    have hlt' : t < f' := (of_decide_eq_true hlt).trans_le hle
    simp [Cache.processReturns_ready, hf', hlt']
  · have hold {b : BitVec 32} (hb : b ∈ (m.llc.processReturns t l).inflight) :
        b ∈ m.llc.inflight := by
      obtain ⟨f, hf⟩ := Cache.mem_inflight_iff.mp hb
      rw [Cache.processReturns_ready] at hf
      exact Cache.mem_inflight_iff.mpr ⟨f, (Option.filter_eq_some_iff.mp hf).1⟩
    exact h.injective b b' (hold hb) (hold hb') heq

/-! ### Runs -/

/-- The invariant under which the last level refuses nothing a first level accepts. -/
structure Roomy (last : Option ℕ) (m : MemSubsystem P) : Prop where
  bounded : m.Bounded last
  owned : m.Owned
  entries : (m.l1 .icache).maxInflight + (m.l1 .dcache).maxInflight ≤ m.llc.maxInflight

theorem Roomy.not_refuses {last : Option ℕ} (h : m.Roomy last) {addr : BitVec 32}
    (hacc : (m.l1 x).Accepts addr) : ¬ m.llc.Refuses addr := by
  intro href
  obtain ⟨owner, howner⟩ := h.owned
  have hle := howner.length_le
  have hentries := h.entries
  have hroom := hacc.room
  have hnoRoom := href.noRoom
  have hi := (h.bounded.l1 .icache).capacity
  have hd := (h.bounded.l1 .dcache).capacity
  cases x <;> omega

/-- A first level with an MSHR free serves an access. -/
theorem Roomy.served {last : Option ℕ} (h : m.Roomy last)
    (hroom : (m.l1 x).inflight.entries.length < (m.l1 x).maxInflight) (addr : BitVec 32)
    (t : ℕ) : (m.access x addr t).1.blocked = false := by
  obtain ⟨r, l1', llc', heq, hout⟩ := m.access_spec x addr t
  rw [heq]
  cases hout with
  | hit resident status => rfl
  | merged f absent pending status => rfl
  | l1Full refuses status => exact absurd hroom (not_lt.mpr refuses.noRoom)
  | llcFull accepts refuses status llcStatus => exact absurd refuses (h.not_refuses accepts)
  | fill accepts status s f llc' llcStatus answer => rfl

theorem Roomy.of_shape {m' : MemSubsystem P} {last last' : Option ℕ} (h : m.Roomy last)
    (hs : m.SameShape m') (hbounded : m'.Bounded last') (howned : m'.Owned) :
    m'.Roomy last' where
  bounded := hbounded
  owned := howned
  entries := by
    rw [(hs.l1 .icache).maxInflight, (hs.l1 .dcache).maxInflight, hs.llc.maxInflight]
    exact h.entries

theorem roomy_runInvariant : RunInvariant (P := P) fun last m => m.Roomy last where
  quiet {last m m'} hs h := by
    refine h.of_shape (@(sameShape_runInvariant m).quiet last _ _ hs (SameShape.refl m))
      (bounded_runInvariant.quiet hs h.bounded) ?_
    -- the requests in flight are as before, and so are their owners
    obtain ⟨owner, howner⟩ := h.owned
    refine ⟨owner, fun b f hf => ?_, fun b b' hb hb' heq => ?_⟩
    · obtain ⟨f', hf', hle⟩ := howner.waits b f (by rwa [hs.llc] at hf)
      exact ⟨f', ((hs.same _).ready _).trans hf', hle⟩
    · rw [hs.llc] at hb hb'
      exact howner.injective b b' hb hb' heq
  access {t m} x addr r l1' llc' hout h := by
    refine h.of_shape ((sameShape_runInvariant m).access x addr r l1' llc' hout
      (SameShape.refl m)) (bounded_runInvariant.access x addr r l1' llc' hout h.bounded) ?_
    have hl1 := (Cache.request_spec (m.l1 x) addr t false).1
    have hllc := (Cache.request_spec m.llc addr t false).1
    -- a request that the last level takes is owned by the one the first level takes with it
    apply hout.rule
    · exact h.owned.same hl1 (.refl _)
    · intro _ _
      exact h.owned.same hl1 hllc
    · intro accepts _ s f c' _ answer
      exact h.owned.answer accepts answer (Nat.le_add_right _ _)
  prefetch {t m} x addr l1' llc' hout h := by
    refine h.of_shape ((sameShape_runInvariant m).prefetch x addr l1' llc' hout
      (SameShape.refl m)) (bounded_runInvariant.prefetch x addr l1' llc' hout h.bounded) ?_
    have hl1 := (Cache.request_spec (m.l1 x) addr t true).1
    have hllc := (Cache.request_spec m.llc addr t true).1
    apply hout.rule
    · intro _
      exact h.owned.same hl1 (.refl _)
    · intro _ _
      exact h.owned.same hl1 hllc
    · intro accepts _ s f c' _ answer
      exact h.owned.answer accepts answer le_rfl
  returns {last m} t i d l hle h :=
    h.of_shape ((sameShape_runInvariant m).returns t i d l hle (SameShape.refl m))
      (bounded_runInvariant.returns t i d l hle h.bounded) (h.owned.processReturns t i d l)

/-- Nothing is in flight, so anything may own it. -/
theorem owned_new (cfg : MemConfig P) : (new cfg).Owned := by
  refine ⟨fun b => (.icache, b), ⟨fun b f hf => ?_, fun b b' hb hb' heq => ?_⟩⟩
  · cases hf
  · exact congrArg Prod.snd heq

theorem roomy_new {cfg : MemConfig P} (h : cfg.Ample) : (new cfg).Roomy none where
  bounded := bounded_new cfg
  owned := owned_new cfg
  entries := h

end MemSubsystem

end TraceSim
