import LionCore.Addresses
import LionCore.Security.SlowRevocation

/-!
# Addresses over a run

* `temporal_safety`        **main result**: over a run, addresses are handed out in order, owners
                           stay, and a freed address is never live again;
* `Call.FreesKnown`        a free that `execute` carries out is of an allocated address;
* `alloc_fresh`            **main result**: behind such frees, an allocation returns a fresh live
                           address;
* `alloc_returns_freed`    without the condition it may return an address that is freed already.
-/

namespace LionCore
open Base

/-! ## what a call hands out -/

/-- a host call for an allocation -/
def Step.allocates : Step → Bool
  | .hostCall hc _ _ => decide (hc.function = .kernelAlloc)
  | _ => false

/-- the address that a call hands out: `alloc` returns it, a host call that succeeds assigns it -/
def Call.handsOut (s : State) : Call → Option MemAddr
  | .alloc owner size => some (Kernel.alloc s owner size).1
  | .execute t =>
    if t.allocates = true ∧ (Kernel.execute s t).1 = .ok () then
      some (asU64 s.ghost.resourceCount)
    else none
  | .executeMut t =>
    if t.allocates = true ∧ (Kernel.executeMut s t).1 = .ok () then
      some (asU64 s.ghost.resourceCount)
    else none
  | _ => none

/-- the addresses that a run hands out -/
def handedOut (hmac : Hmac) : State → List Call → List MemAddr
  | _, [] => []
  | s, cl :: cs => (cl.handsOut s).toList ++ handedOut hmac (cl.exec hmac s) cs

theorem Effect.alloc_ghost {p : Path} {s s' : State} {t : Step} (h : Effect p s t s')
    (ht : t.allocates = true) :
    ∃ owner, s'.ghost = s.ghost.alloc (asU64 s.ghost.resourceCount) owner := by
  cases t with
  | hostCall hc auth res =>
    have he := h.hostCall.2
    rw [of_decide_eq_true ht] at he
    cases he with
    | kernelAlloc => exact ⟨hc.caller, rfl⟩
  | pluginInternal _ _ | kernelInternal _ | memFree _ _ | capRevoke _ _ => cases ht

theorem Call.handsOut_spec (hmac : Hmac) {s : State} {cl : Call} {a : MemAddr}
    (h : cl.handsOut s = some a) : a = asU64 s.ghost.resourceCount ∧
      ∃ owner, (cl.exec hmac s).ghost = s.ghost.alloc (asU64 s.ghost.resourceCount) owner := by
  cases cl with
  | alloc owner size =>
    cases h
    exact ⟨rfl, owner, rfl⟩
  | execute t =>
    obtain ⟨⟨ht, hok⟩, e⟩ := Option.ite_none_right_eq_some.mp h
    refine ⟨(Option.some.inj e).symm, ?_⟩
    show ∃ owner, (Kernel.execute s t).2.ghost = _
    unfold Kernel.execute at hok ⊢
    cases he : t.execute s with
    | ok s' => exact (effect_of_execute he).alloc_ghost ht
    | error e =>
      rw [he] at hok
      cases hok
  | executeMut t =>
    obtain ⟨⟨ht, hok⟩, e⟩ := Option.ite_none_right_eq_some.mp h
    refine ⟨(Option.some.inj e).symm, ?_⟩
    show ∃ owner, (t.executeMut s).2.ghost = _
    unfold Kernel.executeMut at hok
    rcases he : t.executeMut s with ⟨res, s'⟩
    rw [he] at hok
    obtain rfl : res = .ok () := mapError_ok_iff.mp hok
    exact (effect_of_executeMut he).alloc_ghost ht
  | registerPlugin _ _ _ | insertPlugin _ _ | insertActor _ _ | insertResource _ _
  | insertWorkflow _ _ | insertCapRaw _ _ | delegateCap _ _ _ | revokeCap _ | free _ | tick =>
    cases h

/-! ## temporal safety -/

/-- the freed set only grows, whatever the width of an address -/
theorem runCalls_isFreed (hmac : Hmac) {s : State} (cs : List Call) (w : s.ghost.Sound)
    {a : MemAddr} (ha : s.ghost.isFreed a = true) :
    (runCalls hmac s cs).ghost.isFreed a = true := by
  have step : ∀ (s : State) (cl : Call), s.ghost.Sound ∧ s.ghost.isFreed a = true →
      (cl.exec hmac s).ghost.Sound ∧ (cl.exec hmac s).ghost.isFreed a = true := by
    rintro s cl ⟨w, ha⟩
    refine ⟨cl.sound hmac w, ?_⟩
    have hg := cl.ghostStep hmac s
    generalize (cl.exec hmac s).ghost = g at hg ⊢
    cases hg with
    | same => exact ha
    | alloc owner => exact ha
    | free _ _ _ hf => exact (MetaState.frees_isFreed w hf a).mpr (Or.inr ha)
  exact (run_invariant (P := fun s : State => s.ghost.Sound ∧ s.ghost.isFreed a = true) step cs
    ⟨w, ha⟩).2

/-- **Main result**: between an earlier state `s` and a later state `t` of any run from an empty
state.  The keys of the map are the addresses below its size, and the freed set is sorted and
grows; a freed address is never live again.  As long as the size of the map is a `u64`, no
allocation meets an existing entry, and no address gets another owner. -/
theorem temporal_safety (hmac : Hmac) (key : Key) (policy : PolicyState) (cs ds : List Call) :
    let s := runCalls hmac (.initial key policy) cs
    let t := runCalls hmac s ds
    t.ghost.resources.entries.keys = List.range t.ghost.resourceCount ∧
      Increasing t.ghost.freedSet ∧ s.ghost.freedSet ⊆ t.ghost.freedSet ∧
      s.temporalSafety t = true ∧
      (∀ a, s.ghost.isFreed a = true → t.ghost.isLive a = false) ∧
      (t.ghost.resourceCount < u64Size →
        (∀ (cl : Call) a, cl.handsOut s = some a → s.ghost.getStatus a = none) ∧
        ∀ a o o', s.ghost.getStatus a = some (.allocated o) →
          t.ghost.getStatus a = some (.allocated o') → o' = o) := by
  intro s t
  have ws : s.ghost.Sound := runCalls_sound hmac cs .empty
  have wt : t.ghost.Sound := runCalls_sound hmac ds ws
  have grows : ∀ a, s.ghost.isFreed a = true → t.ghost.isFreed a = true :=
    fun a ha => runCalls_isFreed hmac ds ws ha
  refine ⟨wt.dense, wt.freed, fun a ha => ?_, ?_, fun a ha => ?_, fun hlen => ?_⟩
  · exact (wt.isFreed_iff a).mp (grows a ((ws.isFreed_iff a).mpr ha))
  · exact List.all_eq_true.mpr fun a ha => grows a ((ws.isFreed_iff a).mpr ha)
  · apply eq_false_of_ne_true
    intro hlive
    have hf := ((t.ghost.isLive_iff a).mp hlive).2
    rw [grows a ha] at hf
    cases hf
  · obtain ⟨hs, hle⟩ := runCalls_later hmac ds ws hlen
    constructor
    · intro cl a ha
      rw [(cl.handsOut_spec hmac ha).1, asU64_of_lt hs]
      exact (ws.getStatus_eq_none_iff _).mpr le_rfl
    · intro a o o' ho ho'
      have h := hle.1 a
      rw [(s.ghost.record_eq_live_iff a o).mpr ho, (t.ghost.record_eq_live_iff a o').mpr ho'] at h
      exact Phase.owner_eq_of_le h

/-! ## fresh addresses -/

/-- a free that `execute` carries out is of an address that has been allocated -/
def Call.FreesKnown (s : State) : Call → Prop
  | .execute t => ∀ addr, t.frees = some addr → t.Admitted s → checkFree s addr = .ok () →
      s.ghost.getStatus addr ≠ none
  | _ => True

/-- every freed address has been allocated -/
def MetaState.FreedKnown (m : MetaState) : Prop :=
  ∀ a, m.isFreed a = true → a < m.resourceCount

theorem Call.freedKnown (hmac : Hmac) {s : State} (cl : Call) (w : s.ghost.Sound)
    (h : s.ghost.FreedKnown) (hok : cl.FreesKnown s) : (cl.exec hmac s).ghost.FreedKnown := by
  have known : ∀ addr, s.ghost.getStatus addr ≠ none → addr < s.ghost.resourceCount :=
    fun addr hst => not_le.mp fun hle => hst ((w.getStatus_eq_none_iff addr).mpr hle)
  have hg := cl.ghostStep hmac s
  generalize (cl.exec hmac s).ghost = g at hg ⊢
  cases hg with
  | same => exact h
  | alloc owner =>
    have hlen := (GhostStep.sound (.alloc owner : GhostStep s cl _) w).2
    exact fun a ha => lt_of_lt_of_le (h a ha) hlen
  | @free p addr _ hadm hc hck hf =>
    intro a ha
    rw [(w.frees hf).2]
    rcases (MetaState.frees_isFreed w hf a).mp ha with rfl | ha
    · refine known a ?_
      rcases Path.frees_cases hf with ⟨rfl, _⟩ | ⟨_, hlive, _⟩
      · cases cl with
        | execute t =>
          obtain ⟨_, ht, e⟩ := Option.map_eq_some_iff.mp hc
          cases e
          exact hok a ht hadm hck
        | executeMut t =>
          obtain ⟨_, _, e⟩ := Option.map_eq_some_iff.mp hc
          cases e
        | free _ => cases hc
        | registerPlugin _ _ _ | insertPlugin _ _ | insertActor _ _ | insertResource _ _
        | insertWorkflow _ _ | insertCapRaw _ _ | delegateCap _ _ _ | revokeCap _ | alloc _ _
        | tick => cases hc
      · -- the routine in place asks for the status itself
        obtain ⟨⟨owner, hst⟩, _⟩ := (s.ghost.isLive_iff a).mp hlive
        rw [hst]
        nofun
    · exact h a ha

theorem handedOut_lt (hmac : Hmac) {s : State} (cs : List Call) (w : s.ghost.Sound)
    (hlen : (runCalls hmac s cs).ghost.resourceCount < u64Size) :
    ∀ a ∈ handedOut hmac s cs, a < (runCalls hmac s cs).ghost.resourceCount := by
  induction cs generalizing s with
  | nil => exact fun a ha => absurd ha List.not_mem_nil
  | cons cl cs ih =>
    have w' := cl.sound hmac w
    intro a ha
    rcases List.mem_append.mp ha with ha | ha
    · obtain ⟨rfl, owner, hg⟩ := cl.handsOut_spec hmac (Option.mem_toList.mp ha)
      have hfirst := ((cl.ghostStep hmac s).sound w).2
      have hend : (cl.exec hmac s).ghost.resourceCount ≤
          (runCalls hmac s (cl :: cs)).ghost.resourceCount := runCalls_count_le hmac cs w'
      have hs : s.ghost.resourceCount < u64Size := lt_of_le_of_lt (hfirst.trans hend) hlen
      rcases (w.alloc owner).2 with ⟨_, e⟩ | ⟨hge, _⟩
      · rw [← hg] at e
        rw [asU64_of_lt hs]
        exact lt_of_lt_of_le (e ▸ Nat.lt_succ_self _) hend
      · exact absurd hs (not_lt.mpr hge)
    · exact ih w' hlen a ha

theorem alloc_isLive_iff (s : State) (owner : PluginId) (size : Size) :
    (Kernel.alloc s owner size).2.ghost.isLive (Kernel.alloc s owner size).1 = true ↔
      s.ghost.isFreed (Kernel.alloc s owner size).1 = false := by
  have hst : (Kernel.alloc s owner size).2.ghost.getStatus (Kernel.alloc s owner size).1 =
      some (.allocated owner) := (s.ghost.resources.get_insert _ _ _).trans (if_pos rfl)
  rw [MetaState.isLive_iff, hst]
  exact ⟨fun h => h.2, fun h => ⟨⟨owner, rfl⟩, h⟩⟩

/-- **Main result**: after a run from an empty state in which `execute` frees allocated addresses
only, an allocation returns an address that the run has not handed out and that is not freed; it
is live afterwards, and its owner is the caller. -/
theorem alloc_fresh (hmac : Hmac) (key : Key) (policy : PolicyState) (cs : List Call)
    (hok : Along (Call.exec hmac) Call.FreesKnown (.initial key policy) cs)
    (hlen : (runCalls hmac (.initial key policy) cs).ghost.resourceCount < u64Size)
    (owner : PluginId) (size : Size) :
    let s := runCalls hmac (.initial key policy) cs
    let a := (Kernel.alloc s owner size).1
    let s' := (Kernel.alloc s owner size).2
    a ∉ handedOut hmac (.initial key policy) cs ∧ s.ghost.isFreed a = false ∧
      s'.ghost.isLive a = true ∧ s'.ghost.getStatus a = some (.allocated owner) := by
  intro s a s'
  have ha : a = s.ghost.resourceCount := asU64_of_lt hlen
  have hknown : s.ghost.Sound ∧ s.ghost.FreedKnown :=
    run_invariant_of (P := fun s : State => s.ghost.Sound ∧ s.ghost.FreedKnown)
      (fun _ cl h hok => ⟨cl.sound hmac h.1, cl.freedKnown hmac h.1 h.2 hok⟩) cs
      ⟨.empty, fun _ h => by cases h⟩ hok
  have hfree : s.ghost.isFreed a = false :=
    eq_false_of_ne_true fun h => absurd (hknown.2 a h) (not_lt.mpr ha.ge)
  refine ⟨fun hmem => ?_, hfree, (alloc_isLive_iff s owner size).mpr hfree, ?_⟩
  · exact absurd (handedOut_lt hmac cs .empty hlen a hmem) (not_lt.mpr ha.ge)
  · exact (s.ghost.resources.get_insert _ _ _).trans (if_pos rfl)

theorem alloc_fresh_sample :
    let s := runCalls sampleMac (.initial .empty .permitAll)
      [.alloc 1 8, .execute (.memFree 1 0)]
    (Kernel.alloc s 2 8).1 ∉ handedOut sampleMac (.initial .empty .permitAll)
        [.alloc 1 8, .execute (.memFree 1 0)] ∧
      s.ghost.isFreed (Kernel.alloc s 2 8).1 = false ∧
      (Kernel.alloc s 2 8).2.ghost.isLive (Kernel.alloc s 2 8).1 = true ∧
      (Kernel.alloc s 2 8).2.ghost.getStatus (Kernel.alloc s 2 8).1 = some (.allocated 2) := by
  refine alloc_fresh sampleMac .empty .permitAll [.alloc 1 8, .execute (.memFree 1 0)] ?_
    (by decide) 2 8
  refine ⟨trivial, fun addr h _ _ => ?_, trivial⟩
  cases h
  decide

/-- a free on a clone of an address that nothing has allocated yet -/
theorem alloc_returns_freed :
    let s := runCalls sampleMac Kernel.new [.execute (.memFree 1 0)]
    (Kernel.alloc s 1 8).1 = 0 ∧ s.ghost.isFreed 0 = true ∧
      (Kernel.alloc s 1 8).2.ghost.isLive 0 = false := by
  decide

end LionCore
