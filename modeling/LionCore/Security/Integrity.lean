import LionCore.Addresses
import LionCore.Security.SlowRevocation

/-!
# No write up

The gate compares integrity levels only for actions that ask for the right to write.  A free asks
for the right to delete, or for nothing.

* `Effect.ghostChanged`   an address changes its status when it is allocated or freed;
* `no_write_up_iff`       **main result**: a step writes up exactly if it frees an address of a
                          plugin above its subject;
* `writes_up`             a public plugin frees the address of a secret one.
-/

namespace LionCore
open Base

/-- the ghost status of an address changes: what the map says, or whether it is freed -/
def GhostChanged (m m' : MetaState) (a : MemAddr) : Prop :=
  m'.getStatus a ≠ m.getStatus a ∨ m'.isFreed a ≠ m.isFreed a

/-- the step changes no address of a registered plugin above its subject, on either path -/
def NoWriteUp (s : State) (t : Step) : Prop :=
  ∀ path s' p q lp lq a, Exec path t s s' → t.subject = some p → s.pluginLevel p = some lp →
    s.ghost.getStatus a = some (.allocated q) → s.pluginLevel q = some lq →
    GhostChanged s.ghost s'.ghost a → lq ≤ lp

/-- if the step frees an address of a registered plugin, that plugin is not above its subject -/
def FreesNotUp (s : State) (t : Step) : Prop :=
  ∀ p q lp lq a, t.frees = some a → t.Admitted s → checkFree s a = .ok () →
    t.subject = some p → s.pluginLevel p = some lp →
    s.ghost.getStatus a = some (.allocated q) → s.pluginLevel q = some lq → lq ≤ lp

theorem frees_unchanged {m m' : MetaState} (w : m.Sound) {p : Path} {addr a : MemAddr}
    (hf : p.frees m addr m') (ha : a ≠ addr) : ¬ GhostChanged m m' a := by
  have hfreed : m'.isFreed a = m.isFreed a := by
    rw [Bool.eq_iff_iff, MetaState.frees_isFreed w hf a]
    exact or_iff_right ha
  have hstatus : m'.getStatus a = m.getStatus a :=
    (MetaState.frees_getStatus hf a).resolve_right fun h => ha h.1
  exact fun h => h.elim (fun h => h hstatus) fun h => h hfreed

theorem Effect.ghostChanged {p : Path} {s s' : State} {t : Step} (h : Effect p s t s')
    (w : s.ghost.Sound) (hlt : s.ghost.resourceCount < u64Size) {a : MemAddr}
    (hch : GhostChanged s.ghost s'.ghost a) : s.ghost.getStatus a = none ∨
      (t.frees = some a ∧ t.Admitted s ∧ checkFree s a = .ok ()) := by
  have same : s'.ghost = s.ghost → False := fun e => by
    rw [e] at hch
    exact hch.elim (fun h => h rfl) fun h => h rfl
  cases h with
  | @compute pid pi hck =>
    obtain ⟨actors, e⟩ := pi.consume_frame s pid
    exact (same (by rw [e])).elim
  | use | declassify | revoke | route | workflow | tick | unblock => exact (same rfl).elim
  | @alloc hc auth res hgate hf hck =>
    refine Or.inl ((w.getStatus_eq_none_iff a).mpr ?_)
    by_contra hn
    have hne : a ≠ asU64 s.ghost.resourceCount := by
      rw [asU64_of_lt hlt]
      exact fun e => hn e.ge
    refine hch.elim (fun h => h ?_) fun h => h rfl
    exact (s.ghost.resources.get_insert _ a _).trans (if_neg hne)
  | @free t addr g hgate ht hck hg =>
    by_cases ha : a = addr
    · subst ha
      exact Or.inr ⟨ht, hgate, hck⟩
    · exact absurd hch (frees_unchanged w hg ha)

/-- **Main result**: in every state that a run from an empty state reaches, a step writes up on no
path exactly if it frees no address of a plugin above its subject. -/
theorem no_write_up_iff (hmac : Hmac) (key : Key) (policy : PolicyState) (cs : List Call)
    (hlen : (runCalls hmac (.initial key policy) cs).ghost.resourceCount < u64Size) (t : Step) :
    NoWriteUp (runCalls hmac (.initial key policy) cs) t ↔
      FreesNotUp (runCalls hmac (.initial key policy) cs) t := by
  have w := runCalls_sound hmac (s := .initial key policy) cs .empty
  generalize runCalls hmac (.initial key policy) cs = s at hlen w ⊢
  constructor
  · intro h p q lp lq a ht hadm hck hs hlp hst hlq
    have hx : Exec .cloning t s (s.withGhost (s.ghost.free a)) := exec_free hadm ht hck rfl
    refine h _ _ p q lp lq a hx hs hlp hst hlq (Or.inr fun e => ?_)
    have hfreed : (s.ghost.free a).isFreed a = true :=
      (MetaState.frees_isFreed (p := .cloning) w rfl a).mpr (Or.inl rfl)
    have hnot := ((checkFree_ok_iff s a).mp hck).1
    rw [show (s.withGhost (s.ghost.free a)).ghost = s.ghost.free a from rfl, hfreed, hnot] at e
    cases e
  · intro h path s' p q lp lq a hx hs hlp hst hlq hch
    rcases hx.effect.ghostChanged w hlen hch with hnone | ⟨ht, hadm, hck⟩
    · rw [hst] at hnone
      cases hnone
    · exact h p q lp lq a ht hadm hck hs hlp hst hlq

/-- plugin 1 is public, plugin 2 is secret and owns the live address 0 -/
def sampleLevels : State :=
  runCalls sampleMac (.initial .empty .permitAll)
    [.registerPlugin 1 .Public 0, .registerPlugin 2 .Secret 0, .alloc 2 8]

theorem no_write_up_iff_sample :
    NoWriteUp sampleLevels (.memFree 2 0) ↔ FreesNotUp sampleLevels (.memFree 2 0) :=
  no_write_up_iff sampleMac .empty .permitAll
    [.registerPlugin 1 .Public 0, .registerPlugin 2 .Secret 0, .alloc 2 8] (by decide)
    (.memFree 2 0)

/-- the public plugin frees the address of the secret one, on either path -/
theorem writes_up : ¬ NoWriteUp sampleLevels (.memFree 1 0) := by
  intro h
  have hle : SecurityLevel.Secret ≤ SecurityLevel.Public :=
    h .inPlace ((Step.memFree 1 0).executeMut sampleLevels).2 1 2 .Public .Secret 0 (by decide)
      rfl (by decide) (by decide) (by decide) (Or.inl (by decide))
  revert hle
  decide

end LionCore
