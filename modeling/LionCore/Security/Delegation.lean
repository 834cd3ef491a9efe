import LionCore.Security.PluginStep
import LionCore.Security.Sealing

/-!
# Delegation: what is promised, and what a failure leaves

* `Mintable`, `delegateCap_ok_iff`   when a delegation succeeds, and the state that it leaves;
* `Delegated`                        what a delegation promises of its child;
* `delegated_iff_registered`         **main result**: in every state that a run reaches, a
                                     delegation that succeeds keeps the promise exactly if its
                                     target is registered;
* `delegateCap_failure`              **main result**: what a failure changes, and when there is a
                                     panic;
* `delegation_not_atomic`            a failure may use up an id, and a parent id without successor
                                     panics.
-/

namespace LionCore
open Base RevocationState

/-! ## success -/

/-- the parent, the counter and the target allow a child to be minted -/
structure Mintable (s : State) (p : CapId) (target : PluginId) (requested : Rights) : Prop where
  parent : ∃ parent, UsableParent s p requested parent
  counter : s.kernel.nextCapId + 1 < u128Size
  successor : p + 1 < u128Size
  holder : target ≠ 0
  fresh : s.getCap s.kernel.nextCapId = none

theorem delegateCap_ok_cases {hmac : Hmac} {s s' : State} {p : CapId} {target : PluginId}
    {requested : Rights} {id : CapId}
    (h : Kernel.delegateCap hmac s p target requested = (.ok id, s')) :
    Mintable s p target requested ∧ id = s.kernel.nextCapId ∧
      ∃ parent tag r, UsableParent s p requested parent ∧
        SealedNow hmac s (s.childCap p target requested parent tag) ∧
        s.kernel.revocation.Inserted (s.childCap p target requested parent tag) r ∧
        s' = (s.nextId.withRevocation r).updatePlugin target (·.grantCapMut id) := by
  have hd := Kernel.delegation_end hmac s p target requested
  rw [h] at hd
  generalize ho : ((.ok id, s') : Outcome CapId × State) = d at hd
  cases hd with
  | @minted parent tag r hu hid hp ht htag hi =>
    cases ho
    have hins := inserted_of_insertMut hi
    exact ⟨⟨⟨parent, hu⟩, hid, hp, ht, hins.fresh⟩, rfl, parent, tag, r, hu, ⟨rfl, htag⟩, hins, rfl⟩
  | notFound _ | revoked _ _ | emptyRights _ _ | exhausted _ _ | unsealable _ _ _
  | invalidHolder _ _ _ _ | collision _ _ _ _ _ => cases ho

theorem delegateCap_ok_iff (hmac : Hmac) (s : State) (p : CapId) (target : PluginId)
    (requested : Rights) (id : CapId) :
    (Kernel.delegateCap hmac s p target requested).1 = .ok id ↔
      Mintable s p target requested ∧ id = s.kernel.nextCapId := by
  constructor
  · intro h
    obtain ⟨hm, hid, _⟩ := delegateCap_ok_cases (Prod.ext h rfl)
    exact ⟨hm, hid⟩
  · rintro ⟨⟨⟨parent, hu⟩, hid, hp, ht, hf⟩, rfl⟩
    have hd := Kernel.delegation_end hmac s p target requested
    generalize Kernel.delegateCap hmac s p target requested = d at hd ⊢
    cases hd with
    | minted _ _ _ _ _ _ => rfl
    | notFound h => exact absurd h hu.present
    | revoked h hv => cases hv.symm.trans (hu.of_entry h).valid
    | emptyRights h hr => cases hr.symm.trans (hu.of_entry h).rights
    | exhausted _ h => exact absurd h (not_le.mpr hid)
    | unsealable _ _ h => exact absurd h (not_le.mpr hp)
    | invalidHolder _ _ _ h => exact absurd h ht
    | collision _ _ _ _ h => exact absurd hf h

/-! ## the promise -/

/-- what a delegation of `p` to `target` promises of the child `id` and of everything else -/
structure Delegated (hmac : Hmac) (s s' : State) (p : CapId) (target : PluginId)
    (requested : Rights) (id : CapId) : Prop where
  fresh : s.getCap id = none
  entry : ∃ parent child, s.getCap p = some parent ∧ s'.getCap id = some child ∧
    child.id = id ∧ child.valid = true ∧ child.holder = target ∧ child.target = parent.target ∧
    child.parent = some p ∧ child.rights = requested.intersection parent.rights ∧
    child.rights.isEmpty = false ∧ s'.kernel.verifyCapSeal hmac child = some true
  holds : s'.pluginHolds target id = true
  otherCaps : ∀ c, c ≠ id → s'.getCap c = s.getCap c
  otherPlugins : ∀ q, q ≠ target → s'.getPlugin q = s.getPlugin q

theorem pluginHolds_granted {s : State} (hs : s.Ordered) (target : PluginId) {c : CapId} :
    (s.updatePlugin target (·.grantCapMut c)).pluginHolds target c = true ↔
      s.pluginHolds target c = true ∨ s.getPlugin target ≠ none := by
  have held : ∀ p l, s.held p = some l → Increasing l := by
    intro p l hl
    obtain ⟨q, hq, rfl⟩ := Option.map_eq_some_iff.mp hl
    exact hs.held p q hq
  rw [pluginHolds_grant held]
  simp

theorem delegated_iff {hmac : Hmac} {s s' : State} (hs : s.Ordered) {p : CapId}
    {target : PluginId} {requested : Rights} {id : CapId}
    (h : Kernel.delegateCap hmac s p target requested = (.ok id, s')) :
    Delegated hmac s s' p target requested id ↔ s.getPlugin target ≠ none := by
  obtain ⟨hm, rfl, parent, tag, r, hu, hseal, hins, rfl⟩ := delegateCap_ok_cases h
  have hget := hins.get hs.caps
  have hord : (s.nextId.withRevocation r).Ordered := ⟨hins.sorted hs.caps, hs.plugins, hs.held⟩
  have hholds := pluginHolds_granted hord target (c := s.kernel.nextCapId)
  constructor
  · intro hd hn
    rcases hholds.mp hd.holds with hold | hreg
    · obtain ⟨l, hl, _⟩ := (pluginHolds_iff _ _ _).mp hold
      obtain ⟨q, hq, _⟩ := Option.map_eq_some_iff.mp hl
      cases hn.symm.trans hq
    · exact hreg hn
  · intro hreg
    refine ⟨hm.fresh, ⟨parent, _, hu.entry, (hget _).trans (if_pos rfl), rfl, rfl, rfl, rfl, rfl,
      rfl, hu.rights, hseal.verifies⟩, hholds.mpr (Or.inr hreg), fun c hc => ?_, fun q hq => ?_⟩
    · exact (hget c).trans (if_neg hc)
    · rw [State.getPlugin_updatePlugin, if_neg hq]
      rfl

/-- **Main result**: in every state that a run from an empty state reaches, a delegation that
succeeds keeps its promise exactly if the target is registered.  The table gets the same child
when it is not. -/
theorem delegated_iff_registered (hmac : Hmac) (key : Key) (policy : PolicyState)
    (ops : List StateOp) (hops : ∀ op ∈ ops, op.InsertsOrdered) :
    let s := run (StateOp.exec hmac) (.initial key policy) ops
    ∀ p target requested id s',
      Kernel.delegateCap hmac s p target requested = (.ok id, s') →
        (Delegated hmac s s' p target requested id ↔ s.getPlugin target ≠ none) := by
  intro s p target requested id s' h
  exact delegated_iff (run_ordered hmac (.initial key policy) ops hops) h

theorem delegated_iff_registered_sample :
    let s := run (StateOp.exec sampleMac) (.initial .empty .denyAll) sampleGrant
    (Kernel.delegateCap sampleMac s 100 2 (.singleton .read)).1 = .ok 0 ∧
      s.getPlugin 2 = none ∧
      (Delegated sampleMac s (Kernel.delegateCap sampleMac s 100 2 (.singleton .read)).2 100 2
        (.singleton .read) 0 ↔ s.getPlugin 2 ≠ none) :=
  ⟨by decide, by decide, delegated_iff_registered sampleMac .empty .denyAll sampleGrant
    (List.forall_mem_cons.mpr ⟨List.Pairwise.nil, List.forall_mem_singleton.mpr trivial⟩)
    100 2 (.singleton .read) 0 _ (by decide)⟩

/-- plugin 2 is not registered; the delegation succeeds, and nobody holds the child -/
theorem delegated_to_nobody :
    let s := run (StateOp.exec sampleMac) (.initial .empty .denyAll) sampleGrant
    ∃ s', Kernel.delegateCap sampleMac s 100 2 (.singleton .read) = (.ok 0, s') ∧
      s'.getCap 0 ≠ none ∧ s'.pluginHolds 2 0 = false ∧
      ¬ Delegated sampleMac s s' 100 2 (.singleton .read) 0 := by
  intro s
  have hn : (Kernel.delegateCap sampleMac s 100 2 (.singleton .read)).2.pluginHolds 2 0 = false :=
    by decide
  refine ⟨_, rfl, by decide, hn, ?_⟩
  intro hd
  cases hn.symm.trans hd.holds

/-! ## failure -/

/-- the errors that come before an id is taken -/
def CleanFailure (p : CapId) (e : Error) : Prop :=
  e = .kernel (.capNotFound p) ∨ e = .capability .revoked ∨ e = .capability .emptyRights ∨
    e = .kernel .capIdExhausted

/-- **Main result**: a delegation panics exactly if everything else allows the child to be sealed
and the parent id has no successor.  An error about the parent, the rights or the counter leaves
the state as it was; for an invalid holder and for an id that is taken, the counter has moved on
by one and nothing else has changed. -/
theorem delegateCap_failure (hmac : Hmac) (s : State) (p : CapId) (target : PluginId)
    (requested : Rights) :
    ((Kernel.delegateCap hmac s p target requested).1 = .panic ↔
      (∃ parent, UsableParent s p requested parent) ∧ s.kernel.nextCapId + 1 < u128Size ∧
        u128Size ≤ p + 1) ∧
    ∀ e s', Kernel.delegateCap hmac s p target requested = (.err e, s') →
      (CleanFailure p e ∧ s' = s) ∨
        ((e = .capability .invalidHolder ∨ e = .kernel (.capIdCollision s.kernel.nextCapId)) ∧
          s' = s.nextId) := by
  have hd := Kernel.delegation_end hmac s p target requested
  generalize Kernel.delegateCap hmac s p target requested = d at hd ⊢
  have absent : s.getCap p = none → ¬ ∃ parent, UsableParent s p requested parent :=
    fun h ⟨_, hu⟩ => hu.present h
  refine ⟨?_, ?_⟩
  · cases hd with
    | unsealable hu hid hp => exact iff_of_true rfl ⟨⟨_, hu⟩, hid, hp⟩
    | notFound h => exact iff_of_false nofun fun hx => absent h hx.1
    | revoked h hv =>
      refine iff_of_false nofun ?_
      rintro ⟨⟨parent, hu⟩, _⟩
      cases hv.symm.trans (hu.of_entry h).valid
    | emptyRights h hr =>
      refine iff_of_false nofun ?_
      rintro ⟨⟨parent, hu⟩, _⟩
      cases hr.symm.trans (hu.of_entry h).rights
    | exhausted _ h => exact iff_of_false nofun fun hx => absurd hx.2.1 (not_lt.mpr h)
    | invalidHolder _ _ hp _ | collision _ _ hp _ _ | minted _ _ hp _ _ _ =>
      exact iff_of_false nofun fun hx => absurd hp (not_lt.mpr hx.2.2)
  · intro e s' he
    cases hd with
    | notFound _ =>
      cases he
      exact Or.inl ⟨Or.inl rfl, rfl⟩
    | revoked _ _ =>
      cases he
      exact Or.inl ⟨Or.inr (Or.inl rfl), rfl⟩
    | emptyRights _ _ =>
      cases he
      exact Or.inl ⟨Or.inr (Or.inr (Or.inl rfl)), rfl⟩
    | exhausted _ _ =>
      cases he
      exact Or.inl ⟨Or.inr (Or.inr (Or.inr rfl)), rfl⟩
    | invalidHolder _ _ _ _ =>
      cases he
      exact Or.inr ⟨Or.inl rfl, rfl⟩
    | collision _ _ _ _ _ =>
      cases he
      exact Or.inr ⟨Or.inr rfl, rfl⟩
    | unsealable _ _ _ | minted _ _ _ _ _ _ => cases he

/-- the root, and one more under the last id -/
def sampleLast : State :=
  run (StateOp.exec sampleMac) (.initial .empty .denyAll)
    [.call (.insertCapRaw sampleRoot 1),
      .call (.insertCapRaw { sampleRoot with id := u128Size - 1 } 1)]

/-- a delegation to plugin 0 is refused and has used up an id; a delegation of the entry under the
last id panics -/
theorem delegation_not_atomic :
    (∃ s', Kernel.delegateCap sampleMac sampleLast 100 0 (.singleton .read) =
        (.err (.capability .invalidHolder), s') ∧ sampleLast.kernel.nextCapId = 0 ∧
        s'.kernel.nextCapId = 1) ∧
      (Kernel.delegateCap sampleMac sampleLast (u128Size - 1) 1 (.singleton .read)).1 =
        .panic :=
  ⟨⟨_, rfl, by decide, by decide⟩, by decide⟩

end LionCore
