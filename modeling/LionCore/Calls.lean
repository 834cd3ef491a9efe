import LionCore.Kernel
import LionCore.Revocation.Index
import LionCore.Step.Frame

/-!
# What a call does

* `DelegationEnd`, `Kernel.delegation_end`   how a delegation ends, in the order of its checks;
* `Delegation`, `Kernel.delegation`   the same, as the table sees it;
* `Leaves`, `Call.leaves`      the states that a call can leave, one case for each operation;
* `TableStep`, `Call.tableStep`   so there are four things that a call can do to the table;
* `Call.wellFormed`            every call keeps table and index well formed.
-/

namespace LionCore
open Base RevocationState

/-! ## delegation -/

/-- `cap` is a valid child of the entry `p`, with the requested rights that the parent has -/
structure ChildOf (s : State) (p : CapId) (requested : Rights) (cap : Capability) : Prop where
  parent : cap.parent = some p
  valid : cap.valid = true
  id : cap.id = s.kernel.nextCapId
  entry : ∃ pc, s.getCap p = some pc ∧ pc.valid = true ∧ cap.target = pc.target ∧
    cap.rights = requested.intersection pc.rights

theorem applyCapDelegateMut_cases (s : State) (cap : Capability) (target : PluginId) :
    (∃ e, s.applyCapDelegateMut cap target = (.error e, s)) ∨
      ∃ r, s.kernel.revocation.insertMut cap = (.ok (), r) ∧
        s.applyCapDelegateMut cap target =
          (.ok (), (s.withRevocation r).updatePlugin target (·.grantCapMut cap.id)) := by
  unfold State.applyCapDelegateMut
  rcases insertMut_cases s.kernel.revocation cap with ⟨_, e⟩ | ⟨r, e, _⟩
  · rw [e]
    exact Or.inl ⟨_, rfl⟩
  · rw [e]
    exact Or.inr ⟨r, rfl, rfl⟩

theorem allocCapId_of_lt {k : KernelState} (h : k.nextCapId + 1 < u128Size) :
    k.allocCapId = (.ok k.nextCapId, { k with nextCapId := k.nextCapId + 1 }) := by
  unfold KernelState.allocCapId checkedAdd128
  rw [if_pos h]

theorem allocCapId_of_le {k : KernelState} (h : u128Size ≤ k.nextCapId + 1) :
    k.allocCapId = (.error .capIdExhausted, k) := by
  unfold KernelState.allocCapId checkedAdd128
  rw [if_neg (not_lt.mpr h)]

theorem allocCapId_cases (k : KernelState) :
    k.allocCapId = (.error .capIdExhausted, k) ∨
      k.allocCapId = (.ok k.nextCapId, { k with nextCapId := k.nextCapId + 1 }) :=
  (le_or_gt u128Size (k.nextCapId + 1)).imp allocCapId_of_le allocCapId_of_lt

/-- the id counter moved on by one -/
def State.nextId (s : State) : State :=
  { s with kernel := { s.kernel with nextCapId := s.kernel.nextCapId + 1 } }

/-- `cap` carries the seal of the current key and its epoch -/
structure SealedNow (hmac : Hmac) (s : State) (cap : Capability) : Prop where
  epoch : cap.epoch = s.kernel.keyState.epoch
  tag : sealPayload hmac s.kernel.keyState.current cap.payload = some cap.signature

/-- the entry `parent` at `p` is valid and has some of the requested rights -/
structure UsableParent (s : State) (p : CapId) (requested : Rights) (parent : Capability) :
    Prop where
  entry : s.getCap p = some parent
  valid : parent.valid = true
  rights : (requested.intersection parent.rights).isEmpty = false

/-- the child of `parent` that is minted next -/
def State.childCap (s : State) (p : CapId) (target : PluginId) (requested : Rights)
    (parent : Capability) (tag : SealedTag) : Capability :=
  ⟨s.kernel.nextCapId, target, parent.target, requested.intersection parent.rights, some p,
    s.kernel.keyState.epoch, true, tag⟩

section
variable {hmac : Hmac} {s : State} {p : CapId} {target : PluginId} {requested : Rights}
  {parent : Capability}

/-- a parent id without successor cannot be sealed -/
theorem mintChild_unsealable (hp : u128Size ≤ p + 1) :
    Kernel.mintChild hmac s.nextId s.kernel.nextCapId target parent p
      (requested.intersection parent.rights) = none := by
  simp only [Kernel.mintChild]
  rw [sealPayload_of_le hmac _ rfl hp]
  rfl

/-- the seal is computed before the holder is checked -/
theorem mintChild_sealed (hmac : Hmac) (target : PluginId) (hp : p + 1 < u128Size)
    (hu : UsableParent s p requested parent) :
    ∃ tag, sealPayload hmac s.kernel.keyState.current
        (s.childCap p target requested parent tag).payload = some tag ∧
      Kernel.mintChild hmac s.nextId s.kernel.nextCapId target parent p
        (requested.intersection parent.rights) =
          some (if target = 0 then .error .invalidHolder
            else .ok (s.childCap p target requested parent tag)) := by
  let payload : CapPayload := ⟨target, parent.target, requested.intersection parent.rights,
    some p, s.nextId.kernel.keyState.epoch⟩
  obtain ⟨tag, htag⟩ : ∃ tag, sealPayload hmac s.nextId.kernel.keyState.current payload =
    some tag := sealPayload_of_lt hmac _ rfl hp
  refine ⟨tag, htag, ?_⟩
  simp only [Kernel.mintChild, Capability.new, hu.rights, Bool.false_eq_true, if_false]
  rw [htag]
  rfl

end

/-- how a delegation ends, in the order of its checks -/
inductive DelegationEnd (hmac : Hmac) (s : State) (p : CapId) (target : PluginId)
    (requested : Rights) : Outcome CapId × State → Prop
  | notFound (h : s.getCap p = none) :
      DelegationEnd hmac s p target requested (.err (.kernel (.capNotFound p)), s)
  | revoked {parent : Capability} (h : s.getCap p = some parent) (hv : parent.valid = false) :
      DelegationEnd hmac s p target requested (.err (.capability .revoked), s)
  | emptyRights {parent : Capability} (h : s.getCap p = some parent)
      (hr : (requested.intersection parent.rights).isEmpty = true) :
      DelegationEnd hmac s p target requested (.err (.capability .emptyRights), s)
  | exhausted {parent : Capability} (hu : UsableParent s p requested parent)
      (hid : u128Size ≤ s.kernel.nextCapId + 1) :
      DelegationEnd hmac s p target requested (.err (.kernel .capIdExhausted), s)
  | unsealable {parent : Capability} (hu : UsableParent s p requested parent)
      (hid : s.kernel.nextCapId + 1 < u128Size) (hp : u128Size ≤ p + 1) :
      DelegationEnd hmac s p target requested (.panic, s.nextId)
  | invalidHolder {parent : Capability} (hu : UsableParent s p requested parent)
      (hid : s.kernel.nextCapId + 1 < u128Size) (hp : p + 1 < u128Size) (ht : target = 0) :
      DelegationEnd hmac s p target requested (.err (.capability .invalidHolder), s.nextId)
  | collision {parent : Capability} (hu : UsableParent s p requested parent)
      (hid : s.kernel.nextCapId + 1 < u128Size) (hp : p + 1 < u128Size) (ht : target ≠ 0)
      (h : s.getCap s.kernel.nextCapId ≠ none) :
      DelegationEnd hmac s p target requested
        (.err (.kernel (.capIdCollision s.kernel.nextCapId)), s.nextId)
  | minted {parent : Capability} {tag : SealedTag} {r : RevocationState}
      (hu : UsableParent s p requested parent) (hid : s.kernel.nextCapId + 1 < u128Size)
      (hp : p + 1 < u128Size) (ht : target ≠ 0)
      (htag : sealPayload hmac s.kernel.keyState.current
        (s.childCap p target requested parent tag).payload = some tag)
      (h : s.kernel.revocation.insertMut (s.childCap p target requested parent tag) =
        (.ok (), r)) :
      DelegationEnd hmac s p target requested (.ok s.kernel.nextCapId,
        (s.nextId.withRevocation r).updatePlugin target (·.grantCapMut s.kernel.nextCapId))

/-- what a delegation gives back, and the state that it leaves -/
inductive Delegation (hmac : Hmac) (s : State) (p : CapId) (target : PluginId)
    (requested : Rights) : Outcome CapId × State → Prop
  | refused {e : Error} (he : ∀ id, e ≠ .kernel (.capIdCollision id)) :
      Delegation hmac s p target requested (.err e, s)
  | unminted {o : Outcome CapId} (hp : s.getCap p ≠ none)
      (ho : o = .panic ∨ ∃ e, o = .err (.capability e)) :
      Delegation hmac s p target requested (o, s.nextId)
  | collision (hp : s.getCap p ≠ none) (h : s.getCap s.kernel.nextCapId ≠ none) :
      Delegation hmac s p target requested
        (.err (.kernel (.capIdCollision s.kernel.nextCapId)), s.nextId)
  | minted {cap : Capability} {r : RevocationState} (hc : ChildOf s p requested cap)
      (hseal : SealedNow hmac s cap) (h : s.kernel.revocation.insertMut cap = (.ok (), r)) :
      Delegation hmac s p target requested
        (.ok cap.id, (s.nextId.withRevocation r).updatePlugin target (·.grantCapMut cap.id))

theorem applyCapDelegateMut_nextId (s : State) (cap : Capability) (target : PluginId) :
    (s.getCap cap.id ≠ none ∧ s.nextId.applyCapDelegateMut cap target =
        (.error (.capIdCollision cap.id), s.nextId)) ∨
      ∃ r, s.kernel.revocation.insertMut cap = (.ok (), r) ∧
        s.nextId.applyCapDelegateMut cap target =
          (.ok (), (s.nextId.withRevocation r).updatePlugin target (·.grantCapMut cap.id)) := by
  unfold State.applyCapDelegateMut
  rw [show s.nextId.kernel.revocation = s.kernel.revocation from rfl]
  rcases insertMut_cases s.kernel.revocation cap with ⟨h, e⟩ | ⟨r, e, _⟩
  · rw [e]
    exact Or.inl ⟨h, rfl⟩
  · rw [e]
    exact Or.inr ⟨r, rfl, rfl⟩

/-- **Every delegation ends in one of these ways.** -/
theorem Kernel.delegation_end (hmac : Hmac) (s : State) (p : CapId) (target : PluginId)
    (requested : Rights) :
    DelegationEnd hmac s p target requested (Kernel.delegateCap hmac s p target requested) := by
  unfold Kernel.delegateCap
  cases hp : s.getCap p with
  | none => exact .notFound hp
  | some parent =>
    cases hv : parent.valid with
    | false => simpa [hv] using .revoked hp hv
    | true =>
      cases hr : (requested.intersection parent.rights).isEmpty with
      | true => simpa [hv, hr] using .emptyRights hp hr
      | false =>
        have hu : UsableParent s p requested parent := ⟨hp, hv, hr⟩
        simp only [hv, hr, Bool.not_true, Bool.false_eq_true, if_false]
        rcases le_or_gt u128Size (s.kernel.nextCapId + 1) with hid | hid
        · rw [allocCapId_of_le hid]
          exact .exhausted hu hid
        rw [allocCapId_of_lt hid]
        simp only
        rw [show State.mk { s.kernel with nextCapId := s.kernel.nextCapId + 1 } s.plugins s.actors
          s.resources s.workflows s.ghost = s.nextId from rfl]
        rcases le_or_gt u128Size (p + 1) with hseal | hseal
        · rw [mintChild_unsealable hseal]
          exact .unsealable hu hid hseal
        obtain ⟨tag, htag, hm⟩ := mintChild_sealed hmac target hseal hu
        rw [hm]
        by_cases ht : target = 0
        · rw [if_pos ht]
          exact .invalidHolder hu hid hseal ht
        rw [if_neg ht]
        simp only
        rcases applyCapDelegateMut_nextId s (s.childCap p target requested parent tag) target with
          ⟨h, ha⟩ | ⟨r, hi, ha⟩
        · rw [ha]
          exact .collision hu hid hseal ht h
        · rw [ha]
          exact .minted hu hid hseal ht htag hi

theorem UsableParent.present {s : State} {p : CapId} {requested : Rights} {parent : Capability}
    (hu : UsableParent s p requested parent) : s.getCap p ≠ none := by
  rw [hu.entry]
  nofun

theorem UsableParent.of_entry {s : State} {p : CapId} {requested : Rights}
    {parent cap : Capability} (hu : UsableParent s p requested parent)
    (h : s.getCap p = some cap) : UsableParent s p requested cap := by
  obtain rfl := Option.some.inj (h.symm.trans hu.entry)
  exact hu

theorem Kernel.delegation (hmac : Hmac) (s : State) (p : CapId) (target : PluginId)
    (requested : Rights) :
    Delegation hmac s p target requested (Kernel.delegateCap hmac s p target requested) := by
  have h := Kernel.delegation_end hmac s p target requested
  generalize Kernel.delegateCap hmac s p target requested = d at h ⊢
  cases h with
  | notFound _ | revoked _ _ | emptyRights _ _ | exhausted _ _ => exact .refused nofun
  | unsealable hu _ _ => exact .unminted hu.present (Or.inl rfl)
  | invalidHolder hu _ _ _ => exact .unminted hu.present (Or.inr ⟨_, rfl⟩)
  | collision hu _ _ _ h => exact .collision hu.present h
  | @minted parent tag r hu _ _ _ htag h =>
    have hc : ChildOf s p requested (s.childCap p target requested parent tag) :=
      ⟨rfl, rfl, rfl, parent, hu.entry, hu.valid, rfl, rfl⟩
    exact .minted hc ⟨rfl, htag⟩ h

/-! ## the state that a call leaves -/

/-- the plugin that a call is to insert -/
def Call.registers : Call → Option (PluginId × PluginState)
  | .registerPlugin id level memSize => some (id, .empty level memSize)
  | .insertPlugin id ps => some (id, ps)
  | _ => none

/-- a plugin comes in as the code makes it, or as the caller gives it -/
theorem Call.registers_cases {cl : Call} {id : PluginId} {ps : PluginState}
    (h : cl.registers = some (id, ps)) :
    (∃ level memSize, ps = .empty level memSize) ∨ cl = .insertPlugin id ps := by
  cases cl with
  | registerPlugin _ level memSize =>
    cases h
    exact Or.inl ⟨level, memSize, rfl⟩
  | insertPlugin _ _ =>
    cases h
    exact Or.inr rfl
  | _ => cases h

/-- the states that a call can leave -/
inductive Leaves (hmac : Hmac) (s : State) : Call → State → Prop
  | same {cl : Call} : Leaves hmac s cl s
  | plugin {cl : Call} {id : PluginId} {ps : PluginState} {plugins : Table PluginId PluginState}
      (hc : cl.registers = some (id, ps)) (h : s.plugins.add id ps = some plugins) :
      Leaves hmac s cl { s with plugins }
  | actor {id : ActorId} {ar : ActorRuntime} {actors : Table ActorId ActorRuntime}
      (h : s.actors.add id ar = some actors) : Leaves hmac s (.insertActor id ar) { s with actors }
  | resource {id : ResourceId} {ri : ResourceInfo} {resources : Table ResourceId ResourceInfo}
      (h : s.resources.add id ri = some resources) :
      Leaves hmac s (.insertResource id ri) { s with resources }
  | workflow {id : WorkflowId} {wi : WorkflowInstance}
      {workflows : Table WorkflowId WorkflowInstance}
      (h : s.workflows.add id wi = some workflows) :
      Leaves hmac s (.insertWorkflow id wi) { s with workflows }
  | raw {cap : Capability} {target : PluginId} {r : RevocationState}
      (h : s.kernel.revocation.insertMut cap = (.ok (), r)) :
      Leaves hmac s (.insertCapRaw cap target)
        ((s.withRevocation r).updatePlugin target (·.grantCapMut cap.id))
  | delegation {p : CapId} {target : PluginId} {requested : Rights} {d : Outcome CapId × State}
      (h : Delegation hmac s p target requested d) :
      Leaves hmac s (.delegateCap p target requested) d.2
  | revoke {c : CapId} {r : RevocationState} (hpres : s.getCap c ≠ none)
      (h : s.kernel.revocation.revokeTransitiveFastMut c = (.ok (), r)) :
      Leaves hmac s (.revokeCap c) (s.withRevocation r)
  | alloc {owner : PluginId} {size : Size} :
      Leaves hmac s (.alloc owner size) (s.applyAllocMut owner size).2
  | free {addr : MemAddr} {g : MetaState} (hck : checkFree s addr = .ok ())
      (h : s.ghost.freeMut addr = (.ok (), g)) : Leaves hmac s (.free addr) (s.withGhost g)
  | tick (hlt : s.kernel.now + 1 < u64Size) :
      Leaves hmac s .tick { s with kernel := { s.kernel with now := s.kernel.now + 1 } }
  | execute {t : Step} {s' : State} (h : Effect .cloning s t s') : Leaves hmac s (.execute t) s'
  | executeMut {t : Step} {s' : State} (h : Effect .inPlace s t s') :
      Leaves hmac s (.executeMut t) s'

theorem leaves_insertPlugin {hmac : Hmac} {s : State} {cl : Call} {id : PluginId}
    {ps : PluginState} (hc : cl.registers = some (id, ps)) :
    Leaves hmac s cl (s.insertPlugin id ps).2 := by
  unfold State.insertPlugin
  cases h : s.plugins.add id ps with
  | none => exact .same
  | some plugins => exact .plugin hc h

theorem checkFree_of_applyFreeMut {s s' : State} {addr : MemAddr}
    (h : s.applyFreeMut addr = (.ok (), s')) : checkFree s addr = .ok () := by
  unfold State.applyFreeMut at h
  cases hv : s.kernel.revocation.anyValidTargeting addr with
  | true =>
    rw [hv] at h
    cases h
  | false =>
    refine (checkFree_ok_iff s addr).mpr ⟨?_, hv⟩
    rw [hv] at h
    rcases s.ghost.freeMut_cases addr with ⟨hlive, _⟩ | ⟨_, e, he⟩
    · exact ((s.ghost.isLive_iff addr).mp hlive).2
    · rw [he] at h
      cases h

/-- **Every call leaves one of these states.** -/
theorem Call.leaves (hmac : Hmac) (s : State) (cl : Call) : Leaves hmac s cl (cl.exec hmac s) := by
  cases cl with
  | registerPlugin id level memSize => exact leaves_insertPlugin rfl
  | insertPlugin id ps => exact leaves_insertPlugin rfl
  | insertActor id ar =>
    show Leaves hmac s _ (s.insertActor id ar).2
    unfold State.insertActor
    cases h : s.actors.add id ar with
    | none => exact .same
    | some actors => exact .actor h
  | insertResource id ri =>
    show Leaves hmac s _ (s.insertResource id ri).2
    unfold State.insertResource
    cases h : s.resources.add id ri with
    | none => exact .same
    | some resources => exact .resource h
  | insertWorkflow id wi =>
    show Leaves hmac s _ (s.insertWorkflow id wi).2
    unfold State.insertWorkflow
    cases h : s.workflows.add id wi with
    | none => exact .same
    | some workflows => exact .workflow h
  | insertCapRaw cap target =>
    show Leaves hmac s _ (s.applyCapDelegateMut cap target).2
    rcases applyCapDelegateMut_cases s cap target with ⟨e, h⟩ | ⟨r, hi, h⟩
    · rw [h]
      exact .same
    · rw [h]
      exact .raw hi
  | delegateCap p target requested =>
    exact .delegation (Kernel.delegation hmac s p target requested)
  | revokeCap c =>
    show Leaves hmac s _ (s.applyCapRevokeMut c).2
    by_cases hc : s.kernel.revocation.get c = none
    · unfold State.applyCapRevokeMut RevocationState.revokeTransitiveFastMut
      rw [Table.find_eq_none_iff.mp hc]
      exact .same
    · obtain ⟨r, hr, h⟩ := applyCapRevokeMut_of_check ((checkRevoke_ok_iff s c).mpr hc)
      rw [h]
      exact .revoke hc hr
  | alloc owner size => exact .alloc
  | free addr =>
    show Leaves hmac s _ (s.applyFreeMut addr).2
    rcases applyFreeMut_cases s addr with ⟨g, hg, h⟩ | ⟨e, h⟩
    · rw [h]
      exact .free (checkFree_of_applyFreeMut h) hg
    · rw [h]
      exact .same
  | tick =>
    show Leaves hmac s _ s.tick.2
    rcases tick_cases s with ⟨hlt, h⟩ | ⟨_, h⟩
    · rw [h]
      exact .tick hlt
    · rw [h]
      exact .same
  | execute t =>
    show Leaves hmac s _ (Kernel.execute s t).2
    unfold Kernel.execute
    cases h : t.execute s with
    | ok s' => exact .execute (effect_of_execute h)
    | error e => exact .same
  | executeMut t =>
    show Leaves hmac s _ (t.executeMut s).2
    rcases h : t.executeMut s with ⟨res, s'⟩
    cases res with
    | ok u => exact .executeMut (effect_of_executeMut h)
    | error e =>
      obtain rfl := executeMut_error h
      exact .same

/-- a raw insertion under an id that is not taken is accepted -/
theorem Call.exec_insertCapRaw (hmac : Hmac) {s : State} {cap : Capability} (target : PluginId)
    (h : s.getCap cap.id = none) : ∃ r, s.kernel.revocation.Inserted cap r ∧
      (Call.insertCapRaw cap target).exec hmac s =
        (s.withRevocation r).updatePlugin target (·.grantCapMut cap.id) := by
  obtain ⟨r, hi, hins⟩ := (insertMut_cases s.kernel.revocation cap).resolve_left
    fun hc => hc.1 h
  refine ⟨r, hins, ?_⟩
  show (s.applyCapDelegateMut cap target).2 = _
  unfold State.applyCapDelegateMut
  rw [hi]

/-! ## the table under one call -/

/-- the capability that a call is to revoke, and the way in which it does -/
def Call.revokes : Call → Option (Path × CapId)
  | .revokeCap c => some (.inPlace, c)
  | .execute t => t.revokes.map fun c => (.cloning, c)
  | .executeMut t => t.revokes.map fun c => (.inPlace, c)
  | _ => none

/-- a step that is executed has passed the checks of its host call -/
def Call.Admitted (cl : Call) (s : State) : Prop :=
  match cl with
  | .execute t | .executeMut t => t.Admitted s
  | _ => True

/-- what a call can do to the table -/
inductive TableStep (s : State) : Call → RevocationState → Prop
  | same {c : Call} : TableStep s c s.kernel.revocation
  | raw {cap : Capability} {target : PluginId} {r : RevocationState}
      (h : s.kernel.revocation.insertMut cap = (.ok (), r)) :
      TableStep s (.insertCapRaw cap target) r
  | child {p : CapId} {target : PluginId} {requested : Rights} {cap : Capability}
      {r : RevocationState} (hc : ChildOf s p requested cap)
      (h : s.kernel.revocation.insertMut cap = (.ok (), r)) :
      TableStep s (.delegateCap p target requested) r
  | revoke {cl : Call} {p : Path} {c : CapId} {r : RevocationState}
      (hadm : cl.Admitted s) (hc : cl.revokes = some (p, c))
      (hpres : s.kernel.revocation.get c ≠ none)
      (h : p.revokes s.kernel.revocation c r) : TableStep s cl r

/-- what a step does to the table, as part of a call -/
theorem Effect.tableStep {p : Path} {s s' : State} {t : Step} {cl : Call} (h : Effect p s t s')
    (hadm : cl.Admitted s = t.Admitted s) (hcl : cl.revokes = t.revokes.map fun c => (p, c)) :
    TableStep s cl s'.kernel.revocation := by
  cases h with
  | @revoke t c r hgate ht hck hr =>
    exact .revoke (hadm.symm ▸ hgate) (by rw [hcl, ht]; rfl) ((checkRevoke_ok_iff s c).mp hck) hr
  | @compute pid pi hck =>
    obtain ⟨actors, e⟩ := pi.consume_frame s pid
    rw [e]
    exact .same
  | use | alloc | declassify | free | route | workflow | tick | unblock => exact .same

theorem Call.tableStep (hmac : Hmac) (s : State) (cl : Call) :
    TableStep s cl (cl.exec hmac s).kernel.revocation := by
  have h := cl.leaves hmac s
  generalize cl.exec hmac s = s' at h ⊢
  cases h with
  | same | plugin | actor | resource | workflow | alloc | free | tick => exact .same
  | raw hi => exact .raw hi
  | delegation h =>
    cases h with
    | refused | unminted | collision => exact .same
    | minted hc _ hi => exact .child hc hi
  | revoke hpres h => exact .revoke trivial rfl hpres h
  | execute h | executeMut h => exact h.tableStep rfl rfl

/-! ## invariants of the table -/

theorem TableStep.sorted {s : State} {cl : Call} {r : RevocationState} (h : TableStep s cl r)
    (hs : s.kernel.revocation.caps.Sorted) : r.caps.Sorted := by
  cases h with
  | same => exact hs
  | raw h => exact (inserted_of_insertMut h).sorted hs
  | child _ h => exact (inserted_of_insertMut h).sorted hs
  | revoke _ _ _ h =>
    obtain ⟨S, hcut⟩ := Path.revokes_cutBy hs h
    exact hs.of_keys hcut.keys

theorem TableStep.wellFormed {s : State} {cl : Call} {r : RevocationState} (h : TableStep s cl r)
    (w : s.kernel.revocation.WellFormed) : r.WellFormed := by
  cases h with
  | same => exact w
  | raw h => exact w.inserted (inserted_of_insertMut h)
  | child _ h => exact w.inserted (inserted_of_insertMut h)
  | revoke _ _ _ h =>
    obtain ⟨S, hcut⟩ := Path.revokes_cutBy w.sorted h
    exact w.cutBy hcut

theorem Call.sorted (hmac : Hmac) {s : State} (cl : Call)
    (hs : s.kernel.revocation.caps.Sorted) : (cl.exec hmac s).kernel.revocation.caps.Sorted :=
  (cl.tableStep hmac s).sorted hs

theorem Call.wellFormed (hmac : Hmac) {s : State} (cl : Call)
    (w : s.kernel.revocation.WellFormed) : (cl.exec hmac s).kernel.revocation.WellFormed :=
  (cl.tableStep hmac s).wellFormed w

theorem runCalls_sorted (hmac : Hmac) {s : State} (cs : List Call)
    (hs : s.kernel.revocation.caps.Sorted) :
    (runCalls hmac s cs).kernel.revocation.caps.Sorted :=
  run_invariant (P := fun s : State => s.kernel.revocation.caps.Sorted)
    (fun _ cl hs => cl.sorted hmac hs) cs hs

theorem runCalls_wellFormed (hmac : Hmac) {s : State} (cs : List Call)
    (w : s.kernel.revocation.WellFormed) : (runCalls hmac s cs).kernel.revocation.WellFormed :=
  run_invariant (P := fun s : State => s.kernel.revocation.WellFormed)
    (fun _ cl w => cl.wellFormed hmac w) cs w

theorem Reachable.wellFormed {hmac : Hmac} {s : State} (h : Reachable hmac s) :
    s.kernel.revocation.WellFormed := by
  obtain ⟨cs, rfl⟩ := h
  exact runCalls_wellFormed hmac cs .empty

end LionCore
