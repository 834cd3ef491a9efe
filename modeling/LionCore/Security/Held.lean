import LionCore.Security.SlowRevocation

/-!
# Held handles are what was granted

A delegation has two phases: the capability goes into the kernel's table, and its id to the
handles of the target, if the target is found.

* `StateOp`              the calls, and the operations that give back a new state;
* `RegistryStep`         what an operation does to the four registries, and to the handles;
* `held_step`            so a plugin holds what it held, and what it is granted;
* `held_iff_granted`     **main result**: after any run, a plugin holds exactly the ids that were
                         delegated to it while it was registered.
-/

namespace LionCore
open Base RevocationState

/-! ## operations -/

def Outcome.toOption {R : Type} : Outcome R → Option R
  | .ok r => some r
  | .err _ => none
  | .panic => none

inductive StateOp
  | call (c : Call)
  | applyCapDelegate (newCap : Capability) (target : PluginId)
  | applyRevoke (capId : CapId)
  | applyCapRevoke (capId : CapId)
  | applyAlloc (owner : PluginId) (size : Size)
  | applyFree (addr : MemAddr)
  deriving DecidableEq

namespace StateOp

/-- the state after an operation; the old one if it fails -/
def exec (hmac : Hmac) (s : State) : StateOp → State
  | .call c => c.exec hmac s
  | .applyCapDelegate newCap target => (s.applyCapDelegate newCap target).toOption.getD s
  | .applyRevoke capId => s.applyRevoke capId
  | .applyCapRevoke capId => s.applyCapRevoke capId
  | .applyAlloc owner size => s.applyAlloc owner size
  | .applyFree addr => (s.applyFree addr).toOption.getD s

/-- the target and the id, if the operation is a delegation and succeeds -/
def delegates (hmac : Hmac) (s : State) : StateOp → Option (PluginId × CapId)
  | .call (.insertCapRaw cap target) =>
    (Kernel.insertCapRaw s cap target).1.toOption.map fun _ => (target, cap.id)
  | .call (.delegateCap parentId target requested) =>
    (Kernel.delegateCap hmac s parentId target requested).1.toOption.map fun id => (target, id)
  | .applyCapDelegate newCap target =>
    (s.applyCapDelegate newCap target).toOption.map fun _ => (target, newCap.id)
  | _ => none

/-- the operation is a delegation and is rejected because `c` is taken -/
def Collides (hmac : Hmac) (s : State) (c : CapId) : StateOp → Prop
  | .call (.insertCapRaw cap target) =>
    (Kernel.insertCapRaw s cap target).1 = .error (.kernel (.capIdCollision c))
  | .call (.delegateCap parentId target requested) =>
    (Kernel.delegateCap hmac s parentId target requested).1 = .err (.kernel (.capIdCollision c))
  | .applyCapDelegate newCap target =>
    s.applyCapDelegate newCap target = .error (.capIdCollision c)
  | _ => False

/-- plugins are inserted without handles -/
def InsertsEmpty : StateOp → Prop
  | .call (.insertPlugin _ ps) => ps.heldCaps = []
  | _ => True

end StateOp

/-- a delegation of `c` to `p` succeeds in the run while `p` is registered -/
def GrantedIn (hmac : Hmac) (s : State) (ops : List StateOp) (p : PluginId) (c : CapId) : Prop :=
  ∃ n op, ops[n]? = some op ∧
    op.delegates hmac (run (StateOp.exec hmac) s (ops.take n)) = some (p, c) ∧
    (run (StateOp.exec hmac) s (ops.take n)).getPlugin p ≠ none

/-! ## the registries -/

/-- the handles of a registered plugin -/
def State.held (s : State) (p : PluginId) : Option (List CapId) :=
  (s.getPlugin p).map PluginState.heldCaps

/-- the four registries are sorted without duplicates, and so are the handles of every plugin -/
structure State.Registries (s : State) : Prop where
  plugins : s.plugins.Sorted
  actors : s.actors.Sorted
  resources : s.resources.Sorted
  workflows : s.workflows.Sorted
  held : ∀ p l, s.held p = some l → Increasing l

theorem State.Registries.initial (key : Key) (policy : PolicyState) :
    (State.initial key policy).Registries where
  plugins := List.Pairwise.nil
  actors := List.Pairwise.nil
  resources := List.Pairwise.nil
  workflows := List.Pairwise.nil
  held _ _ h := nomatch h

theorem held_insert {s : State} (hs : s.plugins.Sorted) {id : PluginId} {ps : PluginState}
    {plugins : Table PluginId PluginState} (h : s.plugins.add id ps = some plugins)
    (p : PluginId) :
    State.held { s with plugins } p = if p = id then some ps.heldCaps else s.held p := by
  show (plugins.find p).map PluginState.heldCaps = _
  rw [Table.find_add hs h]
  split <;> rfl

theorem held_grant (s : State) (target : PluginId) (c : CapId) (p : PluginId) :
    (s.updatePlugin target (·.grantCapMut c)).held p =
      if p = target then (s.held p).map (insertKey · c) else s.held p := by
  unfold State.held
  rw [State.getPlugin_updatePlugin]
  split
  · cases s.getPlugin p <;> rfl
  · rfl

/-- what an operation does to the registries -/
inductive RegistryStep (hmac : Hmac) (s : State) (op : StateOp) : State → Prop
  | same {s' : State} (hd : op.delegates hmac s = none)
      (hplugins : s'.plugins.keys = s.plugins.keys) (hheld : ∀ p, s'.held p = s.held p)
      (hactors : s'.actors.keys = s.actors.keys) (hresources : s'.resources = s.resources)
      (hworkflows : s'.workflows = s.workflows) : RegistryStep hmac s op s'
  | plugin {id : PluginId} {ps : PluginState} {plugins : Table PluginId PluginState}
      (hd : op.delegates hmac s = none) (hps : ps.heldCaps = [])
      (h : s.plugins.add id ps = some plugins) : RegistryStep hmac s op { s with plugins }
  | actor {id : ActorId} {ar : ActorRuntime} {actors : Table ActorId ActorRuntime}
      (hd : op.delegates hmac s = none) (h : s.actors.add id ar = some actors) :
      RegistryStep hmac s op { s with actors }
  | resource {id : ResourceId} {ri : ResourceInfo} {resources : Table ResourceId ResourceInfo}
      (hd : op.delegates hmac s = none) (h : s.resources.add id ri = some resources) :
      RegistryStep hmac s op { s with resources }
  | workflow {id : WorkflowId} {wi : WorkflowInstance}
      {workflows : Table WorkflowId WorkflowInstance} (hd : op.delegates hmac s = none)
      (h : s.workflows.add id wi = some workflows) : RegistryStep hmac s op { s with workflows }
  | granted {target : PluginId} {cap : Capability} {k : KernelState}
      (hd : op.delegates hmac s = some (target, cap.id))
      (hcap : s.kernel.revocation.Inserted cap k.revocation) :
      RegistryStep hmac s op
        (({ s with kernel := k } : State).updatePlugin target (·.grantCapMut cap.id))

/-! ### steps -/

theorem PluginChange.heldCaps {t : Step} {q q' : PluginState} (h : PluginChange t q q') :
    q'.heldCaps = q.heldCaps := by
  rcases h with rfl | ⟨_, _, _, _, _, _, rfl⟩ | ⟨_, _, _, rfl⟩ <;> rfl

theorem Frame.held {s s' : State} {t : Step} (h : Frame s t s') (p : PluginId) :
    s'.held p = s.held p := by
  unfold State.held
  by_cases hp : t.subject = some p
  · cases hq : s'.getPlugin p with
    | none =>
      have hi : s.plugins.findIndex p = none :=
        (Table.findIndex_congr h.registered p).symm.trans (Table.find_eq_none_iff.mp hq)
      rw [show s.getPlugin p = none from Table.find_eq_none_iff.mpr hi]
    | some q' =>
      obtain ⟨q, hq', hch⟩ := h.subject p q' hp hq
      rw [hq']
      exact congrArg some hch.heldCaps
  · rw [h.others p hp]

theorem Frame.registryStep {hmac : Hmac} {s s' : State} {t : Step} {op : StateOp}
    (h : Frame s t s') (hd : op.delegates hmac s = none) : RegistryStep hmac s op s' :=
  .same hd h.registered h.held h.actorKeys h.resources h.workflows

/-! ### calls -/

theorem Call.registers_empty {c : Call} (h : (StateOp.call c).InsertsEmpty) {id : PluginId}
    {ps : PluginState} (hc : c.registers = some (id, ps)) : ps.heldCaps = [] := by
  rcases registers_cases hc with ⟨level, memSize, rfl⟩ | rfl
  · rfl
  · exact h

/-- a call that is not a delegation -/
theorem Leaves.registryStep {hmac : Hmac} {s s' : State} {c : Call}
    (hs : s.kernel.revocation.caps.Sorted) (hempty : (StateOp.call c).InsertsEmpty)
    (hd : (StateOp.call c).delegates hmac s = none)
    (hraw : ∀ cap target, c ≠ .insertCapRaw cap target)
    (hdel : ∀ p target requested, c ≠ .delegateCap p target requested)
    (h : Leaves hmac s c s') : RegistryStep hmac s (.call c) s' := by
  cases h with
  | same | revoke _ _ | alloc | free _ _ | tick _ =>
    exact .same hd rfl (fun _ => rfl) rfl rfl rfl
  | plugin hc h => exact .plugin hd (Call.registers_empty hempty hc) h
  | actor h => exact .actor hd h
  | resource h => exact .resource hd h
  | workflow h => exact .workflow hd h
  | raw _ => exact absurd rfl (hraw _ _)
  | delegation _ => exact absurd rfl (hdel _ _ _)
  | execute h | executeMut h => exact (h.frame hs).registryStep hd

/-! ### delegations -/

theorem applyCapDelegate_cases (s : State) (cap : Capability) (target : PluginId) :
    (s.applyCapDelegate cap target = .error (.capIdCollision cap.id)) ∨
      ∃ r, s.kernel.revocation.Inserted cap r ∧ s.applyCapDelegate cap target =
        .ok ((s.withRevocation r).updatePlugin target (·.grantCapMut cap.id)) := by
  unfold State.applyCapDelegate
  rw [insert_eq]
  rcases insertMut_cases s.kernel.revocation cap with ⟨_, e⟩ | ⟨r, e, hins⟩
  · rw [e]
    exact Or.inl rfl
  · rw [e]
    exact Or.inr ⟨r, hins, rfl⟩

/-- the operations that put a capability into the table and hand its id to a plugin -/
def StateOp.Delegating : StateOp → Prop
  | .call (.insertCapRaw _ _) | .call (.delegateCap _ _ _) | .applyCapDelegate _ _ => True
  | _ => False

/-- a delegation goes through, or changes at most the id counter -/
theorem StateOp.delegating_cases (hmac : Hmac) (s : State) {op : StateOp} (h : op.Delegating) :
    (op.delegates hmac s = none ∧
      ∃ n, op.exec hmac s = { s with kernel := { s.kernel with nextCapId := n } }) ∨
    ∃ target cap k, op.delegates hmac s = some (target, cap.id) ∧
      s.kernel.revocation.Inserted cap k.revocation ∧
      op.exec hmac s = ({ s with kernel := k } : State).updatePlugin target
        (·.grantCapMut cap.id) := by
  cases op with
  | call cl =>
    cases cl with
    | insertCapRaw cap target =>
      simp only [delegates, exec, Call.exec, Kernel.insertCapRaw]
      rcases applyCapDelegateMut_cases s cap target with ⟨e, h⟩ | ⟨r, hi, h⟩
      · rw [h]
        exact Or.inl ⟨rfl, s.kernel.nextCapId, rfl⟩
      · rw [h]
        exact Or.inr ⟨target, cap, { s.kernel with revocation := r }, rfl,
          inserted_of_insertMut hi, rfl⟩
    | delegateCap p target requested =>
      simp only [delegates, exec, Call.exec]
      have hd := Kernel.delegation hmac s p target requested
      generalize Kernel.delegateCap hmac s p target requested = d at hd ⊢
      cases hd with
      | refused _ => exact Or.inl ⟨rfl, s.kernel.nextCapId, rfl⟩
      | collision _ _ => exact Or.inl ⟨rfl, s.kernel.nextCapId + 1, rfl⟩
      | unminted _ ho =>
        refine Or.inl ⟨?_, s.kernel.nextCapId + 1, rfl⟩
        rcases ho with rfl | ⟨e, rfl⟩ <;> rfl
      | @minted cap r _ _ hi =>
        exact Or.inr ⟨target, cap, { s.nextId.kernel with revocation := r }, rfl,
          inserted_of_insertMut hi, rfl⟩
    | _ => exact h.elim
  | applyCapDelegate cap target =>
    simp only [delegates, exec]
    rcases applyCapDelegate_cases s cap target with h | ⟨r, hins, h⟩
    · rw [h]
      exact Or.inl ⟨rfl, s.kernel.nextCapId, rfl⟩
    · rw [h]
      exact Or.inr ⟨target, cap, { s.kernel with revocation := r }, rfl, hins, rfl⟩
  | _ => exact h.elim

/-! ### every operation -/

theorem StateOp.registryStep_of_delegating (hmac : Hmac) (s : State) {op : StateOp}
    (h : op.Delegating) : RegistryStep hmac s op (op.exec hmac s) := by
  rcases op.delegating_cases hmac s h with ⟨hd, n, e⟩ | ⟨target, cap, k, hd, hins, e⟩
  · rw [e]
    exact .same hd rfl (fun _ => rfl) rfl rfl rfl
  · rw [e]
    exact .granted hd hins

theorem StateOp.registryStep (hmac : Hmac) {s : State} (hs : s.kernel.revocation.caps.Sorted)
    (op : StateOp) (hop : op.InsertsEmpty) : RegistryStep hmac s op (op.exec hmac s) := by
  cases op with
  | call c =>
    cases c with
    | insertCapRaw _ _ | delegateCap _ _ _ => exact registryStep_of_delegating hmac s trivial
    | registerPlugin _ _ _ | insertPlugin _ _ | insertActor _ _ | insertResource _ _
    | insertWorkflow _ _ | revokeCap _ | alloc _ _ | free _ | tick | execute _ | executeMut _ =>
      exact (Call.leaves hmac s _).registryStep hs hop rfl nofun nofun
  | applyCapDelegate _ _ => exact registryStep_of_delegating hmac s trivial
  | applyRevoke _ | applyCapRevoke _ | applyAlloc _ _ =>
    exact .same rfl rfl (fun _ => rfl) rfl rfl rfl
  | applyFree addr =>
    show RegistryStep hmac s _ ((s.applyFree addr).toOption.getD s)
    unfold State.applyFree
    cases s.kernel.revocation.anyValidTargeting addr <;>
      exact .same rfl rfl (fun _ => rfl) rfl rfl rfl

/-! ## what a plugin holds -/

theorem pluginHolds_iff (s : State) (p : PluginId) (c : CapId) :
    s.pluginHolds p c = true ↔ ∃ l, s.held p = some l ∧ has l c = true := by
  unfold State.pluginHolds State.held
  cases s.getPlugin p <;> simp [PluginState.holdsCap]

theorem RegistryStep.registries {hmac : Hmac} {s s' : State} {op : StateOp}
    (h : RegistryStep hmac s op s') (hr : s.Registries) : s'.Registries := by
  cases h with
  | same _ hplugins hheld hactors hresources hworkflows =>
    exact ⟨hr.plugins.of_keys hplugins, hr.actors.of_keys hactors, hresources ▸ hr.resources,
      hworkflows ▸ hr.workflows, fun p l hl => hr.held p l (hheld p ▸ hl)⟩
  | plugin _ hps h =>
    refine ⟨hr.plugins.add h, hr.actors, hr.resources, hr.workflows, fun p l hl => ?_⟩
    rw [held_insert hr.plugins h] at hl
    split at hl
    · cases hl
      rw [hps]
      exact List.Pairwise.nil
    · exact hr.held p l hl
  | actor _ h => exact ⟨hr.plugins, hr.actors.add h, hr.resources, hr.workflows, hr.held⟩
  | resource _ h => exact ⟨hr.plugins, hr.actors, hr.resources.add h, hr.workflows, hr.held⟩
  | workflow _ h => exact ⟨hr.plugins, hr.actors, hr.resources, hr.workflows.add h, hr.held⟩
  | @granted target cap k _ _ =>
    have hplugins := hr.plugins.modify target (·.grantCapMut cap.id)
    refine ⟨hplugins, hr.actors, hr.resources, hr.workflows, fun p l hl => ?_⟩
    rw [held_grant] at hl
    split at hl
    · obtain ⟨l₀, hl₀, rfl⟩ := Option.map_eq_some_iff.mp hl
      exact (hr.held p l₀ hl₀).insertKey _
    · exact hr.held p l hl

/-- a plugin that is inserted was not there, and starts without handles -/
theorem pluginHolds_insert {s : State} (hs : s.plugins.Sorted) {id : PluginId} {ps : PluginState}
    {plugins : Table PluginId PluginState} (h : s.plugins.add id ps = some plugins)
    (hps : ps.heldCaps = []) (p : PluginId) (c : CapId) :
    State.pluginHolds { s with plugins } p c = true ↔ s.pluginHolds p c = true := by
  rw [pluginHolds_iff, pluginHolds_iff, held_insert hs h]
  by_cases hp : p = id
  · subst hp
    obtain ⟨pos, hpos, _⟩ := Table.add_eq_some h
    have hnone : s.held p = none := congrArg (Option.map _) (Table.find_error hpos)
    rw [if_pos rfl, hnone, hps]
    exact iff_of_false (fun ⟨_, e, h⟩ => by cases e; cases h) fun ⟨_, e, _⟩ => nomatch e
  · rw [if_neg hp]

/-- a grant adds one handle to the target, if it is registered -/
theorem pluginHolds_grant {s : State} (held : ∀ p l, s.held p = some l → Increasing l)
    (target p : PluginId) (id c : CapId) :
    (s.updatePlugin target (·.grantCapMut id)).pluginHolds p c = true ↔
      s.pluginHolds p c = true ∨ (p = target ∧ c = id ∧ s.getPlugin p ≠ none) := by
  rw [pluginHolds_iff, pluginHolds_iff, held_grant]
  by_cases hp : p = target
  · subst hp
    rw [if_pos rfl]
    cases hq : s.getPlugin p with
    | none =>
      have hnone : s.held p = none := congrArg (Option.map _) hq
      rw [hnone]
      simp
    | some q =>
      have hsome : s.held p = some q.heldCaps := congrArg (Option.map _) hq
      have hs := held p _ hsome
      have hadd : has (insertKey q.heldCaps id) c = true ↔ has q.heldCaps c = true ∨ c = id := by
        rw [has_iff (hs.insertKey _), mem_insertKey, has_iff hs, or_comm]
      rw [hsome]
      simp [hadd]
  · rw [if_neg hp, or_iff_left fun h => hp h.1]

/-- **An operation adds the handle that it delegates to a registered plugin, and nothing else.** -/
theorem held_step {hmac : Hmac} {s s' : State} {op : StateOp} (h : RegistryStep hmac s op s')
    (hr : s.Registries) (p : PluginId) (c : CapId) :
    s'.pluginHolds p c = true ↔ s.pluginHolds p c = true ∨
      (op.delegates hmac s = some (p, c) ∧ s.getPlugin p ≠ none) := by
  cases h with
  | same hd _ hheld _ _ _ =>
    rw [pluginHolds_iff, pluginHolds_iff, hheld p, hd]
    exact (or_iff_left fun h => nomatch h.1).symm
  | plugin hd hps h =>
    rw [pluginHolds_insert hr.plugins h hps, hd]
    exact (or_iff_left fun h => nomatch h.1).symm
  | actor hd _ | resource hd _ | workflow hd _ =>
    rw [hd]
    exact (or_iff_left fun h => nomatch h.1).symm
  | @granted target cap k hd _ =>
    have hk : ∀ p l, State.held { s with kernel := k } p = some l → Increasing l := hr.held
    rw [hd, pluginHolds_grant hk, Option.some_inj, Prod.mk.injEq, and_assoc, eq_comm (a := p),
      eq_comm (a := c)]
    rfl

/-! ## the table -/

/-- an operation inserts one entry, or turns entries off -/
theorem StateOp.table (hmac : Hmac) {s : State} (hs : s.kernel.revocation.caps.Sorted)
    (op : StateOp) : (∃ S, s.kernel.revocation.CutBy S (op.exec hmac s).kernel.revocation) ∨
      ∃ cap, s.kernel.revocation.Inserted cap (op.exec hmac s).kernel.revocation := by
  cases op with
  | call c =>
    have h := c.tableStep hmac s
    rw [show (StateOp.call c).exec hmac s = c.exec hmac s from rfl]
    generalize (c.exec hmac s).kernel.revocation = r at h ⊢
    cases h with
    | same => exact Or.inl ⟨_, .refl _⟩
    | raw h => exact Or.inr ⟨_, inserted_of_insertMut h⟩
    | child _ h => exact Or.inr ⟨_, inserted_of_insertMut h⟩
    | revoke _ _ _ h => exact Or.inl (Path.revokes_cutBy hs h)
  | applyCapDelegate cap target =>
    show (∃ S, CutBy _ S ((s.applyCapDelegate cap target).toOption.getD s).kernel.revocation) ∨
      ∃ cap', Inserted _ cap' ((s.applyCapDelegate cap target).toOption.getD s).kernel.revocation
    rcases applyCapDelegate_cases s cap target with h | ⟨r, hins, h⟩
    · rw [h]
      exact Or.inl ⟨_, .refl _⟩
    · rw [h]
      exact Or.inr ⟨cap, hins⟩
  | applyRevoke c => exact Or.inl ⟨_, s.kernel.revocation.cutBy_revoke c⟩
  | applyCapRevoke c => exact Or.inl ⟨_, s.kernel.revocation.cutBy_revokeTransitive c⟩
  | applyAlloc _ _ => exact Or.inl ⟨_, .refl _⟩
  | applyFree addr =>
    refine Or.inl ⟨fun _ => False, ?_⟩
    show CutBy _ _ ((s.applyFree addr).toOption.getD s).kernel.revocation
    unfold State.applyFree
    cases s.kernel.revocation.anyValidTargeting addr <;> exact .refl _

/-! ## runs -/

/-- what every operation keeps -/
structure HeldInv (s : State) : Prop where
  registries : s.Registries
  caps : s.kernel.revocation.caps.Sorted
  entries : ∀ p c, s.pluginHolds p c = true → s.getCap c ≠ none

theorem HeldInv.initial (key : Key) (policy : PolicyState) :
    HeldInv (State.initial key policy) where
  registries := .initial key policy
  caps := List.Pairwise.nil
  entries _ _ h := nomatch h

theorem HeldInv.exec {hmac : Hmac} {s : State} (h : HeldInv s) (op : StateOp)
    (hop : op.InsertsEmpty) : HeldInv (op.exec hmac s) := by
  have hstep := op.registryStep hmac h.caps hop
  have htable := op.table hmac h.caps
  refine ⟨hstep.registries h.registries, ?_, fun p c hc => ?_⟩
  · rcases htable with ⟨S, hcut⟩ | ⟨cap, hins⟩
    · exact h.caps.of_keys hcut.keys
    · exact hins.sorted h.caps
  · rcases (held_step hstep h.registries p c).mp hc with hold | ⟨hd, _⟩
    · have hpres := h.entries p c hold
      rcases htable with ⟨S, hcut⟩ | ⟨cap, hins⟩
      · exact fun hn => hpres (hcut.get_none.mp hn)
      · intro hn
        have hget := (hins.get h.caps c).symm.trans hn
        split at hget
        · cases hget
        · exact hpres hget
    · -- the handle is new, and the first phase has put its entry into the table
      generalize op.exec hmac s = s' at hstep ⊢
      cases hstep with
      | same hd' _ _ _ _ _ | plugin hd' _ _ | actor hd' _ | resource hd' _ | workflow hd' _ =>
        rw [hd] at hd'
        cases hd'
      | granted hd' hins =>
        rw [hd] at hd'
        cases hd'
        exact fun hn => nomatch ((hins.get h.caps _).trans (if_pos rfl)).symm.trans hn

theorem grantedIn_cons (hmac : Hmac) (s : State) (op : StateOp) (ops : List StateOp)
    (p : PluginId) (c : CapId) : GrantedIn hmac s (op :: ops) p c ↔
      (op.delegates hmac s = some (p, c) ∧ s.getPlugin p ≠ none) ∨
        GrantedIn hmac (op.exec hmac s) ops p c := by
  constructor
  · rintro ⟨n, op', hop, h⟩
    cases n with
    | zero =>
      cases hop
      exact Or.inl h
    | succ n => exact Or.inr ⟨n, op', hop, h⟩
  · rintro (h | ⟨n, op', hop, h⟩)
    · exact ⟨0, op, rfl, h⟩
    · exact ⟨n + 1, op', hop, h⟩

theorem run_holds_iff (hmac : Hmac) {s : State} (hinv : HeldInv s) (ops : List StateOp)
    (hops : ∀ op ∈ ops, op.InsertsEmpty) (p : PluginId) (c : CapId) :
    (run (StateOp.exec hmac) s ops).pluginHolds p c = true ↔
      s.pluginHolds p c = true ∨ GrantedIn hmac s ops p c := by
  induction ops generalizing s with
  | nil => exact (or_iff_left fun ⟨n, op, h, _⟩ => nomatch h).symm
  | cons op ops ih =>
    have hop := hops op List.mem_cons_self
    have hrest := fun o ho => hops o (List.mem_cons_of_mem op ho)
    rw [run_cons, ih (hinv.exec op hop) hrest, grantedIn_cons,
      held_step (op.registryStep hmac hinv.caps hop) hinv.registries, or_assoc]

theorem collides_plugins {hmac : Hmac} {s : State} {c : CapId} {op : StateOp}
    (h : op.Collides hmac s c) : (op.exec hmac s).plugins = s.plugins := by
  cases op with
  | call cl =>
    cases cl with
    | insertCapRaw cap target =>
      show (s.applyCapDelegateMut cap target).2.plugins = s.plugins
      rcases applyCapDelegateMut_cases s cap target with ⟨e, he⟩ | ⟨r, _, he⟩
      · rw [he]
      · simp only [StateOp.Collides, Kernel.insertCapRaw, he] at h
        cases h
    | delegateCap p target requested =>
      change (Kernel.delegateCap hmac s p target requested).1 = _ at h
      show (Kernel.delegateCap hmac s p target requested).2.plugins = s.plugins
      have hd := Kernel.delegation hmac s p target requested
      generalize Kernel.delegateCap hmac s p target requested = d at h hd ⊢
      cases hd with
      | refused _ | unminted _ _ | collision _ _ => rfl
      | minted _ _ _ => cases h
    | _ => cases h
  | applyCapDelegate cap target =>
    show ((s.applyCapDelegate cap target).toOption.getD s).plugins = s.plugins
    rw [show s.applyCapDelegate cap target = _ from h]
    rfl
  | _ => cases h

/-- **Main result**: after every run from an empty state the registries and all handles are
sorted without duplicates; a plugin holds exactly the ids that were delegated to it while it was
registered, and they are ids of the kernel's table.  A delegation that is rejected because its id
is taken leaves all plugins alone. -/
theorem held_iff_granted (hmac : Hmac) (key : Key) (policy : PolicyState) (ops : List StateOp)
    (hops : ∀ op ∈ ops, op.InsertsEmpty) :
    let s := run (StateOp.exec hmac) (.initial key policy) ops
    (s.plugins.Sorted ∧ s.actors.Sorted ∧ s.resources.Sorted ∧ s.workflows.Sorted ∧
      ∀ p ps, s.getPlugin p = some ps → Increasing ps.heldCaps) ∧
    (∀ p c, s.pluginHolds p c = true ↔ GrantedIn hmac (.initial key policy) ops p c) ∧
    (∀ p c, s.pluginHolds p c = true → s.getCap c ≠ none) ∧
    ∀ (op : StateOp) (c : CapId), op.Collides hmac s c →
      (op.exec hmac s).plugins = s.plugins := by
  intro s
  have hinv : HeldInv s := by
    have step : ∀ s op, HeldInv s → StateOp.InsertsEmpty op → HeldInv (op.exec hmac s) :=
      fun _ op h hop => h.exec op hop
    refine run_invariant_of step ops (.initial key policy) ?_
    exact along_of_forall ops hops _
  refine ⟨⟨hinv.registries.plugins, hinv.registries.actors, hinv.registries.resources,
    hinv.registries.workflows, fun p ps hp => hinv.registries.held p _ (congrArg _ hp)⟩,
    fun p c => ?_, hinv.entries, fun _ _ h => collides_plugins h⟩
  rw [run_holds_iff hmac (.initial key policy) ops hops]
  exact or_iff_right fun h => nomatch h

/-- plugin 1 comes in without handles and is given the root -/
def sampleGrant : List StateOp :=
  [.call (.insertPlugin 1 (.empty .Public 0)), .call (.insertCapRaw sampleRoot 1)]

theorem held_iff_granted_sample :
    let s := run (StateOp.exec sampleMac) (.initial .empty .denyAll) sampleGrant
    s.pluginHolds 1 100 = true ∧
      (s.pluginHolds 1 100 = true ↔
        GrantedIn sampleMac (.initial .empty .denyAll) sampleGrant 1 100) :=
  ⟨by decide, (held_iff_granted sampleMac .empty .denyAll sampleGrant
    (List.forall_mem_cons.mpr ⟨rfl, List.forall_mem_singleton.mpr trivial⟩)).2.1 1 100⟩

end LionCore
