import LionCore.Security.Held

/-!
# What an operation does to the plugins

* `PluginStep`, `StateOp.pluginStep`   nothing, or it inserts one, or it changes one: an id that is
                                       granted, an allocation that is charged, another level;
* `State.Ordered`, `run_ordered`       so the plugins and their handles stay in order, as long as
                                       every plugin comes in with its handles in order.
-/

namespace LionCore
open Base RevocationState

/-! ## one operation -/

/-- the plugin that an operation is to insert -/
def StateOp.registers : StateOp → Option (PluginId × PluginState)
  | .call c => c.registers
  | _ => none

theorem StateOp.registers_cases {op : StateOp} {id : PluginId} {ps : PluginState}
    (h : op.registers = some (id, ps)) :
    (∃ level memSize, ps = .empty level memSize) ∨ op = .call (.insertPlugin id ps) := by
  cases op with
  | call c => exact (Call.registers_cases h).imp_right (congrArg StateOp.call)
  | _ => cases h

/-- the step that an operation executes -/
def StateOp.step : StateOp → Option Step
  | .call (.execute t) | .call (.executeMut t) => some t
  | _ => none

/-- what an operation can do to the plugins -/
inductive PluginStep (hmac : Hmac) (s : State) (op : StateOp) : Table PluginId PluginState → Prop
  | same (hd : op.delegates hmac s = none) : PluginStep hmac s op s.plugins
  | inserted {id : PluginId} {ps : PluginState} {plugins : Table PluginId PluginState}
      (hd : op.delegates hmac s = none) (hc : op.registers = some (id, ps))
      (h : s.plugins.add id ps = some plugins) : PluginStep hmac s op plugins
  | granted {target : PluginId} {c : CapId} (hd : op.delegates hmac s = some (target, c)) :
      PluginStep hmac s op (s.plugins.modify target (·.grantCapMut c))
  | charged {hc : HostCall} {auth : Authorized} {res : HostResult}
      (hd : op.delegates hmac s = none) (ht : op.step = some (.hostCall hc auth res))
      (hf : hc.function = .kernelAlloc) (hgate : checkHostCall s hc auth = .ok ())
      (hck : checkAlloc s hc = .ok ()) :
      PluginStep hmac s op (s.plugins.modify hc.caller (·.charge hc.firstOrZero))
  | relabelled {p : PluginId} {l : SecurityLevel} (hd : op.delegates hmac s = none) :
      PluginStep hmac s op (s.plugins.modify p fun q => { q with level := l })

theorem Effect.pluginStep {hmac : Hmac} {p : Path} {s s' : State} {t : Step} {op : StateOp}
    (h : Effect p s t s') (ht : op.step = some t) (hd : op.delegates hmac s = none) :
    PluginStep hmac s op s'.plugins := by
  cases h with
  | @compute pid pi hck =>
    obtain ⟨actors, e⟩ := pi.consume_frame s pid
    rw [e]
    exact .same hd
  | alloc hgate hf hck => exact .charged hd ht hf hgate hck
  | declassify hgate hf hck => exact .relabelled hd
  | use | free | revoke | route | workflow | tick | unblock => exact .same hd

/-- a call that is not a delegation -/
theorem Leaves.pluginStep {hmac : Hmac} {s s' : State} {c : Call}
    (hd : (StateOp.call c).delegates hmac s = none) (hn : ¬ (StateOp.call c).Delegating)
    (h : Leaves hmac s c s') : PluginStep hmac s (.call c) s'.plugins := by
  cases h with
  | same | actor | resource | workflow | revoke | alloc | free | tick => exact .same hd
  | plugin hc h => exact .inserted hd hc h
  | raw _ | delegation _ => exact absurd trivial hn
  | execute h | executeMut h => exact h.pluginStep rfl hd

/-- **Every operation does one of these.** -/
theorem StateOp.pluginStep (hmac : Hmac) (s : State) (op : StateOp) :
    PluginStep hmac s op (op.exec hmac s).plugins := by
  have delegating : op.Delegating → PluginStep hmac s op (op.exec hmac s).plugins := by
    intro h
    rcases op.delegating_cases hmac s h with ⟨hd, n, e⟩ | ⟨target, cap, k, hd, _, e⟩
    · rw [e]
      exact .same hd
    · rw [e]
      exact .granted hd
  cases op with
  | call c =>
    cases c with
    | insertCapRaw _ _ | delegateCap _ _ _ => exact delegating trivial
    | registerPlugin _ _ _ | insertPlugin _ _ | insertActor _ _ | insertResource _ _
    | insertWorkflow _ _ | revokeCap _ | alloc _ _ | free _ | tick | execute _ | executeMut _ =>
      exact (Call.leaves hmac s _).pluginStep rfl id
  | applyCapDelegate _ _ => exact delegating trivial
  | applyRevoke _ | applyCapRevoke _ | applyAlloc _ _ => exact .same rfl
  | applyFree addr =>
    show PluginStep hmac s _ ((s.applyFree addr).toOption.getD s).plugins
    unfold State.applyFree
    cases s.kernel.revocation.anyValidTargeting addr <;> exact .same rfl

/-! ## the order of the plugins and of their handles -/

/-- the capability table, the plugins and the handles of each are sorted without duplicates -/
structure State.Ordered (s : State) : Prop where
  caps : s.kernel.revocation.caps.Sorted
  plugins : s.plugins.Sorted
  held : ∀ p q, s.getPlugin p = some q → Increasing q.heldCaps

/-- a plugin comes in with its handles in order; there is no way to build another one -/
def StateOp.InsertsOrdered : StateOp → Prop
  | .call (.insertPlugin _ ps) => Increasing ps.heldCaps
  | _ => True

theorem StateOp.registers_ordered {op : StateOp} (h : op.InsertsOrdered) {id : PluginId}
    {ps : PluginState} (hc : op.registers = some (id, ps)) : Increasing ps.heldCaps := by
  rcases registers_cases hc with ⟨level, memSize, rfl⟩ | rfl
  · exact List.Pairwise.nil
  · exact h

theorem State.Ordered.initial (key : Key) (policy : PolicyState) :
    (State.initial key policy).Ordered where
  caps := List.Pairwise.nil
  plugins := List.Pairwise.nil
  held _ _ h := nomatch h

theorem PluginStep.sorted {hmac : Hmac} {s : State} {op : StateOp}
    {plugins : Table PluginId PluginState} (h : PluginStep hmac s op plugins)
    (hs : s.plugins.Sorted) : plugins.Sorted := by
  cases h with
  | same _ => exact hs
  | inserted _ _ h => exact hs.add h
  | granted _ | charged _ _ _ _ _ | relabelled _ => exact hs.modify _ _

theorem PluginStep.ordered {hmac : Hmac} {s : State} {op : StateOp}
    {plugins : Table PluginId PluginState} (h : PluginStep hmac s op plugins)
    (hop : op.InsertsOrdered) (hs : s.Ordered) :
    plugins.Sorted ∧ ∀ p q, plugins.find p = some q → Increasing q.heldCaps := by
  refine ⟨h.sorted hs.plugins, ?_⟩
  cases h with
  | same _ => exact hs.held
  | inserted _ hc h =>
    intro p q hq
    rw [Table.find_add hs.plugins h] at hq
    split at hq
    · cases hq
      exact StateOp.registers_ordered hop hc
    · exact hs.held p q hq
  | granted _ =>
    exact (Table.forall_find_modify_iff hs.held _ _).mpr
      fun q hq => (hs.held _ q hq).insertKey _
  | charged _ _ _ _ _ | relabelled _ =>
    exact (Table.forall_find_modify_iff hs.held _ _).mpr fun q hq => hs.held _ q hq

theorem State.Ordered.exec {hmac : Hmac} {s : State} (hs : s.Ordered) (op : StateOp)
    (hop : op.InsertsOrdered) : (op.exec hmac s).Ordered := by
  obtain ⟨hplugins, hheld⟩ := (op.pluginStep hmac s).ordered hop hs
  refine ⟨?_, hplugins, hheld⟩
  rcases op.table hmac hs.caps with ⟨S, hcut⟩ | ⟨cap, hins⟩
  · exact hs.caps.of_keys hcut.keys
  · exact hins.sorted hs.caps

theorem run_ordered (hmac : Hmac) {s : State} (hs : s.Ordered) (ops : List StateOp)
    (hops : ∀ op ∈ ops, op.InsertsOrdered) : (run (StateOp.exec hmac) s ops).Ordered := by
  have step : ∀ s op, State.Ordered s → StateOp.InsertsOrdered op → (op.exec hmac s).Ordered :=
    fun _ op h hop => h.exec op hop
  exact run_invariant_of step ops hs (along_of_forall ops hops _)

end LionCore
