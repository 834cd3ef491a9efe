import LionCore.Addresses
import LionCore.Base.Total
import LionCore.Security.Binding
import LionCore.Security.Quotas

/-!
# What a plugin is charged for

An allocation by host call raises the usage of its caller.  A free, by whatever way, puts the
address into the freed set and leaves the usage as it is.

* `Ledger`                        the state, and the allocations that host calls have made;
* `StateOp.usageStep`             a charge, a free of a live address, or neither;
* `Ledger.exact_iff`              when an operation keeps usage and live allocations equal;
* `accounting_iff_keeps`          **main result**: the same for a run;
* `usage_outlives_memory`         the memory is freed, the usage stays.
-/

namespace LionCore
open Base RevocationState

/-! ## charges -/

/-- an allocation by host call: what was handed out, to whom, and how much -/
structure Charge where
  addr : MemAddr
  owner : PluginId
  size : Nat
  deriving DecidableEq

def HostCall.charge (hc : HostCall) (s : State) : Charge :=
  ⟨asU64 s.ghost.resourceCount, hc.caller, hc.firstOrZero⟩

/-- the allocation, if the operation is a host call for one and succeeds -/
def StateOp.charges (s : State) : StateOp → Option Charge
  | .call (.execute (.hostCall hc auth res)) =>
    if hc.function = .kernelAlloc ∧ (Kernel.execute s (.hostCall hc auth res)).1 = .ok () then
      some (hc.charge s)
    else none
  | .call (.executeMut (.hostCall hc auth res)) =>
    if hc.function = .kernelAlloc ∧ (Kernel.executeMut s (.hostCall hc auth res)).1 = .ok () then
      some (hc.charge s)
    else none
  | _ => none

/-- the operation is a host call for an allocation that passes its checks -/
def StateOp.Charges (s : State) (c : Charge) (op : StateOp) : Prop :=
  ∃ hc auth res, op.step = some (.hostCall hc auth res) ∧ hc.function = .kernelAlloc ∧
    checkHostCall s hc auth = .ok () ∧ checkAlloc s hc = .ok () ∧ c = hc.charge s

/-- the operation frees the live address, and nothing is in its way -/
def StateOp.FreesLive (s : State) (addr : MemAddr) : StateOp → Prop
  | .call c => (∃ p, c.frees = some (p, addr)) ∧ c.Admitted s ∧
      s.kernel.revocation.anyValidTargeting addr = false ∧ s.ghost.isLive addr = true
  | .applyFree a => a = addr ∧ s.kernel.revocation.anyValidTargeting addr = false ∧
      s.ghost.isLive addr = true
  | _ => False

theorem execute_ok_iff (s : State) (t : Step) :
    (Kernel.execute s t).1 = .ok () ↔ ∃ s', Exec .cloning t s s' := by
  show _ ↔ ∃ s', t.execute s = .ok s'
  unfold Kernel.execute
  cases t.execute s <;> simp

theorem executeMut_ok_iff (s : State) (t : Step) :
    (Kernel.executeMut s t).1 = .ok () ↔ ∃ s', Exec .inPlace t s s' := by
  show _ ↔ ∃ s', t.executeMut s = (.ok (), s')
  unfold Kernel.executeMut
  rcases t.executeMut s with ⟨res, s'⟩
  cases res <;> simp [Except.mapError]

/-- the checks are all that can keep an allocation from going through -/
theorem alloc_exec_iff (s : State) (p : Path) {hc : HostCall} (hf : hc.function = .kernelAlloc)
    (auth : Authorized) (res : HostResult) : (∃ s', Exec p (.hostCall hc auth res) s s') ↔
      checkHostCall s hc auth = .ok () ∧ checkAlloc s hc = .ok () := by
  constructor
  · rintro ⟨s', hx⟩
    obtain ⟨hgate, he⟩ := hx.effect.hostCall
    rw [hf] at he
    cases he with
    | kernelAlloc hck => exact ⟨hgate, hck⟩
  · rintro ⟨hgate, hck⟩
    exact ⟨_, (Effect.alloc hgate hf hck).exec⟩

/-- the host calls that succeed are those that pass the checks -/
theorem StateOp.charges_iff (s : State) (op : StateOp) (c : Charge) :
    op.charges s = some c ↔ op.Charges s c := by
  have passes : ∀ (p : Path) (hc : HostCall) (auth : Authorized) (res : HostResult),
      op.step = some (.hostCall hc auth res) →
      ((hc.function = .kernelAlloc ∧ ∃ s', Exec p (.hostCall hc auth res) s s') ∧
        hc.charge s = c ↔ op.Charges s c) := by
    intro p hc auth res hop
    constructor
    · rintro ⟨⟨hf, hx⟩, rfl⟩
      obtain ⟨hgate, hck⟩ := (alloc_exec_iff s p hf auth res).mp hx
      exact ⟨hc, auth, res, hop, hf, hgate, hck, rfl⟩
    · rintro ⟨hc', auth', res', hop', hf, hgate, hck, rfl⟩
      cases hop.symm.trans hop'
      exact ⟨⟨hf, (alloc_exec_iff s p hf auth res).mpr ⟨hgate, hck⟩⟩, rfl⟩
  have silent : op.charges s = none →
      (∀ t, op.step = some t → ∀ hc auth res, t ≠ .hostCall hc auth res) →
      (op.charges s = some c ↔ op.Charges s c) := by
    intro h hno
    rw [h]
    exact iff_of_false nofun fun ⟨hc, auth, res, hop, _⟩ => hno _ hop hc auth res rfl
  have silentStep : ∀ t, op.step = some t → op.charges s = none →
      (∀ hc auth res, t ≠ .hostCall hc auth res) → (op.charges s = some c ↔ op.Charges s c) := by
    intro t ht hnone hno
    apply silent hnone
    intro t' ht'
    cases ht.symm.trans ht'
    exact hno
  cases op with
  | call cl =>
    cases cl with
    | execute t =>
      cases t with
      | hostCall hc auth res =>
        simp only [charges]
        rw [Option.ite_none_right_eq_some, execute_ok_iff, Option.some_inj]
        exact passes .cloning hc auth res rfl
      | pluginInternal _ _ | kernelInternal _ | memFree _ _ | capRevoke _ _ =>
        exact silentStep _ rfl rfl fun _ _ _ e => by cases e
    | executeMut t =>
      cases t with
      | hostCall hc auth res =>
        simp only [charges]
        rw [Option.ite_none_right_eq_some, executeMut_ok_iff, Option.some_inj]
        exact passes .inPlace hc auth res rfl
      | pluginInternal _ _ | kernelInternal _ | memFree _ _ | capRevoke _ _ =>
        exact silentStep _ rfl rfl fun _ _ _ e => by cases e
    | _ => exact silent rfl fun t ht => nomatch ht
  | _ => exact silent rfl fun t ht => nomatch ht

/-! ## addresses that stay what they are -/

namespace MetaState

/-- an allocation, or a free of an address that is not live: every address that is live or freed
stays what it is -/
structure KeepsLive (m m' : MetaState) : Prop where
  live : ∀ a, m.isLive a = true ∨ m.isFreed a = true → m'.isLive a = m.isLive a
  freed : ∀ a, m.isFreed a = true → m'.isFreed a = true
  sorted : Increasing m'.freedSet

section
variable {m : MetaState}

theorem isLive_congr {m' : MetaState} {a : MemAddr} (hs : m'.getStatus a = m.getStatus a)
    (hf : m'.isFreed a = m.isFreed a) : m'.isLive a = m.isLive a := by
  rw [Bool.eq_iff_iff, isLive_iff, isLive_iff, hs, hf]

theorem isFreed_of_isLive {a : MemAddr} (h : m.isLive a = true) : m.isFreed a = false :=
  ((m.isLive_iff a).mp h).2

theorem KeepsLive.refl (hs : Increasing m.freedSet) : m.KeepsLive m :=
  ⟨fun _ _ => rfl, fun _ => id, hs⟩

/-- an address that is handed out is live, unless it is in the freed set already -/
theorem isLive_alloc (m : MetaState) (addr : MemAddr) (owner : PluginId) :
    (m.alloc addr owner).isLive addr = !m.isFreed addr := by
  have hst : (m.alloc addr owner).getStatus addr = some (.allocated owner) :=
    (m.resources.get_insert _ _ _).trans (if_pos rfl)
  have hf : (m.alloc addr owner).isFreed addr = m.isFreed addr := rfl
  rw [Bool.eq_iff_iff, isLive_iff, hst, hf]
  simp

theorem KeepsLive.alloc (hs : Increasing m.freedSet) (addr : MemAddr) (owner : PluginId) :
    m.KeepsLive (m.alloc addr owner) := by
  refine ⟨fun a ha => ?_, fun _ => id, hs⟩
  by_cases e : a = addr
  · subst e
    rw [isLive_alloc]
    rcases ha with hlive | hfreed
    · rw [hlive, isFreed_of_isLive hlive]
      rfl
    · rw [hfreed]
      exact (eq_false_of_ne_true fun h => nomatch hfreed.symm.trans (isFreed_of_isLive h)).symm
  · exact isLive_congr ((m.resources.get_insert addr a _).trans (if_neg e)) rfl

theorem freedSet_frees {p : Path} {addr : MemAddr} {g : MetaState} (h : p.frees m addr g) :
    g.freedSet = insertKey m.freedSet addr := by
  rcases Path.frees_cases h with ⟨_, rfl⟩ | ⟨_, _, rfl⟩ <;> rfl

theorem isFreed_frees (hs : Increasing m.freedSet) {p : Path} {addr : MemAddr} {g : MetaState}
    (h : p.frees m addr g) (a : MemAddr) :
    g.isFreed a = (decide (a = addr) || m.isFreed a) := by
  unfold isFreed
  rw [freedSet_frees h, has_insertKey hs]

/-- a free makes its address dead, and changes no other -/
theorem isLive_frees (hs : Increasing m.freedSet) {p : Path} {addr : MemAddr} {g : MetaState}
    (h : p.frees m addr g) (a : MemAddr) :
    g.isLive a = if a = addr then false else m.isLive a := by
  have hfreed := isFreed_frees hs h a
  by_cases e : a = addr
  · rw [if_pos e]
    apply eq_false_of_ne_true
    intro hlive
    rw [isFreed_of_isLive hlive, decide_eq_true e] at hfreed
    cases hfreed
  · rw [if_neg e]
    refine isLive_congr ((frees_getStatus h a).resolve_right fun h => e h.1) ?_
    rw [hfreed, decide_eq_false e, Bool.false_or]

theorem freed_frees (hs : Increasing m.freedSet) {p : Path} {addr : MemAddr} {g : MetaState}
    (h : p.frees m addr g) {a : MemAddr} (ha : m.isFreed a = true) : g.isFreed a = true := by
  rw [isFreed_frees hs h, ha, Bool.or_true]

theorem KeepsLive.kept {m' : MetaState} (h : m.KeepsLive m') {a : MemAddr}
    (ha : m.isLive a = true ∨ m.isFreed a = true) :
    m'.isLive a = true ∨ m'.isFreed a = true := by
  rw [h.live a ha]
  exact ha.imp_right (h.freed a)

theorem KeepsLive.frees (hs : Increasing m.freedSet) {p : Path} {addr : MemAddr} {g : MetaState}
    (h : p.frees m addr g) (hdead : m.isLive addr = false) : m.KeepsLive g := by
  refine ⟨fun a _ => ?_, fun _ => freed_frees hs h, freedSet_frees h ▸ hs.insertKey addr⟩
  rw [isLive_frees hs h]
  split
  · rename_i e
    rw [e, hdead]
  · rfl

/-- a live address can be freed either way -/
theorem exists_frees {addr : MemAddr} (h : m.isLive addr = true) (p : Path) :
    ∃ g, p.frees m addr g := by
  cases p with
  | cloning => exact ⟨_, rfl⟩
  | inPlace =>
    rcases m.freeMut_cases addr with ⟨_, e⟩ | ⟨hn, _⟩
    · exact ⟨_, e⟩
    · cases hn.symm.trans h

end
end MetaState

/-! ## one operation -/

/-- what is charged to a registered plugin -/
def State.used (s : State) (p : PluginId) : Option Nat :=
  (s.getPlugin p).map PluginState.memoryUsed

/-- plugins may come in without usage, and the usage of the others stays -/
def KeepsUsed (s s' : State) : Prop :=
  ∀ p, s'.used p = s.used p ∨ (s.used p = none ∧ s'.used p = some 0)

/-- plugins are inserted without usage -/
def StateOp.InsertsIdle : StateOp → Prop
  | .call (.insertPlugin _ ps) => ps.memoryUsed = 0
  | _ => True

theorem StateOp.registers_idle {op : StateOp} (h : op.InsertsIdle) {id : PluginId}
    {ps : PluginState} (hc : op.registers = some (id, ps)) : ps.memoryUsed = 0 := by
  rcases registers_cases hc with ⟨level, memSize, rfl⟩ | rfl
  · rfl
  · exact h

theorem used_modify (s : State) (pid : PluginId) (f : PluginState → PluginState) (p : PluginId) :
    (s.updatePlugin pid f).used p =
      if p = pid then (s.getPlugin p).map fun q => (f q).memoryUsed else s.used p := by
  unfold State.used
  rw [State.getPlugin_updatePlugin]
  split
  · rw [Option.map_map]
    rfl
  · rfl

/-- what an operation does that charges nothing -/
theorem StateOp.keepsUsed (hmac : Hmac) {s : State} (hs : s.plugins.Sorted) {op : StateOp}
    (hop : op.InsertsIdle) (hc : ∀ c, ¬ op.Charges s c) : KeepsUsed s (op.exec hmac s) := by
  have stays : ∀ (pid : PluginId) (f : PluginState → PluginState),
      (∀ q, (f q).memoryUsed = q.memoryUsed) → KeepsUsed s (s.updatePlugin pid f) := by
    intro pid f hf p
    rw [used_modify]
    simp only [hf]
    exact Or.inl (ite_self _)
  have hstep := op.pluginStep hmac s
  show ∀ p, ((op.exec hmac s).plugins.find p).map PluginState.memoryUsed = s.used p ∨
    (s.used p = none ∧
      ((op.exec hmac s).plugins.find p).map PluginState.memoryUsed = some 0)
  generalize (op.exec hmac s).plugins = plugins at hstep ⊢
  cases hstep with
  | same _ => exact fun _ => Or.inl rfl
  | @inserted id ps plugins _ hc h =>
    intro p
    rw [Table.find_add hs h]
    by_cases e : p = id
    · subst e
      rw [if_pos rfl, Option.map_some, registers_idle hop hc]
      exact Or.inr ⟨congrArg (Option.map _) (Table.find_add_old h), rfl⟩
    · rw [if_neg e]
      exact Or.inl rfl
  | @granted target c _ => exact stays target (·.grantCapMut c) fun _ => rfl
  | charged _ ht hf hgate hck => exact absurd ⟨_, _, _, ht, hf, hgate, hck, rfl⟩ (hc _)
  | @relabelled p l _ => exact stays p (fun q => { q with level := l }) fun _ => rfl

/-- what an operation does that frees no live address -/
theorem StateOp.keepsLive (hmac : Hmac) {s : State} (hs : Increasing s.ghost.freedSet)
    {op : StateOp} (hf : ∀ a, ¬ op.FreesLive s a) :
    s.ghost.KeepsLive (op.exec hmac s).ghost := by
  cases op with
  | call c =>
    have hg := c.ghostStep hmac s
    show s.ghost.KeepsLive (c.exec hmac s).ghost
    generalize (c.exec hmac s).ghost = g at hg ⊢
    cases hg with
    | same => exact .refl hs
    | alloc owner => exact .alloc hs _ owner
    | @free p addr _ hadm hc hck h =>
      refine .frees hs h (eq_false_of_ne_true fun hlive => ?_)
      exact hf addr ⟨⟨p, hc⟩, hadm, ((checkFree_ok_iff s addr).mp hck).2, hlive⟩
  | applyCapDelegate cap target =>
    rcases applyCapDelegate_cases s cap target with h | ⟨r, _, h⟩
    · have e : (StateOp.applyCapDelegate cap target).exec hmac s = s := by
        simp only [exec, h]
        rfl
      rw [e]
      exact .refl hs
    · have e : ((StateOp.applyCapDelegate cap target).exec hmac s).ghost = s.ghost := by
        simp only [exec, h]
        rfl
      rw [e]
      exact .refl hs
  | applyRevoke _ | applyCapRevoke _ => exact .refl hs
  | applyAlloc owner _ => exact .alloc hs _ owner
  | applyFree addr =>
    show s.ghost.KeepsLive ((s.applyFree addr).toOption.getD s).ghost
    unfold State.applyFree
    cases hv : s.kernel.revocation.anyValidTargeting addr with
    | true => exact .refl hs
    | false =>
      refine .frees hs (p := .cloning) rfl (eq_false_of_ne_true fun hlive => ?_)
      exact hf addr ⟨rfl, hv, hlive⟩

theorem StateOp.step_cases {op : StateOp} {t : Step} (h : op.step = some t) :
    op = .call (.execute t) ∨ op = .call (.executeMut t) := by
  cases op with
  | call c =>
    cases c with
    | execute _ =>
      cases h
      exact Or.inl rfl
    | executeMut _ =>
      cases h
      exact Or.inr rfl
    | _ => cases h
  | _ => cases h

theorem StateOp.exec_execute (hmac : Hmac) {s s' : State} {t : Step} (h : Exec .cloning t s s') :
    (StateOp.call (.execute t)).exec hmac s = s' := by
  have e : t.execute s = .ok s' := h
  show (Kernel.execute s t).2 = s'
  unfold Kernel.execute
  rw [e]

theorem StateOp.exec_executeMut (hmac : Hmac) {s s' : State} {t : Step} (h : Exec .inPlace t s s') :
    (StateOp.call (.executeMut t)).exec hmac s = s' := by
  have e : t.executeMut s = (.ok (), s') := h
  show (t.executeMut s).2 = s'
  rw [e]

theorem StateOp.exec_charges (hmac : Hmac) {s : State} {op : StateOp} {c : Charge}
    (h : op.Charges s c) : op.exec hmac s =
      (s.withGhost (s.ghost.alloc c.addr c.owner)).updatePlugin c.owner (·.charge c.size) := by
  obtain ⟨hc, auth, res, hop, hf, hgate, hck, rfl⟩ := h
  rcases step_cases hop with rfl | rfl
  · exact exec_execute hmac (Effect.alloc hgate hf hck).exec
  · exact exec_executeMut hmac (Effect.alloc hgate hf hck).exec

theorem StateOp.exec_freesLive (hmac : Hmac) {s : State} {op : StateOp} {addr : MemAddr}
    (h : op.FreesLive s addr) :
    ∃ p g, Path.frees p s.ghost addr g ∧ op.exec hmac s = s.withGhost g := by
  cases op with
  | call c =>
    obtain ⟨⟨p, hp⟩, hadm, hv, hlive⟩ := h
    obtain ⟨g, hg⟩ := MetaState.exists_frees hlive p
    have hck : checkFree s addr = .ok () :=
      (checkFree_ok_iff s addr).mpr ⟨MetaState.isFreed_of_isLive hlive, hv⟩
    refine ⟨p, g, hg, ?_⟩
    cases c with
    | free _ =>
      cases hp
      show (s.applyFreeMut addr).2 = _
      unfold State.applyFreeMut
      rw [hv, show s.ghost.freeMut addr = (.ok (), g) from hg]
      rfl
    | execute t =>
      obtain ⟨a, ht, e⟩ := Option.map_eq_some_iff.mp hp
      cases e
      exact exec_execute hmac (Effect.free hadm ht hck hg).exec
    | executeMut t =>
      obtain ⟨a, ht, e⟩ := Option.map_eq_some_iff.mp hp
      cases e
      exact exec_executeMut hmac (Effect.free hadm ht hck hg).exec
    | _ => cases hp
  | applyFree a =>
    obtain ⟨rfl, hv, _⟩ := h
    refine ⟨.cloning, _, rfl, ?_⟩
    show (s.applyFree a).toOption.getD s = _
    unfold State.applyFree
    rw [hv]
    rfl
  | _ => exact h.elim

/-- a charge, a free of a live address, or neither -/
inductive UsageStep (s : State) (op : StateOp) : State → Prop
  | charged {c : Charge} {q : PluginState} (hc : op.Charges s c) (hq : s.getPlugin c.owner = some q)
      (hn : q.canAllocMemory c.size = true) : UsageStep s op
        ((s.withGhost (s.ghost.alloc c.addr c.owner)).updatePlugin c.owner (·.charge c.size))
  | freed {p : Path} {addr : MemAddr} {g : MetaState} (hc : ∀ c, ¬ op.Charges s c)
      (hf : op.FreesLive s addr) (h : p.frees s.ghost addr g) : UsageStep s op (s.withGhost g)
  | other {s' : State} (hc : ∀ c, ¬ op.Charges s c) (hf : ∀ a, ¬ op.FreesLive s a)
      (hused : KeepsUsed s s') (hlive : s.ghost.KeepsLive s'.ghost) : UsageStep s op s'

/-- a host call for an allocation frees nothing -/
theorem StateOp.Charges.not_freesLive {s : State} {op : StateOp} {c : Charge}
    (h : op.Charges s c) (a : MemAddr) : ¬ op.FreesLive s a := by
  obtain ⟨hc, auth, res, hop, hf, _⟩ := h
  have hfrees : Step.frees (.hostCall hc auth res) = none := by
    simp [Step.frees, hf]
  intro hl
  rcases step_cases hop with rfl | rfl
  · obtain ⟨⟨p, hp⟩, _⟩ := hl
    obtain ⟨a, ht, _⟩ := Option.map_eq_some_iff.mp hp
    cases hfrees.symm.trans ht
  · obtain ⟨⟨p, hp⟩, _⟩ := hl
    obtain ⟨a, ht, _⟩ := Option.map_eq_some_iff.mp hp
    cases hfrees.symm.trans ht

/-- **Every operation is one of these.** -/
theorem StateOp.usageStep (hmac : Hmac) {s : State} (hs : s.plugins.Sorted)
    (hfreed : Increasing s.ghost.freedSet) {op : StateOp} (hop : op.InsertsIdle) :
    UsageStep s op (op.exec hmac s) := by
  by_cases hc : ∃ c, op.Charges s c
  · obtain ⟨c, hc⟩ := hc
    rw [exec_charges hmac hc]
    have h := hc
    obtain ⟨_, _, _, _, _, _, hck, rfl⟩ := h
    obtain ⟨q, hq, hn⟩ := (checkAlloc_ok_iff s _).mp hck
    exact .charged hc hq hn
  · have hc' : ∀ c, ¬ op.Charges s c := fun c h => hc ⟨c, h⟩
    by_cases hf : ∃ a, op.FreesLive s a
    · obtain ⟨a, hf⟩ := hf
      obtain ⟨p, g, hg, e⟩ := exec_freesLive hmac hf
      rw [e]
      exact .freed hc' hf hg
    · have hf' : ∀ a, ¬ op.FreesLive s a := fun a h => hf ⟨a, h⟩
      exact .other hc' hf' (keepsUsed hmac hs hop hc') (keepsLive hmac hfreed hf')

/-! ## the ledger -/

/-- the state, and the allocations that host calls have made -/
structure Ledger where
  state : State
  charges : List Charge

namespace Ledger

def exec (hmac : Hmac) (l : Ledger) (op : StateOp) : Ledger :=
  ⟨op.exec hmac l.state, (op.charges l.state).toList ++ l.charges⟩

/-- what one allocation counts for `p` -/
def due (s : State) (p : PluginId) (c : Charge) : Nat :=
  if c.owner = p ∧ s.ghost.isLive c.addr = true then c.size else 0

/-- the sizes of the allocations of `p` that are still live -/
def owed (l : Ledger) (p : PluginId) : Nat := (l.charges.map (due l.state p)).sum

/-- the usage of every plugin is what its live allocations come to -/
def Exact (l : Ledger) : Prop := ∀ p n, l.state.used p = some n → n = l.owed p

/-- no live allocation is freed, and none is made at an address that is freed already, except of
size zero -/
structure Keeps (l : Ledger) (op : StateOp) : Prop where
  frees : ∀ a, op.FreesLive l.state a → ∀ c ∈ l.charges, c.addr = a → c.size = 0
  charges : ∀ c, op.Charges l.state c → l.state.ghost.isFreed c.addr = true → c.size = 0

/-- what every operation keeps -/
structure Sound (l : Ledger) : Prop where
  plugins : l.state.plugins.Sorted
  freed : Increasing l.state.ghost.freedSet
  owners : ∀ c ∈ l.charges, l.state.used c.owner ≠ none
  addrs : ∀ c ∈ l.charges,
    l.state.ghost.isLive c.addr = true ∨ l.state.ghost.isFreed c.addr = true

theorem charges_exec_of_none (hmac : Hmac) {l : Ledger} {op : StateOp}
    (h : ∀ c, ¬ op.Charges l.state c) : (l.exec hmac op).charges = l.charges := by
  have hn : op.charges l.state = none :=
    Option.eq_none_iff_forall_ne_some.mpr fun c hc => h c ((op.charges_iff l.state c).mp hc)
  show (op.charges l.state).toList ++ l.charges = l.charges
  rw [hn]
  rfl

theorem charges_exec_of_some (hmac : Hmac) {l : Ledger} {op : StateOp} {c : Charge}
    (h : op.Charges l.state c) : (l.exec hmac op).charges = c :: l.charges := by
  show (op.charges l.state).toList ++ l.charges = c :: l.charges
  rw [(op.charges_iff l.state c).mpr h]
  rfl

theorem owed_cons (s : State) (c : Charge) (cs : List Charge) (p : PluginId) :
    owed ⟨s, c :: cs⟩ p = due s p c + owed ⟨s, cs⟩ p := by
  simp [owed]

/-- the same addresses are live, so the same is owed -/
theorem owed_congr {s s' : State} {cs : List Charge}
    (h : ∀ c ∈ cs, s'.ghost.isLive c.addr = s.ghost.isLive c.addr) (p : PluginId) :
    owed ⟨s', cs⟩ p = owed ⟨s, cs⟩ p := by
  refine congrArg List.sum (List.map_congr_left fun c hc => ?_)
  unfold due
  rw [h c hc]

/-- nothing is owed to a plugin that is not registered -/
theorem Sound.owed_eq_zero {l : Ledger} (h : l.Sound) {p : PluginId} (hp : l.state.used p = none) :
    l.owed p = 0 := by
  apply List.sum_eq_zero
  intro n hn
  obtain ⟨c, hc, rfl⟩ := List.mem_map.mp hn
  refine if_neg fun hd => h.owners c hc ?_
  rw [hd.1]
  exact hp

theorem Sound.empty (key : Key) (policy : PolicyState) : Sound ⟨.initial key policy, []⟩ where
  plugins := List.Pairwise.nil
  freed := List.Pairwise.nil
  owners _ h := nomatch h
  addrs _ h := nomatch h

theorem used_modify_ne_none {s : State} {p : PluginId} (h : s.used p ≠ none) (pid : PluginId)
    (f : PluginState → PluginState) : (s.updatePlugin pid f).used p ≠ none := by
  rw [used_modify]
  split
  · intro hn
    exact h (congrArg (Option.map _) (Option.map_eq_none_iff.mp hn))
  · exact h

theorem Sound.exec {hmac : Hmac} {l : Ledger} (h : l.Sound) {op : StateOp}
    (hop : op.InsertsIdle) : (l.exec hmac op).Sound := by
  have hstep := op.usageStep hmac h.plugins h.freed hop
  have hplugins := (op.pluginStep hmac l.state).sorted h.plugins
  have hnone : (∀ c, ¬ op.Charges l.state c) → _ := charges_exec_of_none hmac
  have hsome : ∀ c, op.Charges l.state c → _ := fun _ => charges_exec_of_some hmac
  change Sound ⟨op.exec hmac l.state, (l.exec hmac op).charges⟩
  generalize (l.exec hmac op).charges = cs at hnone hsome ⊢
  generalize op.exec hmac l.state = s' at hstep hplugins ⊢
  cases hstep with
  | @charged c q hc hq hn =>
    obtain rfl := hsome c hc
    have hk := MetaState.KeepsLive.alloc h.freed c.addr c.owner
    refine ⟨hplugins, hk.sorted, ?_, ?_⟩
    · intro d hd
      refine used_modify_ne_none (s := l.state) ?_ c.owner _
      rcases List.mem_cons.mp hd with rfl | hd
      · unfold State.used
        rw [hq]
        nofun
      · exact h.owners d hd
    · intro d hd
      rcases List.mem_cons.mp hd with rfl | hd
      · show (l.state.ghost.alloc d.addr d.owner).isLive d.addr = true ∨
          l.state.ghost.isFreed d.addr = true
        rw [MetaState.isLive_alloc]
        cases l.state.ghost.isFreed d.addr with
        | true => exact Or.inr rfl
        | false => exact Or.inl rfl
      · exact hk.kept (h.addrs d hd)
  | @freed p addr g hc hf hg =>
    obtain rfl := hnone hc
    refine ⟨hplugins, MetaState.freedSet_frees hg ▸ h.freed.insertKey addr, h.owners, ?_⟩
    intro d hd
    show g.isLive d.addr = true ∨ g.isFreed d.addr = true
    rw [MetaState.isLive_frees h.freed hg, MetaState.isFreed_frees h.freed hg]
    by_cases e : d.addr = addr
    · exact Or.inr (by simp [e])
    · simpa [e] using h.addrs d hd
  | other hc hf hused hlive =>
    obtain rfl := hnone hc
    refine ⟨hplugins, hlive.sorted, ?_, fun d hd => hlive.kept (h.addrs d hd)⟩
    intro d hd
    rcases hused d.owner with e | ⟨e, _⟩
    · rw [e]
      exact h.owners d hd
    · exact absurd e (h.owners d hd)

/-! ### when usage and allocations stay equal -/

/-- a charge raises the usage by its size, and what is owed by the same if the address is live -/
theorem exact_charged_iff {l : Ledger} (he : l.Exact) {c : Charge} {q : PluginState}
    (hq : l.state.getPlugin c.owner = some q) (hn : q.canAllocMemory c.size = true)
    (hk : l.state.ghost.KeepsLive (l.state.ghost.alloc c.addr c.owner))
    (haddrs : ∀ d ∈ l.charges,
      l.state.ghost.isLive d.addr = true ∨ l.state.ghost.isFreed d.addr = true) :
    Exact ⟨(l.state.withGhost (l.state.ghost.alloc c.addr c.owner)).updatePlugin c.owner
        (·.charge c.size), c :: l.charges⟩ ↔
      (l.state.ghost.isFreed c.addr = true → c.size = 0) := by
  have hused := used_modify (l.state.withGhost (l.state.ghost.alloc c.addr c.owner)) c.owner
    (·.charge c.size)
  have hlive : ((l.state.withGhost (l.state.ghost.alloc c.addr c.owner)).updatePlugin c.owner
      (·.charge c.size)).ghost.isLive c.addr = !l.state.ghost.isFreed c.addr :=
    MetaState.isLive_alloc _ _ _
  have howed : ∀ p, owed ⟨(l.state.withGhost (l.state.ghost.alloc c.addr c.owner)).updatePlugin
      c.owner (·.charge c.size), l.charges⟩ p = l.owed p :=
    owed_congr fun d hd => hk.live d.addr (haddrs d hd)
  generalize (l.state.withGhost (l.state.ghost.alloc c.addr c.owner)).updatePlugin c.owner
    (·.charge c.size) = s' at hused hlive howed ⊢
  have howner : s'.used c.owner = some (q.memoryUsed + c.size) := by
    have hcharge := congrArg PluginState.memoryUsed (PluginState.charge_of_canAlloc hn)
    rw [hused, if_pos rfl]
    show (l.state.getPlugin c.owner).map _ = _
    rw [hq]
    exact congrArg some hcharge
  have hbefore : q.memoryUsed = l.owed c.owner := he c.owner _ (congrArg _ hq)
  have hdue : due s' c.owner c = if l.state.ghost.isFreed c.addr = true then 0 else c.size := by
    unfold due
    rw [hlive]
    cases l.state.ghost.isFreed c.addr <;> simp
  constructor
  · intro hx hfreed
    have hafter := hx c.owner _ howner
    rw [owed_cons, howed, hdue, if_pos hfreed] at hafter
    omega
  · intro hk p n hp
    rw [owed_cons, howed]
    by_cases e : p = c.owner
    · subst e
      rw [howner] at hp
      cases hp
      rw [hdue, ← hbefore]
      split
      · rename_i hfreed
        rw [hk hfreed]
        omega
      · omega
    · rw [hused, if_neg e] at hp
      have hzero : due s' p c = 0 := if_neg fun hd => e hd.1.symm
      rw [hzero, Nat.zero_add]
      exact he p n hp

/-- a free leaves every usage, and takes the allocations at its address away from what is owed -/
theorem exact_freed_iff {l : Ledger} (h : l.Sound) (he : l.Exact) {p : Path} {addr : MemAddr}
    {g : MetaState} (hlive : l.state.ghost.isLive addr = true)
    (hg : p.frees l.state.ghost addr g) : Exact ⟨l.state.withGhost g, l.charges⟩ ↔
      ∀ c ∈ l.charges, c.addr = addr → c.size = 0 := by
  have hdue : ∀ q c, due (l.state.withGhost g) q c =
      if c.addr = addr then 0 else due l.state q c := by
    intro q c
    have hdead : (l.state.withGhost g).ghost.isLive c.addr =
        if c.addr = addr then false else l.state.ghost.isLive c.addr :=
      MetaState.isLive_frees h.freed hg c.addr
    unfold due
    rw [hdead]
    by_cases e : c.addr = addr <;> simp [e]
  have hle : ∀ q, ∀ c ∈ l.charges, due (l.state.withGhost g) q c ≤ due l.state q c := by
    intro q c _
    rw [hdue]
    split
    · exact Nat.zero_le _
    · exact le_rfl
  have hsum : ∀ q, owed ⟨l.state.withGhost g, l.charges⟩ q = l.owed q ↔
      ∀ c ∈ l.charges, due (l.state.withGhost g) q c = due l.state q c :=
    fun q => sum_map_eq_iff_of_le l.charges (hle q)
  constructor
  · intro hx c hc e
    obtain ⟨n, hn⟩ := Option.ne_none_iff_exists'.mp (h.owners c hc)
    have hsame := (hsum c.owner).mp ((hx c.owner n hn).symm.trans (he c.owner n hn)) c hc
    rw [hdue, if_pos e] at hsame
    have hsize : due l.state c.owner c = c.size := if_pos ⟨rfl, e ▸ hlive⟩
    omega
  · intro hzero q n hn
    refine (he q n hn).trans ((hsum q).mpr fun c hc => ?_).symm
    rw [hdue]
    split
    · rename_i e
      unfold due
      rw [hzero c hc e, ite_self]
    · rfl

end Ledger

theorem StateOp.FreesLive.unique {s : State} {op : StateOp} {a b : MemAddr}
    (ha : op.FreesLive s a) (hb : op.FreesLive s b) : a = b := by
  cases op with
  | call c =>
    obtain ⟨⟨p, hp⟩, _⟩ := ha
    obtain ⟨⟨p', hp'⟩, _⟩ := hb
    cases hp.symm.trans hp'
    rfl
  | applyFree _ => exact ha.1.symm.trans hb.1
  | _ => exact ha.elim

namespace Ledger

/-- **An operation keeps usage and live allocations equal exactly under its condition.** -/
theorem exact_iff (hmac : Hmac) {l : Ledger} (h : l.Sound) {op : StateOp} (hop : op.InsertsIdle)
    (he : l.Exact) : (l.exec hmac op).Exact ↔ l.Keeps op := by
  have hstep := op.usageStep hmac h.plugins h.freed hop
  have hnone : (∀ c, ¬ op.Charges l.state c) → _ := charges_exec_of_none hmac
  have hsome : ∀ c, op.Charges l.state c → _ := fun _ => charges_exec_of_some hmac
  change Exact ⟨op.exec hmac l.state, (l.exec hmac op).charges⟩ ↔ _
  generalize (l.exec hmac op).charges = cs at hnone hsome ⊢
  generalize op.exec hmac l.state = s' at hstep ⊢
  cases hstep with
  | @charged c q hc hq hn =>
    obtain rfl := hsome c hc
    rw [exact_charged_iff he hq hn (.alloc h.freed _ _) h.addrs]
    constructor
    · intro hsize
      refine ⟨fun a ha => absurd ha (hc.not_freesLive a), ?_⟩
      intro c' hc' hfreed
      have e : some c' = some c :=
        ((op.charges_iff l.state c').mpr hc').symm.trans ((op.charges_iff l.state c).mpr hc)
      cases e
      exact hsize hfreed
    · exact fun hk => hk.charges c hc
  | @freed p addr g hc hf hg =>
    obtain rfl := hnone hc
    have hlive : l.state.ghost.isLive addr = true := by
      cases op with
      | call _ => exact hf.2.2.2
      | applyFree _ => exact hf.2.2
      | _ => exact hf.elim
    rw [exact_freed_iff h he hlive hg]
    constructor
    · intro hzero
      refine ⟨fun a ha c hcm e => ?_, fun c hc' => absurd hc' (hc c)⟩
      exact hzero c hcm (e.trans (ha.unique hf))
    · exact fun hk => hk.frees addr hf
  | other hc hf hused hlive =>
    obtain rfl := hnone hc
    have howed : ∀ p, owed ⟨s', l.charges⟩ p = l.owed p :=
      owed_congr fun c hcm => hlive.live c.addr (h.addrs c hcm)
    refine iff_of_true ?_ ⟨fun a ha => absurd ha (hf a), fun c hc' => absurd hc' (hc c)⟩
    intro p n hn
    rw [howed]
    rcases hused p with e | ⟨e, hzero⟩
    · exact he p n (e ▸ hn)
    · rw [h.owed_eq_zero e]
      exact Option.some.inj (hn.symm.trans hzero)

end Ledger

/-! ## runs -/

/-- **Main result**: in a run from an empty state, into which plugins come without usage, the
usage of every plugin is all the way the sum of the sizes of the allocations that its host calls
have made and that are still live, exactly if nothing frees such an allocation, unless its size is
zero, and none is made at an address that is in the freed set already. -/
theorem accounting_iff_keeps (hmac : Hmac) (key : Key) (policy : PolicyState)
    (ops : List StateOp) (hops : ∀ op ∈ ops, op.InsertsIdle) :
    (∀ n, (run (Ledger.exec hmac) ⟨.initial key policy, []⟩ (ops.take n)).Exact) ↔
      Along (Ledger.exec hmac) Ledger.Keeps ⟨.initial key policy, []⟩ ops := by
  have keep : ∀ (l : Ledger) (op : StateOp), l.Sound → op.InsertsIdle → (l.exec hmac op).Sound :=
    fun _ _ h hop => h.exec hop
  refine prefixes_iff_along_of keep (fun _ _ h hop he => Ledger.exact_iff hmac h hop he) ops hops
    (.empty key policy) ?_
  intro p n hn
  cases hn

/-- plugin 1 gets 8 bytes by a host call, and they are freed -/
def sampleFreed : List StateOp :=
  [.call (.alloc 1 8), .call (.registerPlugin 1 .Public 0), .call (.insertCapRaw sampleCreator 1),
    .call (.executeMut (.hostCall (sampleCreate 8) sampleToken .empty)), .call (.free 1)]

theorem sampleFreed_idle : ∀ op ∈ sampleFreed, op.InsertsIdle := by
  intro op hop
  simp only [sampleFreed, List.mem_cons, List.not_mem_nil, or_false] at hop
  rcases hop with rfl | rfl | rfl | rfl | rfl <;> trivial

theorem accounting_iff_keeps_sample :
    (∀ n, (run (Ledger.exec sampleMac) ⟨.initial .empty .permitAll, []⟩
        (sampleFreed.take n)).Exact) ↔
      Along (Ledger.exec sampleMac) Ledger.Keeps ⟨.initial .empty .permitAll, []⟩ sampleFreed :=
  accounting_iff_keeps sampleMac .empty .permitAll sampleFreed sampleFreed_idle

/-- the 8 bytes are gone, the charge for them is not -/
theorem usage_outlives_memory :
    let l := run (Ledger.exec sampleMac) ⟨.initial .empty .permitAll, []⟩ sampleFreed
    l.charges = [⟨1, 1, 8⟩] ∧ l.state.ghost.isLive 1 = false ∧ l.state.used 1 = some 8 ∧
      l.owed 1 = 0 := by
  decide

end LionCore
