import LionCore.Security.Held
import LionCore.State.Core

/-!
# The core and the full kernel

The core keeps security metadata that it creates on demand; the full kernel keeps plugins that
are registered.  Requests to the core are paired with operations of the full kernel.

* `Agree`                  equal tables, keys and clocks, and the same handles;
* `Sim.simulated`          a request and its pair succeed, fail or panic together, and keep it;
* `core_simulates`         **main result** for every run from a common start.
-/

namespace LionCore
open Base RevocationState

/-! ## the pairing -/

/-- what the full kernel does for a request; labels have no counterpart, `none` is a panic -/
def Kernel.paired (s : State) : KernelRequest → Option (Except Error Unit × State)
  | .capDelegate newCap target => some (Kernel.insertCapRaw s newCap target)
  | .capRevoke capId => some (Kernel.revokeCap s capId)
  | .setPluginLevel _ _ => some (.ok (), s)
  | .setResourceLevel _ _ => some (.ok (), s)
  | .tick => some (Kernel.tick s)
  | .rotateKey newKey =>
    match s.kernel.rotateKey newKey with
    | (some (), kernel) => some (.ok (), { s with kernel })
    | (none, _) => none

/-- a delegation goes to a registered plugin -/
def KernelRequest.TargetIn (s : State) : KernelRequest → Prop
  | .capDelegate _ target => s.getPlugin target ≠ none
  | _ => True

instance (s : State) : DecidablePred (KernelRequest.TargetIn s)
  | .capDelegate _ target => inferInstanceAs (Decidable (s.getPlugin target ≠ none))
  | .capRevoke _ | .setPluginLevel _ _ | .setResourceLevel _ _ | .tick | .rotateKey _ =>
    isTrue trivial

/-- the core that a driver goes on with: the new one, or the old one if the request fails -/
def KernelStateCore.next (core : KernelStateCore) (req : KernelRequest) : Option KernelStateCore :=
  (kernelDispatch core req).map fun res => res.toOption.getD core

/-- the state that is left -/
def State.next (s : State) (req : KernelRequest) : Option State :=
  (Kernel.paired s req).map Prod.snd

/-- the request and its pair both panic, both succeed, or both fail in the old state -/
def SameOutcome (core : KernelStateCore) (s : State) (req : KernelRequest) : Prop :=
  (kernelDispatch core req = none ∧ Kernel.paired s req = none) ∨
    (∃ core' s', kernelDispatch core req = some (.ok core') ∧
      Kernel.paired s req = some (.ok (), s')) ∨
    ∃ e e', kernelDispatch core req = some (.error e) ∧ Kernel.paired s req = some (.error e', s)

/-! ## the relation -/

structure Agree (core : KernelStateCore) (s : State) : Prop where
  revocation : core.revocation = s.kernel.revocation
  keyState : core.keyState = s.kernel.keyState
  now : core.now = s.kernel.now
  holds : ∀ p c, core.pluginHolds p c = s.pluginHolds p c

/-- the documented order of the core -/
structure KernelStateCore.Sorted (core : KernelStateCore) : Prop where
  plugins : core.pluginMetas.Sorted
  resources : core.resourceMetas.Sorted
  held : ∀ p m, core.pluginMetas.find p = some m → Increasing m.heldCaps

/-- both sides are empty, with one key; metadata is created on demand, so it makes no difference
which of the registered plugins the core already lists -/
structure SameStart (key : Key) (core : KernelStateCore) (s : State) : Prop where
  coreKeys : core.keyState = .initial key
  keys : s.kernel.keyState = .initial key
  coreTable : core.revocation = .empty
  table : s.kernel.revocation = .empty
  coreNow : core.now = 0
  now : s.kernel.now = 0
  corePlugins : core.pluginMetas.Sorted
  coreResources : core.resourceMetas = []
  coreHeld : ∀ p m, core.pluginMetas.find p = some m → m.heldCaps = []
  held : ∀ p ps, s.getPlugin p = some ps → ps.heldCaps = []

/-- what every request keeps; `registered` are the plugins of the start -/
structure Sim (registered : List PluginId) (core : KernelStateCore) (s : State) : Prop where
  agree : Agree core s
  sorted : core.Sorted
  held : ∀ p l, s.held p = some l → Increasing l
  plugins : s.plugins.keys = registered

/-! ## the core's metadata -/

namespace KernelStateCore
section
variable {core : KernelStateCore}

theorem pluginHolds_eq (core : KernelStateCore) (p : PluginId) (c : CapId) :
    core.pluginHolds p c = (core.getPluginMeta p).holdsCap c := by
  unfold pluginHolds getPluginMeta
  cases core.pluginMetas.find p <;> rfl

theorem getPluginMeta_increasing (h : core.Sorted) (p : PluginId) :
    Increasing (core.getPluginMeta p).heldCaps := by
  unfold getPluginMeta
  cases hm : core.pluginMetas.find p with
  | none => exact List.Pairwise.nil
  | some m => exact h.held p m hm

theorem getPluginMeta_setPluginMeta (h : core.Sorted) (pid p : PluginId) {m : PluginMeta}
    (hm : Increasing m.heldCaps) :
    (core.setPluginMeta pid m).getPluginMeta p = if p = pid then m else core.getPluginMeta p := by
  unfold setPluginMeta getPluginMeta
  rw [Table.find_put h.plugins, hm.sortDedup]
  split <;> rfl

theorem Sorted.setPluginMeta (h : core.Sorted) (pid : PluginId) (m : PluginMeta) :
    (core.setPluginMeta pid m).Sorted := by
  refine ⟨h.plugins.put pid _, h.resources, fun p m' hm => ?_⟩
  have hfind : (core.setPluginMeta pid m).pluginMetas.find p = _ := Table.find_put h.plugins pid p _
  rw [hfind] at hm
  split at hm
  · cases hm
    exact sortDedup_increasing _
  · exact h.held p m' hm

theorem pluginHolds_grant (h : core.Sorted) (target p : PluginId) (c x : CapId) :
    (core.setPluginMeta target ((core.getPluginMeta target).grantCap c)).pluginHolds p x =
      if p = target then decide (x = c) || core.pluginHolds p x else core.pluginHolds p x := by
  have hold := getPluginMeta_increasing h target
  rw [pluginHolds_eq, pluginHolds_eq, getPluginMeta_setPluginMeta h target p (hold.insertKey c)]
  by_cases hp : p = target
  · subst hp
    rw [if_pos rfl, if_pos rfl]
    exact has_insertKey hold c x
  · rw [if_neg hp, if_neg hp]

theorem pluginHolds_setLevel (h : core.Sorted) (pid p : PluginId) (level : SecurityLevel)
    (x : CapId) : (core.setPluginMeta pid { core.getPluginMeta pid with level }).pluginHolds p x =
      core.pluginHolds p x := by
  have hold : Increasing { core.getPluginMeta pid with level }.heldCaps :=
    getPluginMeta_increasing h pid
  rw [pluginHolds_eq, pluginHolds_eq, getPluginMeta_setPluginMeta h pid p hold]
  by_cases hp : p = pid
  · subst hp
    rw [if_pos rfl]
    rfl
  · rw [if_neg hp]

end
end KernelStateCore

/-- a registered target holds what it held and the new id -/
theorem State.pluginHolds_grant_registered {s : State}
    (held : ∀ p l, s.held p = some l → Increasing l) {target : PluginId}
    (ht : s.getPlugin target ≠ none) (p : PluginId) (c x : CapId) :
    (s.updatePlugin target (·.grantCapMut c)).pluginHolds p x =
      if p = target then decide (x = c) || s.pluginHolds p x else s.pluginHolds p x := by
  rw [Bool.eq_iff_iff, pluginHolds_grant held]
  by_cases hp : p = target
  · subst hp
    simp [ht, or_comm]
  · simp [hp]

/-! ## the two sides in step -/

theorem revokeTransitiveFastMut_error {r r' : RevocationState} {c : CapId} {e : KernelError}
    (h : r.revokeTransitiveFastMut c = (.error e, r')) : r' = r := by
  unfold RevocationState.revokeTransitiveFastMut at h
  split at h
  · exact (Prod.mk.inj h).2.symm
  · cases h

/-- a request that fails leaves the state of the full kernel as it was -/
theorem revokeCap_cases (s : State) (c : CapId) :
    (∃ e, s.kernel.revocation.revokeTransitiveFastMut c = (.error e, s.kernel.revocation) ∧
      Kernel.revokeCap s c = (.error (.kernel e), s)) ∨
    ∃ r, s.kernel.revocation.revokeTransitiveFastMut c = (.ok (), r) ∧
      Kernel.revokeCap s c = (.ok (), s.withRevocation r) := by
  unfold Kernel.revokeCap State.applyCapRevokeMut
  rcases h : s.kernel.revocation.revokeTransitiveFastMut c with ⟨e | _, r⟩
  · rw [revokeTransitiveFastMut_error h]
    exact Or.inl ⟨e, rfl, rfl⟩
  · exact Or.inr ⟨r, rfl, rfl⟩

theorem contains_iff (r : RevocationState) (c : CapId) : r.contains c = true ↔ r.get c ≠ none := by
  unfold RevocationState.contains RevocationState.get
  rw [Ne, Table.find_eq_none_iff, Option.isSome_iff_ne_none]

theorem insertCapRaw_cases (s : State) (cap : Capability) (target : PluginId) :
    (s.kernel.revocation.contains cap.id = true ∧
      Kernel.insertCapRaw s cap target = (.error (.kernel (.capIdCollision cap.id)), s)) ∨
    (s.kernel.revocation.contains cap.id = false ∧
      ∃ r, s.kernel.revocation.insertMut cap = (.ok (), r) ∧
        Kernel.insertCapRaw s cap target =
          (.ok (), (s.withRevocation r).updatePlugin target (·.grantCapMut cap.id))) := by
  unfold Kernel.insertCapRaw State.applyCapDelegateMut
  rcases insertMut_cases s.kernel.revocation cap with ⟨hin, e⟩ | ⟨r, e, hi⟩
  · rw [e]
    exact Or.inl ⟨(contains_iff _ _).mpr hin, rfl⟩
  · rw [e]
    exact Or.inr ⟨Bool.eq_false_iff.mpr fun h => (contains_iff _ _).mp h hi.fresh, r, rfl, rfl⟩

/-- the target is registered, whatever else has changed -/
theorem KernelRequest.TargetIn.of_keys {s s' : State} {req : KernelRequest} (h : req.TargetIn s)
    (hk : s'.plugins.keys = s.plugins.keys) : req.TargetIn s' := by
  cases req with
  | capDelegate newCap target =>
    intro hnone
    refine h (Table.find_eq_none_iff.mpr ?_)
    rw [← Table.findIndex_congr hk]
    exact Table.find_eq_none_iff.mp hnone
  | capRevoke | setPluginLevel | setResourceLevel | tick | rotateKey => trivial

/-- the request and its pair panic, succeed with related states, or fail -/
inductive Simulated (registered : List PluginId) (core : KernelStateCore) (s : State)
    (req : KernelRequest) : Prop
  | panic (hcore : kernelDispatch core req = none) (hfull : Kernel.paired s req = none)
  | ok {core' : KernelStateCore} {s' : State} (hcore : kernelDispatch core req = some (.ok core'))
      (hfull : Kernel.paired s req = some (.ok (), s')) (next : Sim registered core' s')
  | error {e : KernelError} {e' : Error} (hcore : kernelDispatch core req = some (.error e))
      (hfull : Kernel.paired s req = some (.error e', s))

section
variable {registered : List PluginId} {core : KernelStateCore} {s : State}

theorem Sim.capDelegate (h : Sim registered core s) (cap : Capability) {target : PluginId}
    (ht : s.getPlugin target ≠ none) : Simulated registered core s (.capDelegate cap target) := by
  have hr := h.agree.revocation
  rcases insertCapRaw_cases s cap target with ⟨hin, e⟩ | ⟨hnot, r, hins, e⟩
  · have hcore : dispatchCapDelegate core cap target = .error (.capIdCollision cap.id) := by
      unfold dispatchCapDelegate
      rw [hr, if_pos hin]
    exact .error (congrArg some hcore) (congrArg some e)
  · let mid : KernelStateCore := { core with revocation := r }
    have hmid : mid.Sorted := ⟨h.sorted.plugins, h.sorted.resources, h.sorted.held⟩
    have hcore : dispatchCapDelegate core cap target =
        .ok (mid.setPluginMeta target ((mid.getPluginMeta target).grantCap cap.id)) := by
      unfold dispatchCapDelegate
      rw [hr, hnot, hins]
      rfl
    refine .ok (congrArg some hcore) (congrArg some e) ⟨⟨rfl, h.agree.keyState, h.agree.now, ?_⟩,
      hmid.setPluginMeta _ _, ?_, ?_⟩
    · intro p x
      rw [KernelStateCore.pluginHolds_grant hmid,
        State.pluginHolds_grant_registered (s := s.withRevocation r) h.held ht]
      have hold : mid.pluginHolds p x = (s.withRevocation r).pluginHolds p x := h.agree.holds p x
      rw [hold]
    · intro p l hl
      rw [held_grant] at hl
      split at hl
      · obtain ⟨l₀, hl₀, rfl⟩ := Option.map_eq_some_iff.mp hl
        exact (h.held p l₀ hl₀).insertKey _
      · exact h.held p l hl
    · exact (State.keys_updatePlugin (s := s.withRevocation r) target _).trans h.plugins

theorem Sim.capRevoke (h : Sim registered core s) (c : CapId) :
    Simulated registered core s (.capRevoke c) := by
  have hr := h.agree.revocation
  rcases revokeCap_cases s c with ⟨err, hrev, e⟩ | ⟨r, hrev, e⟩
  · have hcore : dispatchCapRevoke core c = .error err := by
      unfold dispatchCapRevoke
      rw [hr, hrev]
    exact .error (congrArg some hcore) (congrArg some e)
  · have hcore : dispatchCapRevoke core c = .ok { core with revocation := r } := by
      unfold dispatchCapRevoke
      rw [hr, hrev]
    exact .ok (congrArg some hcore) (congrArg some e)
      ⟨⟨rfl, h.agree.keyState, h.agree.now, h.agree.holds⟩,
        ⟨h.sorted.plugins, h.sorted.resources, h.sorted.held⟩, h.held, h.plugins⟩

theorem Sim.setPluginLevel (h : Sim registered core s) (pid : PluginId) (level : SecurityLevel) :
    Simulated registered core s (.setPluginLevel pid level) :=
  .ok rfl rfl
    ⟨⟨h.agree.revocation, h.agree.keyState, h.agree.now, fun p x =>
        (KernelStateCore.pluginHolds_setLevel h.sorted pid p level x).trans (h.agree.holds p x)⟩,
      h.sorted.setPluginMeta _ _, h.held, h.plugins⟩

theorem Sim.setResourceLevel (h : Sim registered core s) (rid : ResourceId)
    (level : SecurityLevel) : Simulated registered core s (.setResourceLevel rid level) :=
  .ok rfl rfl
    ⟨⟨h.agree.revocation, h.agree.keyState, h.agree.now, h.agree.holds⟩,
      ⟨h.sorted.plugins, h.sorted.resources.put rid _, h.sorted.held⟩, h.held, h.plugins⟩

theorem Sim.tick (h : Sim registered core s) : Simulated registered core s .tick := by
  have hn := h.agree.now
  cases hc : checkedAdd64 s.kernel.now 1 with
  | none =>
    have hcore : dispatchTick core = .error (.counterOverflow "time") := by
      unfold dispatchTick
      rw [hn, hc]
    have hfull : Kernel.tick s = (.error (.state (.counterOverflow "time")), s) := by
      unfold Kernel.tick State.tick KernelState.tickChecked
      rw [hc]
      rfl
    exact .error (congrArg some hcore) (congrArg some hfull)
  | some now =>
    have hcore : dispatchTick core = .ok { core with now } := by
      unfold dispatchTick
      rw [hn, hc]
    have hfull : Kernel.tick s = (.ok (), { s with kernel := { s.kernel with now } }) := by
      unfold Kernel.tick State.tick KernelState.tickChecked
      rw [hc]
      rfl
    exact .ok (congrArg some hcore) (congrArg some hfull)
      ⟨⟨h.agree.revocation, h.agree.keyState, rfl, h.agree.holds⟩,
        ⟨h.sorted.plugins, h.sorted.resources, h.sorted.held⟩, h.held, h.plugins⟩

theorem Sim.rotateKey (h : Sim registered core s) (newKey : Key) :
    Simulated registered core s (.rotateKey newKey) := by
  have hk := h.agree.keyState
  rcases hrot : s.kernel.keyState.rotate newKey with ⟨_ | _, keyState⟩
  · have hcore : dispatchRotateKey core newKey = none := by
      unfold dispatchRotateKey
      rw [hk, hrot]
    have hfull : Kernel.paired s (.rotateKey newKey) = none := by
      simp only [Kernel.paired, KernelState.rotateKey, hrot]
    exact .panic (congrArg (Option.map _) hcore) hfull
  · have hcore : dispatchRotateKey core newKey = some { core with keyState } := by
      unfold dispatchRotateKey
      rw [hk, hrot]
    have hfull : Kernel.paired s (.rotateKey newKey) =
        some (.ok (), { s with kernel := { s.kernel with keyState } }) := by
      simp only [Kernel.paired, KernelState.rotateKey, hrot]
    exact .ok (congrArg (Option.map _) hcore) hfull
      ⟨⟨h.agree.revocation, rfl, h.agree.now, h.agree.holds⟩,
        ⟨h.sorted.plugins, h.sorted.resources, h.sorted.held⟩, h.held, h.plugins⟩

/-- **One request is simulated by its pair, and the other way round.** -/
theorem Sim.simulated (h : Sim registered core s) {req : KernelRequest} (ht : req.TargetIn s) :
    Simulated registered core s req := by
  cases req with
  | capDelegate newCap target => exact h.capDelegate newCap ht
  | capRevoke capId => exact h.capRevoke capId
  | setPluginLevel pluginId level => exact h.setPluginLevel pluginId level
  | setResourceLevel resourceId level => exact h.setResourceLevel resourceId level
  | tick => exact h.tick
  | rotateKey newKey => exact h.rotateKey newKey

theorem Simulated.sameOutcome {req : KernelRequest} (h : Simulated registered core s req) :
    SameOutcome core s req := by
  cases h with
  | panic hcore hfull => exact Or.inl ⟨hcore, hfull⟩
  | ok hcore hfull _ => exact Or.inr (Or.inl ⟨_, _, hcore, hfull⟩)
  | error hcore hfull => exact Or.inr (Or.inr ⟨_, _, hcore, hfull⟩)

theorem Sim.next (h : Sim registered core s) {req : KernelRequest} (ht : req.TargetIn s) :
    (core.next req = none ∧ s.next req = none) ∨
      ∃ core' s', core.next req = some core' ∧ s.next req = some s' ∧
        Sim registered core' s' := by
  unfold KernelStateCore.next State.next
  cases h.simulated ht with
  | panic hcore hfull =>
    rw [hcore, hfull]
    exact Or.inl ⟨rfl, rfl⟩
  | ok hcore hfull next =>
    rw [hcore, hfull]
    exact Or.inr ⟨_, _, rfl, rfl, next⟩
  | error hcore hfull =>
    rw [hcore, hfull]
    exact Or.inr ⟨_, _, rfl, rfl, h⟩

end

/-! ## runs -/

theorem SameStart.sim {key : Key} {core : KernelStateCore} {s : State}
    (h : SameStart key core s) : Sim s.plugins.keys core s := by
  have hheld : ∀ p l, s.held p = some l → l = [] := by
    intro p l hl
    obtain ⟨ps, hps, rfl⟩ := Option.map_eq_some_iff.mp hl
    exact h.held p ps hps
  refine ⟨⟨?_, ?_, ?_, ?_⟩, ⟨h.corePlugins, ?_, ?_⟩, ?_, rfl⟩
  · rw [h.coreTable, h.table]
  · rw [h.coreKeys, h.keys]
  · rw [h.coreNow, h.now]
  · intro p c
    have hcore : core.pluginHolds p c = false := by
      unfold KernelStateCore.pluginHolds
      cases hm : core.pluginMetas.find p with
      | none => rfl
      | some m =>
        show has m.heldCaps c = false
        rw [h.coreHeld p m hm]
        rfl
    have hfull : s.pluginHolds p c = false := by
      apply Bool.eq_false_iff.mpr
      intro ht
      obtain ⟨l, hl, hin⟩ := (pluginHolds_iff s p c).mp ht
      rw [hheld p l hl] at hin
      cases hin
    rw [hcore, hfull]
  · rw [h.coreResources]
    exact List.Pairwise.nil
  · intro p m hm
    rw [h.coreHeld p m hm]
    exact List.Pairwise.nil
  · intro p l hl
    rw [hheld p l hl]
    exact List.Pairwise.nil

/-- **The core and the full kernel agree.**  From a common start, any requests that delegate to
registered plugins lead both sides to related states, in which the next request succeeds, fails
or panics on both sides; a panic ends both runs. -/
theorem core_simulates {key : Key} {core : KernelStateCore} {s : State}
    (start : SameStart key core s) (reqs : List KernelRequest)
    (targets : ∀ req ∈ reqs, req.TargetIn s) :
    (runOpt KernelStateCore.next core reqs = none ∧ runOpt State.next s reqs = none) ∨
    ∃ core' s', runOpt KernelStateCore.next core reqs = some core' ∧
      runOpt State.next s reqs = some s' ∧ Agree core' s' ∧ core'.Sorted ∧
      ∀ req, req.TargetIn s → SameOutcome core' s' req := by
  refine (runOpt_relates (R := Sim s.plugins.keys) (fun _ _ req hsim ht => ?_) reqs targets
    start.sim).imp_right ?_
  · exact hsim.next (KernelRequest.TargetIn.of_keys ht hsim.plugins)
  rintro ⟨core', s', hcore, hfull, hsim⟩
  exact ⟨core', s', hcore, hfull, hsim.agree, hsim.sorted,
    fun req ht => (hsim.simulated (ht.of_keys hsim.plugins)).sameOutcome⟩

/-! ## a common start -/

def sampleCore : KernelStateCore := (KernelStateCore.empty .empty).setPluginMeta 1 .empty

def sampleFull : State := (Kernel.registerPlugin (.initial .empty .denyAll) 1 .Public 0).2

theorem sample_sameStart : SameStart .empty sampleCore sampleFull where
  coreKeys := rfl
  keys := rfl
  coreTable := rfl
  table := rfl
  coreNow := rfl
  now := rfl
  corePlugins := List.pairwise_singleton _ _
  coreResources := rfl
  coreHeld p m h := by
    cases List.mem_singleton.mp (Table.mem_of_find h)
    rfl
  held p ps h := by
    cases List.mem_singleton.mp (Table.mem_of_find h)
    rfl

/-- the root is delegated twice and revoked, then the keys and the clock move on -/
def sampleRequests : List KernelRequest :=
  [.capDelegate sampleRoot 1, .capDelegate sampleRoot 1, .capRevoke 100, .capRevoke 7,
    .rotateKey .empty, .tick]

theorem core_simulates_sample :
    ∃ core s, runOpt KernelStateCore.next sampleCore sampleRequests = some core ∧
      runOpt State.next sampleFull sampleRequests = some s ∧ Agree core s := by
  rcases core_simulates sample_sameStart sampleRequests (by decide) with h | h
  · exact absurd h.1 (by decide)
  · obtain ⟨core, s, hcore, hfull, hagree, _⟩ := h
    exact ⟨core, s, hcore, hfull, hagree⟩

end LionCore
