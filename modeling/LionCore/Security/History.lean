import LionCore.Base.Total
import LionCore.Security.Permanence
import LionCore.Security.Quotas
import LionCore.Spec.Correspondence
import LionCore.Step.Verdict

/-!
# Records are what their histories say

Three logs of a run, each read off the calls and their answers.

* `PluginEvent`, `StateOp.events`   what is written into the record of a plugin;
* `plugin_history`    **main result**: the record is the first one with these events, and no more;
* `Call.revoked`      the ids that are revoked;
* `entry_history`     **main result**: an entry is the first one, off if one of these ids is above;
* `revocation_batch`  **main result**: any order of revocations turns the union of the cones off.
-/

namespace LionCore
open Base RevocationState

/-! ## plugins -/

/-- what can be written into the record of a plugin -/
inductive PluginEvent
  | granted (c : CapId)
  | charged (size : Size)
  | lowered (l : SecurityLevel)
  deriving DecidableEq

namespace PluginEvent

def handle : PluginEvent → Option CapId
  | granted c => some c
  | _ => none

def size : PluginEvent → Option Size
  | charged size => some size
  | _ => none

def level : PluginEvent → Option SecurityLevel
  | lowered l => some l
  | _ => none

end PluginEvent

/-- the record `q` after the events: the last level, all the sizes, all the handles -/
def PluginState.after (q : PluginState) (es : List PluginEvent) : PluginState :=
  { q with
    level := (es.filterMap (·.level)).getLastD q.level
    heldCaps := (es.filterMap (·.handle)).foldl insertKey q.heldCaps
    memoryUsed := q.memoryUsed + (es.filterMap (·.size)).sum }

/-- the event of a step in the record of `pid`, if the step is executed -/
def Step.events (pid : PluginId) : Step → List PluginEvent
  | .hostCall hc _ _ =>
    if hc.caller = pid then
      match hc.function with
      | .kernelAlloc => [.charged hc.firstOrZero]
      | .declassify => (SecurityLevel.fromU8 hc.firstOrZero).toList.map .lowered
      | _ => []
    else []
  | _ => []

/-- the step that an operation attempts, and the path -/
def StateOp.attempts : StateOp → Option (Path × Step)
  | .call (.execute t) => some (.cloning, t)
  | .call (.executeMut t) => some (.inPlace, t)
  | _ => none

/-- the events of an operation in the record of `pid`: a grant, or those of an accepted step -/
def StateOp.events (hmac : Hmac) (pid : PluginId) (s : State) (op : StateOp) : List PluginEvent :=
  match op.delegates hmac s with
  | some (target, c) => if target = pid then [.granted c] else []
  | none =>
    match op.attempts with
    | some a => if answer s a = .ok () then a.2.events pid else []
    | none => []

theorem PluginState.after_append (q : PluginState) (es fs : List PluginEvent) :
    q.after (es ++ fs) = (q.after es).after fs := by
  unfold after
  simp only [List.filterMap_append, List.foldl_append, List.sum_append, ← Nat.add_assoc]
  congr 1
  cases h : fs.filterMap (·.level) with
  | nil => simp
  | cons l ls => simp [List.getLastD_eq_getLast?, List.getLast?_append]

/-- the levels of the events go down from `l` -/
def Descending (l : SecurityLevel) (es : List PluginEvent) : Prop :=
  (l :: es.filterMap (·.level)).IsChain (· ≥ ·)

theorem Descending.append {q : PluginState} {es fs : List PluginEvent}
    (hes : Descending q.level es) (hfs : Descending (q.after es).level fs) :
    Descending q.level (es ++ fs) := by
  unfold Descending at *
  rw [List.isChain_cons] at hfs
  rw [List.filterMap_append, ← List.cons_append, List.isChain_append]
  refine ⟨hes, hfs.2, fun a ha b hb => ?_⟩
  have e : (q.after es).level = a := by
    rw [List.getLast?_cons] at ha
    exact (List.getLastD_eq_getLast? ..).trans (Option.mem_some_iff.mp ha)
  exact e ▸ hfs.1 b hb

/-- what the events `es` do to the record of `pid` between two states -/
def Recorded (pid : PluginId) (es : List PluginEvent) (s s' : State) : Prop :=
  ∀ q, s.getPlugin pid = some q →
    s'.getPlugin pid = some (q.after es) ∧ Descending q.level es

theorem Recorded.nil {pid : PluginId} {s s' : State} (h : s'.getPlugin pid = s.getPlugin pid) :
    Recorded pid [] s s' := by
  intro q hq
  exact ⟨h.trans hq, List.isChain_singleton _⟩

theorem Recorded.append {pid : PluginId} {es fs : List PluginEvent} {s t u : State}
    (hes : Recorded pid es s t) (hfs : Recorded pid fs t u) : Recorded pid (es ++ fs) s u := by
  intro q hq
  obtain ⟨ht, hdown⟩ := hes q hq
  obtain ⟨hu, hdown'⟩ := hfs _ ht
  rw [PluginState.after_append]
  exact ⟨hu, hdown.append hdown'⟩

/-- a change of the plugin `target` -/
theorem Recorded.updatePlugin {pid target : PluginId} {es : List PluginEvent} {s : State}
    {f : PluginState → PluginState}
    (h : ∀ q, s.getPlugin target = some q → f q = q.after es ∧ Descending q.level es) :
    Recorded pid (if target = pid then es else []) s (s.updatePlugin target f) := by
  by_cases ht : target = pid
  · subst ht
    rw [if_pos rfl]
    intro q hq
    obtain ⟨he, hdown⟩ := h q hq
    rw [State.getPlugin_updatePlugin, if_pos rfl, hq, ← he]
    exact ⟨rfl, hdown⟩
  · rw [if_neg ht]
    apply Recorded.nil
    rw [State.getPlugin_updatePlugin, if_neg (Ne.symm ht)]

theorem Recorded.granted (pid target : PluginId) (c : CapId) (s : State) :
    Recorded pid (if target = pid then [.granted c] else []) s
      (s.updatePlugin target (·.grantCapMut c)) :=
  .updatePlugin fun _ _ => ⟨rfl, List.isChain_singleton _⟩

/-- a host call of another kind has no event -/
theorem Step.events_hostCall {pid : PluginId} {hc : HostCall} {auth : Authorized}
    {res : HostResult} (ha : hc.function ≠ .kernelAlloc) (hd : hc.function ≠ .declassify) :
    (Step.hostCall hc auth res).events pid = [] := by
  show (if hc.caller = pid then _ else []) = []
  cases hf : hc.function <;> simp_all

theorem Effect.recorded {p : Path} {s s' : State} {t : Step} (h : Effect p s t s')
    (pid : PluginId) : Recorded pid (t.events pid) s s' := by
  cases h with
  | @compute q pi _ =>
    apply Recorded.nil
    obtain ⟨actors, e⟩ := pi.consume_frame s q
    rw [e]
    rfl
  | @use hc auth res _ hck =>
    rw [Step.events_hostCall]
    · exact .nil rfl
    · rcases hck with ⟨hf, _⟩ | ⟨hf, _⟩ <;> simp [hf]
    · rcases hck with ⟨hf, _⟩ | ⟨hf, _⟩ <;> simp [hf]
  | @alloc hc auth res _ hf hck =>
    have e : (Step.hostCall hc auth res).events pid =
        if hc.caller = pid then [.charged hc.firstOrZero] else [] := by
      simp only [Step.events, hf]
    rw [e]
    apply Recorded.updatePlugin
    intro q hq
    refine ⟨?_, List.isChain_singleton _⟩
    rw [PluginState.charge_of_canAlloc (canAlloc_of_check hck hq)]
    rfl
  | @declassify hc auth res l _ hf hck =>
    obtain ⟨hl, q', hq', hle⟩ := (checkDeclassify_ok_iff s hc l).mp hck
    have e : (Step.hostCall hc auth res).events pid =
        if hc.caller = pid then [.lowered l] else [] := by
      simp only [Step.events, hf, hl, Option.toList_some, List.map_cons, List.map_nil]
    rw [e]
    apply Recorded.updatePlugin
    intro q hq
    obtain rfl := Option.some.inj (hq'.symm.trans hq)
    exact ⟨rfl, List.isChain_pair.mpr hle⟩
  | free _ ht _ _ =>
    rcases Step.frees_cases ht with ⟨_, rfl⟩ | ⟨hc, auth, res, rfl, hf, _⟩
    · exact .nil rfl
    · rw [Step.events_hostCall (by simp [hf]) (by simp [hf])]
      exact .nil rfl
  | revoke _ ht _ _ =>
    rcases Step.revokes_cases ht with ⟨_, rfl⟩ | ⟨hc, auth, res, rfl, hf, _⟩
    · exact .nil rfl
    · rw [Step.events_hostCall (by simp [hf]) (by simp [hf])]
      exact .nil rfl
  | route | workflow | tick | unblock => exact .nil rfl

theorem attempt_recorded (s : State) (a : Path × Step) (pid : PluginId) :
    Recorded pid (if answer s a = .ok () then a.2.events pid else []) s (attempt s a) := by
  by_cases h : answer s a = .ok ()
  · rw [if_pos h]
    obtain ⟨s', hex⟩ := (answer_ok_iff s a.1 a.2).mp h
    have e : attempt s a = s' := Exec.attempt hex
    rw [e]
    exact (Exec.effect hex).recorded pid
  · rw [if_neg h]
    have e : attempt s a = s := attempt_of_refused h
    exact .nil (by rw [e])

theorem StateOp.exec_of_attempts (hmac : Hmac) (s : State) {op : StateOp} {a : Path × Step}
    (h : op.attempts = some a) : op.delegates hmac s = none ∧ op.exec hmac s = attempt s a := by
  cases op with
  | call cl =>
    cases cl with
    | execute t =>
      cases h
      refine ⟨rfl, ?_⟩
      show (Kernel.execute s t).2 = attempt s (.cloning, t)
      unfold Kernel.execute LionCore.attempt
      cases t.execute s <;> rfl
    | executeMut t =>
      cases h
      exact ⟨rfl, rfl⟩
    | _ => cases h
  | _ => cases h

/-- no plugin that is there is changed by an operation that attempts no step -/
theorem StateOp.kept (hmac : Hmac) {s : State} (hs : s.plugins.Sorted) {op : StateOp}
    (hd : ¬ op.Delegating) (ha : op.attempts = none) :
    op.delegates hmac s = none ∧ ∀ pid, Recorded pid [] s (op.exec hmac s) := by
  cases op with
  | call cl =>
    have h := cl.leaves hmac s
    have same : ∀ s' : State, s'.plugins = s.plugins → ∀ pid, Recorded pid [] s s' := by
      intro s' e pid
      apply Recorded.nil
      unfold State.getPlugin
      rw [e]
    constructor
    · cases cl with
      | insertCapRaw _ _ | delegateCap _ _ _ => exact absurd trivial hd
      | _ => rfl
    show ∀ pid, Recorded pid [] s (cl.exec hmac s)
    generalize cl.exec hmac s = s' at h
    cases h with
    | @plugin _ id ps plugins _ h =>
      intro pid q hq
      have hne : pid ≠ id := by
        rintro rfl
        cases hq.symm.trans (Table.find_add_old h)
      have hfind : plugins.find pid = some q := by
        rw [Table.find_add hs h, if_neg hne]
        exact hq
      exact ⟨hfind, List.isChain_singleton _⟩
    | raw _ | delegation _ => exact absurd trivial hd
    | execute | executeMut => cases ha
    | same | actor | resource | workflow | revoke | alloc | free | tick => exact same _ rfl
  | applyCapDelegate _ _ => exact absurd trivial hd
  | applyRevoke _ | applyCapRevoke _ | applyAlloc _ _ => exact ⟨rfl, fun _ => .nil rfl⟩
  | applyFree addr =>
    refine ⟨rfl, fun _ => .nil ?_⟩
    show ((s.applyFree addr).toOption.getD s).getPlugin _ = _
    unfold State.applyFree
    cases s.kernel.revocation.anyValidTargeting addr <;> rfl

/-- **An operation writes its events into the record of a plugin, and nothing else.** -/
theorem StateOp.recorded (hmac : Hmac) {s : State} (hs : s.plugins.Sorted) (op : StateOp)
    (pid : PluginId) : Recorded pid (op.events hmac pid s) s (op.exec hmac s) := by
  by_cases hdel : op.Delegating
  · have ha : op.attempts = none := by
      cases op with
      | call cl => cases cl <;> first | rfl | exact hdel.elim
      | _ => rfl
    unfold events
    rcases op.delegating_cases hmac s hdel with ⟨hd, n, e⟩ | ⟨target, cap, k, hd, _, e⟩
    · rw [e, hd, ha]
      exact .nil rfl
    · rw [e, hd]
      exact .granted pid target cap.id { s with kernel := k }
  · cases ha : op.attempts with
    | none =>
      obtain ⟨hd, h⟩ := kept hmac hs hdel ha
      unfold events
      rw [hd, ha]
      exact h pid
    | some a =>
      obtain ⟨hd, e⟩ := exec_of_attempts hmac s ha
      unfold events
      rw [hd, ha, e]
      exact attempt_recorded s a pid

/-- **Main result**: let operations have led from a new kernel to a state in which `pid` is
registered, and let more of them follow.  The record of the plugin is then the one that it was, with
the events of the second run: the level is the last one that an accepted declassification of its own
has named, each lower than or equal to the one before; the memory in use has grown by the sizes of
its own accepted allocations; its handles are those it had and those that were granted; and nothing
else has changed. -/
theorem plugin_history (hmac : Hmac) (key : Key) (policy : PolicyState)
    (before ops : List StateOp) {pid : PluginId} {q : PluginState}
    (hq : (run (StateOp.exec hmac) (.initial key policy) before).getPlugin pid = some q) :
    let s := run (StateOp.exec hmac) (.initial key policy) before
    let es := outputs (StateOp.exec hmac) (StateOp.events hmac pid) s ops
    (run (StateOp.exec hmac) s ops).getPlugin pid = some (q.after es) ∧
      Descending q.level es := by
  intro s es
  have hs : s.plugins.Sorted :=
    run_invariant (P := fun s : State => s.plugins.Sorted)
      (fun s op h => (op.pluginStep hmac s).sorted h) before List.Pairwise.nil
  let events := StateOp.events hmac pid
  have h := @run_outputs _ _ _ (StateOp.exec hmac) events events
    (fun es _ s t => s.plugins.Sorted → t.plugins.Sorted ∧ Recorded pid es s t)
    (fun s hs => ⟨hs, .nil rfl⟩)
    (fun hst htu hs => ⟨(htu (hst hs).1).1, (hst hs).2.append (htu (hst hs).1).2⟩)
    (fun s op hs => ⟨(op.pluginStep hmac s).sorted hs, op.recorded hmac hs pid⟩) s ops hs
  exact h.2 q hq

/-- a root with every right on the resource 0 -/
def sampleOwner : Capability := { sampleRoot with rights := .fromBits allRightsMask }

/-- plugin 1 is granted the root, allocates 8 bytes and lowers its level -/
def sampleHistory : List StateOp :=
  [.call (.insertCapRaw sampleOwner 1),
    .call (.execute (.hostCall ⟨1, .kernelAlloc, [8], [], []⟩
      ⟨sampleOwner, ⟨1, 0, .singleton .create, "kernel_alloc"⟩, ⟨0, none⟩⟩ .empty)),
    .call (.executeMut (.hostCall ⟨1, .declassify, [0], [], []⟩
      ⟨sampleOwner, ⟨1, 0, .singleton .declassify, "declassify"⟩, ⟨0, none⟩⟩ .empty))]

theorem plugin_history_sample :
    let s := run (StateOp.exec sampleMac) (.initial .empty .permitAll)
      [.call (.alloc 1 8), .call (.registerPlugin 1 .Secret 8)]
    let es : List PluginEvent := [.granted 100, .charged 8, .lowered .Public]
    outputs (StateOp.exec sampleMac) (StateOp.events sampleMac 1) s sampleHistory = es ∧
      (run (StateOp.exec sampleMac) s sampleHistory).getPlugin 1 =
        some ((PluginState.empty .Secret 8).after es) ∧ Descending .Secret es := by
  intro s es
  have hes : outputs (StateOp.exec sampleMac) (StateOp.events sampleMac 1) s sampleHistory = es :=
    by decide
  have hq : s.getPlugin 1 = some (PluginState.empty .Secret 8) := by decide
  have h := plugin_history sampleMac .empty .permitAll
    [.call (.alloc 1 8), .call (.registerPlugin 1 .Secret 8)] sampleHistory hq
  exact ⟨hes, hes ▸ h⟩

/-! ## entries -/

/-- `k` is the entry `c` or below it -/
def RevocationState.Under (r : RevocationState) (c k : CapId) : Prop :=
  k = c ∨ Above r.parentOf c k

/-- the id that a call revokes, if it goes through -/
def Call.revoked (s : State) : Call → List CapId
  | .revokeCap c =>
    match (Kernel.revokeCap s c).1 with
    | .ok () => [c]
    | .error _ => []
  | .execute t => if answer s (.cloning, t) = .ok () then t.revokes.toList else []
  | .executeMut t => if answer s (.inPlace, t) = .ok () then t.revokes.toList else []
  | _ => []

/-- what becomes of a table when the ids `cs` are revoked -/
inductive Revoked (r : RevocationState) : List CapId → RevocationState → Prop
  | same : Revoked r [] r
  | inserted {cap : Capability} {r' : RevocationState} (h : r.Inserted cap r') : Revoked r [] r'
  | cut {c : CapId} (hc : r.get c ≠ none) : Revoked r [c] (r.revokeTransitive c)

theorem Effect.revoked_table {p : Path} {s s' : State} {t : Step}
    (hr : s.kernel.revocation.DocumentedInvariants) (h : Effect p s t s') :
    Revoked s.kernel.revocation t.revokes.toList s'.kernel.revocation := by
  cases ht : t.revokes with
  | none =>
    rw [(h.frame hr.sorted).caps ht]
    exact .same
  | some c =>
    cases h with
    | revoke _ ht' hck hrev =>
      obtain rfl := Option.some.inj (ht'.symm.trans ht)
      have hc := (checkRevoke_ok_iff s _).mp hck
      have e := hr.revokes_eq hc hrev
      show Revoked _ _ (s.withRevocation _).kernel.revocation
      rw [e]
      exact .cut hc
    | use _ hck =>
      obtain ⟨_, e⟩ | ⟨hc, auth, res, e, hf, _⟩ := Step.revokes_cases ht
      · cases e
      · cases e
        rw [hf] at hck
        simp at hck
    | alloc _ hf _ =>
      simp [Step.revokes, hf] at ht
    | declassify _ hf _ =>
      simp [Step.revokes, hf] at ht
    | free _ hfree _ _ =>
      rcases Step.frees_cases hfree with ⟨_, rfl⟩ | ⟨hc, auth, res, rfl, hf, _⟩
      · cases ht
      · simp [Step.revokes, hf] at ht
    | compute | route | workflow | tick | unblock => cases ht

theorem attempt_revoked {s : State} (hr : s.kernel.revocation.DocumentedInvariants)
    (a : Path × Step) :
    Revoked s.kernel.revocation (if answer s a = .ok () then a.2.revokes.toList else [])
      (attempt s a).kernel.revocation := by
  by_cases h : answer s a = .ok ()
  · rw [if_pos h]
    obtain ⟨s', hex⟩ := (answer_ok_iff s a.1 a.2).mp h
    have e : attempt s a = s' := Exec.attempt hex
    rw [e]
    exact (Exec.effect hex).revoked_table hr
  · rw [if_neg h]
    have e : attempt s a = s := attempt_of_refused h
    rw [e]
    exact .same

theorem TableStep.revoked {s : State} {cl : Call} {r : RevocationState} (h : TableStep s cl r)
    (hc : cl.revokes = none) : Revoked s.kernel.revocation [] r := by
  cases h with
  | same => exact .same
  | raw h | child _ h => exact .inserted (inserted_of_insertMut h)
  | revoke _ hc' _ _ => cases hc'.symm.trans hc

theorem Call.revoked_table (hmac : Hmac) {s : State}
    (hr : s.kernel.revocation.DocumentedInvariants) (cl : Call) :
    Revoked s.kernel.revocation (cl.revoked s) (cl.exec hmac s).kernel.revocation := by
  cases cl with
  | revokeCap c =>
    simp only [Call.revoked, Call.exec, Kernel.revokeCap]
    by_cases hc : s.kernel.revocation.get c = none
    · unfold State.applyCapRevokeMut revokeTransitiveFastMut
      rw [Table.find_eq_none_iff.mp hc]
      exact .same
    · obtain ⟨r, hrev, h⟩ := applyCapRevokeMut_of_check ((checkRevoke_ok_iff s c).mpr hc)
      have e : r = s.kernel.revocation.revokeTransitive c :=
        hr.revokes_eq (p := .inPlace) hc hrev
      rw [h, e]
      exact .cut hc
  | execute t =>
    have ha : (StateOp.call (.execute t)).attempts = some (.cloning, t) := rfl
    have e : (Call.execute t).exec hmac s = attempt s (.cloning, t) :=
      (StateOp.exec_of_attempts hmac s ha).2
    rw [e]
    exact attempt_revoked hr (.cloning, t)
  | executeMut t => exact attempt_revoked hr (.inPlace, t)
  | _ => exact (Call.tableStep hmac s _).revoked rfl

/-! ### below an id -/

theorem inRevokeSet_iff_under {r : RevocationState} (hr : r.DocumentedInvariants) (c k : CapId) :
    r.inRevokeSet k c = true ↔ r.Under c k := by
  rw [inRevokeSet_iff, hr.hasAncestor_iff_above]
  rfl

theorem under_cutBy {r r' : RevocationState} {S : CapId → Prop} (h : r.CutBy S r') (c k : CapId) :
    r'.Under c k ↔ r.Under c k := by
  unfold RevocationState.Under
  rw [h.parentOf]

/-- an entry that comes in is not above a valid one -/
theorem under_inserted {r r' : RevocationState} {cap : Capability} (h : r.Inserted cap r')
    (hs : r.caps.Sorted) (hp : r.ParentsValid) {c k : CapId} (hk : r.isValid k = true) :
    r'.Under c k ↔ r.Under c k := by
  have hsame : ∀ q, r.isValid q = true → r'.parentOf q = r.parentOf q := by
    intro q hq
    rw [h.parentOf hs, if_neg]
    rintro rfl
    obtain ⟨_, hget, _⟩ := isValid_iff.mp hq
    cases h.fresh.symm.trans hget
  have hsub : ∀ par par' : CapId → Option CapId, (∀ q, r.isValid q = true → par q = par' q) →
      (∀ q p, r.isValid q = true → par q = some p → r.isValid p = true) →
      Above par c k → Above par' c k := by
    intro par par' he hstep ha
    induction ha using Relation.TransGen.head_induction_on with
    | single hq => exact Above.parent ((he _ hk).symm.trans hq)
    | head hq _ ih => exact Above.step ((he _ hk).symm.trans hq) (ih (hstep _ _ hk hq))
  unfold RevocationState.Under
  apply or_congr Iff.rfl
  constructor
  · apply hsub _ _ hsame
    intro q p hq hpar
    exact hp q p hq ((hsame q hq).symm.trans hpar)
  · exact hsub _ _ (fun q hq => (hsame q hq).symm) hp

/-! ### runs -/

/-- `cap'` is what has become of the entry `cap` at `k`, now that the ids `cs` are revoked -/
structure Fate (r : RevocationState) (cs : List CapId) (k : CapId) (cap cap' : Capability) :
    Prop where
  fields : cap' = { cap with valid := cap'.valid }
  valid : cap'.valid = true ↔ cap.valid = true ∧ ∀ c ∈ cs, ¬ r.Under c k

theorem Fate.nil (r : RevocationState) (k : CapId) (cap : Capability) : Fate r [] k cap cap where
  fields := rfl
  valid := by simp

/-- what is revoked later is below the same ids as it was before -/
theorem Fate.append {r r' : RevocationState} {cs ds : List CapId} {k : CapId}
    {cap cap' cap'' : Capability} (h : Fate r cs k cap cap') (h' : Fate r' ds k cap' cap'')
    (hunder : cap.valid = true → ∀ c, r'.Under c k ↔ r.Under c k) :
    Fate r (cs ++ ds) k cap cap'' where
  fields := by
    rw [h'.fields, h.fields]
  valid := by
    rw [h'.valid, h.valid, and_assoc]
    apply and_congr_right
    intro hv
    have hds : (∀ c ∈ ds, ¬ r'.Under c k) ↔ ∀ c ∈ ds, ¬ r.Under c k :=
      forall₂_congr fun c _ => not_congr (hunder hv c)
    rw [hds, List.forall_mem_append]

theorem Revoked.fate {r r' : RevocationState} {cs : List CapId} (h : Revoked r cs r')
    (hr : r.DocumentedInvariants) (hp : r.ParentsValid) {k : CapId} {cap : Capability}
    (hk : r.get k = some cap) :
    (∃ cap', r'.get k = some cap' ∧ Fate r cs k cap cap') ∧
      (cap.valid = true → ∀ c, r'.Under c k ↔ r.Under c k) := by
  cases h with
  | same => exact ⟨⟨cap, hk, .nil r k cap⟩, fun _ _ => Iff.rfl⟩
  | inserted h =>
    refine ⟨⟨cap, h.old hr.sorted hk, .nil r k cap⟩, fun hv c => ?_⟩
    exact under_inserted h hr.sorted hp (isValid_iff.mpr ⟨cap, hk, hv⟩)
  | @cut c hc =>
    have hcut := cutBy_revokeTransitive r c
    have hin := inRevokeSet_iff_under hr c k
    refine ⟨?_, fun _ c' => under_cutBy hcut c' k⟩
    by_cases hu : r.Under c k
    · refine ⟨cap.revoke, hcut.inside k cap hk (hin.mpr hu), rfl, ?_⟩
      apply iff_of_false Bool.false_ne_true
      intro h
      exact h.2 c List.mem_cons_self hu
    · refine ⟨cap, hcut.outside k cap hk fun h => hu (hin.mp h), rfl, ?_⟩
      simp [hu]

theorem runCalls_fate (hmac : Hmac) {s : State} (hr : s.Ready) (cs : List Call)
    (hok : Along (Call.exec hmac) KeepsReady s cs) {k : CapId} {cap : Capability}
    (hk : s.getCap k = some cap) : ∃ cap', (runCalls hmac s cs).getCap k = some cap' ∧
      Fate s.kernel.revocation (outputs (Call.exec hmac) Call.revoked s cs) k cap cap' := by
  induction cs generalizing s cap with
  | nil => exact ⟨cap, hk, .nil _ k cap⟩
  | cons cl cs ih =>
    obtain ⟨⟨cap₁, hk₁, hfate⟩, hunder⟩ :=
      (cl.revoked_table hmac hr.table).fate hr.table hr.parents hk
    obtain ⟨cap', hk', hfate'⟩ := ih (cl.ready hmac hr hok.1) hok.2 hk₁
    exact ⟨cap', hk', hfate.append hfate' hunder⟩

/-- **Main result**: whatever calls have set up the table, if what comes in below an entry has the
larger id and a valid parent, then an entry of it is never removed or replaced, keeps every field
but its validity through all further calls, and is valid in the end exactly if it was before and
none of the ids that were revoked meanwhile is its own or one above it. -/
theorem entry_history (hmac : Hmac) (key : Key) (policy : PolicyState) (before cs : List Call)
    (hok : Along (Call.exec hmac) KeepsReady (.initial key policy) (before ++ cs)) :
    let s := runCalls hmac (.initial key policy) before
    ∀ k cap, s.getCap k = some cap → ∃ cap', (runCalls hmac s cs).getCap k = some cap' ∧
      Fate s.kernel.revocation (outputs (Call.exec hmac) Call.revoked s cs) k cap cap' := by
  intro s k cap hk
  obtain ⟨hbefore, hcs⟩ := (along_append before cs).mp hok
  exact runCalls_fate hmac (runCalls_ready hmac key policy before hbefore) cs hcs hk

theorem sampleLineage_under :
    (runCalls sampleMac (.initial .empty .permitAll) sampleLineage).kernel.revocation.Under 0 1 :=
  Or.inr (Above.parent (by decide))

/-- the root is revoked in place, and its child goes off with it -/
theorem entry_history_sample :
    let s := runCalls sampleMac (.initial .empty .permitAll) sampleLineage
    let cs : List Call := [.executeMut (.capRevoke 1 0), .tick]
    s.getCap 1 = some sampleChild ∧
      ∃ cap', (runCalls sampleMac s cs).getCap 1 = some cap' ∧ cap'.valid = false ∧
        Fate s.kernel.revocation [0] 1 sampleChild cap' := by
  intro s cs
  have hchild : s.getCap 1 = some sampleChild := by decide
  have hok : Along (Call.exec sampleMac) KeepsReady (.initial .empty .permitAll)
      (sampleLineage ++ cs) :=
    (along_append sampleLineage cs).mpr
      ⟨sampleLineage_ready, And.intro trivial (And.intro trivial trivial)⟩
  have hids : outputs (Call.exec sampleMac) Call.revoked s cs = [0] := by decide
  obtain ⟨cap', hcap', hfate⟩ := entry_history sampleMac .empty .permitAll sampleLineage cs hok
    1 sampleChild hchild
  rw [hids] at hfate
  refine ⟨hchild, cap', hcap', ?_, hfate⟩
  rw [Bool.eq_false_iff]
  intro hv
  exact (hfate.valid.mp hv).2 0 List.mem_cons_self sampleLineage_under

/-! ## revocations in any order -/

/-- an attempt to revoke: by a path, for a plugin, an id -/
def revocation (x : Path × PluginId × CapId) : Path × Step := (x.1, .capRevoke x.2.1 x.2.2)

theorem cut_cut (r : RevocationState) (S T : CapId → Bool) :
    (r.cut S).cut T = r.cut fun k => S k || T k := by
  have e : ∀ k (cap : Capability),
      (if T k then (if S k then cap.revoke else cap).revoke else if S k then cap.revoke else cap) =
        if S k || T k then cap.revoke else cap := by
    intro k cap
    cases S k <;> cases T k <;> rfl
  unfold RevocationState.cut
  simp only [Table.mapVal, List.map_map, Function.comp_def, e]

theorem inRevokeSet_cut (r : RevocationState) (S : CapId → Bool) (k c : CapId) :
    (r.cut S).inRevokeSet k c = r.inRevokeSet k c := by
  unfold RevocationState.inRevokeSet RevocationState.hasAncestor
  rw [hasAncestorWithFuel_eq_walk, hasAncestorWithFuel_eq_walk, (cutBy_cut r S).parentOf]

/-- below an id that is not in the table all is off -/
theorem revokeTransitive_absent {r : RevocationState} (hr : r.DocumentedInvariants)
    (hp : r.ParentsValid) {c : CapId} (hc : r.get c = none) : r.revokeTransitive c = r := by
  have hvalid : ∀ k, r.isValid k = true → ∀ a, Above r.parentOf a k → r.isValid a = true := by
    intro k hk a ha
    induction ha using Relation.TransGen.head_induction_on with
    | single h => exact hp _ _ hk h
    | head h _ ih => exact ih (hp _ _ hk h)
  have hself : r.caps.mapVal (fun k cap => if r.inRevokeSet k c then cap.revoke else cap) =
      r.caps := by
    apply Table.mapVal_eq_self
    intro k cap hmem
    have hk : r.get k = some cap := Table.find_of_mem hr.sorted hmem
    by_cases hv : cap.valid = true
    · apply if_neg
      rw [inRevokeSet_iff, hr.hasAncestor_iff_above]
      rintro (rfl | ha)
      · cases hc.symm.trans hk
      · have hin := hvalid k (isValid_iff.mpr ⟨cap, hk, hv⟩) c ha
        obtain ⟨_, hget, _⟩ := isValid_iff.mp hin
        cases hc.symm.trans hget
    · rw [Capability.revoke_of_invalid (Bool.eq_false_iff.mpr hv), ite_self]
  show RevocationState.mk _ _ _ = r
  rw [hself]

/-- by either path, and whether the id is in the table or not -/
theorem attempt_revocation {s : State} (hr : s.Ready) (x : Path × PluginId × CapId) :
    attempt s (revocation x) =
      s.withRevocation (s.kernel.revocation.cut fun k =>
        s.kernel.revocation.inRevokeSet k x.2.2) := by
  obtain ⟨p, caller, c⟩ := x
  show attempt s (p, .capRevoke caller c) =
    s.withRevocation (s.kernel.revocation.revokeTransitive c)
  by_cases hc : s.kernel.revocation.get c = none
  · rw [revokeTransitive_absent hr.table hr.parents hc]
    apply attempt_of_refused
    intro h
    rw [answer_eq] at h
    obtain ⟨hck, _⟩ := check_bind_ok_iff.mp h
    exact (checkRevoke_ok_iff s c).mp hck hc
  · have hck := (checkRevoke_ok_iff s c).mpr hc
    have hfast := hr.table.revokeTransitiveFastMut_eq hc
    rw [attempt_eq, if_pos]
    · show s.withRevocation (p.revoked s.kernel.revocation c) = _
      cases p with
      | cloning => rfl
      | inPlace => exact congrArg s.withRevocation (congrArg Prod.snd hfast)
    · apply check_bind_ok_iff.mpr
      refine ⟨hck, ?_⟩
      cases p with
      | cloning => rfl
      | inPlace => simp only [hfast, Except.mapError]

/-- the entries that are turned off by any of the ids -/
def RevocationState.turnedOff (r : RevocationState) (cs : List CapId) (k : CapId) : Bool :=
  cs.any (r.inRevokeSet k)

theorem turnedOff_cons (r : RevocationState) (c : CapId) (cs : List CapId) (k : CapId) :
    r.turnedOff (c :: cs) k = (r.inRevokeSet k c || r.turnedOff cs k) := rfl

theorem run_revocations {s : State} (hr : s.Ready) (xs : List (Path × PluginId × CapId)) :
    run attempt s (xs.map revocation) = s.withRevocation
      (s.kernel.revocation.cut (s.kernel.revocation.turnedOff (xs.map (·.2.2)))) := by
  induction xs generalizing s with
  | nil =>
    have e : s.kernel.revocation.cut (fun _ => false) = s.kernel.revocation := by
      unfold RevocationState.cut
      rw [Table.mapVal_eq_self]
      intro k cap _
      exact if_neg Bool.false_ne_true
    show s = s.withRevocation (s.kernel.revocation.cut fun _ => false)
    rw [e]
    rfl
  | cons x xs ih =>
    have hready : (s.withRevocation (s.kernel.revocation.revokeTransitive x.2.2)).Ready :=
      ⟨hr.table.cutBy (cutBy_revokeTransitive _ _), hr.table.parentsValid_revoke hr.parents _,
        hr.ghost⟩
    show run attempt (attempt s (revocation x)) (xs.map revocation) = _
    rw [attempt_revocation hr x]
    refine (ih hready).trans ?_
    show s.withRevocation ((s.kernel.revocation.cut _).cut _) = _
    rw [cut_cut]
    congr 2
    funext k
    rw [List.map_cons, turnedOff_cons]
    congr 1
    unfold RevocationState.turnedOff
    congr 1
    funext c
    exact inRevokeSet_cut _ _ k c

theorem turnedOff_congr {r : RevocationState} {cs ds : List CapId} (h : ∀ c, c ∈ cs ↔ c ∈ ds) :
    r.turnedOff cs = r.turnedOff ds := by
  funext k
  unfold RevocationState.turnedOff
  rw [Bool.eq_iff_iff, List.any_eq_true, List.any_eq_true]
  exact exists_congr fun c => and_congr_left fun _ => h c

/-- **Main result**: whatever calls have set up the table, with larger ids below smaller ones and
valid parents above what comes in, the state that a list of revocations leaves depends on the set of
their ids only: not on the order, on repetitions, on the paths or on the callers.  What is still
valid are the entries that were, and are neither one of the ids nor below one. -/
theorem revocation_batch (hmac : Hmac) (key : Key) (policy : PolicyState) (cs : List Call)
    (hok : Along (Call.exec hmac) KeepsReady (.initial key policy) cs)
    (xs ys : List (Path × PluginId × CapId))
    (hids : ∀ c, c ∈ xs.map (·.2.2) ↔ c ∈ ys.map (·.2.2)) :
    let s := runCalls hmac (.initial key policy) cs
    run attempt s (xs.map revocation) = run attempt s (ys.map revocation) ∧
      ∀ k, (run attempt s (xs.map revocation)).capIsValid k = true ↔
        s.capIsValid k = true ∧ ∀ c ∈ xs.map (·.2.2), ¬ s.kernel.revocation.Under c k := by
  intro s
  have hr : s.Ready := runCalls_ready hmac key policy cs hok
  rw [run_revocations hr xs, run_revocations hr ys, turnedOff_congr hids]
  refine ⟨rfl, fun k => ?_⟩
  have hcut := cutBy_cut s.kernel.revocation (s.kernel.revocation.turnedOff (ys.map (·.2.2)))
  refine (hcut.isValid k).trans (and_congr_right fun _ => ?_)
  rw [← turnedOff_congr hids]
  unfold RevocationState.turnedOff
  simp only [List.any_eq_true, inRevokeSet_iff_under hr.table, not_exists, not_and]

/-- the root first and then an id that is not there, or the other way round and by other paths; the
child of the root is off -/
theorem revocation_batch_sample :
    let s := runCalls sampleMac (.initial .empty .permitAll) sampleLineage
    let xs : List (Path × PluginId × CapId) := [(.inPlace, 1, 0), (.cloning, 1, 7)]
    let ys : List (Path × PluginId × CapId) := [(.cloning, 2, 7), (.cloning, 2, 0)]
    run attempt s (xs.map revocation) = run attempt s (ys.map revocation) ∧
      s.capIsValid 1 = true ∧ (run attempt s (xs.map revocation)).capIsValid 1 = false := by
  intro s xs ys
  have hids : ∀ c, c ∈ xs.map (·.2.2) ↔ c ∈ ys.map (·.2.2) := by
    intro c
    simp [xs, ys]
    exact or_comm
  obtain ⟨hsame, hvalid⟩ :=
    revocation_batch sampleMac .empty .permitAll sampleLineage sampleLineage_ready xs ys hids
  refine ⟨hsame, by decide, ?_⟩
  rw [Bool.eq_false_iff]
  intro hv
  exact ((hvalid 1).mp hv).2 0 List.mem_cons_self sampleLineage_under

end LionCore
