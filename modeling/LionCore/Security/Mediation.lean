import LionCore.Agreement
import LionCore.Security.Forgery

/-!
# Mediation

A step that changes the capability table or the ghost record should be backed by an entry of the
table that passes the gate for the action of the corresponding host call.  Direct frees and direct
revocations ask for nothing, and host calls ask for a capability that is merely presented.

* `Effect.mutates`    a change comes from a free, a revocation or an allocation;
* `mediated_iff`      **main result**: when the changes of a step are all mediated;
* `unmediated`        a free and a revocation by plugins without any authority.
-/

namespace LionCore
open Base RevocationState

/-! ## mediation -/

/-- the host calls that ask for what the step does -/
def Step.sameOperation (t : Step) (hc : HostCall) : Prop :=
  match t with
  | .hostCall hc' _ _ => hc = hc'
  | .memFree caller addr => hc.caller = caller ∧ hc.function = .memFree ∧
      hc.args.head?.map UInt64.toNat = some addr
  | .capRevoke caller c => hc.caller = caller ∧ hc.function = .capRevoke ∧
      hc.args.head?.map UInt64.toNat = some c
  | .pluginInternal _ _ | .kernelInternal _ => False

/-- an entry was added or turned off, or an address was allocated or freed -/
def Mutates (s s' : State) : Prop :=
  s'.kernel.revocation.caps ≠ s.kernel.revocation.caps ∨ s'.ghost ≠ s.ghost

/-- the gate accepts a valid entry of the table, which the plugin holds and is the holder of -/
def HasAuthority (s : State) (p : PluginId) (a : Action) : Prop :=
  ∃ k cap ctx t, s.getCap k = some cap ∧ cap.valid = true ∧ cap.holder = p ∧
    s.pluginHolds p k = true ∧ Authorized.validateAtomic s cap a ctx = .ok t

/-- whichever path executes the step: if something changes, the subject has the authority for the
action that the same operation requires as a host call -/
def Mediated (s : State) (t : Step) : Prop :=
  ∀ p path s', t.subject = some p → Exec path t s s' → Mutates s s' →
    ∃ hc a, t.sameOperation hc ∧ hc.requiredAction = .ok a ∧ HasAuthority s p a

/-! ## when nothing is turned off -/

/-- there is something for one of the two revocations of `c` to turn off -/
def RevocationState.Revocable (r : RevocationState) (c : CapId) : Prop :=
  (∃ e ∈ r.caps, e.2.valid = true ∧ (e.1 = c ∨ ∃ n < e.1, nth r.parentOf (n + 1) e.1 = some c)) ∨
    ∃ k, r.isValid k = true ∧ Sweep.Reach r.getChildren c k

theorem revokeTransitive_caps_eq_iff (r : RevocationState) (c : CapId) :
    (r.revokeTransitive c).caps = r.caps ↔ ∀ e ∈ r.caps, e.2.valid = true →
      ¬ (e.1 = c ∨ ∃ n < e.1, nth r.parentOf (n + 1) e.1 = some c) := by
  have hself : r.caps.mapVal (fun _ cap => if False then cap.revoke else cap) = r.caps :=
    Table.mapVal_eq_self _ _ fun _ _ _ => if_false ..
  have h := Table.mapVal_congr_iff (fun k (cap : Capability) =>
    if r.inRevokeSet k c = true then cap.revoke else cap)
    (fun _ cap => if False then cap.revoke else cap) r.caps
  rw [hself] at h
  refine h.trans ⟨fun h e he hv hin => ?_, fun h k cap hm => ?_⟩
  · have hif := (revoke_if_congr e.2 _ False).mp (h e.1 e.2 he) hv
    exact hif.mp ((r.inRevokeSet_iff e.1 c).mpr (by rwa [hasAncestor_iff]))
  · refine (revoke_if_congr cap _ False).mpr fun hv => iff_false_intro fun hin => ?_
    refine h (k, cap) hm hv ?_
    rw [← hasAncestor_iff, ← inRevokeSet_iff]
    exact hin

theorem revokeTransitiveFastMut_caps_eq_iff {r r' : RevocationState} {c : CapId}
    (h : r.revokeTransitiveFastMut c = (.ok (), r')) :
    r'.caps = r.caps ↔ ∀ k, r.isValid k = true → ¬ Sweep.Reach r.getChildren c k := by
  unfold revokeTransitiveFastMut at h
  split at h
  · cases h
  · obtain rfl := (Prod.mk.inj h).2
    refine (foldl_revoke_eq_self_iff (r.toRevoke c) r.caps).trans
      ⟨fun h k hk hreach => ?_, fun h k hk cap hcap => ?_⟩
    · obtain ⟨cap, hcap, hv⟩ := isValid_iff.mp hk
      rw [← mem_collectDescendants_iff_reach, ← mem_toRevoke] at hreach
      rw [h k hreach cap hcap] at hv
      cases hv
    · rw [mem_toRevoke, mem_collectDescendants_iff_reach] at hk
      exact eq_false_of_ne_true fun hv => h k (isValid_iff.mpr ⟨cap, hcap, hv⟩) hk

/-- one of the two paths changes the table iff there is something to turn off -/
theorem revocable_iff {r : RevocationState} {c : CapId} (hc : r.get c ≠ none) :
    r.Revocable c ↔ ∃ (p : Path) (r' : RevocationState), p.revokes r c r' ∧ r'.caps ≠ r.caps := by
  constructor
  · rintro (⟨e, he, hv, hin⟩ | ⟨k, hk, hreach⟩)
    · exact ⟨.cloning, _, rfl, fun heq =>
        (revokeTransitive_caps_eq_iff r c).mp heq e he hv hin⟩
    · obtain ⟨i, hi⟩ := Option.ne_none_iff_exists'.mp (mt Table.find_eq_none_iff.mpr hc)
      have hok : ∃ r', r.revokeTransitiveFastMut c = (.ok (), r') := by
        unfold revokeTransitiveFastMut
        rw [hi]
        exact ⟨_, rfl⟩
      obtain ⟨r', hr'⟩ := hok
      exact ⟨.inPlace, r', hr', fun heq =>
        (revokeTransitiveFastMut_caps_eq_iff hr').mp heq k hk hreach⟩
  · rintro ⟨p, r', hr, hne⟩
    by_contra hn
    obtain ⟨h1, h2⟩ := not_or.mp hn
    cases p with
    | cloning =>
      obtain rfl : r' = r.revokeTransitive c := hr
      exact hne ((revokeTransitive_caps_eq_iff r c).mpr fun e he hv hin =>
        h1 ⟨e, he, hv, hin⟩)
    | inPlace =>
      exact hne ((revokeTransitiveFastMut_caps_eq_iff hr).mpr fun k hk hreach =>
        h2 ⟨k, hk, hreach⟩)

theorem alloc_eq_self_iff (m : MetaState) (addr : MemAddr) (owner : PluginId) :
    m.alloc addr owner = m ↔ m.getStatus addr = some (.allocated owner) := by
  rw [show m.getStatus addr = m.resources.get addr from rfl, ← SortedMap.insert_eq_self_iff]
  constructor
  · intro h
    exact congrArg MetaState.resources h
  · intro h
    unfold MetaState.alloc
    rw [h]

/-! ## where changes come from -/

/-- a change of the table or of the ghost record is that of a free, a revocation or an
allocation -/
theorem Effect.mutates {p : Path} {s s' : State} {t : Step} (h : Effect p s t s')
    (hm : Mutates s s') :
    (∃ addr, t.frees = some addr ∧ t.Admitted s ∧ checkFree s addr = .ok ()) ∨
    (∃ c r, t.revokes = some c ∧ t.Admitted s ∧ s.getCap c ≠ none ∧
      p.revokes s.kernel.revocation c r ∧ r.caps ≠ s.kernel.revocation.caps) ∨
    ∃ hc auth res, t = .hostCall hc auth res ∧ hc.function = .kernelAlloc ∧ t.Admitted s ∧
      checkAlloc s hc = .ok () ∧
      s.ghost.getStatus (asU64 s.ghost.resourceCount) ≠ some (.allocated hc.caller) := by
  have inert : s'.kernel.revocation = s.kernel.revocation → s'.ghost = s.ghost → False :=
    fun hr hg => hm.elim (fun h => h (congrArg RevocationState.caps hr)) (fun h => h hg)
  cases h with
  | @compute pid pi hck =>
    obtain ⟨actors, e⟩ := pi.consume_frame s pid
    rw [e] at inert
    exact (inert rfl rfl).elim
  | use | declassify | route | workflow | tick | unblock => exact (inert rfl rfl).elim
  | @alloc hc auth res hgate hf hck =>
    refine Or.inr (Or.inr ⟨hc, auth, res, rfl, hf, hgate, hck, fun hst => ?_⟩)
    exact inert rfl ((alloc_eq_self_iff ..).mpr hst)
  | free hgate ht hck hg => exact Or.inl ⟨_, ht, hgate, hck⟩
  | revoke hgate ht hck hr =>
    refine Or.inr (Or.inl ⟨_, _, ht, hgate, (checkRevoke_ok_iff ..).mp hck, hr, fun heq => ?_⟩)
    exact hm.elim (fun h => h heq) (fun h => h rfl)

/-! ## the required action -/

section
variable {t : Step} {p : PluginId} {hc : HostCall}

theorem required_free {addr : MemAddr} (hs : t.subject = some p) (ht : t.frees = some addr)
    (h : t.sameOperation hc) :
    hc.requiredAction = .ok ⟨p, addr, .singleton .delete, "mem_free"⟩ := by
  have e : hc.caller = p ∧ hc.function = .memFree ∧ hc.firstArg .noAddress = .ok addr := by
    rcases Step.frees_cases ht with ⟨caller, rfl⟩ | ⟨hc', auth, res, rfl, hf, harg⟩
    · cases hs
      exact ⟨h.1, h.2.1, (hc.firstArg_ok_iff _ addr).mpr h.2.2⟩
    · obtain rfl : hc = hc' := h
      exact ⟨Option.some.inj hs, hf, harg⟩
  obtain ⟨rfl, hf, harg⟩ := e
  unfold HostCall.requiredAction
  rw [hf, harg]
  rfl

theorem required_revoke {c : CapId} (hs : t.subject = some p) (ht : t.revokes = some c)
    (h : t.sameOperation hc) :
    hc.requiredAction = .ok ⟨p, c, .singleton .revoke, "cap_revoke"⟩ ∧ c < u64Size := by
  have e : hc.caller = p ∧ hc.function = .capRevoke ∧ hc.firstArg .noCapabilityId = .ok c := by
    rcases Step.revokes_cases ht with ⟨caller, rfl⟩ | ⟨hc', auth, res, rfl, hf, harg⟩
    · cases hs
      exact ⟨h.1, h.2.1, (hc.firstArg_ok_iff _ c).mpr h.2.2⟩
    · obtain rfl : hc = hc' := h
      exact ⟨Option.some.inj hs, hf, harg⟩
  obtain ⟨rfl, hf, harg⟩ := e
  constructor
  · unfold HostCall.requiredAction
    rw [hf, harg]
    rfl
  · exact HostCall.firstArg_lt harg

/-- an id of 64 bits can be passed to a host call -/
theorem exists_revoke_operation {c : CapId} (ht : t.revokes = some c) (hc : c < u64Size) :
    ∃ hc, t.sameOperation hc := by
  rcases Step.revokes_cases ht with ⟨caller, rfl⟩ | ⟨hc', auth, res, rfl, _⟩
  · exact ⟨⟨caller, .capRevoke, [UInt64.ofNat c], [], []⟩, rfl, rfl,
      congrArg some (UInt64.toNat_ofNat_of_lt hc)⟩
  · exact ⟨hc', rfl⟩

end

/-! ## when changes are mediated -/

/-- the plugin holds a valid entry of the table that is good for the action -/
def Entitled (s : State) (a : Action) : Prop :=
  ∃ k cap ctx, s.getCap k = some cap ∧ cap.valid = true ∧ s.pluginHolds a.subject k = true ∧
    (⟨cap, a, ctx⟩ : Authorized).Good s

theorem hasAuthority_iff (s : State) (a : Action) : HasAuthority s a.subject a ↔ Entitled s a := by
  constructor
  · rintro ⟨k, cap, ctx, t, hk, hv, _, hheld, ht⟩
    obtain ⟨rfl, hg⟩ := (Authorized.validateAtomic_ok_iff ..).mp ht
    exact ⟨k, cap, ctx, hk, hv, hheld, hg⟩
  · rintro ⟨k, cap, ctx, hk, hv, hheld, hg⟩
    exact ⟨k, cap, ctx, _, hk, hv, hg.holder, hheld,
      (Authorized.validateAtomic_ok_iff ..).mpr ⟨rfl, hg⟩⟩

/-- an entry that is good for deleting an address stands in the way of the free -/
theorem Entitled.targets {s : State} {a : Action} (h : Entitled s a) :
    s.kernel.revocation.anyValidTargeting a.target = true := by
  obtain ⟨k, cap, ctx, hk, hv, _, hg⟩ := h
  have htarget : cap.target = a.target := hg.target
  exact htarget ▸ anyValidTargeting_of_get hk hv

/-- the inputs on which every change is mediated.  A free is refused; a revocation is refused, has
nothing to turn off, or its subject is entitled to it; an allocation is refused, meets the address
with the same owner, or its caller is entitled to it. -/
structure MediatedWhen (s : State) (t : Step) : Prop where
  free : ∀ addr, t.frees = some addr → t.Admitted s →
    s.ghost.isFreed addr = true ∨ s.kernel.revocation.anyValidTargeting addr = true
  revoke : ∀ p c, t.subject = some p → t.revokes = some c → t.Admitted s →
    s.getCap c = none ∨ ¬ s.kernel.revocation.Revocable c ∨
      (c < u64Size ∧ Entitled s ⟨p, c, .singleton .revoke, "cap_revoke"⟩)
  alloc : ∀ hc auth res, t = .hostCall hc auth res → hc.function = .kernelAlloc → t.Admitted s →
    checkAlloc s hc = .ok () →
    s.ghost.getStatus (asU64 s.ghost.resourceCount) = some (.allocated hc.caller) ∨
      Entitled s ⟨hc.caller, 0, .singleton .create, "kernel_alloc"⟩

theorem required_alloc {hc : HostCall} (hf : hc.function = .kernelAlloc) :
    hc.requiredAction = .ok ⟨hc.caller, 0, .singleton .create, "kernel_alloc"⟩ := by
  unfold HostCall.requiredAction
  rw [hf]
  rfl

section
variable {s : State} {t : Step}

theorem MediatedWhen.mediated (h : MediatedWhen s t) : Mediated s t := by
  intro p path s' hs hx hm
  rcases hx.effect.mutates hm with ⟨addr, ht, hadm, hck⟩ | ⟨c, r, ht, hadm, hpres, hr, hne⟩ |
    ⟨hc, auth, res, rfl, hf, hadm, hck, hst⟩
  · obtain ⟨hfreed, htarget⟩ := (checkFree_ok_iff s addr).mp hck
    rcases h.free addr ht hadm with e | e
    · exact nomatch e.symm.trans hfreed
    · exact nomatch e.symm.trans htarget
  · rcases h.revoke p c hs ht hadm with e | e | ⟨hlt, hent⟩
    · exact absurd e hpres
    · exact absurd ((revocable_iff hpres).mpr ⟨path, r, hr, hne⟩) e
    · obtain ⟨hc, hsame⟩ := exists_revoke_operation ht hlt
      exact ⟨hc, _, hsame, (required_revoke hs ht hsame).1, (hasAuthority_iff s _).mpr hent⟩
  · obtain rfl := Option.some.inj hs
    exact ⟨hc, _, rfl, required_alloc hf,
      (hasAuthority_iff s _).mpr ((h.alloc hc auth res rfl hf hadm hck).resolve_left hst)⟩

theorem Mediated.free (h : Mediated s t) {addr : MemAddr} (ht : t.frees = some addr)
    (hadm : t.Admitted s) :
    s.ghost.isFreed addr = true ∨ s.kernel.revocation.anyValidTargeting addr = true := by
  by_contra hn
  rw [not_or, Bool.not_eq_true, Bool.not_eq_true] at hn
  have hck := (checkFree_ok_iff s addr).mpr hn
  obtain ⟨⟨p, hs⟩, _⟩ := Step.of_frees ht
  have hx : Exec .cloning t s (s.withGhost (s.ghost.free addr)) := exec_free hadm ht hck rfl
  have hm : Mutates s (s.withGhost (s.ghost.free addr)) :=
    Or.inr fun e => insertKey_of_not_has hn.1 (congrArg MetaState.freedSet e)
  obtain ⟨hc, a, hsame, ha, hauth⟩ := h p _ _ hs hx hm
  obtain rfl := Except.ok.inj ((required_free hs ht hsame).symm.trans ha)
  have htarget :=
    ((hasAuthority_iff s ⟨p, addr, .singleton .delete, "mem_free"⟩).mp hauth).targets
  exact nomatch htarget.symm.trans hn.2

theorem Mediated.revoke (h : Mediated s t) {p : PluginId} {c : CapId} (hs : t.subject = some p)
    (ht : t.revokes = some c) (hadm : t.Admitted s) :
    s.getCap c = none ∨ ¬ s.kernel.revocation.Revocable c ∨
      (c < u64Size ∧ Entitled s ⟨p, c, .singleton .revoke, "cap_revoke"⟩) := by
  by_cases hpres : s.getCap c = none
  · exact Or.inl hpres
  by_cases hrev : s.kernel.revocation.Revocable c
  · obtain ⟨path, r, hr, hne⟩ := (revocable_iff hpres).mp hrev
    have hx := exec_revoke hadm ht ((checkRevoke_ok_iff s c).mpr hpres) hr
    obtain ⟨hc, a, hsame, ha, hauth⟩ := h p path _ hs hx (Or.inl hne)
    obtain ⟨ha', hlt⟩ := required_revoke hs ht hsame
    obtain rfl := Except.ok.inj (ha'.symm.trans ha)
    exact Or.inr (Or.inr ⟨hlt, (hasAuthority_iff s _).mp hauth⟩)
  · exact Or.inr (Or.inl hrev)

theorem Mediated.alloc {hc : HostCall} {auth : Authorized} {res : HostResult}
    (h : Mediated s (.hostCall hc auth res)) (hf : hc.function = .kernelAlloc)
    (hadm : (Step.hostCall hc auth res).Admitted s) (hck : checkAlloc s hc = .ok ()) :
    s.ghost.getStatus (asU64 s.ghost.resourceCount) = some (.allocated hc.caller) ∨
      Entitled s ⟨hc.caller, 0, .singleton .create, "kernel_alloc"⟩ := by
  by_cases hst : s.ghost.getStatus (asU64 s.ghost.resourceCount) = some (.allocated hc.caller)
  · exact Or.inl hst
  · have heff : Effect .cloning s (.hostCall hc auth res) _ := .alloc hadm hf hck
    obtain ⟨hc', a, rfl, ha, hauth⟩ := h hc.caller _ _ rfl heff.exec
      (Or.inr fun e => hst ((alloc_eq_self_iff ..).mp e))
    obtain rfl := Except.ok.inj ((required_alloc hf).symm.trans ha)
    exact Or.inr ((hasAuthority_iff s _).mp hauth)

end

/-- **Main result**: all changes of a step are mediated exactly on these inputs. -/
theorem mediated_iff (s : State) (t : Step) : Mediated s t ↔ MediatedWhen s t := by
  constructor
  · intro h
    refine ⟨fun addr => h.free, fun p c => h.revoke, ?_⟩
    rintro hc auth res rfl hf hadm hck
    exact h.alloc hf hadm hck
  · exact MediatedWhen.mediated

/-! ## two routes around the gate -/

/-- plugin 2, which holds nothing, frees the address of plugin 1, and revokes plugin 1's root -/
theorem unmediated : ¬ Mediated sampleAllocated (.memFree 2 0) ∧
    ¬ Mediated sampleHeld (.capRevoke 2 100) := by
  constructor
  · intro h
    obtain ⟨_, _, _, _, k, cap, _, _, hk, _⟩ := h 2 .inPlace
      ((Step.memFree 2 0).executeMut sampleAllocated).2 rfl (by decide) (Or.inr (by decide))
    cases hk
  · intro h
    obtain ⟨_, _, _, _, k, cap, _, _, hk, _, hholder, _⟩ := h 2 .inPlace
      ((Step.capRevoke 2 100).executeMut sampleHeld).2 rfl (by decide) (Or.inl (by decide))
    have hcaps : sampleHeld.kernel.revocation.caps = [(100, sampleRoot)] := by decide
    have hm := Table.mem_of_find hk
    rw [hcaps, List.mem_singleton] at hm
    cases hm
    cases hholder

end LionCore
