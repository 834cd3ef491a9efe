import LionCore.Security.SlowRevocation

/-!
# Who may revoke what

A call for a revocation gives one number.  The authorization takes it for the resource that the
caller's capability targets, and the effect takes it for the id of the capability to revoke.

* `Controls`                 a plugin holds the capability, or one above it;
* `revokes_controlled_iff`   **main result**: a revocation by host call stays within what the
                             caller controls exactly if the caller controls the id, which nothing
                             checks;
* `revokes_foreign`          a capability for the resource 0 revokes another plugin's capability 0.
-/

namespace LionCore
open Base RevocationState

/-- the plugin holds the capability, or one that it is derived from -/
def Controls (s : State) (p : PluginId) (c : CapId) : Prop :=
  s.pluginHolds p c = true ∨
    ∃ a, Above s.kernel.revocation.parentOf a c ∧ s.pluginHolds p a = true

/-- whenever the step is carried out, the caller controls `c` and whatever becomes invalid -/
def RevokesControlled (s : State) (t : Step) (caller : PluginId) (c : CapId) : Prop :=
  ∀ p s', Exec p t s s' → Controls s caller c ∧
    ∀ k, s.capIsValid k = true → s'.capIsValid k = false → Controls s caller k

theorem Controls.below {s : State} {p : PluginId} {c k : CapId} (h : Controls s p c)
    (hk : k = c ∨ Above s.kernel.revocation.parentOf c k) : Controls s p k := by
  rcases hk with rfl | hk
  · exact h
  · rcases h with h | ⟨a, ha, h⟩
    · exact Or.inr ⟨c, hk, h⟩
    · exact Or.inr ⟨a, ha.trans hk, h⟩

/-! ## what a path turns off -/

/-- the ids that a path turns off -/
def Path.reaches (p : Path) (r : RevocationState) (c k : CapId) : Prop :=
  match p with
  | .cloning => r.inRevokeSet k c = true
  | .inPlace => k ∈ r.collectDescendants c

theorem Path.cutBy_reaches {p : Path} {r r' : RevocationState} {c : CapId}
    (h : p.revokes r c r') : r.CutBy (p.reaches r c) r' := by
  cases p with
  | cloning =>
    obtain rfl : r' = r.revokeTransitive c := h
    exact cutBy_revokeTransitive r c
  | inPlace => exact cutBy_revokeTransitiveFastMut h

theorem Effect.revoked {p : Path} {s s' : State} {hc : HostCall} {auth : Authorized}
    {res : HostResult} {c : CapId} (hf : hc.function = .capRevoke)
    (harg : hc.firstArg .noCapabilityId = .ok c)
    (h : Effect p s (.hostCall hc auth res) s') : checkHostCall s hc auth = .ok () ∧
      s.getCap c ≠ none ∧ ∃ r, p.revokes s.kernel.revocation c r ∧ s' = s.withRevocation r := by
  obtain ⟨hgate, he⟩ := h.hostCall
  rw [hf] at he
  cases he with
  | @capRevoke c' r harg' hck hr =>
    obtain rfl : c' = c := Except.ok.inj (harg'.symm.trans harg)
    exact ⟨hgate, (checkRevoke_ok_iff s c').mp hck, r, hr, rfl⟩

/-! ## the main result -/

/-- the call is refused, or the caller controls the id and every valid id that the sweep finds -/
def RevokesOwn (s : State) (hc : HostCall) (c : CapId) : Prop :=
  hc.checkPreconditions s = .ok () → s.getCap c ≠ none → Controls s hc.caller c ∧
    ∀ k ∈ s.kernel.revocation.collectDescendants c, s.capIsValid k = true → Controls s hc.caller k

theorem revokesControlled_iff_own {s : State} {hc : HostCall} {k : CapId} {ctx : PolicyContext}
    {res : HostResult} {t : Step} {c : CapId} (hf : hc.function = .capRevoke)
    (harg : hc.firstArg .noCapabilityId = .ok c)
    (issued : Step.hostCallAtomic s hc k ctx res = .ok t) :
    RevokesControlled s t hc.caller c ↔ RevokesOwn s hc c := by
  obtain ⟨cap, action, _, _, _, rfl⟩ := hostCallAtomic_good issued
  have admitted := checkHostCall_issued_iff issued
  constructor
  · intro h hpre hpres
    have hck := (checkRevoke_ok_iff s c).mpr hpres
    obtain ⟨r, hr, _⟩ := applyCapRevokeMut_of_check hck
    have hx : Exec .inPlace (.hostCall hc ⟨cap, action, ctx⟩ res) s (s.withRevocation r) :=
      exec_revoke (admitted.mpr hpre) ((if_pos hf).trans ((hc.firstArg_ok_iff _ c).mp harg)) hck hr
    obtain ⟨hc', hoff⟩ := h .inPlace _ hx
    refine ⟨hc', fun k hk hv => hoff k hv ?_⟩
    apply eq_false_of_ne_true
    intro hv'
    exact (((cutBy_revokeTransitiveFastMut hr).isValid k).mp hv').2 hk
  · intro h p s' hx
    obtain ⟨hgate, hpres, r, hr, rfl⟩ := hx.effect.revoked hf harg
    obtain ⟨hc', hown⟩ := h (admitted.mp hgate) hpres
    refine ⟨hc', fun k hv hoff => ?_⟩
    have hreach : p.reaches s.kernel.revocation c k := by
      by_contra hn
      have hv' : (s.withRevocation r).capIsValid k = true :=
        ((Path.cutBy_reaches hr).isValid k).mpr ⟨hv, hn⟩
      rw [hoff] at hv'
      cases hv'
    cases p with
    | cloning =>
      -- the ancestor search finds nothing but ids below `c`
      exact hc'.below (((inRevokeSet_iff _ k c).mp hreach).imp_right above_of_hasAncestor)
    | inPlace => exact hown k hreach hv

theorem revokesOwn_iff {s : State} (w : s.kernel.revocation.WellFormed) (hc : HostCall)
    (c : CapId) : RevokesOwn s hc c ↔
      (hc.checkPreconditions s = .ok () → s.getCap c ≠ none → Controls s hc.caller c) := by
  refine forall₂_congr fun _ _ => ⟨fun h => h.1, fun h => ⟨h, fun k hk _ => ?_⟩⟩
  exact h.below ((w.mem_collectDescendants c k).mp hk)

/-- **Main result**: a step that is issued for a revocation of `c` by host call stays within what
its caller controls exactly if it is refused or the caller controls `c` and what is collected; on
a well-formed table, as every run leaves it, control of `c` is enough. -/
theorem revokes_controlled_iff {s : State} {hc : HostCall} {k : CapId} {ctx : PolicyContext}
    {res : HostResult} {t : Step} {c : CapId} (hf : hc.function = .capRevoke)
    (harg : hc.firstArg .noCapabilityId = .ok c)
    (issued : Step.hostCallAtomic s hc k ctx res = .ok t) :
    (RevokesControlled s t hc.caller c ↔ RevokesOwn s hc c) ∧
      (s.kernel.revocation.WellFormed → (RevokesControlled s t hc.caller c ↔
        (hc.checkPreconditions s = .ok () → s.getCap c ≠ none → Controls s hc.caller c))) :=
  have own := revokesControlled_iff_own hf harg issued
  ⟨own, fun w => own.trans (revokesOwn_iff w hc c)⟩

/-- plugin 1 may revoke at the resource 0; plugin 2 holds the capability 0 -/
def sampleDeputy : State :=
  runCalls sampleMac (.initial .empty .permitAll)
    [.alloc 1 8, .registerPlugin 1 .Public 0, .registerPlugin 2 .Public 0,
      .insertCapRaw ⟨100, 1, 0, .singleton .revoke, none, 0, true, .empty⟩ 1,
      .insertCapRaw ⟨0, 2, 0, .singleton .read, none, 0, true, .empty⟩ 2]

/-- plugin 1 calls for the revocation of 0 -/
def sampleRevoke : HostCall := ⟨1, .capRevoke, [0], [], []⟩

/-- the step that is issued for it -/
def sampleRevokeStep : Step :=
  .hostCall sampleRevoke ⟨⟨100, 1, 0, .singleton .revoke, none, 0, true, .empty⟩,
    ⟨1, 0, .singleton .revoke, "cap_revoke"⟩, ⟨0, none⟩⟩ .empty

theorem revokes_controlled_iff_sample :
    (RevokesControlled sampleDeputy sampleRevokeStep 1 0 ↔
      RevokesOwn sampleDeputy sampleRevoke 0) ∧
      (sampleDeputy.kernel.revocation.WellFormed →
        (RevokesControlled sampleDeputy sampleRevokeStep 1 0 ↔
          (sampleRevoke.checkPreconditions sampleDeputy = .ok () → sampleDeputy.getCap 0 ≠ none →
            Controls sampleDeputy 1 0))) := by
  have issued : Step.hostCallAtomic sampleDeputy sampleRevoke 100 ⟨0, none⟩ .empty =
      .ok sampleRevokeStep := by decide
  exact revokes_controlled_iff rfl rfl issued

/-- plugin 1 does not control the capability 0, and turns it off -/
theorem revokes_foreign :
    Step.hostCallAtomic sampleDeputy sampleRevoke 100 ⟨0, none⟩ .empty = .ok sampleRevokeStep ∧
      (sampleRevokeStep.executeMut sampleDeputy).1 = .ok () ∧
      sampleDeputy.capIsValid 0 = true ∧
      (sampleRevokeStep.executeMut sampleDeputy).2.capIsValid 0 = false ∧
      ¬ RevokesControlled sampleDeputy sampleRevokeStep 1 0 := by
  refine ⟨by decide, by decide, by decide, by decide, fun h => ?_⟩
  have hx : Exec .inPlace sampleRevokeStep sampleDeputy
      (sampleRevokeStep.executeMut sampleDeputy).2 := by decide
  rcases (h .inPlace _ hx).1 with hheld | ⟨a, ha, _⟩
  · exact absurd hheld (by decide)
  · -- the capability 0 is a root
    have hroot : sampleDeputy.kernel.revocation.parentOf 0 = none := by decide
    obtain ⟨p, e, _⟩ := ha.cases
    rw [hroot] at e
    cases e

end LionCore
