import LionCore.Workflow.Progress
import LionCore.Workflow.Spec

/-!
# The engine and its specification

One call folds what the specification splits: a completion may also end the workflow, and so may a
failure.

* `toSpec`            the abstract instance behind an instance;
* `Refinable`         the calls that the specification can follow;
* `refinement_iff`    **main result**: in a running workflow, before its timeout, it follows these
                      calls and no others.
-/

namespace LionCore
open Base Spec

namespace WorkflowInstance

def toSpec (w : WorkflowInstance) : Spec.WorkflowInstance :=
  ⟨⟨w.workflowDef.nodes, w.workflowDef.edges⟩, w.status, w.getNodeState, w.timeoutAt, w.getRetries⟩

/-- a failure has retries left, and a completion that leaves the counters at zero leaves no other
node open -/
def Refinable (w : WorkflowInstance) : NodeOp → Prop
  | .start _ => True
  | .complete n => w.pendingCt = 0 → w.activeCt ≤ 1 →
      ∀ m ∈ w.workflowDef.nodes, m ≠ n → w.getNodeState m = .completed
  | .fail n => w.getRetries n > 0
  | .timeout => False

section
variable {w w' : WorkflowInstance} {n idx : Nat} {now : Time}

theorem Moved.toSpec {old new : NodeState} (h : Moved w w' n old new)
    (hdef : w'.workflowDef = w.workflowDef) (htime : w'.timeoutAt = w.timeoutAt) :
    w'.toSpec = { w.toSpec.withNode n new with
      status := w'.status
      retries := w'.getRetries } := by
  have hstates : w'.getNodeState = (w.toSpec.withNode n new).nodeStates := funext h.after
  unfold WorkflowInstance.toSpec
  rw [hdef, htime, hstates]
  rfl

/-! ## what the specification can follow -/

theorem mem_toSpec_dependencies {a : Nat} :
    a ∈ w.toSpec.definition.dependencies n ↔ w.workflowDef.DependsOn n a := by
  show a ∈ w.workflowDef.edges.filterMap _ ↔ _
  rw [List.mem_filterMap]
  constructor
  · rintro ⟨e, he, ha⟩
    split at ha
    · rename_i ht
      cases ha
      exact ht ▸ he
    · cases ha
  · exact fun h => ⟨⟨a, n⟩, h, if_pos rfl⟩

theorem start_refines (hw : w.WellFormed) (h : NodeEffect w (.start n) w')
    (hr : w.status = .running) : WorkflowReachable now w.toSpec now w'.toSpec := by
  have hdef := h.workflowDef
  cases h with
  | @start _ idx hidx hs hdeps =>
    have hmoved : Moved w _ n .pending .active := hw.moved hidx hs hdef rfl
    rw [hmoved.toSpec hdef (by simp), transition_status, getRetries_congr hdef (by simp)]
    refine .single (.startNode hmoved.node hr hmoved.before (List.all_eq_true.mpr fun a ha => ?_))
    have hdep := mem_toSpec_dependencies.mp ha
    exact decide_eq_true ((hw.dependenciesSatisfied_iff n).mp hdeps a hdep)

theorem retry_refines (hw : w.WellFormed) (h : NodeEffect w (.fail n) w')
    (hr : w.status = .running) (hretries : w.getRetries n > 0) :
    WorkflowReachable now w.toSpec now w'.toSpec := by
  have hdef := h.workflowDef
  cases h with
  | @retry _ idx hidx hs _ =>
    have hmoved : Moved w _ n .active .pending := hw.moved hidx hs hdef rfl
    rw [hmoved.toSpec hdef (by simp), hw.getRetries_set hdef rfl hidx, transition_status,
      ← getRetries_at hidx]
    exact .single (.retryNode hmoved.node hr hmoved.before hretries)
  | fail hidx _ hzero =>
    rw [getRetries_at hidx, hzero] at hretries
    exact absurd hretries (Nat.lt_irrefl 0)

/-- **A failure without retries is a failure of the workflow that the specification forbids.** -/
theorem fail_not_refined (hw : w.WellFormed) (h : NodeEffect w (.fail n) w')
    (hr : w.status = .running) (hfailed : ∀ m, w.getNodeState m ≠ .failed)
    (hretries : w.getRetries n = 0) (hlt : now < w.timeoutAt) :
    ¬ WorkflowReachable now w.toSpec now w'.toSpec := by
  intro hreach
  have hdef := h.workflowDef
  cases h with
  | retry hidx _ hpos =>
    rw [getRetries_at hidx] at hretries
    exact absurd hpos (by omega)
  | fail hidx hs _ =>
    have hmoved : Moved w _ n .active .failed := hw.moved hidx hs hdef rfl
    obtain ⟨m, hm, hmax⟩ := failure_before_timeout hreach hr rfl hlt
    have hm' := (hmoved.after m).symm.trans hm
    split at hm'
    · rename_i hmn
      have hsame : w.getRetries m ≥ Spec.maxRetries := by
        rw [← getRetries_congr hdef (transition_retries _ _ _)]
        exact hmax
      rw [hmn, hretries] at hsame
      exact absurd hsame (by decide)
    · exact hfailed m hm'

theorem isTerminal_complete (hs : w.stateAt idx = .active) :
    (w.transition idx .completed).isTerminal = true ↔ w.pendingCt = 0 ∧ w.activeCt ≤ 1 := by
  have hp : (w.transition idx .completed).pendingCt = w.pendingCt := by
    unfold transition
    rw [hs]
    rfl
  have ha : (w.transition idx .completed).activeCt = w.activeCt - 1 := by
    unfold transition
    rw [hs]
    rfl
  unfold isTerminal
  rw [hp, ha, Bool.and_eq_true, decide_eq_true_iff, decide_eq_true_iff, Nat.sub_eq_zero_iff_le]

theorem Sound.hasFailure_eq_false (h : w.Sound) (hfailed : ∀ m, w.getNodeState m ≠ .failed) :
    w.hasFailure = false := by
  apply decide_eq_false
  intro hpos
  obtain ⟨m, _, hm⟩ := h.exists_of_counter (s := .failed) nofun (Nat.pos_iff_ne_zero.mp hpos)
  exact hfailed m hm

theorem complete_refines_iff (hw : w.Sound) (h : NodeEffect w (.complete n) w')
    (hr : w.status = .running) (hfailed : ∀ m, w.getNodeState m ≠ .failed) :
    WorkflowReachable now w.toSpec now w'.toSpec ↔ w.Refinable (.complete n) := by
  have hdef := h.workflowDef
  cases h with
  | @complete _ idx hidx hs =>
    let t := w.transition idx .completed
    have hmoved : Moved w t.updateWorkflowStatus n .active .completed :=
      hw.wellFormed.moved hidx hs hdef (updateWorkflowStatus_nodeStates t)
    have hretries : t.updateWorkflowStatus.getRetries = w.getRetries :=
      getRetries_congr hdef (by simp [t])
    rw [hmoved.toSpec hdef (by simp [t]), hretries]
    have hstep : WorkflowExecStep now w.toSpec now (w.toSpec.withNode n .completed) :=
      .completeNode hmoved.node hr hmoved.before
    rcases t.updateWorkflowStatus_cases with ⟨hterm, e⟩ | ⟨_, hfail, _⟩ | ⟨hterm, _, e⟩
    · -- the workflow goes on
      have hstatus : t.updateWorkflowStatus.status = w.status := by
        rw [e]
        exact transition_status _ _ _
      rw [hstatus]
      refine iff_of_true (.single hstep) fun hp ha => ?_
      rw [(isTerminal_complete hs).mpr ⟨hp, ha⟩] at hterm
      cases hterm
    · -- a failed node would have ended the workflow before
      have hmoved : Moved w t n .active .completed :=
        hw.wellFormed.moved hidx hs (transition_workflowDef _ _ _) rfl
      have hnone := (hw.transition hidx _).hasFailure_eq_false (hmoved.not_failed nofun hfailed)
      rw [hnone] at hfail
      cases hfail
    · -- the workflow has succeeded
      have hstatus : t.updateWorkflowStatus.status = .success := by rw [e]
      rw [hstatus]
      constructor
      · intro hreach _ _ m hm hmn
        have hall := success_all_completed hreach hr rfl m hm
        exact (if_neg hmn).symm.trans hall
      · intro hall
        obtain ⟨hp, ha⟩ := (isTerminal_complete hs).mp hterm
        refine .step hstep (.single (.workflowComplete hr (List.all_eq_true.mpr fun m hm => ?_)))
        refine decide_eq_true ?_
        show (if m = n then NodeState.completed else w.getNodeState m) = .completed
        split
        · rfl
        · rename_i hmn
          exact hall hp ha m hm hmn

/-- with fewer than `2 ^ 32` nodes the counters are right, and every completion is followed -/
theorem complete_refinable (hw : w.Sound) (hsmall : w.workflowDef.nodes.length < u32Size)
    (hfailed : ∀ m, w.getNodeState m ≠ .failed) (h : NodeEffect w (.complete n) w') :
    w.Refinable (.complete n) := by
  intro hp ha m hm hmn
  cases h with
  | @complete _ idx hidx hs =>
    let t := w.transition idx .completed
    have ht : t.Sound := hw.transition hidx _
    have hdef : t.workflowDef = w.workflowDef := transition_workflowDef _ _ _
    have hstate : t.getNodeState m = w.getNodeState m := by
      rw [hw.wellFormed.getNodeState_set hdef rfl hidx, if_neg hmn]
    have hmoved : Moved w t n .active .completed := hw.wellFormed.moved hidx hs hdef rfl
    have hterm : t.isTerminal = true := (isTerminal_complete hs).mpr ⟨hp, ha⟩
    have hnone := ht.hasFailure_eq_false (hmoved.not_failed nofun hfailed)
    rw [← hstate]
    exact ht.all_completed (hdef ▸ hsmall) hterm hnone m (hdef ▸ hm)

end

/-- **Main result**: in every reached instance that runs, before its timeout, the specification can
follow a call that succeeds, within the same time, exactly if it is refinable; and a completion is
always refinable when there are fewer than `2 ^ 32` nodes. -/
theorem refinement_iff {nodes : List Nat} {edges : List Edge} {d : LionCore.WorkflowDef}
    (hd : LionCore.WorkflowDef.validated nodes edges = .ok d) (timeoutAt : Time)
    (maxRetries : Nat) (ops : List NodeOp) (now : Time) :
    let w := run NodeOp.exec (new d timeoutAt maxRetries) ops
    w.status = .running → now < w.timeoutAt →
      ∀ op w', op ≠ .timeout → op.call w = (.ok (), w') →
        (WorkflowReachable now w.toSpec now w'.toSpec ↔ w.Refinable op) ∧
          (d.nodes.length < u32Size → ∀ n, op = .complete n → w.Refinable op) := by
  intro w hr hlt op w' hop hcall
  have heff := call_iff.mp hcall
  have hsound : w.Sound := run_sound hd timeoutAt maxRetries ops
  have hw := hsound.wellFormed
  have hdef : w.workflowDef = d := run_workflowDef _ _
  have hne : d.nodes ≠ [] := by
    rcases heff.moved hw with ⟨ht, _⟩ | ⟨n, _, _, _, hmoved⟩
    · exact absurd ht hop
    · exact hdef ▸ List.ne_nil_of_mem hmoved.node
  have hfailed := (run_live hd hne timeoutAt maxRetries ops hr).1
  cases op with
  | start n => exact ⟨iff_of_true (start_refines hw heff hr) trivial, nofun⟩
  | complete n =>
    refine ⟨complete_refines_iff hsound heff hr hfailed, fun hsmall m hm => ?_⟩
    cases hm
    exact complete_refinable hsound (hdef ▸ hsmall) hfailed heff
  | fail n =>
    refine ⟨⟨fun hreach => ?_, retry_refines hw heff hr⟩, nofun⟩
    apply Nat.pos_of_ne_zero
    intro hzero
    exact fail_not_refined hw heff hr hfailed hzero hlt hreach
  | timeout => exact absurd rfl hop

/-- one node, active, without retries -/
def sampleActive : WorkflowInstance := run NodeOp.exec (new .sampleSingle 10 0) [.start 1]

theorem refinement_iff_sample :
    WorkflowReachable 0 sampleActive.toSpec 0 (sampleActive.completeNode 1).2.toSpec := by
  have hd : LionCore.WorkflowDef.validated [1] [] = .ok .sampleSingle := by decide
  have h := refinement_iff hd 10 0 [.start 1] 0 (by decide) (by decide) (.complete 1)
    (sampleActive.completeNode 1).2 nofun (by decide)
  exact h.1.mpr (h.2 (by decide) 1 rfl)

/-- the node fails, and with it the workflow, for which the specification has no transition -/
theorem failure_not_followed :
    LionCore.WorkflowDef.validated [1] [] = .ok .sampleSingle ∧
      sampleActive.status = .running ∧ 0 < sampleActive.timeoutAt ∧
      (sampleActive.failNode 1).1 = .ok () ∧
      ¬ WorkflowReachable 0 sampleActive.toSpec 0 (sampleActive.failNode 1).2.toSpec := by
  have hd : LionCore.WorkflowDef.validated [1] [] = .ok .sampleSingle := by decide
  have hsound : sampleActive.Sound := run_sound hd 10 0 [.start 1]
  have hlive : sampleActive.Live := run_live hd (by decide) 10 0 [.start 1]
  have heff : NodeEffect sampleActive (.fail 1) (sampleActive.failNode 1).2 :=
    call_iff.mp (by decide)
  refine ⟨hd, by decide, by decide, by decide, ?_⟩
  exact fail_not_refined hsound.wellFormed heff (by decide) (hlive (by decide)).1 (by decide)
    (by decide)

end WorkflowInstance
end LionCore
