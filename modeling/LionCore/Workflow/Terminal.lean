import LionCore.Workflow.Run

/-!
# After a workflow has ended

The operations do not look at the status, so a call that comes after the end is refused only for
reasons of its own.

* `Refused`              the code's own reasons to refuse a call;
* `unchanged_iff`        status and node states survive a call exactly if it is refused;
* `terminal_iff`         **main result**: the same for every run after the end;
* `success_after_timeout`  a workflow that has timed out reports success.
-/

namespace LionCore
open Base

namespace WorkflowInstance

/-- the call is refused, or it is a timeout of a workflow that has failed -/
def Refused (w : WorkflowInstance) : NodeOp → Prop
  | .start n => w.workflowDef.nodeIndex n = none ∨ w.isPending n = false ∨
      w.dependenciesSatisfied n = false
  | .complete n => w.isActive n = false
  | .fail n => w.isActive n = false
  | .timeout => w.status = .failure

/-- equal status and equal node states -/
def SameProgress (w w' : WorkflowInstance) : Prop :=
  w'.status = w.status ∧ w'.nodeStates = w.nodeStates

section
variable {w w' : WorkflowInstance} {op : NodeOp}

theorem NodeEffect.not_refused (h : NodeEffect w op w') (ht : op ≠ .timeout) :
    ¬ w.Refused op := by
  cases h with
  | start hidx hs hdeps =>
    rintro (hr | hr | hr)
    · rw [hidx] at hr
      cases hr
    · rw [isPending, getNodeState_at hidx, hs] at hr
      cases hr
    · rw [hdeps] at hr
      cases hr
  | complete hidx hs | retry hidx hs | fail hidx hs =>
    intro hr
    change WorkflowInstance.isActive w _ = false at hr
    rw [isActive, getNodeState_at hidx, hs] at hr
    cases hr
  | timeout => exact absurd rfl ht

theorem exec_of_refused (h : w.Refused op) : op.exec w = w := by
  rcases exec_cases w op with he | he
  · exact he
  · by_cases ht : op = .timeout
    · subst ht
      have hs : w.status = .failure := h
      show { w with status := .failure } = w
      rw [← hs]
    · exact absurd h (he.not_refused ht)

theorem node_of_active {n : Nat} (h : w.isActive n = true) :
    ∃ idx, w.workflowDef.nodeIndex n = some idx ∧ w.stateAt idx = .active := by
  have hs : w.getNodeState n = .active := of_decide_eq_true h
  cases hidx : w.workflowDef.nodeIndex n with
  | none =>
    rw [getNodeState_absent hidx] at hs
    cases hs
  | some idx => exact ⟨idx, rfl, (getNodeState_at hidx).symm.trans hs⟩

theorem effect_of_not_refused (h : ¬ w.Refused op) : ∃ w', NodeEffect w op w' := by
  cases op with
  | start n =>
    obtain ⟨hidx, hs, hdeps⟩ := (not_or.trans (and_congr_right fun _ => not_or)).mp h
    obtain ⟨idx, hidx⟩ := Option.ne_none_iff_exists'.mp hidx
    rw [Bool.not_eq_false] at hs hdeps
    exact ⟨_, .start hidx ((getNodeState_at hidx).symm.trans (of_decide_eq_true hs)) hdeps⟩
  | complete n =>
    obtain ⟨idx, hidx, hs⟩ := node_of_active (Bool.eq_true_of_not_eq_false h)
    exact ⟨_, .complete hidx hs⟩
  | fail n =>
    obtain ⟨idx, hidx, hs⟩ := node_of_active (Bool.eq_true_of_not_eq_false h)
    rcases Nat.eq_zero_or_pos (w.retriesAt idx) with hr | hr
    · exact ⟨_, .fail hidx hs hr⟩
    · exact ⟨_, .retry hidx hs hr⟩
  | timeout => exact ⟨_, .timeout⟩

theorem Moves.ne {n : Nat} {old new : NodeState} (h : Moves op n old new) : new ≠ old := by
  cases h <;> nofun

/-- **A call leaves status and node states alone exactly if it is refused.** -/
theorem WellFormed.unchanged_iff (hw : w.WellFormed) (op : NodeOp) :
    SameProgress w (op.exec w) ↔ w.Refused op := by
  constructor
  · rintro ⟨hstatus, hstates⟩
    by_contra hr
    obtain ⟨w', heff⟩ := effect_of_not_refused hr
    have hexec : op.exec w = w' := congrArg Prod.snd heff.call
    rw [hexec] at hstatus hstates
    rcases heff.moved hw with ⟨rfl, rfl⟩ | ⟨n, old, new, hm, hmoved⟩
    · exact hr hstatus.symm
    · -- the node that has moved is in its old state
      have hafter := hmoved.after n
      rw [if_pos rfl, getNodeState_congr heff.workflowDef hstates, hmoved.before] at hafter
      exact hm.ne hafter.symm
  · intro h
    rw [exec_of_refused h]
    exact ⟨rfl, rfl⟩

end

/-- **Main result**: once a workflow has ended, a run of calls leaves the status and all node states
as they are, at every point, exactly if each of its calls is refused when it comes. -/
theorem terminal_iff {nodes : List Nat} {edges : List Edge} {d : WorkflowDef}
    (hd : WorkflowDef.validated nodes edges = .ok d) (timeoutAt : Time) (maxRetries : Nat)
    (ops more : List NodeOp) :
    let w := run NodeOp.exec (new d timeoutAt maxRetries) ops
    w.status ≠ .running →
      ((∀ k, SameProgress w (run NodeOp.exec w (more.take k))) ↔
        Along NodeOp.exec Refused w more) := by
  intro w _
  have hw : w.WellFormed := (run_sound hd timeoutAt maxRetries ops).wellFormed
  have keep : ∀ w op, WellFormed w → (NodeOp.exec w op).WellFormed := fun _ op h => h.exec op
  refine prefixes_iff_along keep ?_ more hw ⟨rfl, rfl⟩
  rintro w' op hw' ⟨hstatus, hstates⟩
  rw [← hw'.unchanged_iff op]
  unfold SameProgress
  rw [hstatus, hstates]

theorem terminal_iff_sample :
    (∀ k, SameProgress (run NodeOp.exec (new .sampleSingle 10 0) [.timeout])
      (run NodeOp.exec (run NodeOp.exec (new .sampleSingle 10 0) [.timeout])
        ([NodeOp.complete 1].take k))) ↔
      Along NodeOp.exec Refused (run NodeOp.exec (new .sampleSingle 10 0) [.timeout])
        [.complete 1] := by
  have hd : WorkflowDef.validated [1] [] = .ok .sampleSingle := by decide
  exact terminal_iff hd 10 0 [.timeout] [.complete 1] (by decide)

/-- a node that is active when the workflow times out completes, and the workflow has succeeded -/
theorem success_after_timeout :
    WorkflowDef.validated [1] [] = .ok .sampleSingle ∧
      (run NodeOp.exec (new .sampleSingle 10 0) [.start 1, .timeout]).status = .failure ∧
      (run NodeOp.exec (new .sampleSingle 10 0) [.start 1, .timeout, .complete 1]).status =
        .success := by
  decide

end WorkflowInstance
end LionCore
