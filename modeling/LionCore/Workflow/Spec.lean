import LionCore.State.Workflow

/-!
# The specification of workflow execution

The transition system that the repository specifies: node transitions, transitions of the whole
workflow and the clock are separate steps, each with guards of its own.

* `WorkflowExecStep`, `WorkflowReachable`   the steps, and finite sequences of them;
* `failure_before_timeout`                  a workflow fails before its timeout only over a failed
                                            node whose retries are not below `maxRetries`;
* `success_all_completed`                   a workflow succeeds only when all nodes are completed.
-/

namespace LionCore.Spec

structure WorkflowDef where
  nodes : List Nat
  edges : List Edge

def WorkflowDef.dependencies (wf : WorkflowDef) (n : Nat) : List Nat :=
  wf.edges.filterMap fun e => if e.target = n then some e.source else none

structure WorkflowInstance where
  definition : WorkflowDef
  status : WorkflowStatus
  nodeStates : Nat → NodeState
  timeoutAt : Time
  retries : Nat → Nat

/-- maximum retries allowed per node -/
def maxRetries : Nat := 3

/-- the instance with the node `n` in the state `s` -/
def WorkflowInstance.withNode (wi : WorkflowInstance) (n : Nat) (s : NodeState) :
    WorkflowInstance :=
  { wi with nodeStates := fun m => if m = n then s else wi.nodeStates m }

/-- the number of nodes that wait -/
def WorkflowInstance.pendingCount (wi : WorkflowInstance) : Nat :=
  wi.definition.nodes.countP fun n => wi.nodeStates n = .pending

/-- the number of nodes that are active -/
def WorkflowInstance.activeCount (wi : WorkflowInstance) : Nat :=
  wi.definition.nodes.countP fun n => wi.nodeStates n = .active

inductive WorkflowExecStep : Time → WorkflowInstance → Time → WorkflowInstance → Prop
  | startNode {now : Time} {wi : WorkflowInstance} {n : Nat} (hn : n ∈ wi.definition.nodes)
      (hr : wi.status = .running) (hs : wi.nodeStates n = .pending)
      (hdeps :
        (wi.definition.dependencies n).all (fun dep => wi.nodeStates dep = .completed) = true) :
      WorkflowExecStep now wi now (wi.withNode n .active)
  | completeNode {now : Time} {wi : WorkflowInstance} {n : Nat} (hn : n ∈ wi.definition.nodes)
      (hr : wi.status = .running) (hs : wi.nodeStates n = .active) :
      WorkflowExecStep now wi now (wi.withNode n .completed)
  | failNode {now : Time} {wi : WorkflowInstance} {n : Nat} (hn : n ∈ wi.definition.nodes)
      (hr : wi.status = .running) (hs : wi.nodeStates n = .active) :
      WorkflowExecStep now wi now (wi.withNode n .failed)
  | retryNode {now : Time} {wi : WorkflowInstance} {n : Nat} (hn : n ∈ wi.definition.nodes)
      (hr : wi.status = .running) (hs : wi.nodeStates n = .active) (hretry : wi.retries n > 0) :
      WorkflowExecStep now wi now { wi.withNode n .pending with
        retries := fun m => if m = n then wi.retries n - 1 else wi.retries m }
  | workflowComplete {now : Time} {wi : WorkflowInstance} (hr : wi.status = .running)
      (hall : wi.definition.nodes.all (fun n => wi.nodeStates n = .completed) = true) :
      WorkflowExecStep now wi now { wi with status := .success }
  | workflowFail {now : Time} {wi : WorkflowInstance} {n : Nat} (hn : n ∈ wi.definition.nodes)
      (hr : wi.status = .running) (hs : wi.nodeStates n = .failed)
      (hretries : wi.retries n ≥ maxRetries) :
      WorkflowExecStep now wi now { wi with status := .failure }
  | timeTick {now : Time} {wi : WorkflowInstance} (hr : wi.status = .running)
      (hlt : now < wi.timeoutAt) : WorkflowExecStep now wi (now + 1) wi
  | timeout {now : Time} {wi : WorkflowInstance} (hge : now ≥ wi.timeoutAt)
      (hr : wi.status = .running) : WorkflowExecStep now wi now { wi with status := .failure }

inductive WorkflowReachable : Time → WorkflowInstance → Time → WorkflowInstance → Prop
  | refl (t : Time) (wi : WorkflowInstance) : WorkflowReachable t wi t wi
  | step {t t' t'' : Time} {wi wi' wi'' : WorkflowInstance} (first : WorkflowExecStep t wi t' wi')
      (rest : WorkflowReachable t' wi' t'' wi'') : WorkflowReachable t wi t'' wi''

/-! ## what an execution can lead to -/

section
variable {t t' : Time} {wi wi' : WorkflowInstance}

theorem WorkflowReachable.single (h : WorkflowExecStep t wi t' wi') :
    WorkflowReachable t wi t' wi' :=
  .step h (.refl t' wi')

theorem WorkflowExecStep.running (h : WorkflowExecStep t wi t' wi') : wi.status = .running := by
  cases h <;> assumption

theorem WorkflowExecStep.time_le (h : WorkflowExecStep t wi t' wi') : t ≤ t' := by
  cases h with
  | timeTick => exact Nat.le_succ t
  | _ => exact le_rfl

theorem WorkflowReachable.time_le (h : WorkflowReachable t wi t' wi') : t ≤ t' := by
  induction h with
  | refl => exact le_rfl
  | step first _ ih => exact first.time_le.trans ih

/-- an ended workflow stays as it is -/
theorem WorkflowReachable.ended (h : WorkflowReachable t wi t' wi') (hr : wi.status ≠ .running) :
    wi' = wi := by
  cases h with
  | refl => rfl
  | step first _ => exact absurd first.running hr

/-- **Before the timeout a workflow fails only over a failed node with `maxRetries` retries.** -/
theorem failure_before_timeout (h : WorkflowReachable t wi t' wi') (hr : wi.status = .running)
    (hf : wi'.status = .failure) (hlt : t' < wi.timeoutAt) :
    ∃ n, wi'.nodeStates n = .failed ∧ wi'.retries n ≥ maxRetries := by
  induction h with
  | refl =>
    rw [hr] at hf
    cases hf
  | step first rest ih =>
    cases first with
    | startNode | completeNode | failNode | retryNode | timeTick => exact ih hr hf hlt
    | workflowComplete =>
      rw [rest.ended nofun] at hf
      cases hf
    | workflowFail hn _ hs hretries =>
      rw [rest.ended nofun]
      exact ⟨_, hs, hretries⟩
    | timeout hge => exact absurd (hge.trans rest.time_le) (Nat.not_le.mpr hlt)

/-- **A workflow succeeds only when all nodes are completed.** -/
theorem success_all_completed (h : WorkflowReachable t wi t' wi') (hr : wi.status = .running)
    (hs : wi'.status = .success) :
    ∀ n ∈ wi'.definition.nodes, wi'.nodeStates n = .completed := by
  induction h with
  | refl =>
    rw [hr] at hs
    cases hs
  | step first rest ih =>
    cases first with
    | startNode | completeNode | failNode | retryNode | timeTick => exact ih hr hs
    | workflowComplete _ hall =>
      rw [rest.ended nofun]
      exact fun n hn => of_decide_eq_true (List.all_eq_true.mp hall n hn)
    | workflowFail | timeout =>
      rw [rest.ended nofun] at hs
      cases hs

end

end LionCore.Spec
