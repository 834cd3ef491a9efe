import LionCore.Workflow.Configurations
import LionCore.Workflow.Refinement

/-!
# How much of the specification the engine covers

The specification lets a node fail with retries left, and ends a workflow in steps of its own.

* `WorkflowExecStep.node_cases`       a step of the specification moves one node, or none;
* `WorkflowExecStep.exists_of_step`   what a node of the engine does, it can do there;
* `WorkflowReachable.admissible`      what an execution comes to;
* `covered_iff`                       **main result**: the engine comes to the configurations of the
                                      specification in which failed nodes have no retries left.
-/

namespace LionCore
open Base

namespace Spec

/-- state and retries of a node -/
def WorkflowInstance.nodeAt (wi : WorkflowInstance) (n : Nat) : NodeState × Nat :=
  (wi.nodeStates n, wi.retries n)

section
variable {t t' t'' : Time} {wi wi' wi'' : WorkflowInstance} {n : Nat}

theorem WorkflowDef.mem_dependencies {wf : WorkflowDef} {a : Nat} :
    a ∈ wf.dependencies n ↔ ⟨a, n⟩ ∈ wf.edges := by
  unfold WorkflowDef.dependencies
  rw [List.mem_filterMap]
  constructor
  · intro ⟨e, he, ha⟩
    split at ha
    · rename_i hn
      cases ha
      exact hn ▸ he
    · cases ha
  · exact fun h => ⟨⟨a, n⟩, h, if_pos rfl⟩

theorem WorkflowInstance.withNode_nodeAt (wi : WorkflowInstance) (n : Nat) (s : NodeState)
    (m : Nat) : (wi.withNode n s).nodeAt m = if m = n then (s, wi.retries n) else wi.nodeAt m := by
  show ((if m = n then s else wi.nodeStates m), wi.retries m) = _
  split
  · rename_i hm
    rw [hm]
  · rfl

theorem WorkflowInstance.retried_nodeAt (wi : WorkflowInstance) (n r m : Nat) :
    ({ wi.withNode n .pending with
        retries := fun m => if m = n then r else wi.retries m } : WorkflowInstance).nodeAt m =
      if m = n then (.pending, r) else wi.nodeAt m := by
  show ((if m = n then NodeState.pending else wi.nodeStates m),
    if m = n then r else wi.retries m) = _
  split <;> rfl

theorem WorkflowReachable.trans (h : WorkflowReachable t wi t' wi')
    (h' : WorkflowReachable t' wi' t'' wi'') : WorkflowReachable t wi t'' wi'' := by
  induction h with
  | refl => exact h'
  | step first _ ih => exact .step first (ih h')

theorem WorkflowExecStep.definition (h : WorkflowExecStep t wi t' wi') :
    wi'.definition = wi.definition := by
  cases h <;> rfl

/-- **A step of the specification moves one node, or none**; it starts one with its dependencies
completed. -/
theorem WorkflowExecStep.node_cases (h : WorkflowExecStep t wi t' wi') :
    wi'.nodeAt = wi.nodeAt ∨ ∃ n ∈ wi.definition.nodes, ∃ b, NodeMove (wi.nodeAt n) b ∧
      ((wi.nodeAt n).1 = .pending →
        ∀ a, ⟨a, n⟩ ∈ wi.definition.edges → (wi.nodeAt a).1 = .completed) ∧
      ∀ m, wi'.nodeAt m = if m = n then b else wi.nodeAt m := by
  have hat : ∀ {n s}, wi.nodeStates n = s → wi.nodeAt n = (s, wi.retries n) :=
    fun hs => Prod.ext hs rfl
  -- what is active is not started
  have hactive : ∀ {n}, wi.nodeStates n = .active → (wi.nodeAt n).1 = .pending →
      ∀ a, ⟨a, n⟩ ∈ wi.definition.edges → (wi.nodeAt a).1 = .completed := by
    intro n hs hp
    cases hs.symm.trans hp
  cases h with
  | @startNode n hn _ hs hdeps =>
    have hmove : NodeMove (wi.nodeAt n) (.active, wi.retries n) := by
      rw [hat hs]
      exact .start (wi.retries n)
    refine Or.inr ⟨n, hn, _, hmove, fun _ a ha => ?_, wi.withNode_nodeAt n .active⟩
    exact of_decide_eq_true (List.all_eq_true.mp hdeps a (WorkflowDef.mem_dependencies.mpr ha))
  | @completeNode n hn _ hs =>
    have hmove : NodeMove (wi.nodeAt n) (.completed, wi.retries n) := by
      rw [hat hs]
      exact .complete (wi.retries n)
    exact Or.inr ⟨n, hn, _, hmove, hactive hs, wi.withNode_nodeAt n .completed⟩
  | @failNode n hn _ hs =>
    have hmove : NodeMove (wi.nodeAt n) (.failed, wi.retries n) := by
      rw [hat hs]
      exact .fail (wi.retries n)
    exact Or.inr ⟨n, hn, _, hmove, hactive hs, wi.withNode_nodeAt n .failed⟩
  | @retryNode n hn _ hs hretry =>
    have hmove : NodeMove (wi.nodeAt n) (.pending, wi.retries n - 1) := by
      rw [hat hs, ← Nat.sub_add_cancel hretry]
      exact .retry (wi.retries n - 1)
    exact Or.inr ⟨n, hn, _, hmove, hactive hs, wi.retried_nodeAt n _⟩
  | workflowComplete | workflowFail | timeTick | timeout => exact Or.inl rfl

/-- **What a node of the engine does, it can do in the specification**, and the workflow runs on. -/
theorem WorkflowExecStep.exists_of_step {op : NodeOp} {b : NodeState × Nat}
    (hr : wi.status = .running) (hn : n ∈ wi.definition.nodes)
    (hstep : NodeStep op n (wi.nodeAt n) b)
    (hdeps : op = .start n → ∀ a, ⟨a, n⟩ ∈ wi.definition.edges → wi.nodeStates a = .completed) :
    ∃ wi', WorkflowExecStep t wi t wi' ∧ wi'.status = .running ∧
      ∀ m, wi'.nodeAt m = if m = n then b else wi.nodeAt m := by
  generalize hx : wi.nodeAt n = x at hstep
  have hs : wi.nodeStates n = x.1 := congrArg Prod.fst hx
  have hretries : wi.retries n = x.2 := congrArg Prod.snd hx
  have hmoved : ∀ s m, (wi.withNode n s).nodeAt m = if m = n then (s, x.2) else wi.nodeAt m := by
    intro s m
    rw [wi.withNode_nodeAt, hretries]
  cases hstep with
  | start =>
    refine ⟨_, .startNode hn hr hs (List.all_eq_true.mpr fun a ha => ?_), hr, hmoved .active⟩
    exact decide_eq_true (hdeps rfl a (WorkflowDef.mem_dependencies.mp ha))
  | complete => exact ⟨_, .completeNode hn hr hs, hr, hmoved .completed⟩
  | retry _ r =>
    refine ⟨_, .retryNode hn hr hs (hretries ▸ Nat.succ_pos r), hr, fun m => ?_⟩
    rw [wi.retried_nodeAt, hretries]
    rfl
  | fail => exact ⟨_, .failNode hn hr hs, hr, hmoved .failed⟩

/-- **What an execution comes to is admissible.** -/
theorem WorkflowReachable.admissible {d : LionCore.WorkflowDef} {r : Nat}
    (hreach : WorkflowReachable t wi t' wi') (hdef : wi.definition = ⟨d.nodes, d.edges⟩)
    (h : LionCore.WorkflowInstance.Admissible d r wi.nodeAt) :
    LionCore.WorkflowInstance.Admissible d r wi'.nodeAt := by
  induction hreach with
  | refl => exact h
  | @step _ _ _ wi wi₁ _ first _ ih =>
    apply ih (first.definition.trans hdef)
    rcases first.node_cases with he | ⟨n, hn, b, hmove, hdeps, hat⟩
    · rwa [he]
    · rw [hdef] at hn hdeps
      exact h.step hn hmove hdeps hat

end
end Spec

namespace WorkflowInstance

/-- every run of the engine is followed by the specification, which never ends the workflow -/
theorem run_covered {d : WorkflowDef} (hd : d.Faithful) (timeoutAt : Time) (maxRetries : Nat)
    (now : Time) (ops : List NodeOp) :
    ∃ wi, Spec.WorkflowReachable now (new d timeoutAt maxRetries).toSpec now wi ∧
      wi.status = .running ∧ wi.definition = ⟨d.nodes, d.edges⟩ ∧
      wi.nodeAt = (run NodeOp.exec (new d timeoutAt maxRetries) ops).nodeAt := by
  induction ops using List.reverseRecOn with
  | nil => exact ⟨_, .refl now _, rfl, rfl, rfl⟩
  | append_singleton ops op ih =>
    obtain ⟨wi, hreach, hr, hdef, hat⟩ := ih
    have hw : (run NodeOp.exec (new d timeoutAt maxRetries) ops).WellFormed :=
      run_wellFormed hd timeoutAt maxRetries ops
    have hwdef : (run NodeOp.exec (new d timeoutAt maxRetries) ops).workflowDef = d :=
      run_workflowDef (new d timeoutAt maxRetries) ops
    rw [run_append]
    show ∃ wi : Spec.WorkflowInstance, _ ∧ _ ∧ _ ∧ wi.nodeAt = (op.exec _).nodeAt
    generalize run NodeOp.exec (new d timeoutAt maxRetries) ops = w at *
    subst hwdef
    rcases exec_cases w op with he | he
    · rw [he]
      exact ⟨wi, hreach, hr, hdef, hat⟩
    rcases he.at_node hw with ⟨_, ht⟩ | ⟨n, hn, b, hstep, hafter⟩
    · rw [ht]
      exact ⟨wi, hreach, hr, hdef, hat⟩
    obtain ⟨wi', hfirst, hr', hat'⟩ := Spec.WorkflowExecStep.exists_of_step (t := now) hr
      (hdef ▸ hn) (hat ▸ hstep) (by
        rintro rfl a ha
        rw [hdef] at ha
        have hdone := (hw.dependenciesSatisfied_iff n).mp he.satisfied a ha
        exact (congrArg Prod.fst (congrFun hat a)).trans hdone)
    refine ⟨wi', hreach.trans (.single hfirst), hr', hfirst.definition.trans hdef, ?_⟩
    funext m
    rw [hat' m, hafter m, hat]

/-- **Main result**: over every validated definition, the engine comes to exactly those
configurations of nodes and retries that an execution of the specification comes to and in which
failed nodes have no retries left. -/
theorem covered_iff {nodes : List Nat} {edges : List Edge} {d : WorkflowDef}
    (hd : WorkflowDef.validated nodes edges = .ok d) (timeoutAt : Time) (maxRetries : Nat)
    (now : Time) (c : Nat → NodeState × Nat) :
    (∃ ops, (run NodeOp.exec (new d timeoutAt maxRetries) ops).nodeAt = c) ↔
      (∃ later wi, Spec.WorkflowReachable now (new d timeoutAt maxRetries).toSpec later wi ∧
        wi.nodeAt = c) ∧ ∀ n, (c n).1 = .failed → (c n).2 = 0 := by
  obtain ⟨-, -, hf⟩ := WorkflowDef.validated_faithful hd
  constructor
  · rintro ⟨ops, rfl⟩
    obtain ⟨wi, hreach, -, -, hat⟩ := run_covered hf timeoutAt maxRetries now ops
    exact ⟨⟨now, wi, hreach, hat⟩, (run_consistent hf timeoutAt maxRetries ops).spent⟩
  · rintro ⟨⟨later, wi, hreach, rfl⟩, hspent⟩
    have hnew := (Consistent.new hf timeoutAt maxRetries).admissible
    have hadm := hreach.admissible (d := d) rfl hnew
    exact lead_new hf timeoutAt maxRetries (hadm.consistent hspent)

/-- the specification lets the node 1 fail with a retry left, the engine does not -/
theorem covered_iff_sample :
    let c : Nat → NodeState × Nat := fun n => if n = 1 then (.failed, 1) else (.pending, 0)
    ¬ ∃ ops, (run NodeOp.exec (new .sampleSingle 10 1) ops).nodeAt = c := by
  intro c
  have hd : WorkflowDef.validated [1] [] = .ok .sampleSingle := by decide
  rw [covered_iff hd 10 1 0 c]
  intro h
  cases h.2 1 rfl

end WorkflowInstance
end LionCore
