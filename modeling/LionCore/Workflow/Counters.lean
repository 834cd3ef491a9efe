import LionCore.Workflow.Progress

/-!
# The counters and the status tell the truth

* `callDebug`      a call in a debug build, which gives nothing back if it panics;
* `Verdict`        what the status says about the nodes;
* `Truthful`       so do the counters;
* `run_truthful`   **main result**: after every run they do, no call panics in a debug build, and
                   what a call that is rejected gives back is right and all it does.
-/

namespace LionCore
open Base

namespace WorkflowInstance

/-! ## debug builds -/

section
variable (w : WorkflowInstance)

/-- `debug_assert!` on the counter of the state that is left -/
def leaveDebug (old : NodeState) : Option WorkflowInstance :=
  if !old.isCompleted && w.counter old = 0 then none else some (w.leave old)

/-- `+= 1` on the counter of the state that is entered; it must not overflow -/
def enterDebug (new : NodeState) : Option WorkflowInstance :=
  if !new.isCompleted && w.counter new + 1 ≥ u32Size then none else some (w.enter new)

def transitionDebug (idx : Nat) (newState : NodeState) : Option WorkflowInstance := do
  let left ← w.leaveDebug (w.stateAt idx)
  let entered ← left.enterDebug newState
  return { entered with nodeStates := w.nodeStates.set idx newState }

variable (n : Nat)

def startNodeDebug : Option (Except WorkflowError Unit × WorkflowInstance) :=
  match w.workflowDef.requireNode n with
  | .error e => some (.error e, w)
  | .ok idx =>
    if !(w.stateAt idx).isPending then
      some (.error (.invalidTransition n (w.stateAt idx) .active), w)
    else if !w.dependenciesSatisfied n then
      some (.error (.dependenciesNotSatisfied n (w.unsatisfied idx)), w)
    else do
      let w' ← w.transitionDebug idx .active
      return (.ok (), w')

def completeNodeDebug : Option (Except WorkflowError Unit × WorkflowInstance) :=
  match w.workflowDef.requireNode n with
  | .error e => some (.error e, w)
  | .ok idx =>
    if !(w.stateAt idx).isActive then
      some (.error (.invalidTransition n (w.stateAt idx) .completed), w)
    else do
      let w' ← w.transitionDebug idx .completed
      return (.ok (), w'.updateWorkflowStatus)

def failNodeDebug : Option (Except WorkflowError Unit × WorkflowInstance) :=
  match w.workflowDef.requireNode n with
  | .error e => some (.error e, w)
  | .ok idx =>
    if !(w.stateAt idx).isActive then
      some (.error (.invalidTransition n (w.stateAt idx) .failed), w)
    else if w.retriesAt idx > 0 then do
      let w' ← w.transitionDebug idx .pending
      return (.ok (), { w' with retries := w.retries.set idx (w.retriesAt idx - 1) })
    else do
      let w' ← w.transitionDebug idx .failed
      return (.ok (), { w' with status := .failure })

end

/-- the call in a debug build -/
def callDebug (w : WorkflowInstance) :
    NodeOp → Option (Except WorkflowError Unit × WorkflowInstance)
  | .start n => w.startNodeDebug n
  | .complete n => w.completeNodeDebug n
  | .fail n => w.failNodeDebug n
  | .timeout => some (.ok (), w.applyTimeout)

section
variable {w w' : WorkflowInstance} {op : NodeOp} {n idx : Nat}

/-- a transition leaves a state that a node is counted in -/
theorem Sound.counter_pos (h : w.Sound) (hsmall : w.workflowDef.nodes.length < u32Size)
    (hidx : w.workflowDef.nodeIndex n = some idx) (hs : w.stateAt idx ≠ .completed) :
    0 < w.counter (w.stateAt idx) := by
  have hn := h.wellFormed.faithful.nodeIndex_isSome_iff.mp ⟨idx, hidx⟩
  rw [← getNodeState_at hidx] at hs ⊢
  exact Nat.pos_of_ne_zero (h.counter_ne_zero hsmall hn hs)

/-- and one more node can be counted in the state it enters -/
theorem Sound.counter_room (h : w.Sound) (hsmall : w.workflowDef.nodes.length < u32Size)
    (hidx : w.workflowDef.nodeIndex n = some idx) (new : NodeState) (hs : new ≠ .completed) :
    (w.leave (w.stateAt idx)).counter new + 1 < u32Size := by
  have hlt : idx < w.nodeStates.length := h.wellFormed.states ▸ h.wellFormed.faithful.index_lt hidx
  have hsize : w.nodeStates.length < u32Size := h.wellFormed.states ▸ hsmall
  -- after the transition the nodes in the new state are some of all nodes
  have hmax : (w.transition idx new).nodeStates.count new ≤ w.nodeStates.length :=
    List.count_le_length.trans List.length_set.le
  rw [count_transition hlt, if_pos rfl] at hmax
  have hct := (h.tally.counts new hs).2 hsize
  rw [counter_leave]
  split at hmax <;> split <;> first | contradiction | omega

/-- **While the nodes can be counted, no assertion of a transition fails.** -/
theorem Sound.transitionDebug_eq (h : w.Sound) (hsmall : w.workflowDef.nodes.length < u32Size)
    (hidx : w.workflowDef.nodeIndex n = some idx) (new : NodeState) :
    w.transitionDebug idx new = some (w.transition idx new) := by
  have hleave : w.leaveDebug (w.stateAt idx) = some (w.leave (w.stateAt idx)) := by
    unfold leaveDebug
    rw [if_neg]
    intro hfire
    obtain ⟨hopen, hzero⟩ := (Bool.and_eq_true _ _).mp hfire
    have hpos := h.counter_pos hsmall hidx (by simpa [NodeState.isCompleted] using hopen)
    exact hpos.ne' (of_decide_eq_true hzero)
  have henter : (w.leave (w.stateAt idx)).enterDebug new =
      some ((w.leave (w.stateAt idx)).enter new) := by
    unfold enterDebug
    rw [if_neg]
    intro hfire
    obtain ⟨hopen, hfull⟩ := (Bool.and_eq_true _ _).mp hfire
    have hroom := h.counter_room hsmall hidx new
      (by simpa [NodeState.isCompleted] using hopen)
    exact Nat.not_le.mpr hroom (of_decide_eq_true hfull)
  unfold transitionDebug
  rw [hleave, Option.bind_eq_bind, Option.bind_some, henter]
  rfl

theorem Sound.callDebug_eq (h : w.Sound) (hsmall : w.workflowDef.nodes.length < u32Size)
    (op : NodeOp) : w.callDebug op = some (op.call w) := by
  have hmove := fun n idx (hidx : w.workflowDef.nodeIndex n = some idx) =>
    h.transitionDebug_eq hsmall hidx
  cases op with
  | start n =>
    show w.startNodeDebug n = some (w.startNode n)
    unfold startNodeDebug
    cases hidx : w.workflowDef.nodeIndex n with
    | none => rw [requireNode_none hidx, (call_absent hidx).1]
    | some idx =>
      rw [requireNode_some hidx, startNode_at hidx]
      by_cases hs : w.stateAt idx = .pending
      · cases hdeps : w.dependenciesSatisfied n <;> simp [hs, hmove n idx hidx, NodeState.isPending]
      · simp [hs, NodeState.isPending]
  | complete n =>
    show w.completeNodeDebug n = some (w.completeNode n)
    unfold completeNodeDebug
    cases hidx : w.workflowDef.nodeIndex n with
    | none => rw [requireNode_none hidx, (call_absent hidx).2.1]
    | some idx =>
      rw [requireNode_some hidx, completeNode_at hidx]
      by_cases hs : w.stateAt idx = .active <;> simp [hs, hmove n idx hidx, NodeState.isActive]
  | fail n =>
    show w.failNodeDebug n = some (w.failNode n)
    unfold failNodeDebug
    cases hidx : w.workflowDef.nodeIndex n with
    | none => rw [requireNode_none hidx, (call_absent hidx).2.2]
    | some idx =>
      rw [requireNode_some hidx, failNode_at hidx]
      by_cases hs : w.stateAt idx = .active
      · by_cases hr : w.retriesAt idx > 0 <;> simp [hs, hr, hmove n idx hidx, NodeState.isActive]
      · simp [hs, NodeState.isActive]
  | timeout => rfl

/-! ## the nodes in a state -/

/-- how many nodes are in the state -/
def nodesIn (w : WorkflowInstance) (s : NodeState) : Nat :=
  w.workflowDef.nodes.countP fun n => w.getNodeState n = s

theorem Sound.counter_eq (h : w.Sound) (hsmall : w.workflowDef.nodes.length < u32Size)
    {s : NodeState} (hs : s ≠ .completed) : w.counter s = w.nodesIn s := by
  rw [(h.tally.counts s hs).2 (h.wellFormed.states ▸ hsmall), h.wellFormed.nodeStates_eq]
  unfold nodesIn
  rw [List.count_eq_countP, List.countP_map]
  rfl

/-- **A call is rejected for its dependencies with those that are not completed.** -/
theorem WellFormed.unsatisfied_eq (hw : w.WellFormed)
    (hidx : w.workflowDef.nodeIndex n = some idx) :
    w.unsatisfied idx =
      (w.workflowDef.sourcesInto n).filter fun a => w.getNodeState a ≠ .completed := by
  unfold unsatisfied
  rw [hw.predecessorsAt hidx]
  apply List.filter_congr
  intro a ha
  have hdep := WorkflowDef.mem_sourcesInto.mp ha
  obtain ⟨i, hi⟩ := hw.faithful.nodeIndex_isSome_iff.mpr (hw.faithful.dependsOn_mem hdep).1
  rw [getNodeState_at hi, hi]
  simp [NodeState.isCompleted]

theorem WellFormed.rejected_deps (hw : w.WellFormed) {m : Nat} {deps : List Nat}
    (h : op.call w = (.error (.dependenciesNotSatisfied m deps), w')) :
    op = .start m ∧
      deps = (w.workflowDef.sourcesInto m).filter fun a => w.getNodeState a ≠ .completed := by
  cases op with
  | start n =>
    change w.startNode n = _ at h
    cases hidx : w.workflowDef.nodeIndex n with
    | none =>
      rw [(call_absent hidx).1] at h
      cases h
    | some idx =>
      rw [startNode_at hidx] at h
      split at h
      · split at h
        · cases h
        · cases h
          exact ⟨rfl, hw.unsatisfied_eq hidx⟩
      · cases h
  | complete n =>
    change w.completeNode n = _ at h
    cases hidx : w.workflowDef.nodeIndex n with
    | none =>
      rw [(call_absent hidx).2.1] at h
      cases h
    | some idx =>
      rw [completeNode_at hidx] at h
      split at h <;> cases h
  | fail n =>
    change w.failNode n = _ at h
    cases hidx : w.workflowDef.nodeIndex n with
    | none =>
      rw [(call_absent hidx).2.2] at h
      cases h
    | some idx =>
      rw [failNode_at hidx] at h
      split at h
      · split at h <;> cases h
      · cases h
  | timeout => cases h

theorem call_error {e : WorkflowError} (h : op.call w = (.error e, w')) : w' = w := by
  rcases call_cases w op with ⟨e', he⟩ | ⟨_, hok, _⟩
  · exact congrArg Prod.snd (h.symm.trans he)
  · rw [hok] at h
    cases h

/-! ## the status -/

/-- what success and failure of a workflow say about its nodes -/
structure Verdict (w : WorkflowInstance) : Prop where
  success : w.status = .success → ∀ n ∈ w.workflowDef.nodes, w.getNodeState n = .completed
  failure : ∀ n, w.getNodeState n = .failed → w.status = .failure

theorem Verdict.of_failure (h : w.status = .failure) : w.Verdict where
  success hs := by
    rw [h] at hs
    cases hs
  failure _ _ := h

/-- after a success there is no node left that could move -/
theorem Moved.verdict {old new : NodeState} (h : Moved w w' n old new) (hold : old ≠ .completed)
    (hnew : new ≠ .failed) (hstatus : w'.status = w.status) (hv : w.Verdict) : w'.Verdict where
  success hs :=
    absurd (h.before.symm.trans (hv.success (hstatus ▸ hs) n h.node)) hold
  failure m hm := by
    rw [h.after] at hm
    split at hm
    · exact absurd hm hnew
    · exact hstatus.trans (hv.failure m hm)

theorem Verdict.exec (hv : w.Verdict) (h : w.Sound)
    (hsmall : w.workflowDef.nodes.length < u32Size) (op : NodeOp) : (op.exec w).Verdict := by
  rcases exec_cases w op with he | he
  · rwa [he]
  generalize op.exec w = w' at he ⊢
  rcases he.status_cases h.wellFormed with ⟨n, old, new, hmoved, hold, _, hfailed, hstatus⟩ |
    ⟨n, idx, hidx, hmoved, rfl⟩ | hfail
  · exact hmoved.verdict hold hfailed hstatus hv
  · rcases (w.transition idx .completed).updateWorkflowStatus_cases with
      ⟨_, e⟩ | ⟨_, _, e⟩ | ⟨hterm, hfail, e⟩
    · rw [e]
      exact hmoved.verdict nofun nofun (transition_status _ _ _) hv
    · exact .of_failure (congrArg status e)
    · have ht := h.transition hidx .completed
      have hall := ht.all_completed (transition_workflowDef w _ _ ▸ hsmall) hterm hfail
      rw [e]
      refine ⟨fun _ => hall, fun m hm => ?_⟩
      -- a node outside of the definition counts as pending, and no other one has failed
      cases hm' : (w.transition idx .completed).workflowDef.nodeIndex m with
      | none => exact absurd (hm.symm.trans (getNodeState_absent hm')) nofun
      | some i =>
        have hdone := hall m (ht.wellFormed.faithful.nodeIndex_isSome_iff.mp ⟨i, hm'⟩)
        exact absurd (hm.symm.trans hdone) nofun
  · exact .of_failure hfail

theorem Verdict.new (d : WorkflowDef) (timeoutAt : Time) (maxRetries : Nat) :
    (WorkflowInstance.new d timeoutAt maxRetries).Verdict where
  success hs := nomatch hs
  failure n hn := by
    rw [getNodeState_new] at hn
    cases hn

end

/-- the counters are the numbers of the nodes they stand for, and the status is right -/
structure Truthful (w : WorkflowInstance) : Prop extends Verdict w where
  pending : w.pendingCount = w.nodesIn .pending
  active : w.activeCount = w.nodesIn .active
  failed : w.failedCt = w.nodesIn .failed

/-- **Main result**: as long as the nodes can be counted, counters and status are right after every
run of calls on a new instance of a validated definition; a debug build does the same without a
panic; and a call that is rejected changes nothing, and names the dependencies that are not
completed if that is why. -/
theorem run_truthful {nodes : List Nat} {edges : List Edge} {d : WorkflowDef}
    (hd : WorkflowDef.validated nodes edges = .ok d) (hsmall : d.nodes.length < u32Size)
    (timeoutAt : Time) (maxRetries : Nat) (ops : List NodeOp) :
    let w := run NodeOp.exec (new d timeoutAt maxRetries) ops
    w.Truthful ∧ ∀ op : NodeOp,
      w.callDebug op = some (op.call w) ∧
      (∀ e w', op.call w = (.error e, w') → w' = w) ∧
      ∀ n deps w', op.call w = (.error (.dependenciesNotSatisfied n deps), w') →
        op = .start n ∧ deps = (d.sourcesInto n).filter fun a => w.getNodeState a ≠ .completed := by
  intro w
  have hdef : w.workflowDef = d := run_workflowDef _ _
  have hcount : w.workflowDef.nodes.length < u32Size := hdef ▸ hsmall
  have hsound : w.Sound := run_sound hd timeoutAt maxRetries ops
  have hverdict : w.Verdict :=
    (run_invariant (f := NodeOp.exec)
      (P := fun w => w.Sound ∧ w.workflowDef.nodes.length < u32Size ∧ w.Verdict)
      (fun w op h => ⟨h.1.exec op, exec_workflowDef w op ▸ h.2.1, h.2.2.exec h.1 h.2.1 op⟩) ops
      ⟨run_sound hd timeoutAt maxRetries [], hsmall, .new d timeoutAt maxRetries⟩).2.2
  constructor
  · refine ⟨hverdict, ?_, ?_, ?_⟩
    · exact hsound.counter_eq hcount (s := .pending) nofun
    · exact hsound.counter_eq hcount (s := .active) nofun
    · exact hsound.counter_eq hcount (s := .failed) nofun
  · intro op
    refine ⟨hsound.callDebug_eq hcount op, fun e w' h => call_error h, fun n deps w' h => ?_⟩
    exact hdef ▸ hsound.wellFormed.rejected_deps h

theorem run_truthful_sample :
    (run NodeOp.exec (new .sampleChain 10 1) [.start 1, .fail 1, .start 1]).Truthful := by
  have hd : WorkflowDef.validated [2, 1] [⟨1, 2⟩] = .ok .sampleChain := by decide
  exact (run_truthful hd (by decide) 10 1 [.start 1, .fail 1, .start 1]).1

end WorkflowInstance
end LionCore
