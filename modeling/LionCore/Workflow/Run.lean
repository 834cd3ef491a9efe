import LionCore.Base.Run
import LionCore.Workflow.Definition

/-!
# Runs of a workflow instance

* `NodeEffect`     what a call that succeeds has checked and done;
* `call_iff`       a call succeeds with exactly these effects, else it changes nothing;
* `WellFormed`     the definition is faithful and every node has a state and retries;
* `Tally`          the counters never exceed the numbers of nodes they stand for, and are equal to
                   them unless there are too many nodes for a `u32`.
-/

namespace LionCore
open Base

inductive NodeOp
  | start (n : Nat)
  | complete (n : Nat)
  | fail (n : Nat)
  | timeout
  deriving DecidableEq, Repr

namespace NodeOp

def call (w : WorkflowInstance) : NodeOp → Except WorkflowError Unit × WorkflowInstance
  | .start n => w.startNode n
  | .complete n => w.completeNode n
  | .fail n => w.failNode n
  | .timeout => (.ok (), w.applyTimeout)

/-- the instance that a call leaves, whatever it gives back -/
def exec (w : WorkflowInstance) (op : NodeOp) : WorkflowInstance := (op.call w).2

end NodeOp

namespace WorkflowInstance

/-! ## what the parts of an operation leave alone -/

section
variable (w : WorkflowInstance) (idx : Nat) (s : NodeState)

@[simp] theorem transition_workflowDef : (w.transition idx s).workflowDef = w.workflowDef := by
  unfold transition
  cases s <;> cases w.stateAt idx <;> rfl

@[simp] theorem transition_status : (w.transition idx s).status = w.status := by
  unfold transition
  cases s <;> cases w.stateAt idx <;> rfl

@[simp] theorem transition_retries : (w.transition idx s).retries = w.retries := by
  unfold transition
  cases s <;> cases w.stateAt idx <;> rfl

@[simp] theorem transition_timeoutAt : (w.transition idx s).timeoutAt = w.timeoutAt := by
  unfold transition
  cases s <;> cases w.stateAt idx <;> rfl

@[simp] theorem transition_nodeStates :
    (w.transition idx s).nodeStates = w.nodeStates.set idx s := rfl

/-- the status is all that changes, and only if nothing is pending or active -/
theorem updateWorkflowStatus_cases :
    (w.isTerminal = false ∧ w.updateWorkflowStatus = w) ∨
      (w.isTerminal = true ∧ w.hasFailure = true ∧
        w.updateWorkflowStatus = { w with status := .failure }) ∨
      (w.isTerminal = true ∧ w.hasFailure = false ∧
        w.updateWorkflowStatus = { w with status := .success }) := by
  unfold updateWorkflowStatus
  cases w.isTerminal with
  | false => exact Or.inl ⟨rfl, rfl⟩
  | true =>
    cases w.hasFailure with
    | true => exact Or.inr (Or.inl ⟨rfl, rfl, rfl⟩)
    | false => exact Or.inr (Or.inr ⟨rfl, rfl, rfl⟩)

theorem updateWorkflowStatus_eq :
    w.updateWorkflowStatus = { w with status := w.updateWorkflowStatus.status } := by
  rcases w.updateWorkflowStatus_cases with ⟨_, e⟩ | ⟨_, _, e⟩ | ⟨_, _, e⟩ <;> rw [e]

@[simp] theorem updateWorkflowStatus_workflowDef :
    w.updateWorkflowStatus.workflowDef = w.workflowDef := by
  rw [updateWorkflowStatus_eq]

@[simp] theorem updateWorkflowStatus_nodeStates :
    w.updateWorkflowStatus.nodeStates = w.nodeStates := by
  rw [updateWorkflowStatus_eq]

@[simp] theorem updateWorkflowStatus_retries : w.updateWorkflowStatus.retries = w.retries := by
  rw [updateWorkflowStatus_eq]

@[simp] theorem updateWorkflowStatus_timeoutAt :
    w.updateWorkflowStatus.timeoutAt = w.timeoutAt := by
  rw [updateWorkflowStatus_eq]

end

/-! ## effects -/

/-- what a call that succeeds has checked, and the instance it leaves -/
inductive NodeEffect (w : WorkflowInstance) : NodeOp → WorkflowInstance → Prop
  | start {n idx : Nat} (hidx : w.workflowDef.nodeIndex n = some idx)
      (hs : w.stateAt idx = .pending) (hdeps : w.dependenciesSatisfied n = true) :
      NodeEffect w (.start n) (w.transition idx .active)
  | complete {n idx : Nat} (hidx : w.workflowDef.nodeIndex n = some idx)
      (hs : w.stateAt idx = .active) :
      NodeEffect w (.complete n) (w.transition idx .completed).updateWorkflowStatus
  | retry {n idx : Nat} (hidx : w.workflowDef.nodeIndex n = some idx)
      (hs : w.stateAt idx = .active) (hr : w.retriesAt idx > 0) :
      NodeEffect w (.fail n) { w.transition idx .pending with
        retries := w.retries.set idx (w.retriesAt idx - 1) }
  | fail {n idx : Nat} (hidx : w.workflowDef.nodeIndex n = some idx)
      (hs : w.stateAt idx = .active) (hr : w.retriesAt idx = 0) :
      NodeEffect w (.fail n) { w.transition idx .failed with status := .failure }
  | timeout : NodeEffect w .timeout w.applyTimeout

/-! ### the operations at a node and elsewhere -/

section
variable {w : WorkflowInstance} {n idx : Nat}

theorem requireNode_some (h : w.workflowDef.nodeIndex n = some idx) :
    w.workflowDef.requireNode n = .ok idx := by
  unfold WorkflowDef.requireNode
  rw [h]

theorem requireNode_none (h : w.workflowDef.nodeIndex n = none) :
    w.workflowDef.requireNode n = .error (.nodeNotFound n) := by
  unfold WorkflowDef.requireNode
  rw [h]

theorem startNode_at (h : w.workflowDef.nodeIndex n = some idx) :
    w.startNode n =
      if w.stateAt idx = .pending then
        if w.dependenciesSatisfied n then (.ok (), w.transition idx .active)
        else (.error (.dependenciesNotSatisfied n (w.unsatisfied idx)), w)
      else (.error (.invalidTransition n (w.stateAt idx) .active), w) := by
  unfold startNode NodeState.isPending
  rw [requireNode_some h]
  by_cases hs : w.stateAt idx = .pending
  · cases hdeps : w.dependenciesSatisfied n <;> simp [hs]
  · simp [hs]

theorem completeNode_at (h : w.workflowDef.nodeIndex n = some idx) :
    w.completeNode n =
      if w.stateAt idx = .active then
        (.ok (), (w.transition idx .completed).updateWorkflowStatus)
      else (.error (.invalidTransition n (w.stateAt idx) .completed), w) := by
  unfold completeNode NodeState.isActive
  rw [requireNode_some h]
  by_cases hs : w.stateAt idx = .active <;> simp [hs]

theorem failNode_at (h : w.workflowDef.nodeIndex n = some idx) :
    w.failNode n =
      if w.stateAt idx = .active then
        if w.retriesAt idx > 0 then
          (.ok (), { w.transition idx .pending with
            retries := w.retries.set idx (w.retriesAt idx - 1) })
        else (.ok (), { w.transition idx .failed with status := .failure })
      else (.error (.invalidTransition n (w.stateAt idx) .failed), w) := by
  unfold failNode NodeState.isActive
  rw [requireNode_some h]
  by_cases hs : w.stateAt idx = .active <;> simp [hs]

/-- a node that is not in the definition -/
theorem call_absent (h : w.workflowDef.nodeIndex n = none) :
    w.startNode n = (.error (.nodeNotFound n), w) ∧
      w.completeNode n = (.error (.nodeNotFound n), w) ∧
      w.failNode n = (.error (.nodeNotFound n), w) := by
  unfold startNode completeNode failNode
  rw [requireNode_none h]
  exact ⟨rfl, rfl, rfl⟩

end

/-- **A call is rejected and changes nothing, or it has one of the effects.** -/
theorem call_cases (w : WorkflowInstance) (op : NodeOp) :
    (∃ e, op.call w = (.error e, w)) ∨
      ∃ w', op.call w = (.ok (), w') ∧ NodeEffect w op w' := by
  cases op with
  | start n =>
    show (∃ e, w.startNode n = (.error e, w)) ∨ ∃ w', w.startNode n = (.ok (), w') ∧ _
    cases h : w.workflowDef.nodeIndex n with
    | none => exact Or.inl ⟨_, (call_absent h).1⟩
    | some idx =>
      rw [startNode_at h]
      split
      · rename_i hs
        split
        · rename_i hdeps
          exact Or.inr ⟨_, rfl, .start h hs hdeps⟩
        · exact Or.inl ⟨_, rfl⟩
      · exact Or.inl ⟨_, rfl⟩
  | complete n =>
    show (∃ e, w.completeNode n = (.error e, w)) ∨ ∃ w', w.completeNode n = (.ok (), w') ∧ _
    cases h : w.workflowDef.nodeIndex n with
    | none => exact Or.inl ⟨_, (call_absent h).2.1⟩
    | some idx =>
      rw [completeNode_at h]
      split
      · rename_i hs
        exact Or.inr ⟨_, rfl, .complete h hs⟩
      · exact Or.inl ⟨_, rfl⟩
  | fail n =>
    show (∃ e, w.failNode n = (.error e, w)) ∨ ∃ w', w.failNode n = (.ok (), w') ∧ _
    cases h : w.workflowDef.nodeIndex n with
    | none => exact Or.inl ⟨_, (call_absent h).2.2⟩
    | some idx =>
      rw [failNode_at h]
      split
      · rename_i hs
        split
        · rename_i hr
          exact Or.inr ⟨_, rfl, .retry h hs hr⟩
        · rename_i hr
          exact Or.inr ⟨_, rfl, .fail h hs (Nat.eq_zero_of_not_pos hr)⟩
      · exact Or.inl ⟨_, rfl⟩
  | timeout => exact Or.inr ⟨_, rfl, .timeout⟩

/-- an effect is what the call does -/
theorem NodeEffect.call {w w' : WorkflowInstance} {op : NodeOp} (h : NodeEffect w op w') :
    op.call w = (.ok (), w') := by
  cases h with
  | start hidx hs hdeps =>
    refine (startNode_at hidx).trans ?_
    rw [if_pos hs, if_pos hdeps]
  | complete hidx hs =>
    refine (completeNode_at hidx).trans ?_
    rw [if_pos hs]
  | retry hidx hs hr =>
    refine (failNode_at hidx).trans ?_
    rw [if_pos hs, if_pos hr]
  | fail hidx hs hr =>
    refine (failNode_at hidx).trans ?_
    rw [if_pos hs, if_neg (Nat.not_lt.mpr hr.le)]
  | timeout => rfl

theorem call_iff {w w' : WorkflowInstance} {op : NodeOp} :
    op.call w = (.ok (), w') ↔ NodeEffect w op w' := by
  refine ⟨fun h => ?_, NodeEffect.call⟩
  rcases call_cases w op with ⟨e, he⟩ | ⟨w'', hw, heff⟩
  · rw [he] at h
    cases h
  · rw [hw] at h
    cases h
    exact heff

theorem startNode_ok {w : WorkflowInstance} {n : Nat} (h : (w.startNode n).1 = .ok ()) :
    ∃ idx, w.workflowDef.nodeIndex n = some idx ∧ w.stateAt idx = .pending ∧
      w.dependenciesSatisfied n = true := by
  have heff : NodeEffect w (.start n) (w.startNode n).2 := call_iff.mp (Prod.ext h rfl)
  generalize (w.startNode n).2 = w' at heff
  cases heff with
  | start hidx hs hdeps => exact ⟨_, hidx, hs, hdeps⟩

theorem completeNode_ok {w : WorkflowInstance} {n : Nat} (h : (w.completeNode n).1 = .ok ()) :
    ∃ idx, w.workflowDef.nodeIndex n = some idx ∧ w.stateAt idx = .active := by
  have heff : NodeEffect w (.complete n) (w.completeNode n).2 := call_iff.mp (Prod.ext h rfl)
  generalize (w.completeNode n).2 = w' at heff
  cases heff with
  | complete hidx hs => exact ⟨_, hidx, hs⟩

/-- the instance that is left: the old one, or one with an effect -/
theorem exec_cases (w : WorkflowInstance) (op : NodeOp) :
    op.exec w = w ∨ NodeEffect w op (op.exec w) := by
  unfold NodeOp.exec
  rcases call_cases w op with ⟨e, h⟩ | ⟨w', h, heff⟩
  · rw [h]
    exact Or.inl rfl
  · rw [h]
    exact Or.inr heff

/-! ## the shape of an instance -/

/-- every node has a state and retries -/
structure WellFormed (w : WorkflowInstance) : Prop where
  faithful : w.workflowDef.Faithful
  states : w.nodeStates.length = w.workflowDef.nodes.length
  retries : w.retries.length = w.workflowDef.nodes.length

theorem WellFormed.new {d : WorkflowDef} (h : d.Faithful) (timeoutAt : Time) (maxRetries : Nat) :
    (WorkflowInstance.new d timeoutAt maxRetries).WellFormed :=
  ⟨h, List.length_replicate, List.length_replicate⟩

theorem WellFormed.transition {w : WorkflowInstance} (h : w.WellFormed) (idx : Nat)
    (s : NodeState) : (w.transition idx s).WellFormed := by
  refine ⟨?_, ?_, ?_⟩
  · rw [transition_workflowDef]
    exact h.faithful
  · rw [transition_workflowDef, transition_nodeStates, List.length_set, h.states]
  · rw [transition_workflowDef, transition_retries, h.retries]

theorem NodeEffect.workflowDef {w w' : WorkflowInstance} {op : NodeOp} (h : NodeEffect w op w') :
    w'.workflowDef = w.workflowDef := by
  cases h <;> simp [applyTimeout]

theorem NodeEffect.wellFormed {w w' : WorkflowInstance} {op : NodeOp} (h : NodeEffect w op w')
    (hw : w.WellFormed) : w'.WellFormed := by
  refine ⟨h.workflowDef ▸ hw.faithful, ?_, ?_⟩
  · rw [h.workflowDef, ← hw.states]
    cases h <;> simp [applyTimeout]
  · rw [h.workflowDef, ← hw.retries]
    cases h <;> simp [applyTimeout]

theorem WellFormed.exec {w : WorkflowInstance} (hw : w.WellFormed) (op : NodeOp) :
    (op.exec w).WellFormed := by
  rcases exec_cases w op with h | h
  · rwa [h]
  · exact h.wellFormed hw

theorem exec_workflowDef (w : WorkflowInstance) (op : NodeOp) :
    (op.exec w).workflowDef = w.workflowDef := by
  rcases exec_cases w op with h | h
  · rw [h]
  · exact h.workflowDef

theorem run_workflowDef (w : WorkflowInstance) (ops : List NodeOp) :
    (run NodeOp.exec w ops).workflowDef = w.workflowDef :=
  run_invariant (P := fun w' => w'.workflowDef = w.workflowDef)
    (fun w' op h => (exec_workflowDef w' op).trans h) ops rfl

/-! ## the states of the nodes -/

theorem getNodeState_new (d : WorkflowDef) (timeoutAt : Time) (maxRetries n : Nat) :
    (WorkflowInstance.new d timeoutAt maxRetries).getNodeState n = .pending := by
  unfold getNodeState stateAt WorkflowInstance.new
  split
  · rw [List.getD_eq_getElem?_getD, List.getElem?_replicate]
    split <;> rfl
  · rfl

section
variable {w w' : WorkflowInstance} {n idx : Nat}

theorem getNodeState_at (h : w.workflowDef.nodeIndex n = some idx) :
    w.getNodeState n = w.stateAt idx := by
  unfold getNodeState
  rw [h]

theorem stateAt_eq (h : idx < w.nodeStates.length) : w.stateAt idx = w.nodeStates[idx] := by
  unfold stateAt
  rw [List.getD_eq_getElem?_getD, List.getElem?_eq_getElem h]
  rfl

theorem stateAt_mem (h : idx < w.nodeStates.length) : w.stateAt idx ∈ w.nodeStates :=
  stateAt_eq h ▸ List.getElem_mem h

theorem getNodeState_absent (h : w.workflowDef.nodeIndex n = none) :
    w.getNodeState n = .pending := by
  unfold getNodeState
  rw [h]

theorem getNodeState_eq (w : WorkflowInstance) (m : Nat) : w.getNodeState m =
    (w.workflowDef.nodeIndex m).elim .pending fun j => w.nodeStates.getD j .pending := by
  unfold getNodeState
  cases w.workflowDef.nodeIndex m <;> rfl

theorem getNodeState_congr (hdef : w'.workflowDef = w.workflowDef)
    (hstates : w'.nodeStates = w.nodeStates) (m : Nat) : w'.getNodeState m = w.getNodeState m := by
  rw [getNodeState_eq, getNodeState_eq, hdef, hstates]

theorem WellFormed.getNodeState_set (hw : w.WellFormed) (hdef : w'.workflowDef = w.workflowDef)
    {s : NodeState} (hstates : w'.nodeStates = w.nodeStates.set idx s)
    (hidx : w.workflowDef.nodeIndex n = some idx) (m : Nat) :
    w'.getNodeState m = if m = n then s else w.getNodeState m := by
  have hlt : idx < w.nodeStates.length := hw.states ▸ hw.faithful.index_lt hidx
  rw [getNodeState_eq, getNodeState_eq, hdef, hstates]
  exact hw.faithful.elim_set _ _ _ hidx hlt m

theorem WellFormed.nodeStates_eq (hw : w.WellFormed) :
    w.nodeStates = w.workflowDef.nodes.map w.getNodeState := by
  refine List.ext_getElem (by rw [List.length_map, hw.states]) fun i hi hi' => ?_
  have hlt : i < w.workflowDef.nodes.length := hw.states ▸ hi
  have hidx : w.workflowDef.nodeIndex w.workflowDef.nodes[i] = some i :=
    (hw.faithful.index _ i).mpr (List.getElem?_eq_getElem hlt)
  rw [List.getElem_map, getNodeState_at hidx, stateAt_eq hi]

/-! ### the retries of a node -/

theorem getRetries_eq (w : WorkflowInstance) (m : Nat) : w.getRetries m =
    (w.workflowDef.nodeIndex m).elim 0 fun j => w.retries.getD j 0 := by
  unfold getRetries
  cases w.workflowDef.nodeIndex m <;> rfl

theorem getRetries_at (h : w.workflowDef.nodeIndex n = some idx) :
    w.getRetries n = w.retriesAt idx := by
  unfold getRetries
  rw [h]

theorem getRetries_congr (hdef : w'.workflowDef = w.workflowDef) (hr : w'.retries = w.retries) :
    w'.getRetries = w.getRetries := by
  funext m
  rw [getRetries_eq, getRetries_eq, hdef, hr]

theorem WellFormed.getRetries_set (hw : w.WellFormed) (hdef : w'.workflowDef = w.workflowDef)
    {r : Nat} (hr : w'.retries = w.retries.set idx r)
    (hidx : w.workflowDef.nodeIndex n = some idx) :
    w'.getRetries = fun m => if m = n then r else w.getRetries m := by
  have hlt : idx < w.retries.length := hw.retries ▸ hw.faithful.index_lt hidx
  funext m
  rw [getRetries_eq, getRetries_eq, hdef, hr]
  exact hw.faithful.elim_set _ _ _ hidx hlt m

/-! ### the dependencies of a node -/

/-- the one predecessor row that a start looks at -/
theorem WellFormed.predecessorsAt (hw : w.WellFormed) (h : w.workflowDef.nodeIndex n = some idx) :
    w.predecessorsAt idx = w.workflowDef.sourcesInto n := by
  unfold WorkflowInstance.predecessorsAt
  rw [List.getD_eq_getElem?_getD, hw.faithful.predecessors, (hw.faithful.index n idx).mp h]
  rfl

/-- **The guard of a start asks for all direct predecessors.** -/
theorem WellFormed.dependenciesSatisfied_iff (hw : w.WellFormed) (n : Nat) :
    w.dependenciesSatisfied n = true ↔
      ∀ a, w.workflowDef.DependsOn n a → w.getNodeState a = .completed := by
  unfold dependenciesSatisfied
  cases h : w.workflowDef.nodeIndex n with
  | none =>
    refine iff_of_true rfl fun a ha => ?_
    obtain ⟨i, hi⟩ := hw.faithful.nodeIndex_isSome_iff.mpr (hw.faithful.dependsOn_mem ha).2
    rw [hi] at h
    cases h
  | some idx =>
    show ((w.predecessorsAt idx).all _) = true ↔ _
    rw [List.all_eq_true, hw.predecessorsAt h]
    apply forall_congr'
    intro a
    rw [WorkflowDef.mem_sourcesInto]
    apply imp_congr_right
    intro ha
    obtain ⟨i, hi⟩ := hw.faithful.nodeIndex_isSome_iff.mpr (hw.faithful.dependsOn_mem ha).1
    rw [getNodeState_at hi, hi]
    exact decide_eq_true_iff

end

/-- the transitions of a node that an operation can make -/
inductive Moves : NodeOp → Nat → NodeState → NodeState → Prop
  | start (n : Nat) : Moves (.start n) n .pending .active
  | complete (n : Nat) : Moves (.complete n) n .active .completed
  | retry (n : Nat) : Moves (.fail n) n .active .pending
  | fail (n : Nat) : Moves (.fail n) n .active .failed

/-- the node `n` has gone from `old` to `new`, all others stay where they are -/
structure Moved (w w' : WorkflowInstance) (n : Nat) (old new : NodeState) : Prop where
  node : n ∈ w.workflowDef.nodes
  before : w.getNodeState n = old
  after : ∀ m, w'.getNodeState m = if m = n then new else w.getNodeState m

section
variable {w w' : WorkflowInstance} {n idx : Nat}

theorem WellFormed.moved (hw : w.WellFormed) {old new : NodeState}
    (hidx : w.workflowDef.nodeIndex n = some idx) (hs : w.stateAt idx = old)
    (hdef : w'.workflowDef = w.workflowDef)
    (hstates : w'.nodeStates = w.nodeStates.set idx new) : Moved w w' n old new :=
  ⟨hw.faithful.nodeIndex_isSome_iff.mp ⟨idx, hidx⟩, (getNodeState_at hidx).trans hs,
    hw.getNodeState_set hdef hstates hidx⟩

/-- **An effect moves one node, or it is a timeout.** -/
theorem NodeEffect.moved {op : NodeOp} (h : NodeEffect w op w') (hw : w.WellFormed) :
    (op = .timeout ∧ w' = w.applyTimeout) ∨
      ∃ n old new, Moves op n old new ∧ Moved w w' n old new := by
  cases h with
  | start hidx hs hdeps =>
    exact Or.inr ⟨_, _, _, .start _, hw.moved hidx hs (by simp) (by simp)⟩
  | complete hidx hs =>
    exact Or.inr ⟨_, _, _, .complete _, hw.moved hidx hs (by simp) (by simp)⟩
  | retry hidx hs hr => exact Or.inr ⟨_, _, _, .retry _, hw.moved hidx hs (by simp) (by simp)⟩
  | fail hidx hs hr => exact Or.inr ⟨_, _, _, .fail _, hw.moved hidx hs (by simp) (by simp)⟩
  | timeout => exact Or.inl ⟨rfl, rfl⟩

theorem NodeEffect.satisfied (h : NodeEffect w (.start n) w') :
    w.dependenciesSatisfied n = true := by
  cases h with
  | start hidx hs hdeps => exact hdeps

end

/-! ## the counters -/

/-- the counter of a state; completed nodes are not counted -/
def counter (w : WorkflowInstance) : NodeState → Nat
  | .pending => w.pendingCt
  | .active => w.activeCt
  | .failed => w.failedCt
  | .completed => 0

/-- of `n` nodes `k` are in a state, and its counter says `c` -/
def Counts (n c k : Nat) : Prop := c ≤ k ∧ (n < u32Size → c = k)

/-- one node leaves the state, one node enters it, or both -/
theorem Counts.move {n c k : Nat} (h : Counts n c k) {leaves enters : Prop} [Decidable leaves]
    [Decidable enters] (hpos : leaves → 0 < k)
    (hmax : k - (if leaves then 1 else 0) + (if enters then 1 else 0) ≤ n) :
    Counts n
      (if enters then ((if leaves then c - 1 else c) + 1) % u32Size
        else if leaves then c - 1 else c)
      (k - (if leaves then 1 else 0) + (if enters then 1 else 0)) := by
  unfold Counts u32Size at *
  by_cases hl : leaves
  · have hk := hpos hl
    simp only [if_pos hl] at hmax ⊢
    split at hmax <;> split <;> first | contradiction | omega
  · simp only [if_neg hl] at hmax ⊢
    split at hmax <;> split <;> first | contradiction | omega

structure Tally (w : WorkflowInstance) : Prop where
  counts : ∀ s, s ≠ .completed → Counts w.nodeStates.length (w.counter s) (w.nodeStates.count s)

section
variable {w : WorkflowInstance} {idx : Nat}

theorem counter_leave (w : WorkflowInstance) (old s : NodeState) :
    (w.leave old).counter s = if s = old then w.counter s - 1 else w.counter s := by
  cases s <;> cases old <;> rfl

theorem counter_enter (w : WorkflowInstance) (new : NodeState) {s : NodeState}
    (hs : s ≠ .completed) :
    (w.enter new).counter s = if s = new then (w.counter s + 1) % u32Size else w.counter s := by
  cases s <;> cases new <;> first | rfl | exact absurd rfl hs

theorem counter_transition (w : WorkflowInstance) (idx : Nat) (new : NodeState) (s : NodeState) :
    (w.transition idx new).counter s = ((w.leave (w.stateAt idx)).enter new).counter s := by
  cases s <;> rfl

/-- how many nodes are in a state after a transition -/
theorem count_transition (hlt : idx < w.nodeStates.length) (new s : NodeState) :
    (w.transition idx new).nodeStates.count s =
      w.nodeStates.count s - (if s = w.stateAt idx then 1 else 0) + (if s = new then 1 else 0) := by
  rw [transition_nodeStates, List.count_set hlt, ← stateAt_eq hlt]
  simp only [beq_iff_eq, eq_comm (b := s)]

theorem Tally.transition (hw : w.Tally) (hlt : idx < w.nodeStates.length) (new : NodeState) :
    (w.transition idx new).Tally := by
  refine ⟨fun s hs => ?_⟩
  have hmax : (w.transition idx new).nodeStates.count s ≤ w.nodeStates.length :=
    List.count_le_length.trans List.length_set.le
  have hpos : s = w.stateAt idx → 0 < w.nodeStates.count s := fun e =>
    List.count_pos_iff.mpr (e ▸ stateAt_mem hlt)
  have hcount := count_transition hlt new s
  rw [counter_transition, counter_enter _ _ hs, counter_leave, hcount, transition_nodeStates,
    List.length_set]
  exact (hw.counts s hs).move hpos (hcount ▸ hmax)

theorem Tally.congr {w' : WorkflowInstance} (h : w.Tally) (hstates : w'.nodeStates = w.nodeStates)
    (hcounter : ∀ s, w'.counter s = w.counter s) : w'.Tally := by
  refine ⟨fun s hs => ?_⟩
  rw [hstates, hcounter]
  exact h.counts s hs

theorem Tally.new (d : WorkflowDef) (timeoutAt : Time) (maxRetries : Nat) :
    (WorkflowInstance.new d timeoutAt maxRetries).Tally := by
  refine ⟨fun s hs => ?_⟩
  unfold Counts WorkflowInstance.new
  simp only [List.length_replicate, List.count_replicate]
  cases s with
  | pending => exact ⟨Nat.mod_le _ _, fun h => Nat.mod_eq_of_lt h⟩
  | active | failed => exact ⟨le_rfl, fun _ => rfl⟩
  | completed => exact absurd rfl hs

theorem counter_updateWorkflowStatus (w : WorkflowInstance) (s : NodeState) :
    w.updateWorkflowStatus.counter s = w.counter s := by
  rw [updateWorkflowStatus_eq]
  cases s <;> rfl

theorem NodeEffect.tally {w' : WorkflowInstance} {op : NodeOp} (h : NodeEffect w op w')
    (hw : w.WellFormed) (ht : w.Tally) : w'.Tally := by
  have hlt : ∀ {n idx : Nat}, w.workflowDef.nodeIndex n = some idx → idx < w.nodeStates.length :=
    fun hidx => hw.states ▸ hw.faithful.index_lt hidx
  cases h with
  | start hidx hs hdeps => exact ht.transition (hlt hidx) _
  | complete hidx hs =>
    exact (ht.transition (hlt hidx) _).congr (by simp) (counter_updateWorkflowStatus _)
  | retry hidx hs hr => exact (ht.transition (hlt hidx) _).congr rfl fun s => by cases s <;> rfl
  | fail hidx hs hr => exact (ht.transition (hlt hidx) _).congr rfl fun s => by cases s <;> rfl
  | timeout => exact ht.congr rfl fun s => by cases s <;> rfl

end

/-- what every call keeps -/
structure Sound (w : WorkflowInstance) : Prop where
  wellFormed : w.WellFormed
  tally : w.Tally

theorem NodeEffect.sound {w w' : WorkflowInstance} {op : NodeOp} (h : NodeEffect w op w')
    (hw : w.Sound) : w'.Sound :=
  ⟨h.wellFormed hw.wellFormed, h.tally hw.wellFormed hw.tally⟩

theorem Sound.transition {w : WorkflowInstance} (h : w.Sound) {n idx : Nat}
    (hidx : w.workflowDef.nodeIndex n = some idx) (s : NodeState) : (w.transition idx s).Sound :=
  ⟨h.wellFormed.transition idx s,
    h.tally.transition (h.wellFormed.states ▸ h.wellFormed.faithful.index_lt hidx) s⟩

theorem Sound.exec {w : WorkflowInstance} (h : w.Sound) (op : NodeOp) : (op.exec w).Sound := by
  rcases exec_cases w op with he | he
  · rwa [he]
  · exact he.sound h

/-- **After any run of calls an instance of a validated definition is sound.** -/
theorem run_sound {nodes : List Nat} {edges : List Edge} {d : WorkflowDef}
    (h : WorkflowDef.validated nodes edges = .ok d) (timeoutAt : Time) (maxRetries : Nat)
    (ops : List NodeOp) : (run NodeOp.exec (new d timeoutAt maxRetries) ops).Sound :=
  run_invariant (f := NodeOp.exec) (P := Sound) (fun _ op h => h.exec op) ops
    ⟨.new (WorkflowDef.validated_faithful h).2.2 timeoutAt maxRetries, .new d timeoutAt maxRetries⟩

end WorkflowInstance
end LionCore
