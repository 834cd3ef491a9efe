import LionCore.Workflow.Run

/-!
# Nodes start after their dependencies

* `Ordered`             whatever has left the state pending has all its dependencies completed;
* `completed_stays`     a completed node stays completed;
* `dependency_safety`   **main result**: both after every run, and completions in path order.
-/

namespace LionCore
open Base

namespace WorkflowInstance

/-- `b` is started by a call of the run -/
def StartedIn (w : WorkflowInstance) (ops : List NodeOp) (b : Nat) : Prop :=
  ∃ k, ops[k]? = some (.start b) ∧
    ((run NodeOp.exec w (ops.take k)).startNode b).1 = .ok ()

/-- the call number `k` of the run completes `n` -/
def CompletedAt (w : WorkflowInstance) (ops : List NodeOp) (k n : Nat) : Prop :=
  ops[k]? = some (.complete n) ∧
    ((run NodeOp.exec w (ops.take k)).completeNode n).1 = .ok ()

/-- a node that is not pending has its dependencies completed -/
def Ordered (w : WorkflowInstance) : Prop :=
  ∀ a b, w.workflowDef.DependsOn b a → w.getNodeState b ≠ .pending →
    w.getNodeState a = .completed

section
variable {w w' : WorkflowInstance} {op : NodeOp} {n : Nat} {old new : NodeState}

theorem Moves.ne_completed (h : Moves op n old new) : old ≠ .completed := by
  cases h <;> nofun

theorem Moved.keeps_completed (hm : Moves op n old new) (h : Moved w w' n old new) {a : Nat}
    (ha : w.getNodeState a = .completed) : w'.getNodeState a = .completed := by
  have hne : a ≠ n := by
    rintro rfl
    exact hm.ne_completed (h.before.symm.trans ha)
  rw [h.after, if_neg hne]
  exact ha

/-- **A completed node stays completed.** -/
theorem WellFormed.completed_stays (hw : w.WellFormed) (op : NodeOp) {a : Nat}
    (ha : w.getNodeState a = .completed) : (op.exec w).getNodeState a = .completed := by
  rcases exec_cases w op with h | h
  · rwa [h]
  · rcases h.moved hw with ⟨_, ht⟩ | ⟨n, old, new, hm, hmoved⟩
    · rw [ht]
      exact ha
    · exact hmoved.keeps_completed hm ha

theorem WellFormed.run_completed (hw : w.WellFormed) (ops : List NodeOp) {a : Nat}
    (ha : w.getNodeState a = .completed) : (run NodeOp.exec w ops).getNodeState a = .completed :=
  (run_invariant (f := NodeOp.exec)
    (P := fun w => w.WellFormed ∧ w.getNodeState a = .completed)
    (fun _ op h => ⟨h.1.exec op, h.1.completed_stays op h.2⟩) ops ⟨hw, ha⟩).2

/-- a start that succeeds finds all dependencies completed -/
theorem WellFormed.started (hw : w.WellFormed) {b : Nat} (h : (w.startNode b).1 = .ok ()) :
    ∀ a, w.workflowDef.DependsOn b a → w.getNodeState a = .completed := by
  obtain ⟨_, _, _, hdeps⟩ := startNode_ok h
  exact (hw.dependenciesSatisfied_iff b).mp hdeps

theorem Ordered.exec (h : w.Ordered) (hw : w.WellFormed) (op : NodeOp) :
    (op.exec w).Ordered := by
  intro a b hdep hb
  rw [exec_workflowDef] at hdep
  refine hw.completed_stays op ?_
  rcases exec_cases w op with he | he
  · rw [he] at hb
    exact h a b hdep hb
  rcases he.moved hw with ⟨_, ht⟩ | ⟨n, old, new, hm, hmoved⟩
  · rw [ht] at hb
    exact h a b hdep hb
  rw [hmoved.after] at hb
  by_cases hbn : b = n
  · -- the node that moves has just been started, or it was active before
    subst hbn
    cases hm with
    | start => exact (hw.dependenciesSatisfied_iff b).mp he.satisfied a hdep
    | complete | retry | fail => exact h a b hdep (by rw [hmoved.before]; nofun)
  · rw [if_neg hbn] at hb
    exact h a b hdep hb

end

theorem Ordered.new (d : WorkflowDef) (timeoutAt : Time) (maxRetries : Nat) :
    (WorkflowInstance.new d timeoutAt maxRetries).Ordered :=
  fun _ b _ hb => absurd (getNodeState_new d timeoutAt maxRetries b) hb

/-! ## runs -/

section
variable {d : WorkflowDef} (hd : d.Faithful) (timeoutAt : Time) (maxRetries : Nat)
include hd

theorem run_wellFormed (ops : List NodeOp) :
    (run NodeOp.exec (new d timeoutAt maxRetries) ops).WellFormed :=
  run_invariant (f := NodeOp.exec) (P := WellFormed) (fun _ op h => h.exec op) ops
    (.new hd timeoutAt maxRetries)

theorem run_ordered (ops : List NodeOp) {a b : Nat} (hdep : d.DependsOn b a)
    (hb : (run NodeOp.exec (new d timeoutAt maxRetries) ops).getNodeState b ≠ .pending) :
    (run NodeOp.exec (new d timeoutAt maxRetries) ops).getNodeState a = .completed := by
  have h := run_invariant (f := NodeOp.exec) (P := fun w => w.WellFormed ∧ w.Ordered)
    (fun _ op h => ⟨h.1.exec op, h.2.exec h.1 op⟩) ops
    ⟨.new hd timeoutAt maxRetries, .new d timeoutAt maxRetries⟩
  exact h.2 a b (by rwa [run_workflowDef]) hb

/-- what was started once has had its dependencies completed ever since -/
theorem StartedIn.completed {ops : List NodeOp} {a b : Nat}
    (h : (new d timeoutAt maxRetries).StartedIn ops b) (hdep : d.DependsOn b a) :
    (run NodeOp.exec (new d timeoutAt maxRetries) ops).getNodeState a = .completed := by
  obtain ⟨k, -, hk⟩ := h
  have hw := run_wellFormed hd timeoutAt maxRetries (ops.take k)
  have hthen := hw.started hk a (by rwa [run_workflowDef])
  have hlater := hw.run_completed (ops.drop k) hthen
  rwa [← run_append, List.take_append_drop] at hlater

/-- whatever is completed was completed by a call of the run -/
theorem exists_completedAt {ops : List NodeOp} {a : Nat}
    (h : (run NodeOp.exec (new d timeoutAt maxRetries) ops).getNodeState a = .completed) :
    ∃ i < ops.length, (new d timeoutAt maxRetries).CompletedAt ops i a := by
  have hpending : (new d timeoutAt maxRetries).getNodeState a ≠ .completed := by
    rw [getNodeState_new]
    nofun
  obtain ⟨i, op, hop, hbefore, hafter⟩ :=
    run_turns (P := fun w => WorkflowInstance.getNodeState w a = .completed) ops hpending h
  have hw := run_wellFormed hd timeoutAt maxRetries (ops.take i)
  refine ⟨i, (List.getElem?_eq_some_iff.mp hop).1, ?_⟩
  rcases exec_cases (run NodeOp.exec (new d timeoutAt maxRetries) (ops.take i)) op with he | he
  · rw [he] at hafter
    exact absurd hafter hbefore
  rcases he.moved hw with ⟨_, ht⟩ | ⟨n, old, new, hm, hmoved⟩
  · rw [ht] at hafter
    exact absurd hafter hbefore
  rw [hmoved.after] at hafter
  split at hafter
  · rename_i han
    subst han
    cases hafter
    cases hm with
    | complete => exact ⟨hop, congrArg Prod.fst he.call⟩
  · exact absurd hafter hbefore

theorem CompletedAt.dependency {ops : List NodeOp} {a b j : Nat}
    (h : (new d timeoutAt maxRetries).CompletedAt ops j b) (hdep : d.DependsOn b a) :
    ∃ i < j, (new d timeoutAt maxRetries).CompletedAt ops i a := by
  obtain ⟨idx, hidx, hs⟩ := completeNode_ok h.2
  have hdone := run_ordered hd timeoutAt maxRetries (ops.take j) hdep
    (by rw [getNodeState_at hidx, hs]; nofun)
  obtain ⟨i, hi, hop, hok⟩ := exists_completedAt hd timeoutAt maxRetries hdone
  have hij : i < j := lt_of_lt_of_le hi (List.length_take_le _ _)
  refine ⟨i, hij, ?_, ?_⟩
  · rwa [List.getElem?_take_of_lt hij] at hop
  · rwa [List.take_take, Nat.min_eq_left hij.le] at hok

end

/-- **Main result**: after every run of calls on a new instance of a validated definition, what is
active, completed or failed, or has ever been started, has all its dependencies completed; completed
nodes stay completed; and along every path completions come in the order of the path. -/
theorem dependency_safety {nodes : List Nat} {edges : List Edge} {d : WorkflowDef}
    (hd : WorkflowDef.validated nodes edges = .ok d) (timeoutAt : Time) (maxRetries : Nat)
    (ops : List NodeOp) :
    let w₀ := new d timeoutAt maxRetries
    let w := run NodeOp.exec w₀ ops
    (∀ a b, ⟨a, b⟩ ∈ edges → w.getNodeState b ≠ .pending ∨ w₀.StartedIn ops b →
      w.getNodeState a = .completed) ∧
    (∀ a more, w.getNodeState a = .completed →
      (run NodeOp.exec w more).getNodeState a = .completed) ∧
    ∀ a b, Relation.TransGen (fun a b => ⟨a, b⟩ ∈ edges) a b →
      ∀ j, w₀.CompletedAt ops j b → ∃ i < j, w₀.CompletedAt ops i a := by
  intro w₀ w
  obtain ⟨-, rfl, hf⟩ := WorkflowDef.validated_faithful hd
  refine ⟨fun a b hab hb => ?_, fun a more ha => ?_, fun a b path => ?_⟩
  · rcases hb with hb | hb
    · exact run_ordered hf timeoutAt maxRetries ops hab hb
    · exact StartedIn.completed hf timeoutAt maxRetries hb hab
  · exact (run_wellFormed hf timeoutAt maxRetries ops).run_completed more ha
  · induction path with
    | single hab => exact fun j hj => hj.dependency hf timeoutAt maxRetries hab
    | tail _ hbc ih =>
      intro j hj
      obtain ⟨k, hk, hb⟩ := hj.dependency hf timeoutAt maxRetries hbc
      obtain ⟨i, hi, ha⟩ := ih k hb
      exact ⟨i, hi.trans hk, ha⟩

theorem dependency_safety_sample :
    (run NodeOp.exec (new .sampleChain 10 0) [.start 1, .complete 1, .start 2]).getNodeState 1 =
      .completed := by
  have hd : WorkflowDef.validated [2, 1] [⟨1, 2⟩] = .ok .sampleChain := by decide
  exact (dependency_safety hd 10 0 [.start 1, .complete 1, .start 2]).1 1 2
    List.mem_cons_self (Or.inl (by decide))

end WorkflowInstance
end LionCore
