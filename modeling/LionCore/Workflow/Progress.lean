import LionCore.Workflow.Run

/-!
# A running workflow and its work

* `Live`             while a workflow runs, no node has failed and some node is not completed;
* `live_hasWork`     without cycles, such a workflow has an active or a startable node;
* `exists_stuck`     with a cycle, completing whatever can be started ends in a workflow that runs
                     and has nothing to do;
* `progress_iff`     **main result**: work never runs out exactly if there are nodes and no cycles.
-/

namespace LionCore
open Base

namespace WorkflowInstance

/-- a node is active, or some node can be started -/
def HasWork (w : WorkflowInstance) : Prop :=
  (∃ n, w.isActive n = true) ∨ ∃ n, (w.startNode n).1 = .ok ()

/-- whatever is started, completed and failed: as long as the workflow runs, it has work -/
def AlwaysHasWork (d : WorkflowDef) : Prop :=
  ∀ timeoutAt maxRetries ops, (∀ op ∈ ops, op ≠ NodeOp.timeout) →
    (run NodeOp.exec (new d timeoutAt maxRetries) ops).status = .running →
      (run NodeOp.exec (new d timeoutAt maxRetries) ops).HasWork

/-! ## nodes and their states -/

section
variable {w w' : WorkflowInstance} {op : NodeOp}

theorem WellFormed.exists_node (hw : w.WellFormed) {s : NodeState} (h : s ∈ w.nodeStates) :
    ∃ n ∈ w.workflowDef.nodes, w.getNodeState n = s := by
  obtain ⟨i, hi, rfl⟩ := List.mem_iff_getElem.mp h
  have hlt : i < w.workflowDef.nodes.length := hw.states ▸ hi
  refine ⟨_, List.getElem_mem hlt, ?_⟩
  rw [getNodeState_at ((hw.faithful.index _ i).mpr (List.getElem?_eq_getElem hlt)), stateAt_eq hi]

theorem WellFormed.getNodeState_mem (hw : w.WellFormed) {n : Nat}
    (h : n ∈ w.workflowDef.nodes) : w.getNodeState n ∈ w.nodeStates := by
  obtain ⟨i, hi⟩ := hw.faithful.nodeIndex_isSome_iff.mpr h
  rw [getNodeState_at hi]
  exact stateAt_mem (hw.states ▸ hw.faithful.index_lt hi)

theorem Sound.exists_of_counter (h : w.Sound) {s : NodeState} (hs : s ≠ .completed)
    (hc : w.counter s ≠ 0) : ∃ n ∈ w.workflowDef.nodes, w.getNodeState n = s := by
  have hle := (h.tally.counts s hs).1
  exact h.wellFormed.exists_node (List.count_pos_iff.mp (by omega))

theorem Sound.exists_open (h : w.Sound) (ht : w.isTerminal = false) :
    ∃ n ∈ w.workflowDef.nodes, w.getNodeState n ≠ .completed := by
  unfold isTerminal at ht
  rcases (Bool.and_eq_false_iff.mp ht) with hc | hc
  · obtain ⟨n, hn, hs⟩ := h.exists_of_counter (s := .pending) nofun (of_decide_eq_false hc)
    exact ⟨n, hn, by rw [hs]; nofun⟩
  · obtain ⟨n, hn, hs⟩ := h.exists_of_counter (s := .active) nofun (of_decide_eq_false hc)
    exact ⟨n, hn, by rw [hs]; nofun⟩

theorem WellFormed.startable (hw : w.WellFormed) {n : Nat} (hn : n ∈ w.workflowDef.nodes)
    (hs : w.getNodeState n = .pending)
    (hdeps : ∀ a, w.workflowDef.DependsOn n a → w.getNodeState a = .completed) :
    (w.startNode n).1 = .ok () := by
  obtain ⟨idx, hidx⟩ := hw.faithful.nodeIndex_isSome_iff.mpr hn
  have heff : NodeEffect w (.start n) _ := .start hidx ((getNodeState_at hidx).symm.trans hs)
    ((hw.dependenciesSatisfied_iff n).mpr hdeps)
  exact congrArg Prod.fst heff.call

/-! ## while a workflow runs -/

/-- while it runs, nothing has failed and something is left to complete -/
def Live (w : WorkflowInstance) : Prop :=
  w.status = .running → (∀ n, w.getNodeState n ≠ .failed) ∧
    ∃ n ∈ w.workflowDef.nodes, w.getNodeState n ≠ .completed

theorem Moved.not_failed {n : Nat} {old new : NodeState} (h : Moved w w' n old new)
    (hnew : new ≠ .failed) (hall : ∀ m, w.getNodeState m ≠ .failed) (m : Nat) :
    w'.getNodeState m ≠ .failed := by
  rw [h.after]
  split
  · exact hnew
  · exact hall m

theorem Moved.live {n : Nat} {old new : NodeState} (h : Moved w w' n old new)
    (hdef : w'.workflowDef = w.workflowDef) (hfailed : new ≠ .failed) (hnew : new ≠ .completed)
    (hstatus : w'.status = w.status) (hlive : w.Live) : w'.Live := by
  intro hr
  refine ⟨h.not_failed hfailed (hlive (hstatus ▸ hr)).1, n, hdef ▸ h.node, ?_⟩
  rw [h.after, if_pos rfl]
  exact hnew

/-- **What an effect does to the status**: where a node starts or is retried it stays, where a node
completes it is updated, and else the workflow has failed. -/
theorem NodeEffect.status_cases (he : NodeEffect w op w') (hw : w.WellFormed) :
    (∃ n old new, Moved w w' n old new ∧ old ≠ .completed ∧ new ≠ .completed ∧ new ≠ .failed ∧
      w'.status = w.status) ∨
    (∃ n idx, w.workflowDef.nodeIndex n = some idx ∧
      Moved w (w.transition idx .completed) n .active .completed ∧
      w' = (w.transition idx .completed).updateWorkflowStatus) ∨
    w'.status = .failure := by
  have hdef := he.workflowDef
  cases he with
  | @start n idx hidx hs hdeps =>
    have hmoved : Moved w _ n .pending .active := hw.moved hidx hs hdef (by simp)
    exact Or.inl ⟨n, _, _, hmoved, nofun, nofun, nofun, by simp⟩
  | @retry n idx hidx hs hr =>
    have hmoved : Moved w _ n .active .pending := hw.moved hidx hs hdef (by simp)
    exact Or.inl ⟨n, _, _, hmoved, nofun, nofun, nofun, by simp⟩
  | @complete n idx hidx hs =>
    have hmoved : Moved w (w.transition idx .completed) n .active .completed :=
      hw.moved hidx hs (transition_workflowDef _ _ _) rfl
    exact Or.inr (Or.inl ⟨n, idx, hidx, hmoved, rfl⟩)
  | fail hidx hs hr => exact Or.inr (Or.inr rfl)
  | timeout => exact Or.inr (Or.inr rfl)

theorem Live.exec (hlive : w.Live) (h : w.Sound) (op : NodeOp) : (op.exec w).Live := by
  rcases exec_cases w op with he | he
  · rwa [he]
  generalize op.exec w = w' at he ⊢
  intro hr
  rcases he.status_cases h.wellFormed with ⟨n, old, new, hmoved, _, hnew, hfailed, hstatus⟩ |
    ⟨n, idx, hidx, hmoved, rfl⟩ | hfail
  · exact hmoved.live he.workflowDef hfailed hnew hstatus hlive hr
  · -- the workflow goes on only if a counter of open nodes is not zero
    rcases (w.transition idx .completed).updateWorkflowStatus_cases with
      ⟨ht, e⟩ | ⟨_, _, e⟩ | ⟨_, _, e⟩
    · rw [e] at hr ⊢
      rw [transition_status] at hr
      exact ⟨hmoved.not_failed nofun (hlive hr).1, (h.transition hidx .completed).exists_open ht⟩
    · rw [e] at hr
      cases hr
    · rw [e] at hr
      cases hr
  · rw [hfail] at hr
    cases hr

theorem Live.new {d : WorkflowDef} (hne : d.nodes ≠ []) (timeoutAt : Time) (maxRetries : Nat) :
    (WorkflowInstance.new d timeoutAt maxRetries).Live := by
  obtain ⟨n, hn⟩ := List.exists_mem_of_ne_nil _ hne
  refine fun _ => ⟨fun m => ?_, n, hn, ?_⟩ <;> rw [getNodeState_new] <;> nofun

theorem run_live {nodes : List Nat} {edges : List Edge} {d : WorkflowDef}
    (hd : WorkflowDef.validated nodes edges = .ok d) (hne : d.nodes ≠ []) (timeoutAt : Time)
    (maxRetries : Nat) (ops : List NodeOp) :
    (run NodeOp.exec (WorkflowInstance.new d timeoutAt maxRetries) ops).Live :=
  (run_invariant (f := NodeOp.exec) (P := fun w => w.Sound ∧ w.Live)
    (fun _ op h => ⟨h.1.exec op, h.2.exec h.1 op⟩) ops
    ⟨run_sound hd timeoutAt maxRetries [], .new hne timeoutAt maxRetries⟩).2

/-- **Without cycles a live workflow that runs has work.** -/
theorem live_hasWork (h : w.Sound) (hlive : w.Live) (hr : w.status = .running)
    (hacyclic : Acyclic fun a b => w.workflowDef.DependsOn b a) : w.HasWork := by
  by_contra hwork
  obtain ⟨hactive, hstart⟩ := not_or.mp hwork
  obtain ⟨hfailed, n, hn, hopen⟩ := hlive hr
  have hactive : ∀ m, w.getNodeState m ≠ .active := fun m hm =>
    hactive ⟨m, decide_eq_true hm⟩
  have hpending : w.getNodeState n = .pending := by
    cases hs : w.getNodeState n with
    | pending => rfl
    | active => exact absurd hs (hactive n)
    | completed => exact absurd hs hopen
    | failed => exact absurd hs (hfailed n)
  -- some pending node waits for no other pending node
  let waiting : Set Nat := { m | m ∈ w.workflowDef.nodes ∧ w.getNodeState m = .pending }
  have hfin : waiting.Finite := w.workflowDef.nodes.finite_toSet.subset fun _ hm => hm.1
  obtain ⟨m, ⟨hm, hs⟩, hfirst⟩ := hacyclic.exists_first hfin ⟨n, hn, hpending⟩
  refine hstart ⟨m, h.wellFormed.startable hm hs fun a ha => ?_⟩
  have hnode := (h.wellFormed.faithful.dependsOn_mem ha).1
  cases hsa : w.getNodeState a with
  | pending => exact absurd ⟨hnode, hsa⟩ (hfirst a ha)
  | active => exact absurd hsa (hactive a)
  | completed => rfl
  | failed => exact absurd hsa (hfailed a)

/-! ## a workflow with a cycle -/

/-- `n` waits for itself, directly or through others -/
def OnCycle (d : WorkflowDef) (n : Nat) : Prop := Relation.TransGen (fun a b => d.DependsOn b a) n n

/-- the workflow runs, nothing is active or failed, and the nodes on cycles are pending -/
structure Resting (w : WorkflowInstance) : Prop where
  sound : w.Sound
  running : w.status = .running
  states : ∀ n, w.getNodeState n = .pending ∨ w.getNodeState n = .completed
  cycles : ∀ n, OnCycle w.workflowDef n → w.getNodeState n = .pending

theorem Resting.new {d : WorkflowDef} (hd : d.Faithful) (timeoutAt : Time) (maxRetries : Nat) :
    (WorkflowInstance.new d timeoutAt maxRetries).Resting where
  sound := ⟨.new hd timeoutAt maxRetries, .new d timeoutAt maxRetries⟩
  running := rfl
  states n := Or.inl (getNodeState_new d timeoutAt maxRetries n)
  cycles n _ := getNodeState_new d timeoutAt maxRetries n

theorem Resting.startable_not_onCycle (h : w.Resting) {n : Nat}
    (hdeps : w.dependenciesSatisfied n = true) : ¬ OnCycle w.workflowDef n := by
  intro hcycle
  obtain ⟨b, hdep, hb⟩ := cycle_pred hcycle
  have hdone := (h.sound.wellFormed.dependenciesSatisfied_iff n).mp hdeps b hdep
  rw [h.cycles b hb] at hdone
  cases hdone

theorem Sound.counter_ne_zero (h : w.Sound) (hsmall : w.workflowDef.nodes.length < u32Size)
    {n : Nat} (hn : n ∈ w.workflowDef.nodes) (hs : w.getNodeState n ≠ .completed) :
    w.counter (w.getNodeState n) ≠ 0 := by
  have hcount : 0 < w.nodeStates.count (w.getNodeState n) :=
    List.count_pos_iff.mpr (h.wellFormed.getNodeState_mem hn)
  have hct := (h.tally.counts _ hs).2 (h.wellFormed.states ▸ hsmall)
  omega

theorem Sound.all_completed (h : w.Sound) (hsmall : w.workflowDef.nodes.length < u32Size)
    (hterm : w.isTerminal = true) (hfail : w.hasFailure = false) :
    ∀ n ∈ w.workflowDef.nodes, w.getNodeState n = .completed := by
  intro n hn
  by_contra hs
  have hct := h.counter_ne_zero hsmall hn hs
  obtain ⟨hp, ha⟩ := (Bool.and_eq_true _ _).mp hterm
  cases hst : w.getNodeState n with
  | pending =>
    rw [hst] at hct
    exact hct (of_decide_eq_true hp)
  | active =>
    rw [hst] at hct
    exact hct (of_decide_eq_true ha)
  | completed => exact hs hst
  | failed =>
    rw [hst] at hct
    exact hct (Nat.eq_zero_of_not_pos (of_decide_eq_false hfail))

/-- a node that can be started is started and completed; what is left is to update the status -/
theorem Sound.start_complete (h : w.Sound) {n : Nat} (hn : (w.startNode n).1 = .ok ()) :
    ∃ t : WorkflowInstance, run NodeOp.exec w [.start n, .complete n] = t.updateWorkflowStatus ∧
      t.Sound ∧ t.workflowDef = w.workflowDef ∧ t.status = w.status ∧
      Moved w t n .pending .completed ∧
      t.nodeStates.count .pending < w.nodeStates.count .pending := by
  obtain ⟨idx, hidx, hs, hdeps⟩ := startNode_ok hn
  have hlt : idx < w.nodeStates.length := h.wellFormed.states ▸ h.wellFormed.faithful.index_lt hidx
  let w₁ := w.transition idx .active
  have h₁ : NodeEffect w (.start n) w₁ := .start hidx hs hdeps
  have hidx₁ : w₁.workflowDef.nodeIndex n = some idx := by rwa [h₁.workflowDef]
  have hlt₁ : idx < w₁.nodeStates.length := lt_of_lt_of_eq hlt List.length_set.symm
  have hs₁ : w₁.stateAt idx = .active := (stateAt_eq hlt₁).trans (List.getElem_set_self hlt₁)
  have h₂ : NodeEffect w₁ (.complete n) _ := .complete hidx₁ hs₁
  let t := w₁.transition idx .completed
  have hdef : t.workflowDef = w.workflowDef :=
    (transition_workflowDef w₁ _ _).trans h₁.workflowDef
  refine ⟨t, ?_, (h₁.sound h).transition hidx₁ _, hdef, ?_, ?_, ?_⟩
  · have e₁ : NodeOp.exec w (.start n) = w₁ := congrArg Prod.snd h₁.call
    have e₂ : NodeOp.exec w₁ (.complete n) = t.updateWorkflowStatus := congrArg Prod.snd h₂.call
    rw [run_cons, run_cons, run_nil, e₁, e₂]
  · exact (transition_status w₁ _ _).trans (transition_status w _ _)
  · exact h.wellFormed.moved hidx hs hdef (List.set_set _)
  · -- the node leaves the pending ones, and an active node that completes is none of them
    have c₁ : w₁.nodeStates.count .pending = _ := count_transition hlt .active .pending
    have c₂ : t.nodeStates.count .pending = _ := count_transition hlt₁ .completed .pending
    have hpos : 0 < w.nodeStates.count .pending := List.count_pos_iff.mpr (hs ▸ stateAt_mem hlt)
    rw [if_pos hs.symm, if_neg nofun] at c₁
    rw [hs₁, if_neg nofun, if_neg nofun] at c₂
    omega

/-- a node is started and completed, and the workflow rests again -/
theorem Resting.next (h : w.Resting) (hsmall : w.workflowDef.nodes.length < u32Size) {a n : Nat}
    (ha : OnCycle w.workflowDef a) (hn : (w.startNode n).1 = .ok ()) :
    (run NodeOp.exec w [.start n, .complete n]).Resting ∧
      (run NodeOp.exec w [.start n, .complete n]).nodeStates.count .pending <
        w.nodeStates.count .pending := by
  obtain ⟨_, _, _, hdeps⟩ := startNode_ok hn
  obtain ⟨t, hrun, hsound, hdef, hstatus, hmoved, hcount⟩ := h.sound.start_complete hn
  have hcycles : ∀ m, OnCycle t.workflowDef m → t.getNodeState m = .pending := by
    intro m hm
    rw [hdef] at hm
    rw [hmoved.after, if_neg]
    · exact h.cycles m hm
    · rintro rfl
      exact h.startable_not_onCycle hdeps hm
  -- the node on the cycle keeps the workflow from ending
  have hterm : t.isTerminal = false := by
    have hcycle : OnCycle t.workflowDef a := hdef ▸ ha
    obtain ⟨b, hdep, _⟩ := cycle_pred hcycle
    have hpending := hcycles a hcycle
    have hct := hsound.counter_ne_zero (hdef ▸ hsmall)
      (hsound.wellFormed.faithful.dependsOn_mem hdep).2 (by rw [hpending]; nofun)
    rw [hpending] at hct
    exact Bool.and_eq_false_imp.mpr fun hz => absurd (of_decide_eq_true hz) hct
  have hrest : t.updateWorkflowStatus = t := by
    unfold updateWorkflowStatus
    rw [hterm]
    rfl
  rw [hrun, hrest]
  refine ⟨⟨hsound, hstatus.trans h.running, fun m => ?_, hcycles⟩, hcount⟩
  rw [hmoved.after]
  split
  · exact Or.inr rfl
  · exact h.states m

/-- **With a cycle, completing whatever can be started ends with nothing left to do.** -/
theorem Resting.exists_stuck (h : w.Resting) (hsmall : w.workflowDef.nodes.length < u32Size)
    {a : Nat} (ha : OnCycle w.workflowDef a) :
    ∃ ops : List NodeOp, (∀ op ∈ ops, op ≠ .timeout) ∧
      (run NodeOp.exec w ops).status = .running ∧ ¬ (run NodeOp.exec w ops).HasWork := by
  -- the number of pending nodes goes down with every node that is started and completed
  induction hk : w.nodeStates.count .pending using Nat.strong_induction_on generalizing w with
  | _ k ih =>
    by_cases hstart : ∃ n, (w.startNode n).1 = .ok ()
    · obtain ⟨n, hn⟩ := hstart
      obtain ⟨hnext, hlt⟩ := h.next hsmall ha hn
      have hdef := run_workflowDef w [.start n, .complete n]
      obtain ⟨ops, hops, hrunning, hwork⟩ :=
        ih _ (hk ▸ hlt) hnext (hdef ▸ hsmall) (hdef ▸ ha) rfl
      refine ⟨.start n :: .complete n :: ops, ?_, hrunning, hwork⟩
      exact List.forall_mem_cons.mpr ⟨nofun, List.forall_mem_cons.mpr ⟨nofun, hops⟩⟩
    · refine ⟨[], List.forall_mem_nil _, h.running, fun hwork => ?_⟩
      rcases hwork with ⟨n, hn⟩ | hwork
      · have hactive : w.getNodeState n = .active := of_decide_eq_true hn
        rcases h.states n with hs | hs <;> rw [hs] at hactive <;> cases hactive
      · exact hstart hwork

end

/-- **Main result**: with at least one node and no cycle a workflow that runs always has work; and
as long as the nodes can be counted, nothing less is enough. -/
theorem progress_iff {nodes : List Nat} {edges : List Edge} {d : WorkflowDef}
    (hd : WorkflowDef.validated nodes edges = .ok d) :
    (nodes ≠ [] ∧ Acyclic (fun a b => ⟨a, b⟩ ∈ edges) → AlwaysHasWork d) ∧
      (d.nodes.length < u32Size → AlwaysHasWork d →
        nodes ≠ [] ∧ Acyclic fun a b => ⟨a, b⟩ ∈ edges) := by
  obtain ⟨hnodes, rfl, hf⟩ := WorkflowDef.validated_faithful hd
  have hempty : nodes = [] ↔ d.nodes = [] := by
    rw [hnodes, List.eq_nil_iff_forall_not_mem, List.eq_nil_iff_forall_not_mem]
    exact forall_congr' fun n => not_congr mem_sortDedup.symm
  constructor
  · rintro ⟨hnonempty, hacyclic⟩ timeoutAt maxRetries ops _ hr
    have hsound := run_sound hd timeoutAt maxRetries ops
    have hlive := run_live hd (hnonempty ∘ hempty.mpr) timeoutAt maxRetries ops
    refine live_hasWork hsound hlive hr ?_
    rw [run_workflowDef]
    exact hacyclic
  · intro hsmall hwork
    refine ⟨fun hnone => ?_, fun a ha => ?_⟩
    · rcases hwork 0 0 [] (List.forall_mem_nil _) rfl with ⟨n, hn⟩ | ⟨n, hn⟩
      · have hactive : (new d 0 0).getNodeState n = .active := of_decide_eq_true hn
        rw [getNodeState_new] at hactive
        cases hactive
      · obtain ⟨idx, hidx, _⟩ := startNode_ok hn
        have hmem : n ∈ d.nodes := hf.nodeIndex_isSome_iff.mp ⟨idx, hidx⟩
        rw [hempty.mp hnone] at hmem
        cases hmem
    · obtain ⟨ops, hops, hrunning, hstuck⟩ :=
        (Resting.new hf 0 0).exists_stuck hsmall ha
      exact hstuck (hwork 0 0 ops hops hrunning)

theorem progress_iff_sample : AlwaysHasWork .sampleChain := by
  have hd : WorkflowDef.validated [2, 1] [⟨1, 2⟩] = .ok .sampleChain := by decide
  refine (progress_iff hd).1 ⟨nofun, acyclic_of_rank id fun a b hab => ?_⟩
  cases List.mem_singleton.mp hab
  decide

/-- two nodes that wait for each other -/
def sampleLoop : WorkflowDef :=
  ⟨[1, 2], [⟨1, 2⟩, ⟨2, 1⟩], [[2], [1]], [[2], [1]], [(1, 0), (2, 1)]⟩

/-- the definition is accepted, and its new instance runs without anything to do -/
theorem accepted_without_work :
    WorkflowDef.validated [1, 2] [⟨1, 2⟩, ⟨2, 1⟩] = .ok sampleLoop ∧
      (new sampleLoop 10 0).status = .running ∧ ¬ (new sampleLoop 10 0).HasWork := by
  have hd : WorkflowDef.validated [1, 2] [⟨1, 2⟩, ⟨2, 1⟩] = .ok sampleLoop := by decide
  refine ⟨hd, rfl, ?_⟩
  rintro (⟨n, hn⟩ | ⟨n, hn⟩)
  · have hactive : (new sampleLoop 10 0).getNodeState n = .active := of_decide_eq_true hn
    rw [getNodeState_new] at hactive
    cases hactive
  · obtain ⟨idx, hidx, _⟩ := startNode_ok hn
    have hmem : n ∈ [1, 2] :=
      (WorkflowDef.validated_faithful hd).2.2.nodeIndex_isSome_iff.mp ⟨idx, hidx⟩
    rcases List.mem_pair.mp hmem with rfl | rfl
    · exact absurd hn (by decide)
    · exact absurd hn (by decide)

end WorkflowInstance
end LionCore
