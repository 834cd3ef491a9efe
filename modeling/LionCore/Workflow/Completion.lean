import LionCore.Base.Countdown
import LionCore.Workflow.Refinement
import LionCore.Workflow.Terminal

/-!
# Whatever is done first, a workflow without cycles can be completed

* `callsToGo`       two calls for every pending node, and one for every active one;
* `OnCourse`        nothing has failed, and the workflow runs as long as there are calls to go;
* `OnCourse.step`   a start or a completion that is accepted takes one call off;
* `OnCourse.next`   as long as there are calls to go, one is accepted;
* `completion`      **main result**: no order of starts and completions is a dead end.
-/

namespace LionCore
open Base

namespace WorkflowInstance

def callsToGo (w : WorkflowInstance) : Nat :=
  2 * w.nodeStates.count .pending + w.nodeStates.count .active

/-- a node is started or completed, and the call is accepted -/
def Works (w : WorkflowInstance) (op : NodeOp) : Prop :=
  (∃ n, op = .start n ∨ op = .complete n) ∧ (op.call w).1 = .ok ()

structure OnCourse (w : WorkflowInstance) : Prop where
  sound : w.Sound
  small : w.workflowDef.nodes.length < u32Size
  unfailed : ∀ n, w.getNodeState n ≠ .failed
  status : w.status = if w.callsToGo = 0 then .success else .running

section
variable {w w' : WorkflowInstance}

theorem Sound.callsToGo_eq (h : w.Sound) (hsmall : w.workflowDef.nodes.length < u32Size) :
    w.callsToGo = 2 * w.pendingCt + w.activeCt := by
  have hlen : w.nodeStates.length < u32Size := h.wellFormed.states ▸ hsmall
  have hp : w.pendingCt = w.nodeStates.count .pending := (h.tally.counts .pending nofun).2 hlen
  have ha : w.activeCt = w.nodeStates.count .active := (h.tally.counts .active nofun).2 hlen
  rw [callsToGo, hp, ha]

theorem Sound.isTerminal_iff (h : w.Sound) (hsmall : w.workflowDef.nodes.length < u32Size) :
    w.isTerminal = true ↔ w.callsToGo = 0 := by
  rw [h.callsToGo_eq hsmall]
  unfold isTerminal
  rw [Bool.and_eq_true, decide_eq_true_iff, decide_eq_true_iff]
  omega

theorem Sound.callsToGo_ne_zero (h : w.Sound) {n : Nat} (hn : n ∈ w.workflowDef.nodes)
    (hfailed : w.getNodeState n ≠ .failed) (hopen : w.getNodeState n ≠ .completed) :
    w.callsToGo ≠ 0 := by
  have hmem := h.wellFormed.getNodeState_mem hn
  unfold callsToGo
  cases hs : w.getNodeState n with
  | pending =>
    have hpos : 0 < w.nodeStates.count .pending := List.count_pos_iff.mpr (hs ▸ hmem)
    omega
  | active =>
    have hpos : 0 < w.nodeStates.count .active := List.count_pos_iff.mpr (hs ▸ hmem)
    omega
  | completed => exact absurd hs hopen
  | failed => exact absurd hs hfailed

/-- a workflow that runs is on course -/
theorem OnCourse.of_running (h : w.Sound) (hlive : w.Live) (hr : w.status = .running)
    (hsmall : w.workflowDef.nodes.length < u32Size) : w.OnCourse := by
  obtain ⟨hfailed, n, hn, hopen⟩ := hlive hr
  refine ⟨h, hsmall, hfailed, ?_⟩
  rw [if_neg (h.callsToGo_ne_zero hn (hfailed n) hopen)]
  exact hr

theorem OnCourse.completed (h : w.OnCourse) (hzero : w.callsToGo = 0) :
    w.status = .success ∧ ∀ n ∈ w.workflowDef.nodes, w.getNodeState n = .completed := by
  refine ⟨h.status.trans (if_pos hzero), fun n hn => ?_⟩
  by_contra hopen
  exact h.sound.callsToGo_ne_zero hn (h.unfailed n) hopen hzero

theorem OnCourse.running (h : w.OnCourse) (hgo : w.callsToGo ≠ 0) : w.status = .running :=
  h.status.trans (if_neg hgo)

/-! ## one call -/

theorem OnCourse.start (h : w.OnCourse) {n : Nat} (he : NodeEffect w (.start n) w') :
    w'.OnCourse ∧ w'.callsToGo + 1 = w.callsToGo := by
  have hsound := he.sound h.sound
  have hdef := he.workflowDef
  cases he with
  | @start _ idx hidx hs hdeps =>
    have hlt : idx < w.nodeStates.length :=
      h.sound.wellFormed.states ▸ h.sound.wellFormed.faithful.index_lt hidx
    have hpos : 0 < w.nodeStates.count .pending := List.count_pos_iff.mpr (hs ▸ stateAt_mem hlt)
    have hp := count_transition hlt .active .pending
    have ha := count_transition hlt .active .active
    rw [hs, if_pos rfl, if_neg nofun] at hp
    rw [hs, if_neg nofun, if_pos rfl] at ha
    have hgo : (w.transition idx .active).callsToGo + 1 = w.callsToGo := by
      unfold callsToGo
      omega
    have hmoved : Moved w (w.transition idx .active) n .pending .active :=
      h.sound.wellFormed.moved hidx hs hdef rfl
    refine ⟨⟨hsound, hdef ▸ h.small, hmoved.not_failed nofun h.unfailed, ?_⟩, hgo⟩
    -- one more call is to go at least, for the node that is active now
    have hgo' : (w.transition idx .active).callsToGo ≠ 0 := by
      unfold callsToGo
      omega
    rw [if_neg hgo', transition_status]
    exact h.running (by omega)

theorem OnCourse.complete (h : w.OnCourse) {n : Nat} (he : NodeEffect w (.complete n) w') :
    w'.OnCourse ∧ w'.callsToGo + 1 = w.callsToGo := by
  have hsound := he.sound h.sound
  have hdef := he.workflowDef
  cases he with
  | @complete _ idx hidx hs =>
    have hlt : idx < w.nodeStates.length :=
      h.sound.wellFormed.states ▸ h.sound.wellFormed.faithful.index_lt hidx
    let t := w.transition idx .completed
    have hpos : 0 < w.nodeStates.count .active := List.count_pos_iff.mpr (hs ▸ stateAt_mem hlt)
    have hp := count_transition hlt .completed .pending
    have ha := count_transition hlt .completed .active
    rw [hs, if_neg nofun, if_neg nofun] at hp
    rw [hs, if_pos rfl, if_neg nofun] at ha
    have hgo : t.callsToGo + 1 = w.callsToGo := by
      show (2 * (w.transition idx .completed).nodeStates.count .pending +
        (w.transition idx .completed).nodeStates.count .active) + 1 = w.callsToGo
      unfold callsToGo
      omega
    have hgo' : t.updateWorkflowStatus.callsToGo = t.callsToGo := by
      unfold callsToGo
      rw [updateWorkflowStatus_nodeStates]
    have ht : t.Sound := h.sound.transition hidx .completed
    have htdef : t.workflowDef = w.workflowDef := transition_workflowDef _ _ _
    have hmoved : Moved w t n .active .completed := h.sound.wellFormed.moved hidx hs htdef rfl
    have hfailed : ∀ m, t.getNodeState m ≠ .failed := hmoved.not_failed nofun h.unfailed
    have hterm := ht.isTerminal_iff (htdef ▸ h.small)
    refine ⟨⟨hsound, hdef ▸ h.small, fun m => ?_, ?_⟩, hgo'.symm ▸ hgo⟩
    · rw [getNodeState_congr (updateWorkflowStatus_workflowDef t)
        (updateWorkflowStatus_nodeStates t)]
      exact hfailed m
    · rw [hgo']
      rcases t.updateWorkflowStatus_cases with ⟨hopen, e⟩ | ⟨_, hf, _⟩ | ⟨hdone, _, e⟩
      · have hne : t.callsToGo ≠ 0 := fun hz => by
          rw [hterm.mpr hz] at hopen
          cases hopen
        rw [e, if_neg hne]
        exact (transition_status w _ _).trans (h.running (by omega))
      · rw [ht.hasFailure_eq_false hfailed] at hf
        cases hf
      · rw [e, if_pos (hterm.mp hdone)]

/-- **A start or a completion that is accepted takes one call off.** -/
theorem OnCourse.step (w : WorkflowInstance) (op : NodeOp) (h : w.OnCourse) (hop : w.Works op) :
    (op.exec w).OnCourse ∧ (op.exec w).callsToGo + 1 = w.callsToGo := by
  obtain ⟨⟨n, hn⟩, hok⟩ := hop
  have he : NodeEffect w op (op.exec w) := call_iff.mp (Prod.ext hok rfl)
  rcases hn with rfl | rfl
  · exact h.start he
  · exact h.complete he

theorem completeNode_accepted {n : Nat} (h : w.isActive n = true) :
    (w.completeNode n).1 = .ok () := by
  obtain ⟨idx, hidx, hs⟩ := node_of_active h
  rw [completeNode_at hidx, if_pos hs]

/-- **As long as there are calls to go, one is accepted.** -/
theorem OnCourse.next (h : w.OnCourse)
    (hacyclic : Acyclic fun a b => w.workflowDef.DependsOn b a) (hgo : w.callsToGo ≠ 0) :
    ∃ op, w.Works op := by
  have hlive : w.Live := by
    intro _
    refine ⟨h.unfailed, ?_⟩
    apply h.sound.exists_open
    apply Bool.eq_false_iff.mpr
    intro ht
    exact hgo ((h.sound.isTerminal_iff h.small).mp ht)
  rcases live_hasWork h.sound hlive (h.running hgo) hacyclic with ⟨n, hn⟩ | ⟨n, hn⟩
  · exact ⟨.complete n, ⟨n, Or.inr rfl⟩, completeNode_accepted hn⟩
  · exact ⟨.start n, ⟨n, Or.inl rfl⟩, hn⟩

end

/-- **Main result**: let the definition have nodes, few enough to be counted, and no cycle.
Wherever a workflow has come that still runs, whatever has failed and been retried, every order of
starts and completions that are accepted can be carried on until all nodes are completed; this takes
exactly two calls for each pending node and one for each active one, and the workflow has succeeded
with the last of them and not before. -/
theorem completion {nodes : List Nat} {edges : List Edge} {d : WorkflowDef}
    (hd : WorkflowDef.validated nodes edges = .ok d) (hne : nodes ≠ [])
    (hacyclic : Acyclic fun a b => ⟨a, b⟩ ∈ edges) (hsmall : d.nodes.length < u32Size)
    (timeoutAt : Time) (maxRetries : Nat) (ops : List NodeOp) :
    let w := run NodeOp.exec (new d timeoutAt maxRetries) ops
    w.status = .running → ∀ as, Along NodeOp.exec Works w as →
      as.length ≤ w.callsToGo ∧
      ((run NodeOp.exec w as).status = .success ↔ as.length = w.callsToGo) ∧
      ∃ more, Along NodeOp.exec Works w (as ++ more) ∧ (as ++ more).length = w.callsToGo ∧
        (run NodeOp.exec w (as ++ more)).status = .success ∧
        ∀ n ∈ d.nodes, (run NodeOp.exec w (as ++ more)).getNodeState n = .completed := by
  intro w hr as has
  obtain ⟨hnodes, rfl, _⟩ := WorkflowDef.validated_faithful hd
  have hdne : d.nodes ≠ [] := by
    intro hnil
    apply hne
    rw [List.eq_nil_iff_forall_not_mem]
    intro n hn
    have hmem : n ∈ d.nodes := hnodes ▸ mem_sortDedup.mpr hn
    rw [hnil] at hmem
    cases hmem
  have hdef : ∀ cs, (run NodeOp.exec w cs).workflowDef = d := fun cs =>
    (run_workflowDef w cs).trans (run_workflowDef _ ops)
  have hwdef : w.workflowDef = d := hdef []
  have hcourse : w.OnCourse := .of_running (run_sound hd timeoutAt maxRetries ops)
    (run_live hd hdne timeoutAt maxRetries ops) hr (hwdef ▸ hsmall)
  -- what is on course keeps its definition, so that it stays without cycles
  have hstep : ∀ (v : WorkflowInstance) (op : NodeOp),
      (v.OnCourse ∧ v.workflowDef = d) → v.Works op →
      ((op.exec v).OnCourse ∧ (op.exec v).workflowDef = d) ∧
        (op.exec v).callsToGo + 1 = v.callsToGo := by
    intro v op ⟨hv, hvdef⟩ hop
    obtain ⟨hv', hgo⟩ := hv.step v op hop
    exact ⟨⟨hv', (exec_workflowDef v op).trans hvdef⟩, hgo⟩
  have hnext : ∀ v : WorkflowInstance, (v.OnCourse ∧ v.workflowDef = d) → v.callsToGo ≠ 0 →
      ∃ op, v.Works op := fun v ⟨hv, hvdef⟩ hgo => hv.next (hvdef ▸ hacyclic) hgo
  obtain ⟨⟨hend, _⟩, hlen⟩ := countdown_run hstep as ⟨hcourse, hwdef⟩ has
  obtain ⟨more, hall, htotal, ⟨hfin, hfindef⟩, hzero⟩ :=
    countdown_goal hstep hnext as ⟨hcourse, hwdef⟩ has
  obtain ⟨hsuccess, hcompleted⟩ := hfin.completed hzero
  rw [hfindef] at hcompleted
  refine ⟨by omega, ?_, more, hall, htotal, hsuccess, hcompleted⟩
  rw [hend.status]
  by_cases hz : (run NodeOp.exec w as).callsToGo = 0
  · rw [if_pos hz]
    exact iff_of_true rfl (by omega)
  · rw [if_neg hz]
    exact iff_of_false nofun (by omega)

theorem completion_sample :
    let w := run NodeOp.exec (new .sampleChain 10 1) [.start 1, .fail 1]
    ∃ more, Along NodeOp.exec Works w ([.start 1] ++ more) ∧
      ([NodeOp.start 1] ++ more).length = w.callsToGo ∧
      (run NodeOp.exec w ([.start 1] ++ more)).status = .success ∧
      ∀ n ∈ WorkflowDef.sampleChain.nodes,
        (run NodeOp.exec w ([.start 1] ++ more)).getNodeState n = .completed := by
  have hd : WorkflowDef.validated [2, 1] [⟨1, 2⟩] = .ok .sampleChain := by decide
  have hacyclic : Acyclic fun a b => (⟨a, b⟩ : Edge) ∈ [⟨1, 2⟩] := by
    apply acyclic_of_rank id
    intro a b hab
    cases List.mem_singleton.mp hab
    decide
  exact (completion hd nofun hacyclic (by decide) 10 1 [.start 1, .fail 1] (by decide) [.start 1]
    ⟨⟨⟨1, Or.inl rfl⟩, by decide⟩, trivial⟩).2.2

end WorkflowInstance
end LionCore
