import LionCore.Base.Total
import LionCore.Workflow.Run

/-!
# Every run of a workflow is bounded

A node starts once, and once more for every retry it has left; calls that come after the end of the
workflow make no difference.

* `NodeStep`                   what a call that succeeds does to its node;
* `NodeEffect.at_node`         and to no other one;
* `startsLeft`, `callsLeft`    what is still possible at a node;
* `pay_node`                   so a node pays for what is done to it;
* `run_bounded`                **main result**: no run starts, retries or calls more often.
-/

namespace LionCore
open Base

/-! ## one node -/

/-- the state of a node and the retries it has left change together -/
inductive NodeStep : NodeOp → Nat → NodeState × Nat → NodeState × Nat → Prop
  | start (n r : Nat) : NodeStep (.start n) n (.pending, r) (.active, r)
  | complete (n r : Nat) : NodeStep (.complete n) n (.active, r) (.completed, r)
  | retry (n r : Nat) : NodeStep (.fail n) n (.active, r + 1) (.pending, r)
  | fail (n : Nat) : NodeStep (.fail n) n (.active, 0) (.failed, 0)

/-- how often a node can still be started -/
def startsLeft : NodeState × Nat → Nat
  | (.pending, r) => 1 + r
  | (.active, r) => r
  | _ => 0

/-- how many calls a node can still accept -/
def callsLeft : NodeState × Nat → Nat
  | (.pending, r) => 2 * (1 + r)
  | (.active, r) => 2 * r + 1
  | _ => 0

namespace NodeStep
variable {op : NodeOp} {n : Nat} {a b : NodeState × Nat}

theorem startsLeft_add (h : NodeStep op n a b) :
    startsLeft b + (if op = .start n then 1 else 0) ≤ startsLeft a := by
  cases h <;> simp [startsLeft, Nat.add_comm]

theorem retries_add (h : NodeStep op n a b) :
    b.2 + (if op = .fail n ∧ b.1 = .pending then 1 else 0) ≤ a.2 := by
  cases h <;> simp

theorem callsLeft_lt (h : NodeStep op n a b) : callsLeft b < callsLeft a := by
  cases h <;> (simp only [callsLeft]; omega)

theorem node_eq (h : NodeStep op n a b) {m : Nat} (hm : op = .start m ∨ op = .fail m) : m = n := by
  cases h <;> rcases hm with hm | hm <;> cases hm <;> rfl

end NodeStep

namespace WorkflowInstance

/-- the state and the retries of a node -/
def nodeAt (w : WorkflowInstance) (n : Nat) : NodeState × Nat := (w.getNodeState n, w.getRetries n)

section
variable {w w' : WorkflowInstance} {op : NodeOp} {n idx : Nat}

theorem getRetries_new_le (d : WorkflowDef) (timeoutAt : Time) (maxRetries n : Nat) :
    (WorkflowInstance.new d timeoutAt maxRetries).getRetries n ≤ min maxRetries 65535 := by
  unfold getRetries retriesAt WorkflowInstance.new
  split
  · rw [List.getD_eq_getElem?_getD, List.getElem?_replicate]
    split
    · show (if maxRetries > 65535 then 65535 else maxRetries) ≤ _
      split <;> omega
    · exact Nat.zero_le _
  · exact Nat.zero_le _

theorem WellFormed.nodeAt_set (hw : w.WellFormed) (hdef : w'.workflowDef = w.workflowDef)
    {s : NodeState} {r : Nat} (hstates : w'.nodeStates = w.nodeStates.set idx s)
    (hretries : w'.retries = w.retries.set idx r)
    (hidx : w.workflowDef.nodeIndex n = some idx) (m : Nat) :
    w'.nodeAt m = if m = n then (s, r) else w.nodeAt m := by
  have hr := congrFun (hw.getRetries_set hdef hretries hidx) m
  unfold nodeAt
  rw [hw.getNodeState_set hdef hstates hidx, hr]
  by_cases hm : m = n <;> simp [hm]

theorem WellFormed.set_retriesAt (hw : w.WellFormed) (hidx : w.workflowDef.nodeIndex n = some idx) :
    w.retries.set idx (w.retriesAt idx) = w.retries := by
  have hlt : idx < w.retries.length := hw.retries ▸ hw.faithful.index_lt hidx
  unfold retriesAt
  rw [List.getD_eq_getElem?_getD, List.getElem?_eq_getElem hlt]
  exact List.set_getElem_self hlt

/-- **An effect is a step of one node, or a timeout.** -/
theorem NodeEffect.at_node (h : NodeEffect w op w') (hw : w.WellFormed) :
    (op = .timeout ∧ w' = w.applyTimeout) ∨
      ∃ n ∈ w.workflowDef.nodes, ∃ b, NodeStep op n (w.nodeAt n) b ∧
        ∀ m, w'.nodeAt m = if m = n then b else w.nodeAt m := by
  have hdef := h.workflowDef
  have hnode : ∀ {n idx}, w.workflowDef.nodeIndex n = some idx → n ∈ w.workflowDef.nodes :=
    fun hidx => hw.faithful.nodeIndex_isSome_iff.mp ⟨_, hidx⟩
  have hbefore : ∀ {n idx s r}, w.workflowDef.nodeIndex n = some idx → w.stateAt idx = s →
      w.retriesAt idx = r → w.nodeAt n = (s, r) := fun hidx hs hr =>
    Prod.ext ((getNodeState_at hidx).trans hs) ((getRetries_at hidx).trans hr)
  cases h with
  | @start n idx hidx hs hdeps =>
    refine Or.inr ⟨n, hnode hidx, (.active, w.retriesAt idx), ?_, ?_⟩
    · rw [hbefore hidx hs rfl]
      exact .start n _
    · exact hw.nodeAt_set hdef rfl (by rw [hw.set_retriesAt hidx, transition_retries]) hidx
  | @complete n idx hidx hs =>
    refine Or.inr ⟨n, hnode hidx, (.completed, w.retriesAt idx), ?_, ?_⟩
    · rw [hbefore hidx hs rfl]
      exact .complete n _
    · exact hw.nodeAt_set hdef (by simp) (by simp [hw.set_retriesAt hidx]) hidx
  | @retry n idx hidx hs hr =>
    refine Or.inr ⟨n, hnode hidx, (.pending, w.retriesAt idx - 1), ?_, ?_⟩
    · rw [hbefore hidx hs (Nat.sub_add_cancel hr).symm]
      exact .retry n _
    · exact hw.nodeAt_set hdef rfl rfl hidx
  | @fail n idx hidx hs hr =>
    refine Or.inr ⟨n, hnode hidx, (.failed, w.retriesAt idx), ?_, ?_⟩
    · rw [hbefore hidx hs hr, hr]
      exact .fail n
    · exact hw.nodeAt_set hdef rfl (by rw [hw.set_retriesAt hidx, transition_retries]) hidx
  | timeout => exact Or.inl ⟨rfl, rfl⟩

/-! ## the costs of a call -/

/-- the call starts the node -/
def startsOf (n : Nat) (w : WorkflowInstance) (op : NodeOp) : Nat :=
  if op = .start n ∧ (op.call w).1 = .ok () then 1 else 0

/-- the call fails the node, which goes back to pending -/
def retriesOf (n : Nat) (w : WorkflowInstance) (op : NodeOp) : Nat :=
  if op = .fail n ∧ (op.call w).1 = .ok () ∧ (op.exec w).getNodeState n = .pending then 1 else 0

/-- the call starts, completes or fails some node -/
def accepted (w : WorkflowInstance) (op : NodeOp) : Nat :=
  if op ≠ .timeout ∧ (op.call w).1 = .ok () then 1 else 0

/-- a call that is rejected costs nothing and a timeout neither; else its node takes a step -/
theorem WellFormed.exec_nodeAt (hw : w.WellFormed) (op : NodeOp) :
    ((op = .timeout ∨ (op.call w).1 ≠ .ok ()) ∧ (op.exec w).nodeAt = w.nodeAt) ∨
      ∃ n ∈ w.workflowDef.nodes, ∃ b, NodeStep op n (w.nodeAt n) b ∧
        ∀ m, (op.exec w).nodeAt m = if m = n then b else w.nodeAt m := by
  unfold NodeOp.exec
  rcases call_cases w op with ⟨e, he⟩ | ⟨w', hcall, heff⟩
  · rw [he]
    exact Or.inl ⟨Or.inr nofun, rfl⟩
  · rw [hcall]
    rcases heff.at_node hw with ⟨hop, rfl⟩ | hstep
    · exact Or.inl ⟨Or.inl hop, rfl⟩
    · exact Or.inr hstep

/-- **What a call costs at a node is paid by that node**, if it is paid whenever the node takes a
step and the cost comes from a call that succeeds there. -/
theorem WellFormed.pay_node (hw : w.WellFormed) (op : NodeOp) (n : Nat) {p : NodeState × Nat → Nat}
    {c : Prop} [Decidable c] (hnode : c → (op = .start n ∨ op = .fail n) ∧ (op.call w).1 = .ok ())
    (hstep : ∀ b, NodeStep op n (w.nodeAt n) b → (op.exec w).nodeAt n = b →
      p b + (if c then 1 else 0) ≤ p (w.nodeAt n)) :
    p ((op.exec w).nodeAt n) + (if c then 1 else 0) ≤ p (w.nodeAt n) := by
  rcases hw.exec_nodeAt op with ⟨hnone, hat⟩ | ⟨m, _, b, hs, hat⟩
  · rw [hat, if_neg]
    · exact le_rfl
    · intro hc
      obtain ⟨hop, hok⟩ := hnode hc
      rcases hnone with rfl | hr
      · rcases hop with hop | hop <;> cases hop
      · exact hr hok
  · by_cases hnm : n = m
    · subst hnm
      have hb := hat n
      rw [if_pos rfl] at hb
      rw [hb]
      exact hstep b hs hb
    · rw [hat, if_neg hnm, if_neg fun hc => hnm (hs.node_eq (hnode hc).1)]
      exact le_rfl

theorem WellFormed.pay_starts (hw : w.WellFormed) (n : Nat) (op : NodeOp) :
    startsLeft ((op.exec w).nodeAt n) + startsOf n w op ≤ startsLeft (w.nodeAt n) := by
  unfold startsOf
  apply hw.pay_node op n fun hc => ⟨Or.inl hc.1, hc.2⟩
  intro b hs _
  have hpay := hs.startsLeft_add
  split
  · rename_i hc
    rwa [if_pos hc.1] at hpay
  · omega

theorem WellFormed.pay_retries (hw : w.WellFormed) (n : Nat) (op : NodeOp) :
    ((op.exec w).nodeAt n).2 + retriesOf n w op ≤ (w.nodeAt n).2 := by
  unfold retriesOf
  apply hw.pay_node op n (p := Prod.snd) fun hc => ⟨Or.inr hc.1, hc.2.1⟩
  intro b hs hb
  have hpay := hs.retries_add
  have hstate : (op.exec w).getNodeState n = b.1 := congrArg Prod.fst hb
  rw [hstate]
  split
  · rename_i hc
    rwa [if_pos ⟨hc.1, hc.2.2⟩] at hpay
  · omega

/-- what all nodes together can still accept -/
def allCallsLeft (w : WorkflowInstance) : Nat :=
  (w.workflowDef.nodes.map fun n => callsLeft (w.nodeAt n)).sum

theorem nodeAt_new (d : WorkflowDef) (timeoutAt : Time) (maxRetries n : Nat) :
    (WorkflowInstance.new d timeoutAt maxRetries).nodeAt n =
      (.pending, (WorkflowInstance.new d timeoutAt maxRetries).getRetries n) :=
  Prod.ext (getNodeState_new d timeoutAt maxRetries n) rfl

theorem allCallsLeft_new_le (d : WorkflowDef) (timeoutAt : Time) (maxRetries : Nat) :
    (WorkflowInstance.new d timeoutAt maxRetries).allCallsLeft ≤
      2 * d.nodes.length * (1 + min maxRetries 65535) := by
  have hle : ∀ n, callsLeft ((WorkflowInstance.new d timeoutAt maxRetries).nodeAt n) ≤
      2 * (1 + min maxRetries 65535) := by
    intro n
    have hr := getRetries_new_le d timeoutAt maxRetries n
    rw [nodeAt_new]
    simp only [callsLeft]
    omega
  calc (WorkflowInstance.new d timeoutAt maxRetries).allCallsLeft
      ≤ d.nodes.length • (2 * (1 + min maxRetries 65535)) := by
        have hsum := List.sum_le_card_nsmul
          (d.nodes.map fun n => callsLeft ((WorkflowInstance.new d timeoutAt maxRetries).nodeAt n))
          _ (List.forall_mem_map.mpr fun n _ => hle n)
        rwa [List.length_map] at hsum
    _ = 2 * d.nodes.length * (1 + min maxRetries 65535) := by
        rw [Nat.mul_assoc]
        exact Nat.mul_left_comm _ _ _

theorem WellFormed.pay_accepted (hw : w.WellFormed) (op : NodeOp) :
    (op.exec w).allCallsLeft + accepted w op ≤ w.allCallsLeft := by
  unfold allCallsLeft accepted
  rw [exec_workflowDef]
  rcases hw.exec_nodeAt op with ⟨hnone, hat⟩ | ⟨m, hm, b, hstep, hat⟩
  · rw [hat, if_neg]
    · exact le_rfl
    · rintro ⟨hop, hok⟩
      exact hnone.elim hop fun hr => hr hok
  · have hsum := sum_map_of_ne hw.faithful.increasing.nodup hm
      (f := fun n => callsLeft (w.nodeAt n)) (g := fun n => callsLeft ((op.exec w).nodeAt n))
      fun n hn => by rw [hat, if_neg hn]
    have hat' := hat m
    rw [if_pos rfl] at hat'
    simp only [hat'] at hsum
    have hlt := hstep.callsLeft_lt
    split <;> omega

end

/-! ## runs -/

/-- **Main result**: in every run of calls on a new instance of a validated definition, whatever
their order and whatever fails, a node starts at most once and once more for every retry, it goes
back to pending at most as often as it has retries, and two calls per start are all that succeed. -/
theorem run_bounded {nodes : List Nat} {edges : List Edge} {d : WorkflowDef}
    (hd : WorkflowDef.validated nodes edges = .ok d) (timeoutAt : Time) (maxRetries : Nat)
    (ops : List NodeOp) :
    let w := new d timeoutAt maxRetries
    let r := min maxRetries 65535
    (∀ n, total NodeOp.exec (startsOf n) w ops ≤ 1 + r) ∧
      (∀ n, total NodeOp.exec (retriesOf n) w ops ≤ r) ∧
      total NodeOp.exec accepted w ops ≤ 2 * d.nodes.length * (1 + r) := by
  intro w r
  have keep : ∀ w op, WellFormed w → (NodeOp.exec w op).WellFormed := fun _ op h => h.exec op
  have hw : w.WellFormed := .new (WorkflowDef.validated_faithful hd).2.2 timeoutAt maxRetries
  have hr : ∀ n, w.getRetries n ≤ r := getRetries_new_le d timeoutAt maxRetries
  refine ⟨fun n => ?_, fun n => ?_, ?_⟩
  · have htotal := total_le_potential (p := fun w => startsLeft (nodeAt w n)) keep
      (fun w op h => h.pay_starts n op) ops hw
    have hpot : startsLeft (w.nodeAt n) = 1 + w.getRetries n :=
      congrArg startsLeft (nodeAt_new d timeoutAt maxRetries n)
    have hle := hr n
    omega
  · have htotal := total_le_potential (p := fun w => (nodeAt w n).2) keep
      (fun w op h => h.pay_retries n op) ops hw
    have hle : (w.nodeAt n).2 ≤ r := hr n
    omega
  · have htotal := total_le_potential keep (fun w op h => h.pay_accepted op) ops hw
    have hpot : w.allCallsLeft ≤ _ := allCallsLeft_new_le d timeoutAt maxRetries
    exact (Nat.le_add_left _ _).trans (htotal.trans hpot)

/-- a node with one retry: two starts, one of them after a failure that is retried -/
theorem run_bounded_sample :
    total NodeOp.exec (startsOf 1) (new .sampleSingle 10 1)
      [.start 1, .fail 1, .start 1, .fail 1, .start 1] ≤ 2 := by
  have hd : WorkflowDef.validated [1] [] = .ok .sampleSingle := by decide
  exact (run_bounded hd 10 1 [.start 1, .fail 1, .start 1, .fail 1, .start 1]).1 1

end WorkflowInstance
end LionCore
