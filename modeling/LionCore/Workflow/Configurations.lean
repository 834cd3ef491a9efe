import LionCore.Workflow.Bound
import LionCore.Workflow.Completion
import LionCore.Workflow.Ordering
import Mathlib.Data.Set.Card

/-!
# The configurations that a workflow can come to

A configuration says of every node in which state it is and how many retries it has left.

* `Consistent`             what a configuration has to meet, node by node and along the edges;
* `Admissible`             the same, where failures may leave retries over;
* `Consistent.step`        every call that is accepted keeps the former, every move the latter;
* `WellFormed.walk`        a node whose dependencies are completed can be led to any state;
* `configurations_iff`     **main result**: the consistent configurations are those that runs reach;
* `active_together_iff`    **main result**: which nodes can be active at the same time;
* `completion_orders_iff`  **main result**: in which orders nodes can be completed.
-/

namespace LionCore
open Base

/-! ## one node -/

theorem NodeStep.same_node {op : NodeOp} {n m : Nat} {a b a' b' : NodeState × Nat}
    (h : NodeStep op n a b) (h' : NodeStep op m a' b') : n = m := by
  cases h <;> cases h' <;> rfl

theorem NodeStep.same_after {op : NodeOp} {n : Nat} {a b b' : NodeState × Nat}
    (h : NodeStep op n a b) (h' : NodeStep op n a b') : b = b' := by
  cases h <;> cases h' <;> rfl

/-- the moves of a node that the specification knows: it may fail with retries left -/
inductive NodeMove : NodeState × Nat → NodeState × Nat → Prop
  | start (r : Nat) : NodeMove (.pending, r) (.active, r)
  | complete (r : Nat) : NodeMove (.active, r) (.completed, r)
  | retry (r : Nat) : NodeMove (.active, r + 1) (.pending, r)
  | fail (r : Nat) : NodeMove (.active, r) (.failed, r)

theorem NodeStep.move {op : NodeOp} {n : Nat} {a b : NodeState × Nat} (h : NodeStep op n a b) :
    NodeMove a b := by
  cases h with
  | start => exact .start _
  | complete => exact .complete _
  | retry => exact .retry _
  | fail => exact .fail 0

theorem NodeStep.starts {op : NodeOp} {n : Nat} {a b : NodeState × Nat} (h : NodeStep op n a b)
    (ha : a.1 = .pending) : op = .start n := by
  cases h with
  | start => rfl
  | complete | retry | fail => cases ha

/-- the calls that a node accepts lead from one of its states to another -/
def NodePath (n : Nat) : NodeState × Nat → NodeState × Nat → Prop :=
  Relation.ReflTransGen fun a b => ∃ op, NodeStep op n a b

/-- as many failures as it takes -/
theorem NodePath.retries (n k : Nat) {r : Nat} (h : k ≤ r) :
    NodePath n (.pending, r) (.pending, k) := by
  induction r, h using Nat.le_induction with
  | base => exact .refl
  | succ r _ ih =>
    have hstart : NodeStep (.start n) n (.pending, r + 1) (.active, r + 1) := .start n (r + 1)
    have hfail : NodeStep (.fail n) n (.active, r + 1) (.pending, r) := .retry n r
    exact .head ⟨_, hstart⟩ (.head ⟨_, hfail⟩ ih)

/-- **A node can come to every state**, with any number of its retries left, and with none of them
if it has failed. -/
theorem NodePath.exists (n : Nat) {r : Nat} {b : NodeState × Nat} (hr : b.2 ≤ r)
    (hspent : b.1 = .failed → b.2 = 0) : NodePath n (.pending, r) b := by
  obtain ⟨s, k⟩ := b
  have hk : NodePath n (.pending, r) (.pending, k) := .retries n k hr
  have hactive : NodePath n (.pending, r) (.active, k) := hk.tail ⟨_, .start n k⟩
  cases s with
  | pending => exact hk
  | active => exact hactive
  | completed => exact hactive.tail ⟨_, .complete n k⟩
  | failed =>
    obtain rfl : k = 0 := hspent rfl
    exact hactive.tail ⟨_, .fail n⟩

namespace WorkflowInstance

/-- every node that is not as it was at the beginning has its dependencies completed; a failed node
has no retries left; and what waits for itself is never completed -/
structure Consistent (d : WorkflowDef) (r : Nat) (c : Nat → NodeState × Nat) : Prop where
  outside : ∀ n, n ∉ d.nodes → c n = (.pending, 0)
  budget : ∀ n, (c n).2 ≤ r
  spent : ∀ n, (c n).1 = .failed → (c n).2 = 0
  dependencies : ∀ n a, d.DependsOn n a → c n ≠ (.pending, r) → (c a).1 = .completed
  cycles : ∀ n, OnCycle d n → (c n).1 ≠ .completed

/-- the same, but a failed node may have retries left -/
structure Admissible (d : WorkflowDef) (r : Nat) (c : Nat → NodeState × Nat) : Prop where
  outside : ∀ n, n ∉ d.nodes → c n = (.pending, 0)
  budget : ∀ n, (c n).2 ≤ r
  dependencies : ∀ n a, d.DependsOn n a → c n ≠ (.pending, r) → (c a).1 = .completed
  cycles : ∀ n, OnCycle d n → (c n).1 ≠ .completed

section
variable {d : WorkflowDef} {r : Nat} {c c' : Nat → NodeState × Nat}

theorem Consistent.admissible (h : Consistent d r c) : Admissible d r c :=
  ⟨h.outside, h.budget, h.dependencies, h.cycles⟩

theorem Admissible.consistent (h : Admissible d r c)
    (hspent : ∀ n, (c n).1 = .failed → (c n).2 = 0) : Consistent d r c :=
  ⟨h.outside, h.budget, hspent, h.dependencies, h.cycles⟩

/-- what a node can do where a failure may give up with retries left; a node starts only with its
dependencies completed -/
theorem Admissible.step (h : Admissible d r c) {n : Nat} {b : NodeState × Nat} (hn : n ∈ d.nodes)
    (hmove : NodeMove (c n) b)
    (hdeps : (c n).1 = .pending → ∀ a, d.DependsOn n a → (c a).1 = .completed)
    (hc : ∀ m, c' m = if m = n then b else c m) : Admissible d r c' := by
  have hself : c' n = b := (hc n).trans (if_pos rfl)
  have hother : ∀ m, m ≠ n → c' m = c m := fun m hm => (hc m).trans (if_neg hm)
  -- what is completed does not move any more
  have hstays : ∀ a, (c a).1 = .completed → (c' a).1 = .completed := by
    intro a ha
    by_cases han : a = n
    · subst han
      generalize c a = x at hmove ha
      cases hmove <;> cases ha
    · rw [hother a han]
      exact ha
  have hdone : ∀ a, d.DependsOn n a → (c a).1 = .completed := by
    intro a ha
    generalize hx : c n = x at hmove hdeps
    cases hmove with
    | start => exact hdeps rfl a ha
    | complete | retry | fail => exact h.dependencies n a ha (by rw [hx]; nofun)
  refine ⟨fun m hm => ?_, fun m => ?_, fun m a ha hm => hstays a ?_, fun m hm => ?_⟩
  · rw [hother m fun e => hm (e ▸ hn)]
    exact h.outside m hm
  · by_cases hmn : m = n
    · subst hmn
      rw [hself]
      have hb := h.budget m
      generalize c m = x at hmove hb
      cases hmove with
      | start | complete | fail => exact hb
      | retry => exact (Nat.le_succ _).trans hb
    · rw [hother m hmn]
      exact h.budget m
  · by_cases hmn : m = n
    · subst hmn
      exact hdone a ha
    · rw [hother m hmn] at hm
      exact h.dependencies m a ha hm
  · by_cases hmn : m = n
    · -- it waits for a node of its own cycle, which would be completed already
      subst hmn
      obtain ⟨a, ha, hcycle⟩ := cycle_pred hm
      exact absurd (hdone a ha) (h.cycles a hcycle)
    · rw [hother m hmn]
      exact h.cycles m hm

/-- one node takes a step, and it starts only with its dependencies completed -/
theorem Consistent.step (h : Consistent d r c) {op : NodeOp} {n : Nat}
    {b : NodeState × Nat} (hn : n ∈ d.nodes) (hstep : NodeStep op n (c n) b)
    (hdeps : op = .start n → ∀ a, d.DependsOn n a → (c a).1 = .completed)
    (hc : ∀ m, c' m = if m = n then b else c m) : Consistent d r c' := by
  have hadm : Admissible d r c' := h.admissible.step hn hstep.move (hdeps ∘ hstep.starts) hc
  apply hadm.consistent
  intro m
  rw [hc m]
  split
  · generalize c n = x at hstep
    cases hstep with
    | start | complete | retry => nofun
    | fail => exact fun _ => rfl
  · exact h.spent m

theorem Consistent.path (h : Consistent d r c) (n : Nat) : NodePath n (.pending, r) (c n) :=
  .exists n (h.budget n) (h.spent n)

end

/-! ## a new instance -/

section
variable {d : WorkflowDef} (hd : d.Faithful) (timeoutAt : Time) (maxRetries : Nat)
include hd

theorem nodeAt_new_of_mem {n : Nat} (hn : n ∈ d.nodes) :
    (WorkflowInstance.new d timeoutAt maxRetries).nodeAt n = (.pending, min maxRetries 65535) := by
  obtain ⟨idx, hidx⟩ := hd.nodeIndex_isSome_iff.mpr hn
  have hlt := hd.index_lt hidx
  have hat : (new d timeoutAt maxRetries).getRetries n =
      (new d timeoutAt maxRetries).retriesAt idx := getRetries_at hidx
  rw [nodeAt_new, hat]
  unfold retriesAt WorkflowInstance.new
  rw [List.getD_eq_getElem?_getD, List.getElem?_replicate, if_pos hlt]
  refine Prod.ext rfl ?_
  show (if maxRetries > 65535 then 65535 else maxRetries) = _
  split <;> omega

theorem nodeAt_new_of_not_mem {n : Nat} (hn : n ∉ d.nodes) :
    (WorkflowInstance.new d timeoutAt maxRetries).nodeAt n = (.pending, 0) := by
  have hnone : d.nodeIndex n = none := by
    by_contra hsome
    exact hn (hd.nodeIndex_isSome_iff.mp (Option.ne_none_iff_exists'.mp hsome))
  have hr : (new d timeoutAt maxRetries).getRetries n = 0 := by
    rw [getRetries_eq]
    show (d.nodeIndex n).elim 0 _ = 0
    rw [hnone]
    rfl
  rw [nodeAt_new, hr]

theorem Consistent.new :
    Consistent d (min maxRetries 65535) (WorkflowInstance.new d timeoutAt maxRetries).nodeAt where
  outside _ hn := nodeAt_new_of_not_mem hd timeoutAt maxRetries hn
  budget n := getRetries_new_le d timeoutAt maxRetries n
  spent n hs := by
    rw [nodeAt_new] at hs
    cases hs
  dependencies n a ha hn :=
    absurd (nodeAt_new_of_mem hd timeoutAt maxRetries (hd.dependsOn_mem ha).2) hn
  cycles n _ hs := by
    rw [nodeAt_new] at hs
    cases hs

end

/-! ## runs -/

section
variable {w : WorkflowInstance} {n : Nat}

theorem WellFormed.exec_consistent (hw : w.WellFormed) {r : Nat}
    (h : Consistent w.workflowDef r w.nodeAt) (op : NodeOp) :
    Consistent w.workflowDef r (op.exec w).nodeAt := by
  rcases exec_cases w op with he | he
  · rwa [he]
  · rcases he.at_node hw with ⟨_, ht⟩ | ⟨n, hn, b, hstep, hat⟩
    · rwa [ht]
    · refine h.step hn hstep ?_ hat
      rintro rfl
      exact (hw.dependenciesSatisfied_iff n).mp he.satisfied

/-- a step of a node is what its call does, if a start finds the dependencies completed -/
theorem WellFormed.exec_step (hw : w.WellFormed) {op : NodeOp} {b : NodeState × Nat}
    (hn : n ∈ w.workflowDef.nodes) (hstep : NodeStep op n (w.nodeAt n) b)
    (hdeps : ∀ a, w.workflowDef.DependsOn n a → w.getNodeState a = .completed) :
    (op.call w).1 = .ok () ∧ (op.exec w).nodeAt = Function.update w.nodeAt n b := by
  obtain ⟨idx, hidx⟩ := hw.faithful.nodeIndex_isSome_iff.mpr hn
  have hs : w.stateAt idx = (w.nodeAt n).1 := (getNodeState_at hidx).symm
  have hr : w.retriesAt idx = (w.nodeAt n).2 := (getRetries_at hidx).symm
  have heff : ∃ w', NodeEffect w op w' := by
    generalize w.nodeAt n = x at hstep hs hr
    cases hstep with
    | start => exact ⟨_, .start hidx hs ((hw.dependenciesSatisfied_iff n).mpr hdeps)⟩
    | complete => exact ⟨_, .complete hidx hs⟩
    | retry _ r => exact ⟨_, .retry hidx hs (hr ▸ Nat.succ_pos r)⟩
    | fail => exact ⟨_, .fail hidx hs hr⟩
  obtain ⟨w', heff⟩ := heff
  have hexec : op.exec w = w' := congrArg Prod.snd heff.call
  refine ⟨congrArg Prod.fst heff.call, ?_⟩
  rcases heff.at_node hw with ⟨rfl, _⟩ | ⟨m, _, b', hstep', hat⟩
  · cases hstep
  · obtain rfl := hstep.same_node hstep'
    obtain rfl := hstep.same_after hstep'
    rw [hexec]
    funext m
    rw [hat m, Function.update_apply]

/-- **A node whose dependencies are completed, and which is none of them, can be led along any path
of its own**, and no other node moves. -/
theorem WellFormed.walk (hw : w.WellFormed) {a b : NodeState × Nat} (path : NodePath n a b)
    (ha : w.nodeAt n = a) (hn : n ∈ w.workflowDef.nodes)
    (hdeps : ∀ m, w.workflowDef.DependsOn n m → m ≠ n ∧ w.getNodeState m = .completed) :
    ∃ ops, (run NodeOp.exec w ops).nodeAt = Function.update w.nodeAt n b := by
  induction path using Relation.ReflTransGen.head_induction_on generalizing w with
  | refl => exact ⟨[], by rw [← ha, Function.update_eq_self]; rfl⟩
  | @head a x hstep _ ih =>
    obtain ⟨op, hstep⟩ := hstep
    rw [← ha] at hstep
    obtain ⟨_, hat⟩ := hw.exec_step hn hstep fun m hm => (hdeps m hm).2
    have hdef := exec_workflowDef w op
    obtain ⟨ops, hops⟩ := ih (hw.exec op) (by rw [hat, Function.update_self]) (hdef ▸ hn) (by
      intro m hm
      obtain ⟨hne, hdone⟩ := hdeps m (hdef ▸ hm)
      have hkept : (op.exec w).nodeAt m = w.nodeAt m := by
        rw [hat, Function.update_of_ne hne]
      exact ⟨hne, (congrArg Prod.fst hkept).trans hdone⟩)
    refine ⟨op :: ops, ?_⟩
    rw [run_cons, hops, hat, Function.update_idem]

theorem run_consistent {d : WorkflowDef} (hd : d.Faithful) (timeoutAt : Time) (maxRetries : Nat)
    (ops : List NodeOp) :
    Consistent d (min maxRetries 65535)
      (run NodeOp.exec (new d timeoutAt maxRetries) ops).nodeAt := by
  have h := run_invariant (f := NodeOp.exec)
    (P := fun w => w.WellFormed ∧ w.workflowDef = d ∧
      Consistent d (min maxRetries 65535) w.nodeAt)
    (fun w op h => by
      obtain ⟨hw, hdef, hc⟩ := h
      refine ⟨hw.exec op, (exec_workflowDef w op).trans hdef, ?_⟩
      subst hdef
      exact hw.exec_consistent hc op)
    ops ⟨.new hd timeoutAt maxRetries, rfl, .new hd timeoutAt maxRetries⟩
  exact h.2.2

/-- **From wherever every node is as it was at the beginning or already as it should be, the rest
can be done**: among the nodes that are left, one has all its dependencies behind it. -/
theorem WellFormed.lead {r : Nat} {c : Nat → NodeState × Nat} (hw : w.WellFormed)
    (hc : Consistent w.workflowDef r c)
    (hat : ∀ m, w.nodeAt m = c m ∨ m ∈ w.workflowDef.nodes ∧ w.nodeAt m = (.pending, r)) :
    ∃ ops, (run NodeOp.exec w ops).nodeAt = c := by
  -- the number of nodes that are left
  induction hk : {m | w.nodeAt m ≠ c m}.ncard using Nat.strong_induction_on generalizing w with
  | _ k ih =>
    by_cases hall : ∀ m, w.nodeAt m = c m
    · exact ⟨[], funext hall⟩
    obtain ⟨m₀, hm₀⟩ := not_forall.mp hall
    let before : Nat → Nat → Prop := fun a b => w.workflowDef.DependsOn b a ∧ (c a).1 = .completed
    have hacyclic : Acyclic before := by
      intro a ha
      obtain ⟨b, hab, _⟩ := Relation.TransGen.head'_iff.mp ha
      exact hc.cycles a (ha.lift id fun _ _ h => h.1) hab.2
    have hleft : ∀ m, w.nodeAt m ≠ c m →
        m ∈ w.workflowDef.nodes ∧ w.nodeAt m = (.pending, r) := fun m hm => (hat m).resolve_left hm
    have hfin : {m | w.nodeAt m ≠ c m}.Finite :=
      w.workflowDef.nodes.finite_toSet.subset fun m hm => (hleft m hm).1
    obtain ⟨n, hn, hfirst⟩ := hacyclic.exists_first hfin ⟨m₀, hm₀⟩
    obtain ⟨hmem, hpending⟩ := hleft n hn
    have htouched : c n ≠ (.pending, r) := fun e => hn (hpending.trans e.symm)
    have hdeps : ∀ a, w.workflowDef.DependsOn n a → a ≠ n ∧ w.getNodeState a = .completed := by
      intro a ha
      have hdone := hc.dependencies n a ha htouched
      have hsettled : w.nodeAt a = c a := not_not.mp (hfirst a ⟨ha, hdone⟩)
      refine ⟨fun e => hn (e ▸ hsettled), ?_⟩
      exact (congrArg Prod.fst hsettled).trans hdone
    obtain ⟨ops, hops⟩ := hw.walk (hc.path n) hpending hmem hdeps
    have hdef := run_workflowDef w ops
    have hw' : (run NodeOp.exec w ops).WellFormed :=
      run_invariant (f := NodeOp.exec) (P := WellFormed) (fun _ op h => h.exec op) ops hw
    have hself : (run NodeOp.exec w ops).nodeAt n = c n := by
      rw [hops, Function.update_self]
    have hother : ∀ m, m ≠ n → (run NodeOp.exec w ops).nodeAt m = w.nodeAt m := by
      intro m hm
      rw [hops, Function.update_of_ne hm]
    have hlt : {m | (run NodeOp.exec w ops).nodeAt m ≠ c m}.ncard < k := by
      rw [← hk]
      apply Set.ncard_lt_ncard _ hfin
      refine ⟨fun m hm => ?_, fun hle => hle hn hself⟩
      have hmn : m ≠ n := by
        rintro rfl
        exact hm hself
      show w.nodeAt m ≠ c m
      rw [← hother m hmn]
      exact hm
    obtain ⟨ops', hops'⟩ := ih _ hlt hw' (by rwa [hdef]) (by
      intro m
      rw [hdef]
      by_cases hmn : m = n
      · subst hmn
        exact Or.inl hself
      · rw [hother m hmn]
        exact hat m) rfl
    exact ⟨ops ++ ops', by rw [run_append, hops']⟩

theorem lead_new {d : WorkflowDef} (hd : d.Faithful) (timeoutAt : Time) (maxRetries : Nat)
    {c : Nat → NodeState × Nat} (hc : Consistent d (min maxRetries 65535) c) :
    ∃ ops, (run NodeOp.exec (new d timeoutAt maxRetries) ops).nodeAt = c := by
  have hw : (new d timeoutAt maxRetries).WellFormed := .new hd timeoutAt maxRetries
  apply hw.lead hc
  intro m
  by_cases hm : m ∈ d.nodes
  · exact Or.inr ⟨hm, nodeAt_new_of_mem hd timeoutAt maxRetries hm⟩
  · exact Or.inl ((nodeAt_new_of_not_mem hd timeoutAt maxRetries hm).trans (hc.outside m hm).symm)

end

/-- **Main result**: what a workflow can come to, whatever is started, completed, failed, retried,
timed out or refused on the way, are exactly the consistent configurations. -/
theorem configurations_iff {nodes : List Nat} {edges : List Edge} {d : WorkflowDef}
    (hd : WorkflowDef.validated nodes edges = .ok d) (timeoutAt : Time) (maxRetries : Nat)
    (c : Nat → NodeState × Nat) :
    (∃ ops, (run NodeOp.exec (new d timeoutAt maxRetries) ops).nodeAt = c) ↔
      Consistent d (min maxRetries 65535) c := by
  obtain ⟨-, -, hf⟩ := WorkflowDef.validated_faithful hd
  constructor
  · rintro ⟨ops, rfl⟩
    exact run_consistent hf timeoutAt maxRetries ops
  · exact lead_new hf timeoutAt maxRetries

/-- a node is completed, and the one that waits for it has used up its retry and failed -/
def sampleConfiguration (n : Nat) : NodeState × Nat :=
  if n = 1 then (.completed, 1) else if n = 2 then (.failed, 0) else (.pending, 0)

theorem configurations_iff_sample :
    ∃ ops, (run NodeOp.exec (new .sampleChain 10 1) ops).nodeAt = sampleConfiguration := by
  have hd : WorkflowDef.validated [2, 1] [⟨1, 2⟩] = .ok .sampleChain := by decide
  apply (configurations_iff hd 10 1 sampleConfiguration).mpr
  have hdep : ∀ n a, WorkflowDef.sampleChain.DependsOn n a → n = 2 ∧ a = 1 := by
    intro n a h
    obtain ⟨rfl, rfl⟩ := Edge.mk.inj (List.mem_singleton.mp h)
    exact ⟨rfl, rfl⟩
  refine ⟨fun n hn => ?_, fun n => ?_, fun n => ?_, fun n a ha _ => ?_, fun n hn => ?_⟩
  · have h1 : n ≠ 1 := fun e => hn (e ▸ by decide)
    have h2 : n ≠ 2 := fun e => hn (e ▸ by decide)
    unfold sampleConfiguration
    rw [if_neg h1, if_neg h2]
  · unfold sampleConfiguration
    split
    · exact le_rfl
    · split <;> exact Nat.zero_le _
  · unfold sampleConfiguration
    split
    · nofun
    · split
      · exact fun _ => rfl
      · nofun
  · obtain ⟨rfl, rfl⟩ := hdep n a ha
    rfl
  · -- there is no cycle: what waits is 2, and what is waited for is 1
    obtain ⟨b, hb, hcycle⟩ := cycle_pred hn
    obtain ⟨_, hb', _⟩ := cycle_pred hcycle
    obtain ⟨rfl, rfl⟩ := hdep n b hb
    cases (hdep 1 _ hb').1

/-! ## nodes at work together -/

/-- a path leads from `a` to `b` -/
def Before (d : WorkflowDef) : Nat → Nat → Prop := Relation.TransGen fun a b => d.DependsOn b a

section
variable {d : WorkflowDef}

theorem Consistent.before {r : Nat} {c : Nat → NodeState × Nat} (h : Consistent d r c)
    {a b : Nat} (path : Before d a b) (hb : (c b).1 ≠ .pending) : (c a).1 = .completed := by
  have hstep : ∀ a b, d.DependsOn b a → (c b).1 ≠ .pending → (c a).1 = .completed :=
    fun a b hab hb => h.dependencies b a hab fun e => hb (congrArg Prod.fst e)
  induction path with
  | single hab => exact hstep _ _ hab hb
  | tail _ hbc ih =>
    apply ih
    rw [hstep _ _ hbc hb]
    nofun

/-- the nodes of `s` are active, and all that comes before one of them is completed -/
noncomputable def frontier (d : WorkflowDef) (r : Nat) (s : Set Nat) (m : Nat) : NodeState × Nat :=
  open Classical in
  if m ∈ s then (.active, r)
  else if ∃ n ∈ s, Before d m n then (.completed, r)
  else if m ∈ d.nodes then (.pending, r) else (.pending, 0)

theorem frontier_consistent (hd : d.Faithful) (r : Nat) {s : Set Nat}
    (hs : ∀ n ∈ s, n ∈ d.nodes ∧ ∀ a, Before d a n → a ∉ s ∧ ¬ OnCycle d a) :
    Consistent d r (frontier d r s) := by
  classical
  have hbefore : ∀ {a n}, n ∈ s → Before d a n → frontier d r s a = (.completed, r) := by
    intro a n hn ha
    unfold frontier
    rw [if_neg ((hs n hn).2 a ha).1, if_pos ⟨n, hn, ha⟩]
  have hnode : ∀ {a b}, Before d a b → a ∈ d.nodes := by
    intro a b h
    obtain ⟨x, hax, _⟩ := Relation.TransGen.head'_iff.mp h
    exact (hd.dependsOn_mem hax).1
  refine ⟨fun m hm => ?_, fun m => ?_, fun m => ?_, fun m a ha hm => ?_, fun m hm => ?_⟩
  · unfold frontier
    rw [if_neg fun h => hm (hs m h).1, if_neg fun ⟨n, _, h⟩ => hm (hnode h), if_neg hm]
  · unfold frontier
    split
    · exact le_rfl
    · split
      · exact le_rfl
      · split
        · exact le_rfl
        · exact Nat.zero_le r
  · unfold frontier
    split
    · nofun
    · split
      · nofun
      · split <;> nofun
  · have hmem : m ∈ d.nodes := (hd.dependsOn_mem ha).2
    by_cases hms : m ∈ s
    · rw [hbefore hms (.single ha)]
    · by_cases hex : ∃ n ∈ s, Before d m n
      · obtain ⟨n, hn, hmn⟩ := hex
        rw [hbefore hn (.head ha hmn)]
      · exact absurd (by unfold frontier; rw [if_neg hms, if_neg hex, if_pos hmem]) hm
  · intro hdone
    by_cases hms : m ∈ s
    · exact ((hs m hms).2 m hm).1 hms
    · by_cases hex : ∃ n ∈ s, Before d m n
      · obtain ⟨n, hn, hmn⟩ := hex
        exact ((hs n hn).2 m hmn).2 hm
      · unfold frontier at hdone
        rw [if_neg hms, if_neg hex] at hdone
        split at hdone <;> cases hdone

end

/-- **Main result**: nodes can be active at the same time exactly if no path leads from one of them
to another (or back to itself), and none comes out of a cycle. -/
theorem active_together_iff {nodes : List Nat} {edges : List Edge} {d : WorkflowDef}
    (hd : WorkflowDef.validated nodes edges = .ok d) (timeoutAt : Time) (maxRetries : Nat)
    (s : Set Nat) :
    (∃ ops, ∀ n ∈ s, (run NodeOp.exec (new d timeoutAt maxRetries) ops).getNodeState n = .active) ↔
      ∀ n ∈ s, n ∈ d.nodes ∧ ∀ a, Before d a n → a ∉ s ∧ ¬ OnCycle d a := by
  obtain ⟨-, -, hf⟩ := WorkflowDef.validated_faithful hd
  constructor
  · intro ⟨ops, hops⟩ n hn
    have hc := run_consistent hf timeoutAt maxRetries ops
    have hactive := hops n hn
    refine ⟨?_, fun a ha => ?_⟩
    · by_contra hmem
      cases hactive.symm.trans (congrArg Prod.fst (hc.outside n hmem))
    · have hdone := hc.before ha (by
        show getNodeState _ n ≠ _
        rw [hactive]
        nofun)
      refine ⟨fun has => ?_, fun hcycle => hc.cycles a hcycle hdone⟩
      cases (hops a has).symm.trans hdone
  · intro hs
    have hc := frontier_consistent hf (min maxRetries 65535) hs
    obtain ⟨ops, hops⟩ := lead_new hf timeoutAt maxRetries hc
    refine ⟨ops, fun n hn => (congrArg Prod.fst (congrFun hops n)).trans ?_⟩
    unfold frontier
    rw [if_pos hn]

/-- in a chain of two nodes only one is active at a time -/
theorem active_together_iff_sample :
    ¬ ∃ ops, ∀ n ∈ ({1, 2} : Set Nat),
      (run NodeOp.exec (new .sampleChain 10 0) ops).getNodeState n = .active := by
  have hd : WorkflowDef.validated [2, 1] [⟨1, 2⟩] = .ok .sampleChain := by decide
  rw [active_together_iff hd 10 0]
  intro h
  have hpath : Before .sampleChain 1 2 := .single (List.mem_singleton.mpr rfl)
  exact ((h 2 (Or.inr rfl)).2 1 hpath).1 (Or.inl rfl)

/-! ## orders of completion -/

/-- the node that the call completes -/
def completions (w : WorkflowInstance) : NodeOp → List Nat
  | .complete n => if (w.completeNode n).1 = .ok () then [n] else []
  | _ => []

section
variable {w w' : WorkflowInstance} {op : NodeOp}

/-- **A call completes at most one node**, which was not completed before and has its dependencies
completed. -/
theorem WellFormed.completions_cases (hw : w.WellFormed) {r : Nat}
    (hc : Consistent w.workflowDef r w.nodeAt) (op : NodeOp) :
    (completions w op = [] ∧
        ∀ m, (op.exec w).getNodeState m = .completed ↔ w.getNodeState m = .completed) ∨
      ∃ n ∈ w.workflowDef.nodes, completions w op = [n] ∧ w.getNodeState n ≠ .completed ∧
        (∀ a, w.workflowDef.DependsOn n a → w.getNodeState a = .completed) ∧
        ∀ m, (op.exec w).getNodeState m = .completed ↔
          m = n ∨ w.getNodeState m = .completed := by
  unfold NodeOp.exec
  rcases call_cases w op with ⟨e, he⟩ | ⟨w', hcall, heff⟩
  · refine Or.inl ⟨?_, fun m => by rw [he]⟩
    cases op with
    | complete n =>
      have he' : w.completeNode n = (.error e, w) := he
      show (if (w.completeNode n).1 = .ok () then [n] else []) = []
      rw [he', if_neg nofun]
    | start | fail | timeout => rfl
  rw [hcall]
  rcases heff.at_node hw with ⟨rfl, rfl⟩ | ⟨n, hn, b, hstep, hat⟩
  · exact Or.inl ⟨rfl, fun _ => Iff.rfl⟩
  have hself : w'.getNodeState n = b.1 := congrArg Prod.fst ((hat n).trans (if_pos rfl))
  have hother : ∀ m, m ≠ n → w'.getNodeState m = w.getNodeState m := fun m hm =>
    congrArg Prod.fst ((hat m).trans (if_neg hm))
  have hn₀ : w.getNodeState n = (w.nodeAt n).1 := rfl
  -- a call that does not complete leaves the completed nodes as they are
  have hidle : (w.nodeAt n).1 ≠ .completed → b.1 ≠ .completed →
      ∀ m, w'.getNodeState m = .completed ↔ w.getNodeState m = .completed := by
    intro hbefore hafter m
    by_cases hm : m = n
    · rw [hm, hself, hn₀]
      exact iff_of_false hafter hbefore
    · rw [hother m hm]
  generalize hx : w.nodeAt n = x at hstep hn₀ hidle
  cases hstep with
  | start | retry | fail => exact Or.inl ⟨rfl, hidle nofun nofun⟩
  | complete _ k =>
    refine Or.inr ⟨n, hn, ?_, by rw [hn₀]; nofun, fun a ha => ?_, fun m => ?_⟩
    · have hcall' : w.completeNode n = (.ok (), w') := hcall
      show (if (w.completeNode n).1 = .ok () then [n] else []) = [n]
      rw [hcall', if_pos rfl]
    · exact hc.dependencies n a ha (by rw [hx]; nofun)
    · by_cases hm : m = n
      · rw [hm, hself]
        exact iff_of_true rfl (Or.inl rfl)
      · rw [hother m hm, or_iff_right hm]

end

/-- the nodes completed so far, in their order -/
structure CompletedSoFar (d : WorkflowDef) (w : WorkflowInstance) (ns : List Nat) : Prop where
  linear : Linear (fun a b => d.DependsOn b a) ns
  nodes : ∀ n ∈ ns, n ∈ d.nodes
  completed : ∀ n, w.getNodeState n = .completed ↔ n ∈ ns

theorem run_completedSoFar {d : WorkflowDef} (hd : d.Faithful) (timeoutAt : Time)
    (maxRetries : Nat) (ops : List NodeOp) :
    CompletedSoFar d (run NodeOp.exec (new d timeoutAt maxRetries) ops)
      (outputs NodeOp.exec completions (new d timeoutAt maxRetries) ops) := by
  induction ops using List.reverseRecOn with
  | nil =>
    refine ⟨linear_nil, fun n hn => (List.not_mem_nil hn).elim, fun n => iff_of_false ?_ ?_⟩
    · show (new d timeoutAt maxRetries).getNodeState n ≠ _
      rw [getNodeState_new]
      nofun
    · exact List.not_mem_nil
  | append_singleton ops op ih =>
    obtain ⟨hlin, hnodes, hdone⟩ := ih
    have hdef := run_workflowDef (new d timeoutAt maxRetries) ops
    have hdef' : (run NodeOp.exec (new d timeoutAt maxRetries) ops).workflowDef = d := hdef
    have hc := run_consistent hd timeoutAt maxRetries ops
    have hw : (run NodeOp.exec (new d timeoutAt maxRetries) ops).WellFormed :=
      run_wellFormed hd timeoutAt maxRetries ops
    rw [run_append, outputs_append, outputs_singleton]
    show CompletedSoFar d (op.exec _) _
    generalize run NodeOp.exec (new d timeoutAt maxRetries) ops = w at *
    subst hdef'
    rcases hw.completions_cases hc op with ⟨e, hsame⟩ | ⟨n, hn, e, hopen, hdeps, hmore⟩
    · rw [e, List.append_nil]
      exact ⟨hlin, hnodes, fun m => (hsame m).trans (hdone m)⟩
    · rw [e]
      refine ⟨linear_concat.mpr ⟨hlin, fun h => hopen ((hdone n).mpr h), fun a ha => ?_⟩, ?_, ?_⟩
      · exact (hdone a).mp (hdeps a ha)
      · intro m hm
        rcases List.mem_append.mp hm with hm | hm
        · exact hnodes m hm
        · exact List.mem_singleton.mp hm ▸ hn
      · intro m
        rw [hmore m, hdone m, List.mem_append, List.mem_singleton, or_comm]

/-- a pending node with its dependencies behind it is started and completed -/
theorem WellFormed.complete_next {w : WorkflowInstance} (hw : w.WellFormed) {n : Nat}
    (hn : n ∈ w.workflowDef.nodes) (hp : w.getNodeState n = .pending)
    (hdeps : ∀ a, w.workflowDef.DependsOn n a → w.getNodeState a = .completed) :
    outputs NodeOp.exec completions w [.start n, .complete n] = [n] ∧
      ∀ m, m ≠ n → (run NodeOp.exec w [.start n, .complete n]).getNodeState m =
        w.getNodeState m := by
  have hat : w.nodeAt n = (.pending, w.getRetries n) := Prod.ext hp rfl
  have hstart : NodeStep (.start n) n (w.nodeAt n) (.active, w.getRetries n) :=
    hat ▸ .start n (w.getRetries n)
  obtain ⟨_, h₁⟩ := hw.exec_step hn hstart hdeps
  have hw₁ := hw.exec (.start n)
  have hdef₁ := exec_workflowDef w (.start n)
  have hother : ∀ m, m ≠ n → (NodeOp.exec w (.start n)).nodeAt m = w.nodeAt m := by
    intro m hm
    rw [h₁, Function.update_of_ne hm]
  have hat₁ : (NodeOp.exec w (.start n)).nodeAt n = (.active, w.getRetries n) := by
    rw [h₁, Function.update_self]
  have hcomplete : NodeStep (.complete n) n ((NodeOp.exec w (.start n)).nodeAt n)
      (.completed, w.getRetries n) := hat₁ ▸ .complete n (w.getRetries n)
  obtain ⟨hok, h₂⟩ := hw₁.exec_step (hdef₁ ▸ hn) hcomplete (by
    intro a ha
    have hdone := hdeps a (hdef₁ ▸ ha)
    have hne : a ≠ n := by
      rintro rfl
      cases hp.symm.trans hdone
    exact (congrArg Prod.fst (hother a hne)).trans hdone)
  refine ⟨?_, fun m hm => ?_⟩
  · have hput : completions (NodeOp.exec w (.start n)) (.complete n) = [n] := if_pos hok
    show [] ++ (completions (NodeOp.exec w (.start n)) (.complete n) ++ []) = [n]
    rw [hput]
    rfl
  · have hsame : (NodeOp.exec (NodeOp.exec w (.start n)) (.complete n)).nodeAt m = w.nodeAt m := by
      rw [h₂, Function.update_of_ne hm, hother m hm]
    exact congrArg Prod.fst hsame

/-- the nodes can be started and completed one after the other, in any order that has dependencies
first; all others stay pending -/
theorem exists_completions {d : WorkflowDef} (hd : d.Faithful) (timeoutAt : Time) (maxRetries : Nat)
    {ns : List Nat} (hlin : Linear (fun a b => d.DependsOn b a) ns) (hns : ∀ n ∈ ns, n ∈ d.nodes) :
    ∃ ops, outputs NodeOp.exec completions (new d timeoutAt maxRetries) ops = ns ∧
      ∀ m, m ∉ ns →
        (run NodeOp.exec (new d timeoutAt maxRetries) ops).getNodeState m = .pending := by
  induction ns using List.reverseRecOn with
  | nil => exact ⟨[], rfl, fun m _ => getNodeState_new d timeoutAt maxRetries m⟩
  | append_singleton ns n ih =>
    obtain ⟨hlin, hn, hdeps⟩ := linear_concat.mp hlin
    obtain ⟨ops, hout, hpending⟩ := ih hlin fun m hm => hns m (List.mem_append_left _ hm)
    have hdone := (run_completedSoFar hd timeoutAt maxRetries ops).completed
    rw [hout] at hdone
    have hdef : (run NodeOp.exec (new d timeoutAt maxRetries) ops).workflowDef = d :=
      run_workflowDef (new d timeoutAt maxRetries) ops
    obtain ⟨hnext, hsame⟩ := (run_wellFormed hd timeoutAt maxRetries ops).complete_next
      (by rw [hdef]; exact hns n List.mem_concat_self) (hpending n hn)
      (by rw [hdef]; exact fun a ha => (hdone a).mpr (hdeps a ha))
    refine ⟨ops ++ [.start n, .complete n], ?_, fun m hm => ?_⟩
    · rw [outputs_append, hout, hnext]
    · have hmn : m ≠ n := fun e => hm (e ▸ List.mem_concat_self)
      rw [run_append, hsame m hmn]
      exact hpending m fun h => hm (List.mem_append_left _ h)

/-- **Main result**: nodes are completed in an order, by a run of whatever calls, exactly if it
repeats nothing and has the dependencies of each node before it. -/
theorem completion_orders_iff {nodes : List Nat} {edges : List Edge} {d : WorkflowDef}
    (hd : WorkflowDef.validated nodes edges = .ok d) (timeoutAt : Time) (maxRetries : Nat)
    (ns : List Nat) :
    (∃ ops, outputs NodeOp.exec completions (new d timeoutAt maxRetries) ops = ns) ↔
      Linear (fun a b => ⟨a, b⟩ ∈ edges) ns ∧ ∀ n ∈ ns, n ∈ nodes := by
  obtain ⟨hnodes, rfl, hf⟩ := WorkflowDef.validated_faithful hd
  have hmem : ∀ n, n ∈ d.nodes ↔ n ∈ nodes := by
    intro n
    rw [hnodes, mem_sortDedup]
  constructor
  · rintro ⟨ops, rfl⟩
    have h := run_completedSoFar hf timeoutAt maxRetries ops
    exact ⟨h.linear, fun n hn => (hmem n).mp (h.nodes n hn)⟩
  · intro ⟨hlin, hns⟩
    obtain ⟨ops, hops, _⟩ :=
      exists_completions hf timeoutAt maxRetries hlin fun n hn => (hmem n).mpr (hns n hn)
    exact ⟨ops, hops⟩

theorem completion_orders_iff_sample :
    ¬ ∃ ops, outputs NodeOp.exec completions (new .sampleChain 10 3) ops = [2, 1] := by
  have hd : WorkflowDef.validated [2, 1] [⟨1, 2⟩] = .ok .sampleChain := by decide
  rw [completion_orders_iff hd 10 3]
  intro h
  have hfirst := (h.1 [] 2 [1] rfl).2 1 (List.mem_singleton.mpr rfl)
  exact List.not_mem_nil hfirst

end WorkflowInstance
end LionCore
