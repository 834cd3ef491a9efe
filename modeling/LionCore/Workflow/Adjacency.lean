import LionCore.Workflow.Definition

/-!
# The queries of a validated definition

* `validated_ok_iff`       what is accepted;
* `Faithful.row_getD`      a row that is looked up is the list of the edges at that end;
* `Represents`             what the stored lists and the queries say about the graph that was given;
* `adjacency_faithful`     **main result**.
-/

namespace LionCore
open Base

namespace WorkflowDef

/-! ## what is accepted -/

theorem checkEdges_of_ends {nodes : List Nat} (hs : Increasing nodes) {edges : List Edge}
    (h : ∀ e ∈ edges, e.source ∈ nodes ∧ e.target ∈ nodes) : checkEdges nodes edges = .ok () := by
  induction edges with
  | nil => rfl
  | cons e rest ih =>
    obtain ⟨⟨hsource, htarget⟩, hrest⟩ := List.forall_mem_cons.mp h
    unfold checkEdges
    rw [(has_iff hs _).mpr hsource, (has_iff hs _).mpr htarget]
    exact ih hrest

/-- the ends are looked up in the sorted list, which has the ids that were given -/
theorem validated_ok_iff (nodes : List Nat) (edges : List Edge) :
    (∃ d, validated nodes edges = .ok d) ↔
      ∀ e ∈ edges, e.source ∈ nodes ∧ e.target ∈ nodes := by
  constructor
  · rintro ⟨d, h⟩ e he
    obtain ⟨hn, hedges, hf⟩ := validated_faithful h
    have hends := hf.ends e (hedges ▸ he)
    rwa [hn, mem_sortDedup, mem_sortDedup] at hends
  · intro h
    refine ⟨_, check_bind_ok_iff.mpr ⟨?_, rfl⟩⟩
    apply checkEdges_of_ends (sortDedup_increasing nodes)
    intro e he
    rw [mem_sortDedup, mem_sortDedup]
    exact h e he

/-! ## the rows -/

section
variable {d : WorkflowDef}

/-- one table of rows, for whichever end of the edges is its key; no edge ends in an id that is not
a node, so an unknown id has no edges and no row -/
theorem Faithful.row_getD (h : d.Faithful) {rows : List (List Nat)} (key val : Edge → Nat)
    (hrows : ∀ i : Nat,
      rows[i]? = d.nodes[i]?.map fun n => (d.edges.filter fun e => key e = n).map val)
    (hends : ∀ e ∈ d.edges, key e ∈ d.nodes) (n : Nat) :
    (d.row rows n).getD [] = (d.edges.filter fun e => key e = n).map val := by
  unfold row
  cases hi : d.nodeIndex n with
  | none =>
    have hunknown : d.edges.filter (fun e => key e = n) = [] := by
      apply List.filter_eq_nil_iff.mpr
      intro e he hkey
      obtain ⟨i, hi'⟩ := h.nodeIndex_isSome_iff.mpr (hends e he)
      rw [of_decide_eq_true hkey, hi] at hi'
      cases hi'
    rw [hunknown]
    rfl
  | some i =>
    show rows.getD i [] = _
    rw [List.getD_eq_getElem?_getD, hrows, (h.index n i).mp hi]
    rfl

theorem Faithful.dependencies_eq (h : d.Faithful) (n : Nat) :
    d.dependencies n = d.sourcesInto n := by
  have hrow := h.row_getD Edge.target Edge.source h.predecessors (fun e he => (h.ends e he).2) n
  unfold dependencies sourcesInto
  rw [← hrow]
  cases d.row d.predecessors n <;> rfl

theorem Faithful.dependents_eq (h : d.Faithful) (n : Nat) : d.dependents n = d.targetsOf n := by
  have hrow := h.row_getD Edge.source Edge.target h.successors (fun e he => (h.ends e he).1) n
  unfold dependents targetsOf
  rw [← hrow]
  cases d.row d.successors n <;> rfl

theorem isSource_iff (d : WorkflowDef) (n : Nat) :
    d.isSource n = true ↔ d.dependencies n = [] := by
  unfold isSource dependencies
  cases d.row d.predecessors n with
  | none => exact iff_of_true rfl rfl
  | some r => exact List.isEmpty_iff

theorem isSink_iff (d : WorkflowDef) (n : Nat) : d.isSink n = true ↔ d.dependents n = [] := by
  unfold isSink dependents
  cases d.row d.successors n with
  | none => exact iff_of_true rfl rfl
  | some r => exact List.isEmpty_iff

end

/-! ## the graph that was given -/

/-- the ids that were given, in order and once each, their positions, and for every id, known or
not, the edges at it -/
structure Represents (d : WorkflowDef) (nodes : List Nat) (edges : List Edge) : Prop where
  increasing : Increasing d.nodes
  mem_nodes : ∀ n, n ∈ d.nodes ↔ n ∈ nodes
  edges_eq : d.edges = edges
  index : ∀ n i, d.nodeIndex n = some i ↔ d.nodes[i]? = some n
  index_total : ∀ n ∈ d.nodes, ∃ i < d.nodes.length, d.nodeIndex n = some i
  index_unique : ∀ i < d.nodes.length, ∃! n, d.nodeIndex n = some i
  dependencies : ∀ n, d.dependencies n = (edges.filter fun e => e.target = n).map Edge.source
  dependents : ∀ n, d.dependents n = (edges.filter fun e => e.source = n).map Edge.target
  isSource : ∀ n, d.isSource n = true ↔
    (edges.filter fun e => e.target = n).map Edge.source = []
  isSink : ∀ n, d.isSink n = true ↔ (edges.filter fun e => e.source = n).map Edge.target = []

theorem represents_of_validated {nodes : List Nat} {edges : List Edge} {d : WorkflowDef}
    (h : validated nodes edges = .ok d) : d.Represents nodes edges := by
  obtain ⟨hn, rfl, hf⟩ := validated_faithful h
  exact {
    increasing := hf.increasing
    mem_nodes := fun n => by rw [hn, mem_sortDedup]
    edges_eq := rfl
    index := hf.index
    index_total := fun n hmem => by
      obtain ⟨i, hi⟩ := hf.nodeIndex_isSome_iff.mpr hmem
      exact ⟨i, hf.index_lt hi, hi⟩
    index_unique := fun i hi => by
      have hget : d.nodeIndex d.nodes[i] = some i :=
        (hf.index _ i).mpr (List.getElem?_eq_getElem hi)
      exact ⟨_, hget, fun m hm => hf.index_inj hm hget⟩
    dependencies := hf.dependencies_eq
    dependents := hf.dependents_eq
    isSource := fun n => by
      rw [isSource_iff, hf.dependencies_eq]
      rfl
    isSink := fun n => by
      rw [isSink_iff, hf.dependents_eq]
      rfl }

/-- **Main result**: a list of nodes and a list of edges are accepted iff every end of an edge is
in the list of nodes, and then the definition represents them. -/
theorem adjacency_faithful (nodes : List Nat) (edges : List Edge) :
    ((∃ d, validated nodes edges = .ok d) ↔
      ∀ e ∈ edges, e.source ∈ nodes ∧ e.target ∈ nodes) ∧
    ∀ d, validated nodes edges = .ok d → d.Represents nodes edges :=
  ⟨validated_ok_iff nodes edges, fun _ h => represents_of_validated h⟩

/-- a node that occurs twice, a double edge, and an id that is not a node -/
example : (validated [3, 1, 3] [⟨1, 3⟩, ⟨1, 3⟩]).toOption.map
    (fun d => (d.nodes, d.dependencies 3, d.dependents 1, d.isSource 3, d.isSink 7)) =
      some ([1, 3], [1, 1], [3, 3], false, true) := by decide

end WorkflowDef
end LionCore
