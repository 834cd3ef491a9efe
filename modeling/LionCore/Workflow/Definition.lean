import LionCore.Base.Graph
import LionCore.Base.Guard
import LionCore.State.Workflow

/-!
# What a validated definition promises

* `Faithful`             the stored nodes are strictly increasing, the index map is their position,
                         and the adjacency rows list the edges;
* `validated_faithful`   `validated` gives nothing else.
-/

namespace LionCore
open Base

namespace WorkflowDef

/-- `b` waits for `a` -/
def DependsOn (d : WorkflowDef) (b a : Nat) : Prop := ⟨a, b⟩ ∈ d.edges

/-- the sources of the edges into `n`, in edge order -/
def sourcesInto (d : WorkflowDef) (n : Nat) : List Nat :=
  (d.edges.filter fun e => e.target = n).map Edge.source

/-- the targets of the edges out of `n`, in edge order -/
def targetsOf (d : WorkflowDef) (n : Nat) : List Nat :=
  (d.edges.filter fun e => e.source = n).map Edge.target

structure Faithful (d : WorkflowDef) : Prop where
  increasing : Increasing d.nodes
  index : ∀ n i : Nat, d.nodeIndex n = some i ↔ d.nodes[i]? = some n
  ends : ∀ e ∈ d.edges, e.source ∈ d.nodes ∧ e.target ∈ d.nodes
  predecessors : ∀ i : Nat, d.predecessors[i]? = d.nodes[i]?.map d.sourcesInto
  successors : ∀ i : Nat, d.successors[i]? = d.nodes[i]?.map d.targetsOf

theorem mem_sourcesInto {d : WorkflowDef} {a b : Nat} : a ∈ d.sourcesInto b ↔ d.DependsOn b a := by
  unfold sourcesInto DependsOn
  rw [List.mem_map]
  constructor
  · rintro ⟨e, he, rfl⟩
    obtain ⟨hmem, ht⟩ := List.mem_filter.mp he
    exact of_decide_eq_true ht ▸ hmem
  · exact fun h => ⟨⟨a, b⟩, List.mem_filter.mpr ⟨h, decide_eq_true rfl⟩, rfl⟩

namespace Faithful
variable {d : WorkflowDef} {n m i : Nat}

theorem nodeIndex_isSome_iff (h : d.Faithful) : (∃ i, d.nodeIndex n = some i) ↔ n ∈ d.nodes := by
  rw [List.mem_iff_getElem?]
  exact exists_congr fun i => h.index n i

theorem index_inj (h : d.Faithful) (hn : d.nodeIndex n = some i) (hm : d.nodeIndex m = some i) :
    n = m :=
  Option.some.inj (((h.index n i).mp hn).symm.trans ((h.index m i).mp hm))

theorem index_lt (h : d.Faithful) (hn : d.nodeIndex n = some i) : i < d.nodes.length :=
  (List.getElem?_eq_some_iff.mp ((h.index n i).mp hn)).1

/-- a value per node, by its position, after the value of one node is set -/
theorem elim_set (h : d.Faithful) {α : Type*} (l : List α) (x y : α)
    (hidx : d.nodeIndex n = some i) (hlt : i < l.length) (m : Nat) :
    (d.nodeIndex m).elim x (fun j => (l.set i y).getD j x) =
      if m = n then y else (d.nodeIndex m).elim x fun j => l.getD j x := by
  by_cases hm : m = n
  · subst hm
    rw [hidx, if_pos rfl]
    show (l.set i y).getD i x = y
    rw [List.getD_eq_getElem?_getD, List.getElem?_set_self hlt]
    rfl
  · rw [if_neg hm]
    cases hj : d.nodeIndex m with
    | none => rfl
    | some j =>
      have hne : i ≠ j := fun e => hm (h.index_inj hj (e ▸ hidx))
      show (l.set i y).getD j x = l.getD j x
      rw [List.getD_eq_getElem?_getD, List.getD_eq_getElem?_getD, List.getElem?_set_ne hne]

theorem dependsOn_mem (h : d.Faithful) (hd : d.DependsOn m n) : n ∈ d.nodes ∧ m ∈ d.nodes :=
  h.ends _ hd

end Faithful

/-! ## building the adjacency -/

theorem checkEdges_ok {nodes : List Nat} {edges : List Edge}
    (h : checkEdges nodes edges = .ok ()) : ∀ e ∈ edges, e.source ∈ nodes ∧ e.target ∈ nodes := by
  induction edges with
  | nil => exact fun _ he => nomatch he
  | cons e rest ih =>
    unfold checkEdges at h
    split at h
    · cases h
    rename_i hs
    split at h
    · cases h
    rename_i ht
    rw [Bool.not_eq_true', Bool.not_eq_false] at hs ht
    exact List.forall_mem_cons.mpr ⟨⟨mem_of_has hs, mem_of_has ht⟩, ih h⟩

/-- the rows that a list of edges fills -/
theorem foldl_addEdge (d : WorkflowDef) (es : List Edge)
    (hes : ∀ e ∈ es, (∃ i, d.nodeIndex e.source = some i) ∧ ∃ i, d.nodeIndex e.target = some i) :
    es.foldl addEdge d = { d with
      predecessors :=
        fillRows (fun e => (d.nodeIndex e.target).getD 0) Edge.source d.predecessors es
      successors :=
        fillRows (fun e => (d.nodeIndex e.source).getD 0) Edge.target d.successors es } := by
  induction es generalizing d with
  | nil => rfl
  | cons e es ih =>
    obtain ⟨⟨⟨i, hi⟩, j, hj⟩, hrest⟩ := List.forall_mem_cons.mp hes
    let d' : WorkflowDef := { d with
      predecessors := d.predecessors.modify j (· ++ [e.source])
      successors := d.successors.modify i (· ++ [e.target]) }
    have hstep : d.addEdge e = d' := by
      unfold addEdge
      rw [hi, hj]
    rw [List.foldl_cons, hstep]
    refine (ih d' hrest).trans ?_
    simp only [fillRows_cons, hi, hj, Option.getD_some]
    rfl

theorem nodeIndex_zipIdx {nodes : List Nat} (hs : Increasing nodes) (n i : Nat) :
    Table.find nodes.zipIdx n = some i ↔ nodes[i]? = some n := by
  have hkeys : Table.keys nodes.zipIdx = nodes := List.zipIdx_map_fst 0 nodes
  have hsorted : Table.Sorted nodes.zipIdx := by
    unfold Table.Sorted
    rwa [hkeys]
  rw [Table.find_iff_mem hsorted]
  exact List.mk_mem_zipIdx_iff_getElem?

/-- the index map is in order from the start, because the nodes are -/
theorem insertionSort_zipIdx {nodes : List Nat} (hs : Increasing nodes) :
    nodes.zipIdx.insertionSort (·.1 ≤ ·.1) = nodes.zipIdx := by
  refine List.Pairwise.insertionSort_eq ?_
  have hkeys : (nodes.zipIdx.map Prod.fst).Pairwise (· < ·) := by
    rwa [List.zipIdx_map_fst]
  exact (List.pairwise_map.mp hkeys).imp le_of_lt

/-- one row, for whichever end of the edges is its key -/
theorem getElem?_rows {nodes : List Nat} {index : Nat → Option Nat}
    (hindex : ∀ n i : Nat, index n = some i ↔ nodes[i]? = some n) (key val : Edge → Nat)
    {edges : List Edge} (hedges : ∀ e ∈ edges, ∃ i, index (key e) = some i) (i : Nat) :
    (fillRows (fun e => (index (key e)).getD 0) val (List.replicate nodes.length []) edges)[i]? =
      nodes[i]?.map fun n => (edges.filter fun e => key e = n).map val := by
  rw [getElem?_fillRows, List.getElem?_replicate]
  cases hn : nodes[i]? with
  | none =>
    rw [if_neg (not_lt.mpr (List.getElem?_eq_none_iff.mp hn))]
    rfl
  | some n =>
    rw [if_pos (List.getElem?_eq_some_iff.mp hn).1]
    have hsame : ∀ e ∈ edges, decide ((index (key e)).getD 0 = i) = decide (key e = n) := by
      intro e he
      obtain ⟨j, hj⟩ := hedges e he
      have hkey := (hindex _ _).mp hj
      rw [hj, decide_eq_decide]
      constructor
      · rintro rfl
        exact Option.some.inj (hkey.symm.trans hn)
      · rintro rfl
        exact Option.some.inj (hj.symm.trans ((hindex _ _).mpr hn))
    show some ([] ++ _) = _
    rw [List.filter_congr hsame]
    rfl

/-- **What `validated` accepts is faithful.** -/
theorem validated_faithful {nodes : List Nat} {edges : List Edge} {d : WorkflowDef}
    (h : validated nodes edges = .ok d) :
    d.nodes = sortDedup nodes ∧ d.edges = edges ∧ d.Faithful := by
  obtain ⟨hck, hd⟩ := check_bind_ok_iff.mp h
  obtain rfl := Except.ok.inj hd
  have hends := checkEdges_ok hck
  have hs := sortDedup_increasing nodes
  let d₀ : WorkflowDef := ⟨sortDedup nodes, edges, List.replicate (sortDedup nodes).length [],
    List.replicate (sortDedup nodes).length [], (sortDedup nodes).zipIdx.insertionSort (·.1 ≤ ·.1)⟩
  have hindex : ∀ n i : Nat, d₀.nodeIndex n = some i ↔ (sortDedup nodes)[i]? = some n := by
    intro n i
    have hmap : d₀.nodeToIndex = (sortDedup nodes).zipIdx := insertionSort_zipIdx hs
    unfold nodeIndex
    rw [hmap]
    exact nodeIndex_zipIdx hs n i
  have hknown : ∀ n ∈ sortDedup nodes, ∃ i, d₀.nodeIndex n = some i := fun n hn =>
    (List.mem_iff_getElem?.mp hn).imp fun i => (hindex n i).mpr
  have hfold := foldl_addEdge d₀ edges fun e he =>
    ⟨hknown _ (hends e he).1, hknown _ (hends e he).2⟩
  have hbuild : buildAdjacency ⟨sortDedup nodes, edges, [], [], []⟩ = edges.foldl addEdge d₀ := rfl
  rw [hbuild, hfold]
  exact ⟨rfl, rfl, hs, hindex, hends,
    getElem?_rows hindex Edge.target Edge.source fun e he => hknown _ (hends e he).2,
    getElem?_rows hindex Edge.source Edge.target fun e he => hknown _ (hends e he).1⟩

/-- one node without dependencies -/
def sampleSingle : WorkflowDef := ⟨[1], [], [[]], [[]], [(1, 0)]⟩

/-- two nodes, the second waits for the first -/
def sampleChain : WorkflowDef :=
  ⟨[1, 2], [⟨1, 2⟩], [[], [1]], [[2], []], [(1, 0), (2, 1)]⟩

example : validated [2, 1, 2] [⟨1, 2⟩] = .ok sampleChain := by decide

end WorkflowDef
end LionCore
