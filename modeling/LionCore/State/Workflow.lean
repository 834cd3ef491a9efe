import LionCore.Base.Table
import LionCore.Types.Basic

/-!
# Workflows

A definition keeps the adjacency that is computed from its nodes and edges; an instance keeps the
state and the retries of every node by its position, with counters per state.  Operations on
`&mut self` give back the result and the instance they leave.
-/

namespace LionCore
open Base

inductive WorkflowStatus
  | running | success | failure
  deriving DecidableEq, Repr

def WorkflowStatus.isRunning : WorkflowStatus → Bool
  | .running => true
  | _ => false

inductive NodeState
  | pending | active | completed | failed
  deriving DecidableEq, Repr

def NodeState.isPending (s : NodeState) : Bool := s = .pending

def NodeState.isActive (s : NodeState) : Bool := s = .active

def NodeState.isCompleted (s : NodeState) : Bool := s = .completed

inductive WorkflowError
  | nodeNotFound (n : Nat)
  | invalidTransition (node : Nat) (source target : NodeState)
  | timedOut
  | dependenciesNotSatisfied (node : Nat) (deps : List Nat)
  deriving DecidableEq, Repr

/-! ## definitions -/

/-- `source` has to complete before `target` starts -/
structure Edge where
  source : Nat
  target : Nat
  deriving DecidableEq, Repr

/-- nodes and edges with the adjacency that is computed from them -/
structure WorkflowDef where
  nodes : List Nat
  edges : List Edge
  predecessors : List (List Nat)
  successors : List (List Nat)
  nodeToIndex : List (Nat × Nat)
  deriving DecidableEq, Repr

namespace WorkflowDef

def nodeIndex (d : WorkflowDef) (nodeId : Nat) : Option Nat := Table.find d.nodeToIndex nodeId

/-- one edge of the adjacency; an edge with an unknown end is skipped -/
def addEdge (d : WorkflowDef) (e : Edge) : WorkflowDef :=
  match d.nodeIndex e.source, d.nodeIndex e.target with
  | some srcIdx, some tgtIdx =>
    { d with
      predecessors := d.predecessors.modify tgtIdx (· ++ [e.source])
      successors := d.successors.modify srcIdx (· ++ [e.target]) }
  | _, _ => d

def buildAdjacency (d : WorkflowDef) : WorkflowDef :=
  let n := d.nodes.length
  d.edges.foldl addEdge { d with
    predecessors := List.replicate n []
    successors := List.replicate n []
    nodeToIndex := d.nodes.zipIdx.insertionSort (·.1 ≤ ·.1) }

/-- both ends of every edge are nodes -/
def checkEdges (nodes : List Nat) : List Edge → Except WorkflowError Unit
  | [] => .ok ()
  | e :: rest =>
    if !has nodes e.source then .error (.nodeNotFound e.source)
    else if !has nodes e.target then .error (.nodeNotFound e.target)
    else checkEdges nodes rest

def validated (nodes : List Nat) (edges : List Edge) : Except WorkflowError WorkflowDef := do
  let nodes := sortDedup nodes
  checkEdges nodes edges
  return buildAdjacency ⟨nodes, edges, [], [], []⟩

def requireNode (d : WorkflowDef) (nodeId : Nat) : Except WorkflowError Nat :=
  match d.nodeIndex nodeId with
  | some idx => .ok idx
  | none => .error (.nodeNotFound nodeId)

/-- `rows[idx]` of a node; the index of a node is always in range, and an unknown id has no row -/
def row (d : WorkflowDef) (rows : List (List Nat)) (n : Nat) : Option (List Nat) :=
  match d.nodeIndex n with
  | some idx => some (rows.getD idx [])
  | none => none

def isSource (d : WorkflowDef) (n : Nat) : Bool :=
  match d.row d.predecessors n with
  | some r => r.isEmpty
  | none => true

def isSink (d : WorkflowDef) (n : Nat) : Bool :=
  match d.row d.successors n with
  | some r => r.isEmpty
  | none => true

def dependencies (d : WorkflowDef) (n : Nat) : List Nat :=
  match d.row d.predecessors n with
  | some r => r
  | none => []

def dependents (d : WorkflowDef) (n : Nat) : List Nat :=
  match d.row d.successors n with
  | some r => r
  | none => []

end WorkflowDef

/-! ## instances -/

/-- the first value that a `u32` cannot hold -/
def u32Size : Nat := 2 ^ 32

/-- the state and retries of every node, by its position, with counters per state -/
structure WorkflowInstance where
  workflowDef : WorkflowDef
  status : WorkflowStatus
  nodeStates : List NodeState
  retries : List Nat
  timeoutAt : Time
  pendingCt : Nat
  activeCt : Nat
  failedCt : Nat
  deriving DecidableEq, Repr

namespace WorkflowInstance

/-- retries are cut at `u16::MAX`, and the number of nodes to a `u32` -/
def new (workflowDef : WorkflowDef) (timeoutAt : Time) (maxRetries : Nat) : WorkflowInstance :=
  let n := workflowDef.nodes.length
  { workflowDef
    status := .running
    nodeStates := List.replicate n .pending
    retries := List.replicate n (if maxRetries > 65535 then 65535 else maxRetries)
    timeoutAt
    pendingCt := n % u32Size
    activeCt := 0
    failedCt := 0 }

section
variable (w : WorkflowInstance) (n : Nat)

def isRunning : Bool := w.status.isRunning

/-- `node_states[idx]`; the index of a node is always in range -/
def stateAt (idx : Nat) : NodeState := w.nodeStates.getD idx .pending

def getNodeState : NodeState :=
  match w.workflowDef.nodeIndex n with
  | some idx => w.stateAt idx
  | none => .pending

def isPending : Bool := (w.getNodeState n).isPending

def isActive : Bool := (w.getNodeState n).isActive

/-- `retries[idx]` -/
def retriesAt (idx : Nat) : Nat := w.retries.getD idx 0

def getRetries : Nat :=
  match w.workflowDef.nodeIndex n with
  | some idx => w.retriesAt idx
  | none => 0

def pendingCount : Nat := w.pendingCt

def activeCount : Nat := w.activeCt

def isTerminal : Bool := w.pendingCt = 0 && w.activeCt = 0

def hasFailure : Bool := w.failedCt > 0

/-- `workflow_def.predecessors[idx]` -/
def predecessorsAt (idx : Nat) : List Nat := w.workflowDef.predecessors.getD idx []

/-- predecessors that are not nodes are passed over -/
def dependenciesSatisfied : Bool :=
  match w.workflowDef.nodeIndex n with
  | some idx => (w.predecessorsAt idx).all fun pred =>
    match w.workflowDef.nodeIndex pred with
    | some predIdx => (w.stateAt predIdx).isCompleted
    | none => true
  | none => true

/-- what an error names: here predecessors that are not nodes count -/
def unsatisfied (idx : Nat) : List Nat :=
  (w.predecessorsAt idx).filter fun pred =>
    match w.workflowDef.nodeIndex pred with
    | some predIdx => !(w.stateAt predIdx).isCompleted
    | none => true

/-! ### transitions -/

/-- one node less in the state `old`; the counters are saturating -/
def leave : NodeState → WorkflowInstance
  | .pending => { w with pendingCt := w.pendingCt - 1 }
  | .active => { w with activeCt := w.activeCt - 1 }
  | .failed => { w with failedCt := w.failedCt - 1 }
  | .completed => w

/-- one node more in the state `new`; the counters are `u32` and wrap around -/
def enter : NodeState → WorkflowInstance
  | .pending => { w with pendingCt := (w.pendingCt + 1) % u32Size }
  | .active => { w with activeCt := (w.activeCt + 1) % u32Size }
  | .failed => { w with failedCt := (w.failedCt + 1) % u32Size }
  | .completed => w

/-- the debug assertions of the counters are not part of a release build -/
def transition (idx : Nat) (newState : NodeState) : WorkflowInstance :=
  { (w.leave (w.stateAt idx)).enter newState with nodeStates := w.nodeStates.set idx newState }

def updateWorkflowStatus : WorkflowInstance :=
  if w.isTerminal then
    if w.hasFailure then { w with status := .failure } else { w with status := .success }
  else w

/-! ### operations -/

def startNode : Except WorkflowError Unit × WorkflowInstance :=
  match w.workflowDef.requireNode n with
  | .error e => (.error e, w)
  | .ok idx =>
    if !(w.stateAt idx).isPending then
      (.error (.invalidTransition n (w.stateAt idx) .active), w)
    else if !w.dependenciesSatisfied n then
      (.error (.dependenciesNotSatisfied n (w.unsatisfied idx)), w)
    else (.ok (), w.transition idx .active)

def completeNode : Except WorkflowError Unit × WorkflowInstance :=
  match w.workflowDef.requireNode n with
  | .error e => (.error e, w)
  | .ok idx =>
    if !(w.stateAt idx).isActive then
      (.error (.invalidTransition n (w.stateAt idx) .completed), w)
    else (.ok (), (w.transition idx .completed).updateWorkflowStatus)

/-- with retries left the node goes back to pending, else the whole workflow has failed -/
def failNode : Except WorkflowError Unit × WorkflowInstance :=
  match w.workflowDef.requireNode n with
  | .error e => (.error e, w)
  | .ok idx =>
    if !(w.stateAt idx).isActive then
      (.error (.invalidTransition n (w.stateAt idx) .failed), w)
    else if w.retriesAt idx > 0 then
      (.ok (), { w.transition idx .pending with
        retries := w.retries.set idx (w.retriesAt idx - 1) })
    else (.ok (), { w.transition idx .failed with status := .failure })

def applyTimeout : WorkflowInstance := { w with status := .failure }

/-- weighted sum for strict decrease, in saturating arithmetic to prevent overflow -/
def measure (now : Time) : Nat :=
  let timeLeft := w.timeoutAt - now
  let retriesRemaining := w.retries.foldl saturatingAdd64 0
  saturatingAdd64
    (saturatingAdd64
      (saturatingAdd64 timeLeft (saturatingMul64 w.pendingCt 1000))
      (saturatingMul64 w.activeCt 100))
    (saturatingMul64 retriesRemaining 1000)

end
end WorkflowInstance
end LionCore
