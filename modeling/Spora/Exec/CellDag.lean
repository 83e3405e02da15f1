import Spora.Cell.Sighash
import Spora.Lib.Outcome
import Spora.Lib.TreeMap
import Mathlib.Data.List.Sort

namespace Spora

open Std Outcome

-- The dependency graph of a list of transactions. A node is a position in the list.
abbrev NodeId := Nat

inductive DagEdge
  | dependency
  | readDep
deriving DecidableEq, Repr

inductive DagError
  | cycleDetected
  | invalidRWSet (message : String)
deriving DecidableEq, Repr

instance : ToString DagError where
  toString
    | .cycleDetected => "Cycle detected in transaction DAG"
    | .invalidRWSet message => s!"Invalid RW-Set: {message}"

structure CellDAG where
  nodeCount : Nat
  edges : ExtTreeMap NodeId (List (NodeId × DagEdge))
  reverseEdges : ExtTreeMap NodeId (List NodeId)
  conflicts : ExtTreeMap OutPoint (List NodeId)
  layers : List (List NodeId)

namespace CellDAG

section Maps

def pushTo {κ β : Type} [Ord κ] [TransOrd κ] (m : ExtTreeMap κ (List β)) (k : κ) (b : β) :
    ExtTreeMap κ (List β) :=
  m.insert k (m.getD k [] ++ [b])

structure EdgeMaps where
  edges : ExtTreeMap NodeId (List (NodeId × DagEdge))
  reverseEdges : ExtTreeMap NodeId (List NodeId)
  conflicts : ExtTreeMap OutPoint (List NodeId)

-- The outputs of all transactions with their producers. The outpoints are made with the wtxid.
def producerEntries (blake3 : Bytes → Hash) (txs : List CellTx) : List (OutPoint × NodeId) :=
  txs.zipIdx.flatMap fun (tx, nodeId) =>
    (List.range tx.outputs.length).map fun idx => (⟨tx.computeWtxid blake3, idx⟩, nodeId)

def producers (blake3 : Bytes → Hash) (txs : List CellTx) : ExtTreeMap OutPoint NodeId :=
  (producerEntries blake3 txs).foldl (fun m entry => m.insert entry.1 entry.2) ∅

variable (producers : ExtTreeMap OutPoint NodeId)

def addDependency (consumer : NodeId) (kind : DagEdge) (maps : EdgeMaps) (o : OutPoint) :
    EdgeMaps :=
  match producers[o]? with
  | some producer =>
    { maps with
      edges := pushTo maps.edges producer (consumer, kind)
      reverseEdges := pushTo maps.reverseEdges consumer producer }
  | none => maps

def addInput (consumer : NodeId) (maps : EdgeMaps) (o : OutPoint) : EdgeMaps :=
  let maps := addDependency producers consumer .dependency maps o
  { maps with conflicts := pushTo maps.conflicts o consumer }

def addTransaction (maps : EdgeMaps) (entry : CellTx × NodeId) : EdgeMaps :=
  entry.1.deps.foldl (addDependency producers entry.2 .readDep)
    (entry.1.spends.foldl (addInput producers entry.2) maps)

end Maps

section Layers

structure LayerState where
  inDegree : List Nat
  nextLayer : List NodeId

def visitSuccessor (state : LayerState) (successor : NodeId) : Except DagError LayerState :=
  match state.inDegree[successor]? with
  | none => .error (.invalidRWSet s!"successor node {successor} is out of bounds")
  | some 0 => .error (.invalidRWSet s!"successor node {successor} reached zero in-degree too early")
  | some (degree + 1) => .ok ⟨state.inDegree.set successor degree,
      if degree = 0 then state.nextLayer ++ [successor] else state.nextLayer⟩

def successors (edges : ExtTreeMap NodeId (List (NodeId × DagEdge))) (node : NodeId) :
    List NodeId :=
  (edges.getD node []).map Prod.fst

-- One layer after the other. Every layer has a node that was in none before, so the fuel is never
-- used up.
def layersFrom (edges : ExtTreeMap NodeId (List (NodeId × DagEdge))) :
    Nat → List Nat → List NodeId → Except DagError (List (List NodeId))
  | 0, _, _ => .ok []
  | fuel + 1, inDegree, currentLayer =>
    if currentLayer = [] then .ok []
    else do
      let layer := currentLayer.insertionSort (· ≤ ·)
      let state ← (layer.flatMap (successors edges)).foldlM visitSuccessor ⟨inDegree, []⟩
      return layer :: (← layersFrom edges fuel state.inDegree state.nextLayer)

def inDegrees (nodeCount : Nat) (reverseEdges : ExtTreeMap NodeId (List NodeId)) : List Nat :=
  (List.range nodeCount).map fun node => (reverseEdges.getD node []).length

def computeLayers (nodeCount : Nat) (edges : ExtTreeMap NodeId (List (NodeId × DagEdge)))
    (reverseEdges : ExtTreeMap NodeId (List NodeId)) : Except DagError (List (List NodeId)) :=
  if nodeCount = 0 then .ok []
  else do
    let inDegree := inDegrees nodeCount reverseEdges
    let firstLayer := (List.range nodeCount).filter fun node => inDegree[node]? = some 0
    let layers ← layersFrom edges (nodeCount + 1) inDegree firstLayer
    ensure (layers.flatten.length = nodeCount) .cycleDetected
    return layers

end Layers

def build (blake3 : Bytes → Hash) (txs : List CellTx) : Except DagError CellDAG := do
  let maps := txs.zipIdx.foldl (addTransaction (producers blake3 txs)) ⟨∅, ∅, ∅⟩
  let layers ← computeLayers txs.length maps.edges maps.reverseEdges
  return ⟨txs.length, maps.edges, maps.reverseEdges,
    maps.conflicts.filter fun _ consumers => 1 < consumers.length, layers⟩

end CellDAG

end Spora
