import FrameGraph.Graph.Basic
import FrameGraph.Registry

/-!
# Edits

Changes of a graph in place.  What an edit did to the graph before it was refused would stay
done, so every edit makes all its checks before it changes anything.
-/

namespace FrameGraph

namespace Graph

/-- Stops an edit for a reason, if there is one. -/
def refuse : Option Error → Build Graph Unit
  | some e => throw e
  | none => return ()

/-! ## Nodes -/

def insertNode (node : Node) : Build Graph NodeId := do
  refuse ((← get).refusal? node)
  let n : NodeId := ⟨(← get).nodes.size⟩
  modify fun g => { g with present := if node.kind = .present then some n else g.present }
  modify fun g => { g with positions := g.positions.insert node.id n }
  modify fun g => { g with nodes := g.nodes.push node }
  return n

/-! ## Edges -/

/-- The error for a position at which there is no node. -/
def missing? (g : Graph) (n : NodeId) : Option Error :=
  if g.nodes.size ≤ n.index then some (.unknownPosition n.index) else none

def insertEdge (e : Edge) : Build Graph EdgeId := do
  refuse ((← get).missing? e.source)
  refuse ((← get).missing? e.target)
  let id : EdgeId := ⟨(← get).nextEdge⟩
  modify fun g => { g with nextEdge := g.nextEdge + 1 }
  modify fun g => { g with edges := g.edges.push (id, e) }
  return id

/-- Joins the given ports of two nodes named by identifier. -/
def join (source : String) (sourcePort : Nat) (target : String) (targetPort : Nat) :
    Build Graph EdgeId := do
  let s ← ((← get).find source : Except Error _)
  let t ← ((← get).find target : Except Error _)
  insertEdge (.withPorts s sourcePort t targetPort)

/-- Takes out the edge with a number, if there is one. -/
def takeEdge (id : EdgeId) : Build Graph (Option Edge) := do
  match (← get).edge? id with
  | none => return none
  | some e =>
    modify fun g => { g with edges := g.edges.filter fun p => p.1 ≠ id }
    return some e

end Graph

/-! ## All edits -/

/-- A change that can be asked of a graph. -/
inductive Edit where
  | addNode (node : Node)
  | addEdge (e : Edge)
  | connect (source : String) (sourcePort : Nat) (target : String) (targetPort : Nat)
  | removeEdge (id : EdgeId)
  | setMetadata (n : NodeId) (key value : String)
  deriving DecidableEq, Repr

namespace Edit

/-- What an edit answers that is not refused. -/
inductive Answer where
  | node (n : NodeId)
  | edge (id : EdgeId)
  | removed (e : Option Edge)
  | done
  deriving DecidableEq, Repr

def perform : Edit → Build Graph Answer
  | addNode node => .node <$> Graph.insertNode node
  | addEdge e => .edge <$> Graph.insertEdge e
  | connect source sourcePort target targetPort =>
    .edge <$> Graph.join source sourcePort target targetPort
  | removeEdge id => .removed <$> Graph.takeEdge id
  | setMetadata n key value => do
    modify fun g => g.setMetadata n key value
    return .done

/-- The answer to an edit, or why it is refused, and the graph that it leaves behind. -/
def apply (edit : Edit) (g : Graph) : Except Error Answer × Graph := edit.perform.run.run g

end Edit

/-- The graph that edits leave behind, those refused among them. -/
def Graph.applyAll (g : Graph) (edits : List Edit) : Graph :=
  edits.foldl (fun g edit => (edit.apply g).2) g

end FrameGraph
