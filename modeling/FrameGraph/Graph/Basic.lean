import FrameGraph.Graph.Edge
import Std.Data.HashMap

/-!
# Graphs

A graph keeps its nodes by position and its edges in the order in which they were
added.  Nodes are found by identifier through an index, and every edge has a number
that is never used again.
-/

namespace FrameGraph

structure Graph where
  nodes : Array Node := #[]
  /-- The position of every identifier. -/
  positions : Std.HashMap String NodeId := ∅
  /-- The live edges with their numbers, in the order of addition. -/
  edges : Array (EdgeId × Edge) := #[]
  nextEdge : Nat := 0
  present : Option NodeId := none

namespace Graph

/-! ## Nodes -/

def node? (g : Graph) (n : NodeId) : Option Node := g.nodes[n.index]?

def kind? (g : Graph) (n : NodeId) : Option NodeKind := (g.node? n).map Node.kind

/-- The identifier of the node at a position, empty if there is none. -/
def nameOf (g : Graph) (n : NodeId) : String := ((g.node? n).map Node.id).getD ""

def metadata? (g : Graph) (n : NodeId) (key : String) : Option String :=
  (g.node? n).bind fun node => node.metadata.get? key

def find? (g : Graph) (id : String) : Option NodeId := g.positions[id]?

/-- The position of an identifier that must exist. -/
def find (g : Graph) (id : String) : Except Error NodeId :=
  match g.find? id with
  | some n => .ok n
  | none => .error (.unknownNode id)

/-- Why a node cannot be added, if it cannot: its identifier must be new, and there is
one present node at most. -/
def refusal? (g : Graph) (node : Node) : Option Error :=
  if g.positions.contains node.id then some (.duplicateNode node.id)
  else if node.kind = .present ∧ g.present.isSome then some .duplicatePresentNode
  else none

def pushNode (g : Graph) (node : Node) : Graph :=
  let n : NodeId := ⟨g.nodes.size⟩
  { g with
    nodes := g.nodes.push node
    positions := g.positions.insert node.id n
    present := if node.kind = .present then some n else g.present }

def addNode (g : Graph) (node : Node) : Except Error (NodeId × Graph) :=
  match g.refusal? node with
  | some e => .error e
  | none => .ok (⟨g.nodes.size⟩, g.pushNode node)

/-- Overwrites the node at a position.  What is known by identifier stays as it was. -/
def replaceNode (g : Graph) (n : NodeId) (node : Node) : Graph :=
  { g with nodes := g.nodes.setIfInBounds n.index node }

def setMetadata (g : Graph) (n : NodeId) (key value : String) : Graph :=
  { g with nodes := g.nodes.modify n.index fun node => node.setMetadata key value }

/-! ## Edges -/

/-- Adds an edge between nodes of the graph. -/
def addEdge (g : Graph) (e : Edge) : Except Error (EdgeId × Graph) :=
  if g.nodes.size ≤ e.source.index then .error (.unknownPosition e.source.index)
  else if g.nodes.size ≤ e.target.index then .error (.unknownPosition e.target.index)
  else
    let id : EdgeId := ⟨g.nextEdge⟩
    .ok (id, { g with edges := g.edges.push (id, e), nextEdge := g.nextEdge + 1 })

/-- Adds an edge between the given ports of two nodes named by identifier. -/
def connect (g : Graph) (source : String) (sourcePort : Nat) (target : String)
    (targetPort : Nat) : Except Error (EdgeId × Graph) := do
  let s ← g.find source
  let t ← g.find target
  g.addEdge (.withPorts s sourcePort t targetPort)

def edge? (g : Graph) (id : EdgeId) : Option Edge :=
  (g.edges.find? fun p => p.1 = id).map Prod.snd

/-- Takes out the edge with a number; the others keep theirs. -/
def removeEdge (g : Graph) (id : EdgeId) : Option (Edge × Graph) :=
  (g.edge? id).map fun e => (e, { g with edges := g.edges.filter fun p => p.1 ≠ id })

/-- The edges into a node, in the order of addition. -/
def edgesTo (g : Graph) (n : NodeId) : List (EdgeId × Edge) :=
  g.edges.toList.filter fun p => p.2.target = n

def edgesFrom (g : Graph) (n : NodeId) : List (EdgeId × Edge) :=
  g.edges.toList.filter fun p => p.2.source = n

/-- All edges without their numbers. -/
def edgeList (g : Graph) : List Edge := g.edges.toList.map Prod.snd

/-- The edges into a node without their numbers. -/
def incoming (g : Graph) (n : NodeId) : List Edge :=
  g.edgeList.filter fun e => e.target = n

def outgoing (g : Graph) (n : NodeId) : List Edge :=
  g.edgeList.filter fun e => e.source = n

/-- Whether an edge joins two nodes directly. -/
def hasEdge (g : Graph) (source target : NodeId) : Bool :=
  g.edges.any fun p => p.2.source = source && p.2.target = target

end Graph

end FrameGraph
