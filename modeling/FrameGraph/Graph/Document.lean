import FrameGraph.Graph.Basic

/-!
# Graph documents

A document lists node records and edge records.  The graph of a document is what one
gets by adding the nodes and then the edges in order; the first record at fault is the
error.
-/

namespace FrameGraph

structure NodeRecord where
  id : String
  tag : String
  metadata : Metadata := {}
  deriving DecidableEq, Repr

/-- An edge as written in a document; its ends are identifiers. -/
structure EdgeRecord where
  source : String
  target : String
  metadata : Metadata := {}
  deriving DecidableEq, Repr

structure Document where
  nodes : List NodeRecord := []
  edges : List EdgeRecord := []
  deriving DecidableEq, Repr

namespace Graph

def addNodeRecord (g : Graph) (r : NodeRecord) : Except Error Graph := do
  let kind ← NodeKind.ofTag r.tag
  let (_, g) ← g.addNode ⟨r.id, kind, r.metadata⟩
  return g

def addEdgeRecord (g : Graph) (r : EdgeRecord) : Except Error Graph := do
  let source ← g.find r.source
  let target ← g.find r.target
  let (_, g) ← g.addEdge ⟨source, target, r.metadata⟩
  return g

def ofDocument (d : Document) : Except Error Graph := do
  let g ← d.nodes.foldlM addNodeRecord {}
  d.edges.foldlM addEdgeRecord g

end Graph

end FrameGraph
