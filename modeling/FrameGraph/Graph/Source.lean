import FrameGraph.Graph.Document
import FrameGraph.Json.Record

/-!
# Reading graph documents

The JSON form of a graph document: node records with `id`, `type` and `metadata`, edge
records with `source`, `target` and `metadata`.  All shapes are checked before any node
is built.
-/

namespace FrameGraph

/-- Reads string metadata; a repeated key keeps its place and takes the last value. -/
def Metadata.reader (rounds : Nat) : Json.Reader Metadata :=
  Metadata.ofList <$> Json.stringPairs rounds

def NodeRecord.reader (rounds : Nat) : Json.Reader NodeRecord :=
  Json.record
    [⟨"id", true, fun r => return { r with id := ← Json.text }⟩,
      ⟨"type", true, fun r => return { r with tag := ← Json.text }⟩,
      ⟨"metadata", false, fun r => return { r with metadata := ← Metadata.reader rounds }⟩]
    ⟨"", "", {}⟩ rounds

def EdgeRecord.reader (rounds : Nat) : Json.Reader EdgeRecord :=
  Json.record
    [⟨"source", true, fun r => return { r with source := ← Json.text }⟩,
      ⟨"target", true, fun r => return { r with target := ← Json.text }⟩,
      ⟨"metadata", false, fun r => return { r with metadata := ← Metadata.reader rounds }⟩]
    ⟨"", "", {}⟩ rounds

def Document.reader (rounds : Nat) : Json.Reader Document :=
  Json.record
    [⟨"nodes", false, fun d =>
        return { d with nodes := ← Json.list (NodeRecord.reader rounds) rounds }⟩,
      ⟨"edges", false, fun d =>
        return { d with edges := ← Json.list (EdgeRecord.reader rounds) rounds }⟩]
    {} rounds

/-- The document that a text holds. -/
def Document.ofSource (source : String) : Except Error Document :=
  (Json.read Document.reader source).mapError .source

def Graph.ofSource (source : String) : Except Error Graph := do
  Graph.ofDocument (← Document.ofSource source)

end FrameGraph
