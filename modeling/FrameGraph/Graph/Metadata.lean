import FrameGraph.Entries

/-!
# Metadata

String metadata of nodes and edges, in the order in which the keys were first set.
-/

namespace FrameGraph

/-- Keys with their values; every key stands once. -/
structure Metadata where
  entries : List (String × String) := []
  deriving DecidableEq, Repr

namespace Metadata

def get? (m : Metadata) (key : String) : Option String := m.entries.lookup key

/-- Sets a key; a key that was set before keeps its place. -/
def insert (m : Metadata) (key value : String) : Metadata :=
  ⟨Entries.insertInto key value m.entries⟩

/-- The metadata after setting the pairs in order. -/
def ofList (pairs : List (String × String)) : Metadata :=
  pairs.foldl (fun m p => m.insert p.1 p.2) {}

end Metadata

end FrameGraph
