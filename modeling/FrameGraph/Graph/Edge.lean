import FrameGraph.Graph.Node
import FrameGraph.Text.Blank

/-!
# Edges

An edge joins an output port of its source to an input port of its target.  The ports
are kept as text in the metadata.
-/

namespace FrameGraph

/-- The number of an edge; it is never given to another edge of the same graph. -/
structure EdgeId where
  number : Nat
  deriving DecidableEq, Repr

def sourcePortKey : String := "source_id"

def targetPortKey : String := "target_id"

/-- A directed connection. -/
structure Edge where
  source : NodeId
  target : NodeId
  metadata : Metadata := {}
  deriving DecidableEq, Repr

namespace Edge

def withPorts (source : NodeId) (sourcePort : Nat) (target : NodeId) (targetPort : Nat) :
    Edge :=
  ⟨source, target,
    .ofList [(sourcePortKey, toString sourcePort), (targetPortKey, toString targetPort)]⟩

/-- The number that a port text denotes, blanks around it apart; the error is the text
itself. -/
def readPort (raw : String) : Except String Nat :=
  match Text.readWord64? (Text.trim raw.toList) with
  | some n => .ok n
  | none => .error raw

/-- The port under a key; a missing key means port 0. -/
def port (e : Edge) (key : String) : Except String Nat :=
  match e.metadata.get? key with
  | none => .ok 0
  | some raw => readPort raw

def sourcePort (e : Edge) : Except String Nat := e.port sourcePortKey

def targetPort (e : Edge) : Except String Nat := e.port targetPortKey

end Edge

end FrameGraph
