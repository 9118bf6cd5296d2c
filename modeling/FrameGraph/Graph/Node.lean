import FrameGraph.Error
import FrameGraph.Graph.Metadata
import FrameGraph.Operator

/-!
# Nodes

The nodes of a graph: constants, operators, passes, textures and the one node that
shows the result.
-/

namespace FrameGraph

/-- The position of a node in its graph. -/
structure NodeId where
  index : Nat
  deriving DecidableEq, Repr

inductive NodeKind where
  /-- The sink; its one predecessor is the final output. -/
  | present
  /-- A texture, filled by a pass or by the host. -/
  | texture
  | float
  /-- A render pass, backed by a registered operation. -/
  | pass
  | operator (op : Operator)
  deriving DecidableEq, Repr

namespace NodeKind

def tag : NodeKind → String
  | present => "present"
  | texture => "texture"
  | float => "float"
  | pass => "pass"
  | operator op => op.tag

def ofTag (s : String) : Except Error NodeKind :=
  if s = "present" then .ok .present
  else if s = "texture" then .ok .texture
  else if s = "float" then .ok .float
  else if s = "pass" then .ok .pass
  else
    match Operator.ofTag? s with
    | some op => .ok (.operator op)
    | none => .error (.unknownNodeType s)

end NodeKind

/-! ## Metadata keys -/

def valueKey : String := "value"

def formatKey : String := "format"

/-- The key that names the operation of a pass. -/
def subtypeKey : String := "subtype"

/-- The key of an operator's numeric mode. -/
def modeKey : String := "mode"

/-! ## Nodes -/

structure Node where
  id : String
  kind : NodeKind
  metadata : Metadata := {}
  deriving DecidableEq, Repr

namespace Node

/-- A constant, whose value is kept as its shortest decimal text. -/
def float (id : String) (x : Binary32) : Node :=
  ⟨id, .float, .ofList [(valueKey, x.text)]⟩

def texture (id format : String) : Node := ⟨id, .texture, .ofList [(formatKey, format)]⟩

/-- A pass backed by the operation registered as `subtype`. -/
def pass (id subtype : String) : Node := ⟨id, .pass, .ofList [(subtypeKey, subtype)]⟩

def operator (id : String) (op : Operator) : Node := ⟨id, .operator op, {}⟩

def present (id : String) : Node := ⟨id, .present, {}⟩

def setMetadata (n : Node) (key value : String) : Node :=
  { n with metadata := n.metadata.insert key value }

end Node

end FrameGraph
