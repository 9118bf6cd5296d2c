import FrameGraph.Compiler.Symbols
import FrameGraph.Compiler.Emission
import FrameGraph.Resource.Texture

/-!
# Slot layout

Value memory holds the constants, then one slot for every operator, then the output
ports of the passes, each group in the order of the nodes.  Texture memory holds the
textures in the order of the nodes, without the one that the host's framebuffer
replaces.
-/

namespace FrameGraph

namespace Graph

/-- The positions of the nodes whose kind passes a test, in order. -/
def nodesOfKind (g : Graph) (test : NodeKind → Bool) : List NodeId :=
  (g.nodes.toList.zipIdx.filter fun p => test p.1.kind).map fun p => ⟨p.2⟩

/-- The present node, which must be the only one. -/
def presentNode (g : Graph) : Except Error NodeId :=
  match g.nodesOfKind fun kind => kind = .present with
  | [] => .error (.invalidPresentNode .absent)
  | [n] => .ok n
  | _ => .error .duplicatePresentNode

def isOperator : NodeKind → Bool
  | .operator _ => true
  | _ => false

/-- The value of a constant: its text without the blanks around it, read as a number. -/
def floatValue (g : Graph) (n : NodeId) : Except Error Cell :=
  let raw := g.metadata? n valueKey
  match raw.bind fun s => Binary32.ofCharacters? (Text.trim s.toList) with
  | some x => .ok (.ofFloat x)
  | none => .error (g.invalidMetadata n valueKey (raw.getD ""))

def textureFormat (g : Graph) (n : NodeId) : Except Error TextureFormat :=
  let name := (g.metadata? n formatKey).getD ""
  match TextureFormat.ofName? name with
  | some format => .ok format
  | none => .error (.unknownFormat name)

end Graph

/-- The memories of an instance before it runs. -/
structure Layout where
  symbols : Symbols
  values : Array Cell := #[]
  textures : Array Texture := #[]
  /-- The passes with their numbers of output ports, in order. -/
  passes : Array (NodeId × Nat) := #[]
  deriving DecidableEq

namespace Layout

/-- The first cells up to the given number, with zeros behind them as needed. -/
def resizeValues (values : Array Cell) (size : Nat) : Array Cell :=
  if size < values.size then values.take size
  else values ++ Array.replicate (size - values.size) Cell.zero

def addFloat (g : Graph) : Layout → NodeId → Except Error Layout
  | ⟨symbols, values, textures, passes⟩, n => do
    let symbols ← symbols.allocateValues n 1
    let c ← g.floatValue n
    return ⟨symbols, values.push c, textures, passes⟩

def addOperator : Layout → NodeId → Except Error Layout
  | ⟨symbols, values, textures, passes⟩, n => do
    let symbols ← symbols.allocateValues n 1
    return ⟨symbols, values.push .zero, textures, passes⟩

def addPass (g : Graph) : Layout → NodeId → Except Error Layout
  | ⟨symbols, values, textures, passes⟩, n => do
    let ports ← g.outputPorts n
    let symbols ← symbols.allocateValues n ports
    return ⟨symbols, resizeValues values symbols.valueCount, textures,
      passes.push (n, ports)⟩

def addTexture (g : Graph) : Layout → NodeId → Except Error Layout
  | ⟨symbols, values, textures, passes⟩, n => do
    let format ← g.textureFormat n
    let symbols ← symbols.allocateTexture n
    return ⟨symbols, values, textures.push { format := format }, passes⟩

/-- The layout of a graph, where `aliased` is the texture that the host's framebuffer
replaces. -/
def ofGraph (g : Graph) (aliased : Option NodeId) : Except Error Layout := do
  let l : Layout := { symbols := .ofGraph g }
  let l ← (g.nodesOfKind fun kind => kind = .float).foldlM (addFloat g) l
  let l ← (g.nodesOfKind Graph.isOperator).foldlM addOperator l
  let l ← (g.nodesOfKind fun kind => kind = .pass).foldlM (addPass g) l
  ((g.nodesOfKind fun kind => kind = .texture).filter fun n => some n ≠ aliased).foldlM
    (addTexture g) l

end Layout

end FrameGraph
