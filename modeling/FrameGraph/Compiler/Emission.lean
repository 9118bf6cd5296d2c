import FrameGraph.Compiler.Symbols
import FrameGraph.Graph.Schedule
import FrameGraph.Program

/-!
# Emission

The instructions of scheduled nodes.  An operator or pass pushes its inputs in port
order, computes or calls, and pops its outputs, the last port first.  An input is read
from the slot of its producer, through one texture at most; a texture that nothing
produces is read itself.
-/

namespace FrameGraph

namespace Graph

def invalidMetadata (g : Graph) (n : NodeId) (key value : String) : Error :=
  .invalidMetadata (g.nameOf n) key value

/-! ## Ports -/

/-- Puts an edge in front of the first one whose port is not smaller. -/
def insertByPort (p : Nat × Edge) : List (Nat × Edge) → List (Nat × Edge)
  | [] => [p]
  | q :: rest => if p.1 ≤ q.1 then p :: q :: rest else q :: insertByPort p rest

/-- Sorts edges by port; edges of one port keep their order. -/
def sortByPort : List (Nat × Edge) → List (Nat × Edge)
  | [] => []
  | p :: rest => insertByPort p (sortByPort rest)

/-- The first port that differs from the number that is due. -/
def portFault? : Nat → List (Nat × Edge) → Option Nat
  | _, [] => none
  | due, p :: rest => if p.1 = due then portFault? (due + 1) rest else some p.1

def targetPorts (g : Graph) (n : NodeId) : List Edge → Except Error (List (Nat × Edge))
  | [] => .ok []
  | e :: rest =>
    match e.targetPort with
    | .error raw => .error (g.invalidMetadata n targetPortKey raw)
    | .ok port => (g.targetPorts n rest).map ((port, e) :: ·)

/-- The edges into a node by target port.  The ports must be 0, 1, 2, … without gap or
repetition. -/
def inputs (g : Graph) (n : NodeId) : Except Error (List Edge) := do
  let ports ← g.targetPorts n (g.incoming n)
  let sorted := sortByPort ports
  match portFault? 0 sorted with
  | some port => throw (.invalidPort (g.nameOf n) port)
  | none => return sorted.map Prod.snd

/-- The number of output ports that edges out of a node use: one past the highest
source port, counted with 64-bit words. -/
def portCount (g : Graph) (n : NodeId) : List Edge → Except Error Nat
  | [] => .ok 0
  | e :: rest =>
    match e.sourcePort with
    | .error raw => .error (g.invalidMetadata n sourcePortKey raw)
    | .ok port => (g.portCount n rest).map (max ((port + 1) % 2 ^ 64))

def outputPorts (g : Graph) (n : NodeId) : Except Error Nat :=
  g.portCount n (g.outgoing n)

end Graph

/-! ## Emitters -/

structure Emitter where
  graph : Graph
  symbols : Symbols
  defaultMode : NumericMode

namespace Emitter

/-- The address of the value slot of an output port. -/
def valueAddress (m : Emitter) (n : NodeId) (port : Nat) : Except Error Address :=
  match ((m.symbols.slotsOf n).value? port).bind Address.value? with
  | some a => .ok a
  | none => .error (.invalidPort (m.graph.nameOf n) port)

def mode (m : Emitter) (n : NodeId) : Except Error NumericMode :=
  match m.graph.metadata? n modeKey with
  | none => .ok m.defaultMode
  | some raw =>
    match NumericMode.ofName? raw with
    | some mode => .ok mode
    | none => .error (m.graph.invalidMetadata n modeKey raw)

/-- The address of the slot that the source of an edge writes, for input `port` of
`consumer`. -/
def resolveProducer (m : Emitter) (consumer : NodeId) (port : Nat) (e : Edge) :
    Except Error Address :=
  match e.sourcePort with
  | .error raw => .error (m.graph.invalidMetadata e.source sourcePortKey raw)
  | .ok output =>
    match m.graph.kind? e.source with
    | some .float | some (.operator _) | some .pass => m.valueAddress e.source output
    | some .texture | some .present | none =>
      .error (.unresolvedInput (m.graph.nameOf consumer) port)

/-- The address that input `port` of `consumer` is read from, where `e` is its edge. -/
def resolve (m : Emitter) (consumer : NodeId) (port : Nat) (e : Edge) :
    Except Error Address :=
  if m.graph.kind? e.source = some .texture then
    match m.graph.incoming e.source with
    | [] =>
      match ((m.symbols.slotsOf e.source).texture).bind Address.texture? with
      | some a => .ok a
      | none => .error (.unresolvedInput (m.graph.nameOf consumer) port)
    | [hop] =>
      if m.graph.kind? hop.source = some .texture then
        .error (.unsupportedIndirection (m.graph.nameOf consumer))
      else m.resolveProducer consumer port hop
    | _ => .error (.unresolvedInput (m.graph.nameOf consumer) port)
  else m.resolveProducer consumer port e

/-- The pushes of inputs from `port` on. -/
def pushes (m : Emitter) (consumer : NodeId) (port : Nat) :
    List Edge → Except Error (List Instruction)
  | [] => .ok []
  | e :: rest => do
    let a ← m.resolve consumer port e
    let code ← m.pushes consumer (port + 1) rest
    return .push a :: code

/-- The pops of the first `count` output ports, the last one first. -/
def pops (m : Emitter) (n : NodeId) : Nat → Except Error (List Instruction)
  | 0 => .ok []
  | port + 1 => do
    let a ← m.valueAddress n port
    let code ← m.pops n port
    return .pop a :: code

def operatorCode (m : Emitter) (n : NodeId) (op : Operator) :
    Except Error (List Instruction) := do
  let inputs ← m.graph.inputs n
  if inputs.length ≠ op.arity then
    throw (.invalidArity (m.graph.nameOf n) op.arity inputs.length)
  let mode ← m.mode n
  let pushes ← m.pushes n 0 inputs
  let output ← m.valueAddress n 0
  return pushes ++ [op.instruction mode, .pop output]

def passCode (m : Emitter) (n : NodeId) : Except Error (List Instruction) := do
  let inputs ← m.graph.inputs n
  let pushes ← m.pushes n 0 inputs
  let slots := m.symbols.slotsOf n
  match slots.operation with
  | none => throw (.unknownOperationType (m.graph.nameOf n))
  | some index =>
    let pops ← m.pops n slots.count
    return pushes ++ .call (UInt16.ofNat index) :: pops

/-- The instructions of a node; constants, textures and the sink have none. -/
def nodeCode (m : Emitter) (n : NodeId) : Except Error (List Instruction) :=
  match m.graph.kind? n with
  | some (.operator op) => m.operatorCode n op
  | some .pass => m.passCode n
  | some .float | some .texture | some .present | none => .ok []

/-- The instructions of nodes in order, and a halt. -/
def code (m : Emitter) : List NodeId → Except Error (List Instruction)
  | [] => .ok [.halt]
  | n :: rest => do
    let first ← m.nodeCode n
    let others ← m.code rest
    return first ++ others

def program (m : Emitter) (s : Schedule) : Except Error Program := do
  Program.assemble (← m.code s.evaluationOrder)

end Emitter

end FrameGraph
