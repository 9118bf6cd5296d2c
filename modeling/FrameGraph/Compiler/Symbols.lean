import FrameGraph.Graph.Basic
import FrameGraph.Instruction

/-!
# Symbols

Which value slots, texture slot and operation index belong to which node.  Slots are
handed out in increasing order, and value slots are counted with 64-bit words.
-/

namespace FrameGraph

/-- What belongs to one node. -/
structure Slots where
  start : Nat := 0
  /-- The slot behind the last one. -/
  stop : Nat := 0
  texture : Option Nat := none
  operation : Option Nat := none
  deriving DecidableEq, Repr

namespace Slots

def count (s : Slots) : Nat := s.stop - s.start

def value? (s : Slots) (port : Nat) : Option Nat :=
  if port < s.count then some (s.start + port) else none

end Slots

/-- The slots of all nodes by position, with the identifiers of the nodes. -/
structure Symbols where
  names : Array String
  slots : Array Slots
  valueCount : Nat := 0
  textureCount : Nat := 0
  operationCount : Nat := 0
  deriving DecidableEq, Repr

namespace Symbols

/-- The number of operation indices that a call can name. -/
def operationSpaceSize : Nat := 2 ^ 16

/-- The symbols of a graph before any slot is handed out. -/
def ofGraph (g : Graph) : Symbols :=
  { names := g.nodes.map Node.id, slots := Array.replicate g.nodes.size {} }

/-! ## Handing out slots -/

/-- Gives a node consecutive value slots. -/
def allocateValues (s : Symbols) (n : NodeId) (count : Nat) : Except Error Symbols :=
  let start := s.valueCount
  let stop := (start + count) % 2 ^ 64
  if Address.spaceSize < stop then .error (.addressSpaceExhausted .value)
  else
    .ok { s with
      slots := s.slots.modify n.index fun t => { t with start := start, stop := stop }
      valueCount := stop }

def allocateTexture (s : Symbols) (n : NodeId) : Except Error Symbols :=
  let slot := s.textureCount
  if Address.spaceSize ≤ slot then .error (.addressSpaceExhausted .texture)
  else
    .ok { s with
      slots := s.slots.modify n.index fun t => { t with texture := some slot }
      textureCount := slot + 1 }

def allocateOperation (s : Symbols) (n : NodeId) : Except Error Symbols :=
  let index := s.operationCount
  if operationSpaceSize ≤ index then .error (.addressSpaceExhausted .operation)
  else
    .ok { s with
      slots := s.slots.modify n.index fun t => { t with operation := some index }
      operationCount := index + 1 }

/-! ## Looking up -/

def slotsOf (s : Symbols) (n : NodeId) : Slots := (s.slots[n.index]?).getD {}

/-- The last position with the given identifier. -/
def find? (s : Symbols) (id : String) : Option NodeId :=
  ((List.range s.names.size).reverse.find? fun i => s.names[i]? = some id).map NodeId.mk

/-- The value slots of the node with an identifier, if it has any: the first one and
the one behind the last. -/
def valueSlots? (s : Symbols) (id : String) : Option (Nat × Nat) := do
  let t := s.slotsOf (← s.find? id)
  if t.start < t.stop then some (t.start, t.stop) else none

def valueSlot? (s : Symbols) (id : String) : Option Nat :=
  (s.valueSlots? id).map Prod.fst

def textureSlot? (s : Symbols) (id : String) : Option Nat := do
  (s.slotsOf (← s.find? id)).texture

def operationIndex? (s : Symbols) (id : String) : Option Nat := do
  (s.slotsOf (← s.find? id)).operation

end Symbols

end FrameGraph
