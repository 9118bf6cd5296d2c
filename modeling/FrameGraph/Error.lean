import FrameGraph.Text.Numeral

/-!
# Errors

The causes for which building, compiling or running a graph fails, and the wording of
each.  A cause carries what a caller may want to act on; only `message` knows the
words.
-/

namespace FrameGraph

/-! ## Traps -/

/-- A violation found by the machine; `offset` is the byte offset of the faulting
instruction. -/
inductive Trap where
  | pointerOutOfRange (offset : Nat)
  | truncatedInstruction (offset : Nat)
  | invalidOpcode (offset : Nat) (opcode : UInt8)
  | invalidMode (offset : Nat) (mode : UInt8)
  | stackUnderflow (offset : Nat)
  | stackOverflow (offset limit : Nat)
  | texturePop (offset : Nat)
  | valueAddressOutOfRange (offset index : Nat)
  | textureAddressOutOfRange (offset index : Nat)
  | unknownOperation (offset index : Nat)
  | outputCountMismatch (offset index expected found : Nat)
  | divisionByZero (offset : Nat)
  | unbalancedStack (offset depth : Nat)
  deriving DecidableEq, Repr

namespace Trap

def message : Trap → String
  | pointerOutOfRange offset =>
    s!"instruction pointer {offset} is outside the program"
  | truncatedInstruction offset => s!"instruction at {offset} is truncated"
  | invalidOpcode offset opcode =>
    "invalid opcode 0x" ++ String.ofList (Text.paddedDigits 16 2 opcode.toNat) ++
      s!" at {offset}"
  | invalidMode offset mode => s!"invalid numeric mode {mode} at {offset}"
  | stackUnderflow offset => s!"stack underflow at {offset}"
  | stackOverflow offset limit => s!"stack overflow at {offset} (limit {limit})"
  | texturePop offset => s!"pop into texture memory at {offset}"
  | valueAddressOutOfRange offset index =>
    s!"value address {index} out of range at {offset}"
  | textureAddressOutOfRange offset index =>
    s!"texture address {index} out of range at {offset}"
  | unknownOperation offset index => s!"call to unknown operation {index} at {offset}"
  | outputCountMismatch offset index expected found =>
    s!"operation {index} pushed {found} output(s), expected {expected} (at {offset})"
  | divisionByZero offset => s!"integer division by zero at {offset}"
  | unbalancedStack offset depth =>
    s!"{depth} value(s) left on the stack at halt ({offset})"

end Trap

/-! ## Causes with variants of their own -/

/-- Why a graph has no final output. -/
inductive PresentFault where
  | absent
  | withoutPredecessor (node : String)
  | severalPredecessors (node : String)
  deriving DecidableEq, Repr

def PresentFault.message : PresentFault → String
  | absent => "graph has no present node"
  | withoutPredecessor node => s!"'{node}' has no predecessor"
  | severalPredecessors node => s!"'{node}' has more than one predecessor"

/-- Why a device object cannot be created. -/
inductive FramebufferFault where
  | noAttachments
  | severalDepthStencil (count : Nat)
  | tooManyColors (count limit : Nat)
  | textureNotLive (handle : Nat)
  | colorOutOfRange (index : Nat)
  | noTextureSlot (slot : Nat)
  | noStorage (slot : Nat)
  | sizeMismatch (slot width height : Nat) (framebufferWidth framebufferHeight : Nat)
  | refused (reason : String)
  deriving DecidableEq, Repr

def FramebufferFault.message : FramebufferFault → String
  | noAttachments => "no attachments"
  | severalDepthStencil count => s!"{count} depth/stencil attachments"
  | tooManyColors count limit =>
    s!"{count} color attachments, at most {limit} supported"
  | textureNotLive handle => s!"texture #{handle} is not live"
  | colorOutOfRange index => s!"color attachment {index} out of range"
  | noTextureSlot slot => s!"no texture slot t{slot}"
  | noStorage slot => s!"texture slot t{slot} has no storage"
  | sizeMismatch slot width height w h =>
    s!"texture slot t{slot} is {width}x{height}, framebuffer is {w}x{h}"
  | refused reason => reason

/-- How a text fails to be a document: it ends too early, it is no document at all,
or the document has another shape. -/
inductive SourceFault where
  | unfinished
  | malformed
  | misshapen
  deriving DecidableEq, Repr

def SourceFault.message : SourceFault → String
  | unfinished => "the text ends inside a value"
  | malformed => "the text is not well formed"
  | misshapen => "the document has another shape"

/-- The three index spaces of a compiled program. -/
inductive AddressSpace where
  | value
  | texture
  | operation
  deriving DecidableEq, Repr

def AddressSpace.name : AddressSpace → String
  | value => "value"
  | texture => "texture"
  | operation => "operation"

/-! ## Errors -/

/-- Why building, compiling, resizing or running fails.  Nodes are named by their
identifiers. -/
inductive Error where
  | cyclicGraph (remainingEdges : Nat)
  | invalidPresentNode (fault : PresentFault)
  | unknownNodeType (tag : String)
  | unknownFormat (name : String)
  | unknownOperationType (identifier : String)
  | emptyProgram
  | vmTrap (trap : Trap)
  | duplicateNode (id : String)
  | unknownNode (id : String)
  | unknownPosition (index : Nat)
  | duplicatePresentNode
  | invalidMetadata (node key value : String)
  | invalidArity (node : String) (expected found : Nat)
  | invalidPort (node : String) (port : Nat)
  | unsupportedIndirection (node : String)
  | unresolvedInput (node : String) (port : Nat)
  | defaultFramebufferConflict (pass : String)
  | addressSpaceExhausted (space : AddressSpace)
  | operationInitFailed (node : String)
  | duplicateOperation (identifier : String)
  | incompleteFramebuffer (fault : FramebufferFault)
  | invalidDimensions (width height : Nat)
  | invalidSlot (index : Nat)
  | source (fault : SourceFault)
  deriving DecidableEq, Repr

def Error.message : Error → String
  | cyclicGraph count =>
    s!"graph contains a cycle reachable from the present node ({count} edge(s) " ++
      "left unscheduled)"
  | invalidPresentNode fault => "invalid present node: " ++ fault.message
  | unknownNodeType tag => s!"unknown node type '{tag}'"
  | unknownFormat name => s!"unknown texture format '{name}'"
  | unknownOperationType identifier => s!"unknown operation type '{identifier}'"
  | emptyProgram => "bytecode program is empty"
  | vmTrap trap => "vm trap: " ++ trap.message
  | duplicateNode id => s!"duplicate node id '{id}'"
  | unknownNode id => s!"unknown node id '{id}'"
  | unknownPosition index => s!"unknown node id '#{index}'"
  | duplicatePresentNode => "graph already has a present node"
  | invalidMetadata node key value => s!"node '{node}': invalid metadata {key}='{value}'"
  | invalidArity node expected found =>
    s!"node '{node}': expected {expected} input(s), found {found}"
  | invalidPort node port => s!"node '{node}': port {port} is out of range or bound twice"
  | unsupportedIndirection node => s!"node '{node}': texture indirection deeper than one hop"
  | unresolvedInput node port =>
    s!"node '{node}': input port {port} does not resolve to an addressable slot"
  | defaultFramebufferConflict pass =>
    s!"pass '{pass}' writes to the default framebuffer and must have exactly one output"
  | addressSpaceExhausted space => space.name ++ " address space exhausted"
  | operationInitFailed node => s!"operation for node '{node}' failed to initialize"
  | duplicateOperation identifier =>
    s!"operation type '{identifier}' is already registered"
  | incompleteFramebuffer fault => "framebuffer incomplete: " ++ fault.message
  | invalidDimensions width height => s!"invalid dimensions {width}x{height}"
  | invalidSlot index => s!"value slot {index} is out of range"
  | source fault => "graph source: " ++ fault.message

end FrameGraph
