import FrameGraph.Compiler.Config
import FrameGraph.Compiler.Layout
import FrameGraph.Instance
import FrameGraph.Registry

/-!
# Compilation

Turns a graph into an instance: schedule, layout, one operation and at most one
framebuffer for every pass, and the program.  Operations are initialized last, when
nothing else can fail, and those initialized are released again if a later one fails.
-/

namespace FrameGraph

namespace Compiler

/-! ## What does not depend on operations -/

structure Blueprint where
  schedule : Schedule
  layout : Layout
  deriving DecidableEq

/-- The final node if it is a texture that the host's framebuffer replaces. -/
def aliased? (config : Config) (g : Graph) (final : NodeId) : Option NodeId :=
  if config.framebuffer.externalHandle?.isSome ∧ g.kind? final = some .texture then
    some final
  else none

def blueprint (config : Config) (g : Graph) : Except Error Blueprint := do
  let sink ← g.presentNode
  let schedule ← g.schedule sink
  let layout ← Layout.ofGraph g (aliased? config g schedule.finalNode)
  return ⟨schedule, layout⟩

/-! ## Passes -/

/-- Whether a pass renders into the host's framebuffer: it is the final node, or it
renders the final texture. -/
def writesDefault (config : Config) (g : Graph) (final n : NodeId) : Bool :=
  config.framebuffer.externalHandle?.isSome &&
    (n = final || (g.kind? final = some .texture && g.hasEdge n final))

/-- The texture slots that a pass renders, each once, in the order of its edges. -/
def renderedSlots (g : Graph) (symbols : Symbols) (n : NodeId) : List Nat :=
  distinct ((g.outgoing n).filterMap fun e => (symbols.slotsOf e.target).texture)

structure Workshop (ω : Type) where
  symbols : Symbols
  passes : Array (PassSlot ω) := #[]
  framebuffers : Array Framebuffer := #[]

variable {ω : Type}

/-- The framebuffers with the one of a pass added, and its index.  A pass that renders
into the host's framebuffer has no other output; one that renders no texture has no
framebuffer. -/
def addFramebuffer (config : Config) (g : Graph) (final : NodeId) (symbols : Symbols)
    (framebuffers : Array Framebuffer) (n : NodeId) :
    Except Error (Option Nat × Array Framebuffer) :=
  if writesDefault config g final n then
    if (g.outgoing n).length = 1 then .ok (none, framebuffers)
    else .error (.defaultFramebufferConflict (g.nameOf n))
  else
    match renderedSlots g symbols n with
    | [] => .ok (none, framebuffers)
    | slots => .ok (some framebuffers.size, framebuffers.push { textures := slots })

/-- Makes the operation and the framebuffer of a pass with the given number of output
ports. -/
def addPass (registry : Registry ω) (config : Config) (g : Graph) (final : NodeId) :
    Workshop ω → NodeId × Nat → Build ω (Workshop ω)
  | ⟨symbols, passes, framebuffers⟩, (n, outputs) => do
    let operation ← registry.create ((g.metadata? n subtypeKey).getD "")
    let (framebuffer, framebuffers) ←
      (addFramebuffer config g final symbols framebuffers n : Except Error _)
    let symbols ← (symbols.allocateOperation n : Except Error _)
    let task : Task ω := ⟨operation, ⟨(g.incoming n).length, outputs⟩, {}⟩
    return ⟨symbols, passes.push ⟨g.nameOf n, task, framebuffer⟩, framebuffers⟩

/-- The framebuffer that renders the final node, if a pass does. -/
def internalDefault? (symbols : Symbols) (passes : Array (PassSlot ω))
    (framebuffers : Array Framebuffer) (final : NodeId) : Option Nat :=
  let slots := symbols.slotsOf final
  match slots.texture with
  | some slot => framebuffers.findIdx? fun f => f.textures.contains slot
  | none => do
    let index ← slots.operation
    let pass ← passes[index]?
    pass.framebuffer

/-- What stands behind the present node. -/
def chooseDefault (config : Config) (w : Workshop ω) (final : NodeId) :
    DefaultFramebuffer :=
  match config.framebuffer with
  | .external h => .external h
  | .internal =>
    match internalDefault? w.symbols w.passes w.framebuffers final with
    | some index => .internal index
    | none => .unbound

/-! ## Initialization -/

def releaseAll (passes : List (PassSlot ω)) (world : ω) : ω :=
  passes.foldl (fun world p => p.task.operation.release world) world

/-- Initializes operations in order, where those in `earlier`, the latest first, are
initialized already.  When one fails, the ones before it are released in order. -/
def initAll (earlier : List (PassSlot ω)) : List (PassSlot ω) → Build ω Unit
  | [] => return ()
  | p :: rest => fun world =>
    match p.task.operation.init world with
    | (true, world) => initAll (p :: earlier) rest world
    | (false, world) =>
      (.error (.operationInitFailed p.node), releaseAll earlier.reverse world)

end Compiler

/-! ## Compilation -/

open Compiler in
/-- Compiles a graph with the operations of a registry. -/
def compile {ω : Type} (registry : Registry ω) (config : Config) (g : Graph) :
    Build ω (Instance ω) := do
  let ⟨schedule, layout⟩ ← (blueprint config g : Except Error _)
  let w ← layout.passes.foldlM (addPass registry config g schedule.finalNode)
    { symbols := layout.symbols }
  let program ← (Emitter.program ⟨g, w.symbols, config.defaultMode⟩ schedule :
    Except Error _)
  initAll [] w.passes.toList
  return {
    program := program
    values := layout.values
    textures := layout.textures
    passes := w.passes
    framebuffers := w.framebuffers
    defaultFramebuffer := chooseDefault config w schedule.finalNode
    symbols := w.symbols
    machine := { stackLimit := config.stackLimit } }

end FrameGraph
