import FrameGraph.Machine
import FrameGraph.Resource.Device

/-!
# Operations

The units of work that a program calls.  What an operation remembers lives in the
world of the host, a state of type `ω` that all operations share; the render target of
an operation is kept for it and handed over with every call.
-/

namespace FrameGraph

/-- The framebuffer that an operation draws into. -/
structure RenderTarget where
  framebuffer : Handle := .null
  width : Nat := 0
  height : Nat := 0
  deriving DecidableEq, Repr

/-! ## Operations and passes -/

/-- The behaviour of an operation in a world of type `ω`. -/
structure Operation (ω : Type) where
  /-- Called once after creation; a false answer makes compilation fail. -/
  init : ω → Bool × ω := fun world => (true, world)
  release : ω → ω := id
  bound : RenderTarget → ω → ω := fun _ world => world
  /-- The work of one call; a false answer stops the program. -/
  execute : RenderTarget → ω → Work (Bool × ω)

/-- Rendering bracketed by a beginning and an end. -/
structure Pass (ω : Type) where
  init : ω → Bool × ω := fun world => (true, world)
  release : ω → ω := id
  start : RenderTarget → ω → Bool × ω := fun _ world => (true, world)
  render : RenderTarget → ω → Work (Bool × ω)
  finish : RenderTarget → ω → Bool × ω := fun _ world => (true, world)

/-- A pass as an operation: its three parts in order, up to the first that answers
false. -/
def Pass.toOperation {ω : Type} (p : Pass ω) : Operation ω where
  init := p.init
  release := p.release
  execute target world :=
    match p.start target world with
    | (false, world) => .done (false, world)
    | (true, world) =>
      (p.render target world).bind fun
        | (false, world) => .done (false, world)
        | (true, world) => .done (p.finish target world)

/-! ## Tasks -/

/-- An operation with its stack effect and its render target. -/
structure Task (ω : Type) where
  operation : Operation ω
  signature : Signature
  target : RenderTarget := {}

namespace Task

variable {ω : Type}

def bind (t : Task ω) (target : RenderTarget) (world : ω) : Task ω × ω :=
  ({ t with target := target }, t.operation.bound target world)

/-- Gives the operation up; its target is unbound. -/
def release (t : Task ω) (world : ω) : Task ω × ω :=
  ({ t with target := {} }, t.operation.release world)

end Task

/-! ## Tables -/

/-- What changes while a program runs: value memory and the world of the host. -/
structure Memory (ω : Type) where
  values : Array Cell
  world : ω

/-- What a program addresses besides value memory. -/
structure Tables (ω : Type) where
  textures : Array Cell
  tasks : Array (Task ω)

def Tables.context {ω : Type} (tables : Tables ω) : Context (Memory ω) where
  load memory index := memory.values[index]?
  store memory index c :=
    if index < memory.values.size then
      some { memory with values := memory.values.setIfInBounds index c }
    else none
  texture _ index := tables.textures[index]?
  signature _ index := (tables.tasks[index]?).map Task.signature
  call memory index :=
    match tables.tasks[index]? with
    | none => .done (false, memory)
    | some task =>
      (task.operation.execute task.target memory.world).bind fun (goesOn, world) =>
        .done (goesOn, { memory with world := world })

end FrameGraph
