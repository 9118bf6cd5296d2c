import FrameGraph.Compiler.Symbols
import FrameGraph.Operation
import FrameGraph.Resource.Framebuffer

/-!
# Instances

An instance is a compiled graph with everything its program addresses.  Resizing
provides native objects and binds render targets, execution runs the program once, and
value slots can be overwritten in between.
-/

namespace FrameGraph

/-- The operation of one pass node. -/
structure PassSlot (ω : Type) where
  node : String
  task : Task ω
  /-- The framebuffer of the pass by index; without one it draws into the default
  framebuffer. -/
  framebuffer : Option Nat

/-- What stands behind the present node. -/
inductive DefaultFramebuffer where
  | external (handle : Handle)
  /-- A framebuffer of the instance, by index. -/
  | internal (index : Nat)
  /-- No pass renders the final node. -/
  | unbound
  deriving DecidableEq, Repr

def DefaultFramebuffer.text : DefaultFramebuffer → String
  | external h => "External(" ++ h.text ++ ")"
  | internal index => s!"Internal({index})"
  | unbound => "Unbound"

/-- A compiled graph. -/
structure Instance (ω : Type) where
  program : Program
  values : Array Cell
  textures : Array Texture
  passes : Array (PassSlot ω)
  framebuffers : Array Framebuffer
  defaultFramebuffer : DefaultFramebuffer
  symbols : Symbols
  machine : Machine
  /-- The size of the last resize that succeeded. -/
  size : Option (Nat × Nat) := none

/-! ## Execution -/

/-- The cell that stands for a texture: its handle, or zero without storage. -/
def Texture.cell (t : Texture) : Cell := .ofNat (t.handle.getD .null).number

structure Frame (ω : Type) where
  exit : Exit
  after : Instance ω
  world : ω

namespace Instance

variable {ω : Type}

/-- What the program addresses besides value memory. -/
def tables (i : Instance ω) : Tables ω :=
  ⟨i.textures.map Texture.cell, i.passes.map PassSlot.task⟩

/-- Runs the program once.  Compiled code has no branches, so it needs no more steps
than it has bytes. -/
def execute (i : Instance ω) (world : ω) : Frame ω :=
  let run := i.machine.run i.tables.context i.program i.program.size ⟨i.values, world⟩
  ⟨run.exit, { i with values := run.state.values, machine := run.machine },
    run.state.world⟩

/-! ## Value slots -/

def setConstant (i : Instance ω) (index : Nat) (c : Cell) : Except Error (Instance ω) :=
  if index < i.values.size then .ok { i with values := i.values.setIfInBounds index c }
  else .error (.invalidSlot index)

def value? (i : Instance ω) (index : Nat) : Option Cell := i.values[index]?

/-! ## Looking up -/

/-- The native texture of a texture slot, once it has storage. -/
def renderTexture? (i : Instance ω) (index : Nat) : Option Handle :=
  (i.textures[index]?).bind Texture.handle

def operationNode? (i : Instance ω) (index : Nat) : Option String :=
  (i.passes[index]?).map PassSlot.node

/-- The native framebuffer of a framebuffer slot, once it has one. -/
def framebufferHandle? (i : Instance ω) (index : Nat) : Option Handle :=
  (i.framebuffers[index]?).bind Framebuffer.handle

/-- The framebuffer behind the present node; the null handle stands for none. -/
def defaultHandle (i : Instance ω) : Handle :=
  match i.defaultFramebuffer with
  | .external h => h
  | .internal index => (i.framebufferHandle? index).getD .null
  | .unbound => .null

/-! ## Native objects -/

variable {δ : Type} [Device δ]

/-- Resizes texture slots in order, up to the first failure. -/
def resizeTextures (width height : Nat) : List Texture → δ → Attempt (List Texture) δ
  | [], device => ⟨[], device, none⟩
  | t :: rest, device =>
    match t.resize device width height with
    | ⟨t, device, some e⟩ => ⟨t :: rest, device, some e⟩
    | ⟨t, device, none⟩ =>
      let others := resizeTextures width height rest device
      ⟨t :: others.owner, others.device, others.failure⟩

def resizeFramebuffers (table : Array Texture) (width height : Nat) :
    List Framebuffer → δ → Attempt (List Framebuffer) δ
  | [], device => ⟨[], device, none⟩
  | f :: rest, device =>
    match f.resize device table width height with
    | ⟨f, device, some e⟩ => ⟨f :: rest, device, some e⟩
    | ⟨f, device, none⟩ =>
      let others := resizeFramebuffers table width height rest device
      ⟨f :: others.owner, others.device, others.failure⟩

def targetHandle (i : Instance ω) (p : PassSlot ω) : Handle :=
  (p.framebuffer.bind i.framebufferHandle?).getD i.defaultHandle

def bindTargets (targetOf : PassSlot ω → RenderTarget) :
    List (PassSlot ω) → ω → List (PassSlot ω) × ω
  | [], world => ([], world)
  | p :: rest, world =>
    let (task, world) := p.task.bind (targetOf p) world
    let (others, world) := bindTargets targetOf rest world
    ({ p with task := task } :: others, world)

/-- Provides native objects of the given size for every texture slot and then for every
framebuffer slot, and binds every pass to its render target.  A failure keeps what was
done before it. -/
def resize (i : Instance ω) (device : δ) (world : ω) (width height : Nat) :
    Attempt (Instance ω) δ × ω :=
  if width = 0 ∨ height = 0 then
    (⟨i, device, some (.invalidDimensions width height)⟩, world)
  else
    match resizeTextures width height i.textures.toList device with
    | ⟨textures, device, some e⟩ =>
      (⟨{ i with textures := textures.toArray }, device, some e⟩, world)
    | ⟨textures, device, none⟩ =>
      let i := { i with textures := textures.toArray }
      match resizeFramebuffers i.textures width height i.framebuffers.toList device with
      | ⟨framebuffers, device, some e⟩ =>
        (⟨{ i with framebuffers := framebuffers.toArray }, device, some e⟩, world)
      | ⟨framebuffers, device, none⟩ =>
        let i := { i with framebuffers := framebuffers.toArray }
        let (passes, world) :=
          bindTargets (fun p => ⟨i.targetHandle p, width, height⟩) i.passes.toList world
        (⟨{ i with passes := passes.toArray, size := some (width, height) }, device,
          none⟩, world)

/-- Gives up every native object and every operation. -/
def release (i : Instance ω) (device : δ) (world : ω) : δ × ω :=
  let device := i.framebuffers.foldl (fun device f => (f.release device).2) device
  let device := i.textures.foldl (fun device t => (t.release device).2) device
  (device, i.passes.foldl (fun world p => (p.task.release world).2) world)

/-! ## Text -/

def debugText (i : Instance ω) : String :=
  let length := i.program.size
  let values := i.values.size
  let textures := i.textures.size
  let operations := i.passes.size
  let framebuffers := i.framebuffers.size
  let choice := i.defaultFramebuffer.text
  "Instance \x7b " ++
    s!"program_len: {length}, values: {values}, textures: {textures}, " ++
    s!"operations: {operations}, framebuffers: {framebuffers}, " ++
    s!"default_framebuffer: {choice}" ++ " \x7d"

end Instance

end FrameGraph
