import FrameGraph.Resource.Texture

/-!
# Framebuffer slots

A framebuffer slot binds texture slots by their index in a texture table.  The table
is resized first and the framebuffer over it afterwards.
-/

namespace FrameGraph

/-- A framebuffer slot: the texture slots in binding order and, once sized, the native
framebuffer. -/
structure Framebuffer where
  textures : List Nat
  width : Nat := 0
  height : Nat := 0
  handle : Option Handle := none
  deriving DecidableEq, Repr

namespace Framebuffer

/-! ## Attachments -/

/-- The point for a format, where `color` is the next free color index. -/
def pointFor (format : TextureFormat) (color : Nat) : AttachmentPoint :=
  match format.formatClass with
  | .depth => .depth
  | .stencil => .stencil
  | .depthStencil => .depthStencil
  | .color => .color color

/-- The attachments of the listed slots from the color index `color` on: a format that
is no color has a point of its own, every other takes the next color index. -/
def attachmentsFrom (table : Array Texture) (color : Nat) :
    List Nat → Except Error (List Attachment)
  | [] => .ok []
  | slot :: rest =>
    match table[slot]? with
    | none => .error (.incompleteFramebuffer (.noTextureSlot slot))
    | some texture =>
      match texture.handle with
      | none => .error (.incompleteFramebuffer (.noStorage slot))
      | some handle =>
        let point := pointFor texture.format color
        let next := if point.isDepthOrStencil then color else color + 1
        (attachmentsFrom table next rest).map (⟨point, handle⟩ :: ·)

/-- The attachments for the current storage of the texture slots. -/
def attachments (f : Framebuffer) (table : Array Texture) :
    Except Error (List Attachment) :=
  attachmentsFrom table 0 f.textures

/-- The first slot whose texture exists and has another size. -/
def sizeFault? (table : Array Texture) (width height : Nat) :
    List Nat → Option FramebufferFault
  | [] => none
  | slot :: rest =>
    match table[slot]? with
    | none => sizeFault? table width height rest
    | some texture =>
      if texture.width = width ∧ texture.height = height then
        sizeFault? table width height rest
      else some (.sizeMismatch slot texture.width texture.height width height)

/-! ## Native framebuffers -/

variable {δ : Type} [Device δ]

/-- Gives up the native framebuffer, if there is one.  The recorded size stays. -/
def release (f : Framebuffer) (device : δ) : Framebuffer × δ :=
  ({ f with handle := none },
    match f.handle with
    | some h => Device.destroyFramebuffer device h
    | none => device)

/-- Gives up the old native framebuffer and provides a new one of the given size, which
every bound texture must have already. -/
def resize (f : Framebuffer) (device : δ) (table : Array Texture) (width height : Nat) :
    Attempt Framebuffer δ :=
  let (released, device) := f.release device
  match sizeFault? table width height f.textures with
  | some fault => ⟨released, device, some (.incompleteFramebuffer fault)⟩
  | none =>
    match f.attachments table with
    | .error e => ⟨released, device, some e⟩
    | .ok attachments =>
      match Device.createFramebuffer device attachments width height with
      | (.error e, device) => ⟨released, device, some e⟩
      | (.ok h, device) => ⟨⟨f.textures, width, height, some h⟩, device, none⟩

end Framebuffer

end FrameGraph
