import FrameGraph.Error
import FrameGraph.Resource.Format

/-!
# Devices

The interface to native graphics objects: textures and framebuffers are created and
destroyed by handle, and a creation may fail.
-/

namespace FrameGraph

/-! ## Handles and attachments -/

/-- The number of a native texture or framebuffer.  No device hands out zero; as a
framebuffer it names the window surface. -/
structure Handle where
  number : Nat
  deriving DecidableEq, Repr

namespace Handle

def null : Handle := ⟨0⟩

def isNull (h : Handle) : Bool := h.number == 0

def text (h : Handle) : String := "#" ++ toString h.number

end Handle

/-- Where a texture is bound inside a framebuffer. -/
inductive AttachmentPoint where
  | color (index : Nat)
  | depth
  | stencil
  | depthStencil
  deriving DecidableEq, Repr

/-- Every point that is not a color point. -/
def AttachmentPoint.isDepthOrStencil : AttachmentPoint → Bool
  | color _ => false
  | depth | stencil | depthStencil => true

/-- A texture at an attachment point. -/
structure Attachment where
  point : AttachmentPoint
  texture : Handle
  deriving DecidableEq, Repr

/-! ## The interface -/

/-- Native objects kept in a state of type `δ`.  Creation replaces nothing: what is
no longer wanted is destroyed first. -/
class Device (δ : Type) where
  /-- Storage for a texture of the given format, width and height. -/
  createTexture : δ → TextureFormat → Nat → Nat → Except Error Handle × δ
  destroyTexture : δ → Handle → δ
  /-- A framebuffer over attachments, of the given width and height. -/
  createFramebuffer : δ → List Attachment → Nat → Nat → Except Error Handle × δ
  destroyFramebuffer : δ → Handle → δ

/-- What an attempt to provide native objects leaves behind: the owner and the device
as far as the attempt got, and the error that ended it early. -/
structure Attempt (α δ : Type) where
  owner : α
  device : δ
  failure : Option Error

end FrameGraph
