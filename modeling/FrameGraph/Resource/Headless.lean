import FrameGraph.Resource.Device
import FrameGraph.Resource.HandleTable

/-!
# Devices without graphics

A headless device hands out the handles 1, 2, 3, … over textures and framebuffers
together and keeps a record of every live object.  A guarded device is a headless one
whose host may refuse any single creation.
-/

namespace FrameGraph

/-! ## Headless devices -/

structure TextureRecord where
  format : TextureFormat
  width : Nat
  height : Nat
  deriving DecidableEq, Repr

structure FramebufferRecord where
  attachments : List Attachment
  width : Nat
  height : Nat
  deriving DecidableEq, Repr

/-- The live objects by handle number and the next number to hand out. -/
structure HeadlessDevice where
  nextHandle : Nat := 1
  textures : HandleTable TextureRecord := ∅
  framebuffers : HandleTable FramebufferRecord := ∅

namespace HeadlessDevice

/-- The number of color points of a framebuffer. -/
def maxColorAttachments : Nat := 8

/-- The first attachment that a framebuffer cannot have. -/
def attachmentFault? (d : HeadlessDevice) : List Attachment → Option FramebufferFault
  | [] => none
  | a :: rest =>
    if a.texture.number ∈ d.textures then
      match a.point with
      | .color index =>
        if index < maxColorAttachments then d.attachmentFault? rest
        else some (.colorOutOfRange index)
      | _ => d.attachmentFault? rest
    else some (.textureNotLive a.texture.number)

/-- Why attachments do not make a framebuffer: there are none, or more than one that
is not a color, or too many colors, or one of them is at fault. -/
def completenessFault? (d : HeadlessDevice) (attachments : List Attachment) :
    Option FramebufferFault :=
  let others := attachments.countP fun a => a.point.isDepthOrStencil
  let colors := attachments.length - others
  if attachments.isEmpty then some .noAttachments
  else if 1 < others then some (.severalDepthStencil others)
  else if maxColorAttachments < colors then
    some (.tooManyColors colors maxColorAttachments)
  else d.attachmentFault? attachments

def createTexture (d : HeadlessDevice) (format : TextureFormat) (width height : Nat) :
    Except Error Handle × HeadlessDevice :=
  (.ok ⟨d.nextHandle⟩,
    { d with
      nextHandle := d.nextHandle + 1
      textures := d.textures.insert d.nextHandle ⟨format, width, height⟩ })

def destroyTexture (d : HeadlessDevice) (h : Handle) : HeadlessDevice :=
  { d with textures := d.textures.erase h.number }

def createFramebuffer (d : HeadlessDevice) (attachments : List Attachment)
    (width height : Nat) : Except Error Handle × HeadlessDevice :=
  match d.completenessFault? attachments with
  | some fault => (.error (.incompleteFramebuffer fault), d)
  | none =>
    (.ok ⟨d.nextHandle⟩,
      { d with
        nextHandle := d.nextHandle + 1
        framebuffers := d.framebuffers.insert d.nextHandle ⟨attachments, width, height⟩ })

def destroyFramebuffer (d : HeadlessDevice) (h : Handle) : HeadlessDevice :=
  { d with framebuffers := d.framebuffers.erase h.number }

instance : Device HeadlessDevice where
  createTexture := createTexture
  destroyTexture := destroyTexture
  createFramebuffer := createFramebuffer
  destroyFramebuffer := destroyFramebuffer

end HeadlessDevice

/-! ## Guarded devices -/

inductive CreationRequest where
  | texture (format : TextureFormat) (width height : Nat)
  | framebuffer (attachments : List Attachment) (width height : Nat)
  deriving DecidableEq, Repr

/-- A headless device and a host that sees the number of creations asked for so far,
the device and the request, and may refuse with a reason. -/
structure GuardedDevice where
  device : HeadlessDevice := {}
  asked : Nat := 0
  refusal? : Nat → HeadlessDevice → CreationRequest → Option String := fun _ _ _ => none

namespace GuardedDevice

/-- Asks the host, and then the device unless the host refuses. -/
def ask (g : GuardedDevice) (request : CreationRequest)
    (create : HeadlessDevice → Except Error Handle × HeadlessDevice) :
    Except Error Handle × GuardedDevice :=
  let next := { g with asked := g.asked + 1 }
  match g.refusal? g.asked g.device request with
  | some reason => (.error (.incompleteFramebuffer (.refused reason)), next)
  | none =>
    let (result, device) := create g.device
    (result, { next with device := device })

instance : Device GuardedDevice where
  createTexture g format width height :=
    g.ask (.texture format width height) fun d => d.createTexture format width height
  destroyTexture g h := { g with device := g.device.destroyTexture h }
  createFramebuffer g attachments width height :=
    g.ask (.framebuffer attachments width height) fun d =>
      d.createFramebuffer attachments width height
  destroyFramebuffer g h := { g with device := g.device.destroyFramebuffer h }

/-- The host that refuses a texture while `limit` or more textures are live. -/
def textureLimit (limit : Nat) (_ : Nat) (d : HeadlessDevice) :
    CreationRequest → Option String
  | .texture _ _ _ => if limit ≤ d.textures.size then some "texture limit" else none
  | .framebuffer _ _ _ => none

end GuardedDevice

end FrameGraph
