import FrameGraph.Resource.Device

/-!
# Texture slots

A texture slot has a format from the start and native storage once it is sized.
-/

namespace FrameGraph

structure Texture where
  format : TextureFormat
  width : Nat := 0
  height : Nat := 0
  handle : Option Handle := none
  deriving DecidableEq, Repr

namespace Texture

variable {δ : Type} [Device δ]

/-- Gives up the storage, if there is any. -/
def release (t : Texture) (device : δ) : Texture × δ :=
  ({ format := t.format },
    match t.handle with
    | some h => Device.destroyTexture device h
    | none => device)

/-- Gives up the old storage and provides new storage of the given size. -/
def resize (t : Texture) (device : δ) (width height : Nat) : Attempt Texture δ :=
  let (released, device) := t.release device
  match Device.createTexture device t.format width height with
  | (.error e, device) => ⟨released, device, some e⟩
  | (.ok h, device) => ⟨⟨t.format, width, height, some h⟩, device, none⟩

end Texture

end FrameGraph
