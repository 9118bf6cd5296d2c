import FrameGraph.Proofs.Resource.Custody

/-!
# Recorded devices

A recorded device answers as the device in it does and notes what it is told to destroy.
Owners cannot tell the two apart, so what the record shows is true of the device alone.
-/

namespace FrameGraph

open HeadlessBacked (backing)

/-! ## Views -/

/-- One device shows another: it answers the same and stays in step with it. -/
structure DeviceView {δ ε : Type} [Device δ] [Device ε] (view : δ → ε) : Prop where
  createTexture (device : δ) (format : TextureFormat) (width height : Nat) :
    Device.createTexture (view device) format width height =
      Prod.map id view (Device.createTexture device format width height)
  destroyTexture (device : δ) (h : Handle) :
    Device.destroyTexture (view device) h = view (Device.destroyTexture device h)
  createFramebuffer (device : δ) (attachments : List Attachment) (width height : Nat) :
    Device.createFramebuffer (view device) attachments width height =
      Prod.map id view (Device.createFramebuffer device attachments width height)
  destroyFramebuffer (device : δ) (h : Handle) :
    Device.destroyFramebuffer (view device) h = view (Device.destroyFramebuffer device h)

namespace Attempt

variable {α δ ε : Type} (view : δ → ε)

/-- An attempt as seen on the device that is shown. -/
def seen (made : Attempt α δ) : Attempt α ε := ⟨made.owner, view made.device, made.failure⟩

theorem each_view {attempt : α → δ → Attempt α δ} {shown : α → ε → Attempt α ε}
    (same : ∀ a device, shown a (view device) = (attempt a device).seen view)
    (owners : List α) (device : δ) :
    each shown owners (view device) = (each attempt owners device).seen view := by
  induction owners generalizing device with
  | nil => rfl
  | cons a rest inductionHypothesis =>
      rw [each, each, same]
      rcases attempt a device with ⟨owner, after, _ | e⟩
      · simp only [seen, inductionHypothesis]
      · rfl

end Attempt

namespace DeviceView

variable {δ ε : Type} [Device δ] [Device ε] {view : δ → ε} (shows : DeviceView view)
include shows

theorem release_texture (t : Texture) (device : δ) :
    t.release (view device) = Prod.map id view (t.release device) := by
  unfold Texture.release
  cases t.handle with
  | none => rfl
  | some h => exact Prod.ext rfl (shows.destroyTexture device h)

theorem resize_texture (t : Texture) (device : δ) (width height : Nat) :
    t.resize (view device) width height = (t.resize device width height).seen view := by
  unfold Texture.resize
  rw [shows.release_texture]
  dsimp only [Prod.map]
  rw [shows.createTexture]
  rcases Device.createTexture (t.release device).2 t.format width height with
    ⟨e | h, after⟩ <;> rfl

theorem release_framebuffer (f : Framebuffer) (device : δ) :
    f.release (view device) = Prod.map id view (f.release device) := by
  unfold Framebuffer.release
  cases f.handle with
  | none => rfl
  | some h => exact Prod.ext rfl (shows.destroyFramebuffer device h)

theorem resize_framebuffer (f : Framebuffer) (device : δ) (table : Array Texture)
    (width height : Nat) :
    f.resize (view device) table width height =
      (f.resize device table width height).seen view := by
  unfold Framebuffer.resize
  rw [shows.release_framebuffer]
  dsimp only [Prod.map]
  cases Framebuffer.sizeFault? table width height f.textures with
  | some fault => rfl
  | none =>
      cases f.attachments table with
      | error e => rfl
      | ok attachments =>
          dsimp only
          rw [shows.createFramebuffer]
          rcases Device.createFramebuffer (f.release device).2 attachments width height with
            ⟨e | h, after⟩ <;> rfl

end DeviceView

/-! ## Records -/

inductive NativeObject where
  | texture (h : Handle)
  | framebuffer (h : Handle)
  deriving DecidableEq, Repr

def HeadlessDevice.Live (device : HeadlessDevice) : NativeObject → Prop
  | .texture h => h.number ∈ device.textures
  | .framebuffer h => h.number ∈ device.framebuffers

/-- A device with the objects that it was told to destroy, each with the device as it was
then. -/
structure Recorded (δ : Type) where
  device : δ
  destroyed : List (NativeObject × δ) := []

namespace Recorded

variable {δ : Type} [Device δ]

instance : Device (Recorded δ) where
  createTexture r format width height :=
    let (result, device) := Device.createTexture r.device format width height
    (result, { r with device := device })
  destroyTexture r h :=
    ⟨Device.destroyTexture r.device h, r.destroyed ++ [(.texture h, r.device)]⟩
  createFramebuffer r attachments width height :=
    let (result, device) := Device.createFramebuffer r.device attachments width height
    (result, { r with device := device })
  destroyFramebuffer r h :=
    ⟨Device.destroyFramebuffer r.device h, r.destroyed ++ [(.framebuffer h, r.device)]⟩

theorem shows_device : DeviceView (Recorded.device : Recorded δ → δ) where
  createTexture _ _ _ _ := rfl
  destroyTexture _ _ := rfl
  createFramebuffer _ _ _ _ := rfl
  destroyFramebuffer _ _ := rfl

variable [HeadlessBacked δ]

instance : HeadlessBacked (Recorded δ) where
  backing r := backing r.device
  createTexture r := HeadlessBacked.createTexture r.device
  destroyTexture r := HeadlessBacked.destroyTexture r.device
  createFramebuffer r := HeadlessBacked.createFramebuffer r.device
  destroyFramebuffer r := HeadlessBacked.destroyFramebuffer r.device

/-- Every object was live when it was destroyed. -/
def Sound (r : Recorded δ) : Prop :=
  ∀ entry ∈ r.destroyed, (backing entry.2).Live entry.1

theorem Sound.snoc {r : Recorded δ} (sound : r.Sound) {object : NativeObject} (after : δ)
    (live : (backing r.device).Live object) :
    Sound ⟨after, r.destroyed ++ [(object, r.device)]⟩ := by
  intro entry member
  rcases List.mem_append.mp member with old | new
  · exact sound entry old
  · obtain rfl := List.mem_singleton.mp new
    exact live

/-- Owners that hold exactly the live objects destroy only live ones. -/
theorem custody : Custody fun textures framebuffers (r : Recorded δ) =>
    (backing r).Accounts textures framebuffers ∧ r.Sound where
  perm_textures before same := ⟨before.1.perm_textures same, before.2⟩
  perm_framebuffers before same := ⟨before.1.perm_framebuffers same, before.2⟩
  destroyTexture {h _ _ _} before := by
    refine ⟨HeadlessBacked.custody.destroyTexture before.1, before.2.snoc _ ?_⟩
    exact (before.1.liveTextures.live h).mp List.mem_cons_self
  destroyFramebuffer {h _ _ _} before := by
    refine ⟨HeadlessBacked.custody.destroyFramebuffer before.1, before.2.snoc _ ?_⟩
    exact (before.1.liveFramebuffers.live h).mp List.mem_cons_self
  createTexture format width height before := by
    rcases HeadlessBacked.custody.createTexture format width height before.1 with
      ⟨e, failed, kept⟩ | ⟨h, created, kept⟩
    · exact Or.inl ⟨e, failed, kept, before.2⟩
    · exact Or.inr ⟨h, created, kept, before.2⟩
  createFramebuffer attachments width height before := by
    rcases HeadlessBacked.custody.createFramebuffer attachments width height before.1 with
      ⟨e, failed, kept⟩ | ⟨h, created, kept⟩
    · exact Or.inl ⟨e, failed, kept, before.2⟩
    · exact Or.inr ⟨h, created, kept, before.2⟩

end Recorded

end FrameGraph
