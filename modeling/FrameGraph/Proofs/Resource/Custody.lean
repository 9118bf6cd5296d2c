import FrameGraph.Proofs.Resource.Provision

/-!
# Custody of native objects

The live objects of a device are held by owners, each object by one of them.  An owner that
resizes gives up what it holds before it asks for something new, so that this is true again
whatever the device answers, and it stays true for owners that resize or release in turn.
-/

namespace FrameGraph

/-! ## Accounts -/

/-- The handles of the objects in a table, each of them once. -/
structure LiveHandles {ρ : Type} (table : HandleTable ρ) (handles : List Handle) : Prop where
  once : handles.Nodup
  live : ∀ h, h ∈ handles ↔ h.number ∈ table

namespace LiveHandles

variable {ρ : Type} {table : HandleTable ρ} {handles others : List Handle} {h : Handle}

theorem of_perm (listed : LiveHandles table handles) (same : handles.Perm others) :
    LiveHandles table others :=
  ⟨same.nodup_iff.mp listed.once, fun h => same.mem_iff.symm.trans (listed.live h)⟩

theorem erase (listed : LiveHandles table (h :: handles)) :
    LiveHandles (table.erase h.number) handles := by
  obtain ⟨absent, once⟩ := List.nodup_cons.mp listed.once
  refine ⟨once, fun other => ?_⟩
  rw [HandleTable.mem_erase, ← listed.live, List.mem_cons]
  constructor
  · intro member
    refine ⟨fun same => absent ?_, Or.inr member⟩
    rwa [show h = other from congrArg Handle.mk same]
  · rintro ⟨different, rfl | member⟩
    · exact absurd rfl different
    · exact member

theorem insert {next : Nat} (listed : LiveHandles table handles)
    (old : ∀ h ∈ handles, h.number < next) (record : ρ) :
    LiveHandles (table.insert next record) (⟨next⟩ :: handles) := by
  refine ⟨List.nodup_cons.mpr ⟨fun member => ?_, listed.once⟩, fun other => ?_⟩
  · exact absurd (old _ member) (Nat.lt_irrefl next)
  · rw [HandleTable.mem_insert, ← listed.live, List.mem_cons]
    exact or_congr_left ⟨fun same => congrArg Handle.number same.symm,
      fun same => congrArg Handle.mk same.symm⟩

theorem isEmpty (listed : LiveHandles table []) : table.isEmpty = true := by
  refine HandleTable.isEmpty_iff.mpr fun number member => ?_
  exact absurd ((listed.live ⟨number⟩).mpr member) List.not_mem_nil

end LiveHandles

/-- The live textures and framebuffers of a device are the listed ones, each once, and their
numbers were handed out by it. -/
structure HeadlessDevice.Accounts (device : HeadlessDevice) (textures framebuffers : List Handle) :
    Prop where
  liveTextures : LiveHandles device.textures textures
  liveFramebuffers : LiveHandles device.framebuffers framebuffers
  apart : ∀ h ∈ textures, h ∉ framebuffers
  oldTextures : ∀ h ∈ textures, h.number < device.nextHandle
  oldFramebuffers : ∀ h ∈ framebuffers, h.number < device.nextHandle

namespace HeadlessDevice.Accounts

variable {device : HeadlessDevice} {textures framebuffers others : List Handle} {h : Handle}

theorem start : ({} : HeadlessDevice).Accounts [] [] := by
  constructor
  case liveTextures | liveFramebuffers =>
    exact ⟨List.nodup_nil, fun h => iff_of_false List.not_mem_nil HandleTable.not_mem_empty⟩
  all_goals simp

theorem nodup (accounts : device.Accounts textures framebuffers) :
    (textures ++ framebuffers).Nodup := by
  refine List.nodup_append.mpr ⟨accounts.liveTextures.once, accounts.liveFramebuffers.once, ?_⟩
  rintro h isTexture other isFramebuffer rfl
  exact accounts.apart h isTexture isFramebuffer

theorem perm_textures (accounts : device.Accounts textures framebuffers)
    (same : textures.Perm others) : device.Accounts others framebuffers where
  liveTextures := accounts.liveTextures.of_perm same
  liveFramebuffers := accounts.liveFramebuffers
  apart h member := accounts.apart h (same.mem_iff.mpr member)
  oldTextures h member := accounts.oldTextures h (same.mem_iff.mpr member)
  oldFramebuffers := accounts.oldFramebuffers

theorem perm_framebuffers (accounts : device.Accounts textures framebuffers)
    (same : framebuffers.Perm others) : device.Accounts textures others where
  liveTextures := accounts.liveTextures
  liveFramebuffers := accounts.liveFramebuffers.of_perm same
  apart h member later := accounts.apart h member (same.mem_iff.mpr later)
  oldTextures := accounts.oldTextures
  oldFramebuffers h member := accounts.oldFramebuffers h (same.mem_iff.mpr member)

theorem destroyTexture (accounts : device.Accounts (h :: textures) framebuffers) :
    (device.destroyTexture h).Accounts textures framebuffers where
  liveTextures := accounts.liveTextures.erase
  liveFramebuffers := accounts.liveFramebuffers
  apart other member := accounts.apart other (List.mem_cons_of_mem h member)
  oldTextures other member := accounts.oldTextures other (List.mem_cons_of_mem h member)
  oldFramebuffers := accounts.oldFramebuffers

theorem destroyFramebuffer (accounts : device.Accounts textures (h :: framebuffers)) :
    (device.destroyFramebuffer h).Accounts textures framebuffers where
  liveTextures := accounts.liveTextures
  liveFramebuffers := accounts.liveFramebuffers.erase
  apart other member later := accounts.apart other member (List.mem_cons_of_mem h later)
  oldTextures := accounts.oldTextures
  oldFramebuffers other member :=
    accounts.oldFramebuffers other (List.mem_cons_of_mem h member)

/-- The next number is that of no live object, of either kind. -/
theorem createTexture (accounts : device.Accounts textures framebuffers)
    (format : TextureFormat) (width height : Nat) :
    (device.createTexture format width height).2.Accounts
      (⟨device.nextHandle⟩ :: textures) framebuffers where
  liveTextures := accounts.liveTextures.insert accounts.oldTextures _
  liveFramebuffers := accounts.liveFramebuffers
  apart := by
    refine List.forall_mem_cons.mpr ⟨fun member => ?_, accounts.apart⟩
    exact absurd (accounts.oldFramebuffers _ member) (Nat.lt_irrefl _)
  oldTextures := by
    refine List.forall_mem_cons.mpr ⟨Nat.lt_succ_self _, fun h member => ?_⟩
    exact Nat.lt_succ_of_lt (accounts.oldTextures h member)
  oldFramebuffers h member := Nat.lt_succ_of_lt (accounts.oldFramebuffers h member)

theorem createFramebuffer (accounts : device.Accounts textures framebuffers)
    (record : FramebufferRecord) :
    Accounts ⟨device.nextHandle + 1, device.textures,
      device.framebuffers.insert device.nextHandle record⟩ textures
      (⟨device.nextHandle⟩ :: framebuffers) where
  liveTextures := accounts.liveTextures
  liveFramebuffers := accounts.liveFramebuffers.insert accounts.oldFramebuffers _
  apart h member later := by
    rcases List.mem_cons.mp later with rfl | earlier
    · exact absurd (accounts.oldTextures _ member) (Nat.lt_irrefl _)
    · exact accounts.apart h member earlier
  oldTextures h member := Nat.lt_succ_of_lt (accounts.oldTextures h member)
  oldFramebuffers := by
    refine List.forall_mem_cons.mpr ⟨Nat.lt_succ_self _, fun h member => ?_⟩
    exact Nat.lt_succ_of_lt (accounts.oldFramebuffers h member)

end HeadlessDevice.Accounts

/-! ## Custody -/

/-- What is kept between the textures and framebuffers that owners hold and their device,
whatever the device does: what is destroyed leaves the owners, and what is created comes to
them. -/
structure Custody {δ : Type} [Device δ] (Holds : List Handle → List Handle → δ → Prop) :
    Prop where
  perm_textures {textures others framebuffers : List Handle} {device : δ} :
    Holds textures framebuffers device → textures.Perm others →
      Holds others framebuffers device
  perm_framebuffers {textures framebuffers others : List Handle} {device : δ} :
    Holds textures framebuffers device → framebuffers.Perm others →
      Holds textures others device
  destroyTexture {h : Handle} {textures framebuffers : List Handle} {device : δ} :
    Holds (h :: textures) framebuffers device →
      Holds textures framebuffers (Device.destroyTexture device h)
  destroyFramebuffer {h : Handle} {textures framebuffers : List Handle} {device : δ} :
    Holds textures (h :: framebuffers) device →
      Holds textures framebuffers (Device.destroyFramebuffer device h)
  createTexture {textures framebuffers : List Handle} {device : δ}
    (format : TextureFormat) (width height : Nat) : Holds textures framebuffers device →
      let made := Device.createTexture device format width height
      (∃ e, made.1 = .error e ∧ Holds textures framebuffers made.2) ∨
        ∃ h, made.1 = .ok h ∧ Holds (h :: textures) framebuffers made.2
  createFramebuffer {textures framebuffers : List Handle} {device : δ}
    (attachments : List Attachment) (width height : Nat) :
    Holds textures framebuffers device →
      let made := Device.createFramebuffer device attachments width height
      (∃ e, made.1 = .error e ∧ Holds textures framebuffers made.2) ∨
        ∃ h, made.1 = .ok h ∧ Holds textures (h :: framebuffers) made.2

/-- The handles that owners hold, in order. -/
def heldHandles {α : Type} (handle : α → Option Handle) (owners : List α) : List Handle :=
  owners.flatMap fun a => (handle a).toList

theorem heldHandles_cons {α : Type} {handle : α → Option Handle} {a : α} {rest : List α} :
    heldHandles handle (a :: rest) = (handle a).toList ++ heldHandles handle rest :=
  List.flatMap_cons

theorem mem_heldHandles {α : Type} {handle : α → Option Handle} {owners : List α} {h : Handle} :
    h ∈ heldHandles handle owners ↔ ∃ a ∈ owners, handle a = some h := by
  simp only [heldHandles, List.mem_flatMap, Option.mem_toList]

/-- What giving up the object of one owner keeps is kept when owners do so in turn. -/
theorem holds_foldl_release {α δ : Type} {handle : α → Option Handle}
    (Holds : List Handle → δ → Prop) {release : α → δ → α × δ}
    (step : ∀ a device rest, Holds ((handle a).toList ++ rest) device →
      Holds rest (release a device).2)
    (owners : List α) {device : δ} {rest : List Handle}
    (before : Holds (heldHandles handle owners ++ rest) device) :
    Holds rest (owners.foldl (fun device a => (release a device).2) device) := by
  induction owners generalizing device with
  | nil => exact before
  | cons a others inductionHypothesis =>
      rw [heldHandles_cons, List.append_assoc] at before
      exact inductionHypothesis (step a device _ before)

/-- What an attempt for one owner keeps is kept by attempts for owners in turn, also when one
of them fails. -/
theorem Attempt.holds_each {α δ : Type} {handle : α → Option Handle}
    (Holds : List Handle → δ → Prop) {attempt : α → δ → Attempt α δ}
    (perm : ∀ {handles others : List Handle} {device : δ},
      Holds handles device → handles.Perm others → Holds others device)
    (step : ∀ a device rest, Holds ((handle a).toList ++ rest) device →
      Holds ((handle (attempt a device).owner).toList ++ rest) (attempt a device).device)
    (owners : List α) {device : δ} {rest : List Handle}
    (before : Holds (heldHandles handle owners ++ rest) device) :
    Holds (heldHandles handle (each attempt owners device).owner ++ rest)
      (each attempt owners device).device := by
  refine each_induction (motive := fun owners device made =>
    ∀ rest, Holds (heldHandles handle owners ++ rest) device →
      Holds (heldHandles handle made.owner ++ rest) made.device)
    (fun _ _ before => before) ?failure ?success owners device rest before
  case failure =>
    intro a others device e _ rest before
    rw [heldHandles_cons, List.append_assoc] at before ⊢
    exact step a device _ before
  case success =>
    intro a others device _ made inductionHypothesis rest before
    rw [heldHandles_cons, List.append_assoc] at before ⊢
    -- The first owner's new handle joins the rest while the others have their turn.
    have joined := perm (step a device _ before) (List.perm_append_comm_assoc ..)
    exact perm (inductionHypothesis _ joined) (List.perm_append_comm_assoc ..)

namespace Custody

variable {δ : Type} [Device δ] {Holds : List Handle → List Handle → δ → Prop}
  {textures framebuffers : List Handle} {device : δ}

theorem release_texture (custody : Custody Holds) (t : Texture)
    (before : Holds (t.handle.toList ++ textures) framebuffers device) :
    Holds textures framebuffers (t.release device).2 := by
  unfold Texture.release
  cases held : t.handle with
  | none => rwa [held] at before
  | some h =>
      rw [held] at before
      exact custody.destroyTexture before

theorem resize_texture (custody : Custody Holds) (t : Texture) (width height : Nat)
    (before : Holds (t.handle.toList ++ textures) framebuffers device) :
    Holds ((t.resize device width height).owner.handle.toList ++ textures) framebuffers
      (t.resize device width height).device := by
  have released := custody.release_texture t before
  rcases custody.createTexture t.format width height released with
    ⟨e, failed, kept⟩ | ⟨h, created, kept⟩
  · rw [Texture.resize_of_error (Prod.ext failed rfl)]
    exact kept
  · rw [Texture.resize_of_ok (Prod.ext created rfl)]
    exact kept

theorem release_framebuffer (custody : Custody Holds) (f : Framebuffer)
    (before : Holds textures (f.handle.toList ++ framebuffers) device) :
    Holds textures framebuffers (f.release device).2 := by
  unfold Framebuffer.release
  cases held : f.handle with
  | none => rwa [held] at before
  | some h =>
      rw [held] at before
      exact custody.destroyFramebuffer before

theorem resize_framebuffer (custody : Custody Holds) (f : Framebuffer) (table : Array Texture)
    (width height : Nat) (before : Holds textures (f.handle.toList ++ framebuffers) device) :
    Holds textures ((f.resize device table width height).owner.handle.toList ++ framebuffers)
      (f.resize device table width height).device := by
  have released := custody.release_framebuffer f before
  rcases f.resize_cases device table width height with ⟨e, stopped⟩ | ⟨attachments, -, asked⟩
  · rw [stopped]
    exact released
  · rw [asked]
    rcases custody.createFramebuffer attachments width height released with
      ⟨e, failed, kept⟩ | ⟨h, created, kept⟩
    · rw [show Device.createFramebuffer _ attachments width height = (.error e, _) from
        Prod.ext failed rfl]
      exact kept
    · rw [show Device.createFramebuffer _ attachments width height = (.ok h, _) from
        Prod.ext created rfl]
      exact kept

end Custody

/-! ## Devices with a headless device behind them -/

open HeadlessBacked (backing)

/-- Whatever creations are refused, the owners hold exactly the live objects. -/
theorem HeadlessBacked.custody {δ : Type} [Device δ] [HeadlessBacked δ] :
    Custody fun textures framebuffers (device : δ) =>
      (backing device).Accounts textures framebuffers where
  perm_textures accounts same := accounts.perm_textures same
  perm_framebuffers accounts same := accounts.perm_framebuffers same
  destroyTexture accounts := by
    rw [HeadlessBacked.destroyTexture]
    exact accounts.destroyTexture
  destroyFramebuffer accounts := by
    rw [HeadlessBacked.destroyFramebuffer]
    exact accounts.destroyFramebuffer
  createTexture {_ _ device} format width height accounts := by
    rcases createTexture_cases device format width height with
      ⟨e, after, failed, same⟩ | ⟨after, created, deviceEq⟩
    · rw [failed]
      exact Or.inl ⟨e, rfl, same ▸ accounts⟩
    · rw [created]
      refine Or.inr ⟨_, rfl, ?_⟩
      rw [deviceEq]
      exact accounts.createTexture format width height
  createFramebuffer {_ _ device} attachments width height accounts := by
    rcases createFramebuffer_cases device attachments width height with
      ⟨e, after, failed, same⟩ | ⟨after, created, deviceEq⟩
    · rw [failed]
      exact Or.inl ⟨e, rfl, same ▸ accounts⟩
    · rw [created]
      refine Or.inr ⟨_, rfl, ?_⟩
      rw [deviceEq]
      exact accounts.createFramebuffer _

end FrameGraph
