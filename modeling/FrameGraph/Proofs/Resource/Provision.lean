import FrameGraph.Instance
import FrameGraph.Proofs.Compiler.Success
import FrameGraph.Resource.Headless

/-!
# Provision of native objects

A headless device never hands out a number twice.  When owners give up their objects and
get new ones in turn, an object that is new therefore survives all later releases, as long as
the owners held no number that the device has yet to hand out.  An attempt that nothing stopped
then ends with a live object for every owner.
-/

namespace FrameGraph

/-! ## Devices in front of a headless device -/

section Backing

variable {δ : Type}

/-- A creation is either refused, and then changes no object, or answered as the headless
device answers it. -/
def CreationFollows (backing : δ → HeadlessDevice) (device : δ)
    (made : Except Error Handle × δ) (answer : Except Error Handle × HeadlessDevice) : Prop :=
  (∃ e, made.1 = .error e ∧ backing made.2 = backing device) ∨
    (made.1 = answer.1 ∧ backing made.2 = answer.2)

/-- A device that keeps its objects in a headless device and may refuse creations. -/
class HeadlessBacked (δ : Type) [Device δ] where
  backing : δ → HeadlessDevice
  createTexture (device : δ) (format : TextureFormat) (width height : Nat) :
    CreationFollows backing device (Device.createTexture device format width height)
      ((backing device).createTexture format width height)
  destroyTexture (device : δ) (h : Handle) :
    backing (Device.destroyTexture device h) = (backing device).destroyTexture h
  createFramebuffer (device : δ) (attachments : List Attachment) (width height : Nat) :
    CreationFollows backing device (Device.createFramebuffer device attachments width height)
      ((backing device).createFramebuffer attachments width height)
  destroyFramebuffer (device : δ) (h : Handle) :
    backing (Device.destroyFramebuffer device h) = (backing device).destroyFramebuffer h

instance : HeadlessBacked HeadlessDevice where
  backing := id
  createTexture _ _ _ _ := Or.inr ⟨rfl, rfl⟩
  destroyTexture _ _ := rfl
  createFramebuffer _ _ _ _ := Or.inr ⟨rfl, rfl⟩
  destroyFramebuffer _ _ := rfl

theorem GuardedDevice.follows_ask (g : GuardedDevice) (request : CreationRequest)
    (create : HeadlessDevice → Except Error Handle × HeadlessDevice) :
    CreationFollows GuardedDevice.device g (g.ask request create) (create g.device) := by
  unfold GuardedDevice.ask
  split
  · exact Or.inl ⟨_, rfl, rfl⟩
  · exact Or.inr ⟨rfl, rfl⟩

instance : HeadlessBacked GuardedDevice where
  backing := GuardedDevice.device
  createTexture g _ _ _ := g.follows_ask _ _
  destroyTexture _ _ := rfl
  createFramebuffer g _ _ _ := g.follows_ask _ _
  destroyFramebuffer _ _ := rfl

end Backing

open HeadlessBacked (backing)

/-! ## Owners in turn -/

namespace Attempt

variable {α δ κ : Type} (attempt : α → δ → Attempt α δ)

/-- Attempts for one owner after the other, up to the first that fails. -/
def each : List α → δ → Attempt (List α) δ
  | [], device => ⟨[], device, none⟩
  | a :: rest, device =>
    match attempt a device with
    | ⟨a, device, some e⟩ => ⟨a :: rest, device, some e⟩
    | ⟨a, device, none⟩ =>
      let others := each rest device
      ⟨a :: others.owner, others.device, others.failure⟩

variable {attempt}

/-- Attempts in turn end with the first that fails, or go on with the device that one of them
has left behind. -/
theorem each_induction {motive : List α → δ → Attempt (List α) δ → Prop}
    (nil : ∀ device, motive [] device ⟨[], device, none⟩)
    (failure : ∀ a rest device e, (attempt a device).failure = some e →
      motive (a :: rest) device
        ⟨(attempt a device).owner :: rest, (attempt a device).device, some e⟩)
    (success : ∀ a rest device, (attempt a device).failure = none →
      let others := each attempt rest (attempt a device).device
      motive rest (attempt a device).device others →
        motive (a :: rest) device
          ⟨(attempt a device).owner :: others.owner, others.device, others.failure⟩)
    (owners : List α) (device : δ) : motive owners device (each attempt owners device) := by
  induction owners generalizing device with
  | nil => exact nil device
  | cons a rest inductionHypothesis =>
      have failed := failure a rest device
      have succeeded := success a rest device
      rw [each]
      rcases made : attempt a device with ⟨owner, after, _ | e⟩
      · rw [made] at succeeded
        exact succeeded rfl (inductionHypothesis after)
      · rw [made] at failed
        exact failed e rfl

/-- What no attempt changes about an owner stays as it is for all of them. -/
theorem map_owner_each (key : α → κ) (keeps : ∀ a device, key (attempt a device).owner = key a)
    (owners : List α) (device : δ) :
    (each attempt owners device).owner.map key = owners.map key := by
  refine each_induction (motive := fun owners _ made => made.owner.map key = owners.map key)
    (fun _ => rfl) ?failure ?success owners device
  case failure =>
    intro a rest device e _
    rw [List.map_cons, List.map_cons, keeps]
  case success =>
    intro a rest device _ others othersKeep
    rw [List.map_cons, List.map_cons, keeps, othersKeep]

/-- What no attempt changes about the device stays as it is. -/
theorem device_each (view : δ → κ)
    (keeps : ∀ a device, view (attempt a device).device = view device) (owners : List α)
    (device : δ) : view (each attempt owners device).device = view device := by
  refine each_induction (motive := fun _ device made => view made.device = view device)
    (fun _ => rfl) ?failure ?success owners device
  case failure =>
    exact fun a _ device _ _ => keeps a device
  case success =>
    intro a _ device _ _ othersKeep
    exact othersKeep.trans (keeps a device)

end Attempt

/-! ## Renewed objects -/

/-- The numbers that owners hold are below the next one to be handed out. -/
def HeldBelow {α : Type} (handle : α → Option Handle) (owners : List α) (next : Nat) : Prop :=
  ∀ a ∈ owners, ∀ h, handle a = some h → h.number < next

theorem HeldBelow.mono {α : Type} {handle : α → Option Handle} {owners : List α}
    {next later : Nat} (below : HeldBelow handle owners next) (grows : next ≤ later) :
    HeldBelow handle owners later :=
  fun a member h held => Nat.lt_of_lt_of_le (below a member h held) grows

/-- A kind of native object: the handle that an owner holds, the records of a device by
number, and the records that suit an owner. -/
structure Holding (α ρ : Type) where
  handle : α → Option Handle
  record : HeadlessDevice → Nat → Option ρ
  Suits : α → ρ → Prop

namespace Holding

variable {α ρ δ : Type} [Device δ] [HeadlessBacked δ] (kind : Holding α ρ)

/-- An owner holds a live object that suits it. -/
def Live (device : HeadlessDevice) (a : α) : Prop :=
  ∃ h record, kind.handle a = some h ∧ kind.record device h.number = some record ∧
    kind.Suits a record

/-- What an attempt to renew the object of one owner leaves behind. -/
structure Renewed (a : α) (device : δ) (made : Attempt α δ) : Prop where
  grows : (backing device).nextHandle ≤ (backing made.device).nextHandle
  below : ∀ h, kind.handle made.owner = some h →
    h.number < (backing made.device).nextHandle
  spares : ∀ number, number < (backing device).nextHandle →
    (∀ h, kind.handle a = some h → h.number ≠ number) →
      kind.record (backing made.device) number = kind.record (backing device) number
  fresh : made.failure = none → ∃ h record, kind.handle made.owner = some h ∧
    (backing device).nextHandle ≤ h.number ∧
    kind.record (backing made.device) h.number = some record ∧ kind.Suits made.owner record

/-- What attempts to renew the objects of owners in turn leave behind. -/
structure AllRenewed (owners : List α) (device : δ) (made : Attempt (List α) δ) : Prop where
  spares : ∀ number, number < (backing device).nextHandle →
    (∀ a ∈ owners, ∀ h, kind.handle a = some h → h.number ≠ number) →
      kind.record (backing made.device) number = kind.record (backing device) number
  live : made.failure = none → ∀ a ∈ made.owner, kind.Live (backing made.device) a

variable {kind}

/-- An owner that gave up its object either gets the next number or nothing. -/
theorem renewed_of_released {a : α} {device : δ} {made : Attempt α δ} (released : δ)
    (nextEq : (backing released).nextHandle = (backing device).nextHandle)
    (spared : ∀ number, (∀ h, kind.handle a = some h → h.number ≠ number) →
      kind.record (backing released) number = kind.record (backing device) number)
    (outcome :
      (made.failure ≠ none ∧ kind.handle made.owner = none ∧
        backing made.device = backing released) ∨
      ∃ record, kind.handle made.owner = some ⟨(backing released).nextHandle⟩ ∧
        (backing made.device).nextHandle = (backing released).nextHandle + 1 ∧
        (∀ number, kind.record (backing made.device) number =
          if number = (backing released).nextHandle then some record
          else kind.record (backing released) number) ∧
        kind.Suits made.owner record) :
    kind.Renewed a device made := by
  rcases outcome with ⟨failed, empty, same⟩ | ⟨record, heldEq, grown, records, suits⟩
  · refine ⟨?_, ?_, ?_, ?_⟩
    · rw [same]
      exact Nat.le_of_eq nextEq.symm
    · intro h held
      rw [empty] at held
      cases held
    · intro number _ apart
      rw [same]
      exact spared number apart
    · exact fun succeeded => absurd succeeded failed
  -- The new number is above all numbers that were handed out, so it names a new record.
  · rw [nextEq] at heldEq grown records
    refine ⟨?_, ?_, ?_, ?_⟩
    · rw [grown]
      exact Nat.le_succ _
    · intro h held
      rw [heldEq] at held
      cases held
      rw [grown]
      exact Nat.lt_succ_self _
    · intro number old apart
      rw [records, if_neg (Nat.ne_of_lt old)]
      exact spared number apart
    · intro _
      refine ⟨_, record, heldEq, Nat.le_refl _, ?_, suits⟩
      rw [records, if_pos rfl]

section Cons

variable {a : α} {rest : List α} {device : δ} {made : Attempt α δ}
  (first : kind.Renewed a device made)

include first

theorem AllRenewed.of_failure (e : Error) :
    kind.AllRenewed (a :: rest) device ⟨made.owner :: rest, made.device, some e⟩ := by
  refine ⟨fun number old apart => ?_, fun succeeded => by cases succeeded⟩
  exact first.spares number old (apart a List.mem_cons_self)

/-- The owners after a renewed one hold smaller numbers, so they leave its object alone. -/
theorem AllRenewed.of_success
    (restBelow : HeldBelow kind.handle rest (backing device).nextHandle)
    {others : Attempt (List α) δ} (succeeded : made.failure = none)
    (renewed : kind.AllRenewed rest made.device others) :
    kind.AllRenewed (a :: rest) device
      ⟨made.owner :: others.owner, others.device, others.failure⟩ := by
  refine ⟨?_, ?_⟩
  · intro number old apart
    have restSpares := renewed.spares number (Nat.lt_of_lt_of_le old first.grows)
      fun b member => apart b (List.mem_cons_of_mem a member)
    exact restSpares.trans (first.spares number old (apart a List.mem_cons_self))
  · intro allSucceeded b member
    rcases List.mem_cons.mp member with rfl | later
    · obtain ⟨h, record, held, new, found, suits⟩ := first.fresh succeeded
      have smaller : ∀ b ∈ rest, ∀ other, kind.handle b = some other →
          other.number ≠ h.number := by
        intro b later other otherHeld
        exact Nat.ne_of_lt (Nat.lt_of_lt_of_le (restBelow b later other otherHeld) new)
      have kept := renewed.spares h.number (first.below h held) smaller
      exact ⟨h, record, held, kept.trans found, suits⟩
    · exact renewed.live allSucceeded b later

end Cons

section Each

variable {attempt : α → δ → Attempt α δ}
  (renewed : ∀ a device, kind.Renewed a device (attempt a device)) (owners : List α) (device : δ)

include renewed

theorem nextHandle_le_each :
    (backing device).nextHandle ≤
      (backing (Attempt.each attempt owners device).device).nextHandle := by
  refine Attempt.each_induction (motive := fun _ device made =>
    (backing device).nextHandle ≤ (backing made.device).nextHandle)
    (fun _ => Nat.le_refl _) ?failure ?success owners device
  case failure =>
    exact fun a _ device _ _ => (renewed a device).grows
  case success =>
    intro a _ device _ _ othersGrow
    exact Nat.le_trans (renewed a device).grows othersGrow

/-- On any device, what the owners hold in the end is what they held before or was handed out
by the device meanwhile. -/
theorem heldBelow_each {next : Nat} (old : HeldBelow kind.handle owners next)
    (within : (backing (Attempt.each attempt owners device).device).nextHandle ≤ next) :
    HeldBelow kind.handle (Attempt.each attempt owners device).owner next := by
  refine Attempt.each_induction (motive := fun owners _ made =>
    HeldBelow kind.handle owners next → (backing made.device).nextHandle ≤ next →
      HeldBelow kind.handle made.owner next)
    (fun _ old _ => old) ?failure ?success owners device old within
  case failure =>
    intro a rest device e _ old within
    obtain ⟨-, restOld⟩ := List.forall_mem_cons.mp old
    exact List.forall_mem_cons.mpr
      ⟨fun h held => Nat.lt_of_lt_of_le ((renewed a device).below h held) within, restOld⟩
  case success =>
    intro a rest device _ others othersBelow old within
    obtain ⟨-, restOld⟩ := List.forall_mem_cons.mp old
    have grows := nextHandle_le_each renewed rest (attempt a device).device
    refine List.forall_mem_cons.mpr ⟨fun h held => ?_, othersBelow restOld within⟩
    exact Nat.lt_of_lt_of_le ((renewed a device).below h held) (Nat.le_trans grows within)

/-- Renewing the objects of owners in turn renews all of them, up to the first failure. -/
theorem allRenewed_each (below : HeldBelow kind.handle owners (backing device).nextHandle) :
    kind.AllRenewed owners device (Attempt.each attempt owners device) := by
  refine Attempt.each_induction (motive := fun owners device made =>
    HeldBelow kind.handle owners (backing device).nextHandle →
      kind.AllRenewed owners device made) ?nil ?failure ?success owners device below
  case nil =>
    intro device _
    refine ⟨fun _ _ _ => rfl, fun _ a member => ?_⟩
    cases member
  case failure =>
    exact fun a rest device e _ _ => .of_failure (renewed a device) e
  case success =>
    intro a rest device succeeded others othersRenewed below
    have restBelow : HeldBelow kind.handle rest (backing device).nextHandle :=
      (List.forall_mem_cons.mp below).2
    apply AllRenewed.of_success (renewed a device) restBelow succeeded
    exact othersRenewed (restBelow.mono (renewed a device).grows)

end Each

end Holding

/-! ## Creations -/

section Creation

variable {δ : Type} [Device δ] [HeadlessBacked δ]

/-- A texture that is created has the next number. -/
theorem createTexture_cases (device : δ) (format : TextureFormat) (width height : Nat) :
    (∃ e after, Device.createTexture device format width height = (.error e, after) ∧
      backing after = backing device) ∨
    ∃ after, Device.createTexture device format width height =
        (.ok ⟨(backing device).nextHandle⟩, after) ∧
      backing after = ((backing device).createTexture format width height).2 := by
  rcases HeadlessBacked.createTexture device format width height with
    ⟨e, failed, same⟩ | ⟨answered, deviceEq⟩
  · exact Or.inl ⟨e, _, Prod.ext failed rfl, same⟩
  · exact Or.inr ⟨_, Prod.ext answered rfl, deviceEq⟩

/-- A framebuffer that is created has the next number. -/
theorem createFramebuffer_cases (device : δ) (attachments : List Attachment)
    (width height : Nat) :
    (∃ e after, Device.createFramebuffer device attachments width height = (.error e, after) ∧
      backing after = backing device) ∨
    ∃ after, Device.createFramebuffer device attachments width height =
        (.ok ⟨(backing device).nextHandle⟩, after) ∧
      backing after = ⟨(backing device).nextHandle + 1, (backing device).textures,
        (backing device).framebuffers.insert (backing device).nextHandle
          ⟨attachments, width, height⟩⟩ := by
  rcases HeadlessBacked.createFramebuffer device attachments width height with
    ⟨e, failed, same⟩ | ⟨answered, deviceEq⟩
  · exact Or.inl ⟨e, _, Prod.ext failed rfl, same⟩
  · unfold HeadlessDevice.createFramebuffer at answered deviceEq
    cases complete : (backing device).completenessFault? attachments with
    | some fault =>
        rw [complete] at answered deviceEq
        exact Or.inl ⟨_, _, Prod.ext answered rfl, deviceEq⟩
    | none =>
        rw [complete] at answered deviceEq
        exact Or.inr ⟨_, Prod.ext answered rfl, deviceEq⟩

end Creation

/-! ## Textures -/

namespace Texture

variable {δ : Type} [Device δ]

/-- Storage in the format of the slot and of the given size. -/
def holding (width height : Nat) : Holding Texture TextureRecord where
  handle := Texture.handle
  record device number := device.textures[number]?
  Suits t record := record = ⟨t.format, width, height⟩ ∧ t.width = width ∧ t.height = height

theorem resize_of_error {t : Texture} {device after : δ} {width height : Nat} {e : Error}
    (failed : Device.createTexture (t.release device).2 t.format width height =
      (.error e, after)) :
    t.resize device width height = ⟨{ format := t.format }, after, some e⟩ := by
  rw [resize]
  simp only [release] at failed ⊢
  rw [failed]

theorem resize_of_ok {t : Texture} {device after : δ} {width height : Nat} {h : Handle}
    (created : Device.createTexture (t.release device).2 t.format width height =
      (.ok h, after)) :
    t.resize device width height = ⟨⟨t.format, width, height, some h⟩, after, none⟩ := by
  rw [resize]
  simp only [release] at created ⊢
  rw [created]

theorem format_resize (width height : Nat) (t : Texture) (device : δ) :
    (t.resize device width height).owner.format = t.format := by
  rcases created : Device.createTexture (t.release device).2 t.format width height with
    ⟨e | h, after⟩
  · rw [resize_of_error created]
  · rw [resize_of_ok created]

variable [HeadlessBacked δ]

theorem backing_release (t : Texture) (device : δ) :
    backing (t.release device).2 =
      match t.handle with
      | some h => (backing device).destroyTexture h
      | none => backing device := by
  unfold release
  cases t.handle with
  | none => rfl
  | some h => exact HeadlessBacked.destroyTexture device h

theorem renewed_resize (width height : Nat) (t : Texture) (device : δ) :
    (holding width height).Renewed t device (t.resize device width height) := by
  have releasedEq := t.backing_release device
  refine Holding.renewed_of_released (t.release device).2 ?_ ?_ ?_
  · rw [releasedEq]
    cases t.handle <;> rfl
  · intro number apart
    simp only [holding, releasedEq] at apart ⊢
    cases held : t.handle with
    | none => rfl
    | some h =>
        have different : h.number ≠ number := apart h held
        simp [HeadlessDevice.destroyTexture, HandleTable.getElem?_erase, different]
  · rcases createTexture_cases (t.release device).2 t.format width height with
      ⟨e, after, failed, same⟩ | ⟨after, created, deviceEq⟩
    · rw [resize_of_error failed]
      exact Or.inl ⟨by simp, rfl, same⟩
    · rw [resize_of_ok created, deviceEq]
      refine Or.inr ⟨⟨t.format, width, height⟩, rfl, rfl, ?_, rfl, rfl, rfl⟩
      intro number
      simp [holding, HeadlessDevice.createTexture, HandleTable.getElem?_insert,
        eq_comm (a := number)]

end Texture

/-! ## Framebuffers -/

namespace Framebuffer

variable {δ : Type} [Device δ]

/-- A framebuffer over the current storage of the texture slots and of the given size. -/
def holding (table : Array Texture) (width height : Nat) :
    Holding Framebuffer FramebufferRecord where
  handle := Framebuffer.handle
  record device number := device.framebuffers[number]?
  Suits f record := f.attachments table = .ok record.attachments ∧
    record.width = width ∧ record.height = height ∧ f.width = width ∧ f.height = height

/-- A resize stops before the device is asked, or the device answers it. -/
theorem resize_cases (f : Framebuffer) (device : δ) (table : Array Texture)
    (width height : Nat) :
    (∃ e, f.resize device table width height =
      ⟨{ f with handle := none }, (f.release device).2, some e⟩) ∨
    ∃ attachments, f.attachments table = .ok attachments ∧
      f.resize device table width height =
        match Device.createFramebuffer (f.release device).2 attachments width height with
        | (.error e, after) => ⟨{ f with handle := none }, after, some e⟩
        | (.ok h, after) => ⟨⟨f.textures, width, height, some h⟩, after, none⟩ := by
  have released : (f.release device).1 = { f with handle := none } := rfl
  rw [resize]
  dsimp only
  rw [released]
  cases sizeFault? table width height f.textures with
  | some fault => exact Or.inl ⟨_, rfl⟩
  | none =>
      cases f.attachments table with
      | error e => exact Or.inl ⟨e, rfl⟩
      | ok attachments => exact Or.inr ⟨attachments, rfl, rfl⟩

theorem textures_resize (table : Array Texture) (width height : Nat) (f : Framebuffer)
    (device : δ) : (f.resize device table width height).owner.textures = f.textures := by
  rcases f.resize_cases device table width height with ⟨e, stopped⟩ | ⟨attachments, -, asked⟩
  · rw [stopped]
  · rw [asked]
    split <;> rfl

variable [HeadlessBacked δ]

theorem backing_release (f : Framebuffer) (device : δ) :
    backing (f.release device).2 =
      match f.handle with
      | some h => (backing device).destroyFramebuffer h
      | none => backing device := by
  unfold release
  cases f.handle with
  | none => rfl
  | some h => exact HeadlessBacked.destroyFramebuffer device h

theorem renewed_resize (table : Array Texture) (width height : Nat) (f : Framebuffer)
    (device : δ) :
    (holding table width height).Renewed f device (f.resize device table width height) := by
  have releasedEq := f.backing_release device
  refine Holding.renewed_of_released (f.release device).2 ?_ ?_ ?_
  · rw [releasedEq]
    cases f.handle <;> rfl
  · intro number apart
    simp only [holding, releasedEq] at apart ⊢
    cases held : f.handle with
    | none => rfl
    | some h =>
        have different : h.number ≠ number := apart h held
        simp [HeadlessDevice.destroyFramebuffer, HandleTable.getElem?_erase, different]
  · rcases f.resize_cases device table width height with
      ⟨e, stopped⟩ | ⟨attachments, attachmentsEq, asked⟩
    · rw [stopped]
      exact Or.inl ⟨by simp, rfl, rfl⟩
    · rcases createFramebuffer_cases (f.release device).2 attachments width height with
        ⟨e, after, failed, same⟩ | ⟨after, created, deviceEq⟩
      · rw [asked, failed]
        exact Or.inl ⟨by simp, rfl, same⟩
      · rw [asked, created, deviceEq]
        refine Or.inr ⟨⟨attachments, width, height⟩, rfl, rfl, ?_, attachmentsEq, rfl, rfl,
          rfl, rfl⟩
        intro number
        simp [holding, HandleTable.getElem?_insert, eq_comm (a := number)]

/-- Framebuffers come and go without the textures. -/
theorem backing_textures_resize (table : Array Texture) (width height : Nat)
    (f : Framebuffer) (device : δ) :
    (backing (f.resize device table width height).device).textures =
      (backing device).textures := by
  have releasedEq : (backing (f.release device).2).textures = (backing device).textures := by
    rw [f.backing_release device]
    cases f.handle <;> rfl
  rcases f.resize_cases device table width height with ⟨e, stopped⟩ | ⟨attachments, -, asked⟩
  · rw [stopped]
    exact releasedEq
  · rcases createFramebuffer_cases (f.release device).2 attachments width height with
      ⟨e, after, failed, same⟩ | ⟨after, created, deviceEq⟩
    · rw [asked, failed]
      exact (congrArg HeadlessDevice.textures same).trans releasedEq
    · rw [asked, created]
      exact (congrArg HeadlessDevice.textures deviceEq).trans releasedEq

theorem texture_of_attachmentsFrom {table : Array Texture} {color : Nat} {slots : List Nat}
    {attachments : List Attachment}
    (bound : attachmentsFrom table color slots = .ok attachments) :
    attachments.map (fun a => some a.texture) =
      slots.map fun slot => (table[slot]?).bind Texture.handle := by
  induction slots generalizing color attachments with
  | nil =>
      cases bound
      rfl
  | cons slot rest inductionHypothesis =>
      rw [attachmentsFrom] at bound
      cases found : table[slot]? with
      | none => simp [found] at bound
      | some t =>
          cases held : t.handle with
          | none => simp [found, held] at bound
          | some h =>
              simp only [found, held] at bound
              obtain ⟨others, othersBound, rfl⟩ := map_eq_ok_iff.mp bound
              rw [List.map_cons, List.map_cons, inductionHypothesis othersBound, found,
                Option.bind_some, held]

/-- The textures of the attachments are the current storage of the texture slots. -/
theorem texture_of_attachments {f : Framebuffer} {table : Array Texture}
    {attachments : List Attachment} (bound : f.attachments table = .ok attachments) :
    attachments.map (fun a => some a.texture) =
      f.textures.map fun slot => (table[slot]?).bind Texture.handle :=
  texture_of_attachmentsFrom bound

end Framebuffer

end FrameGraph
