import FrameGraph.Proofs.Resource.Provision
import Mathlib.Data.List.Nodup

/-!
# Complete framebuffers

A framebuffer slot gives every texture slot a point, in order, and a headless device checks the
attachments that come of it.  Both count colors on their own.  On textures that are live and of
the right size they agree: what is refused is only an empty list, a second texture that is no
color, or a ninth color.
-/

namespace FrameGraph

/-! ## Attachments that a device accepts -/

/-- Attachments that make a framebuffer as long as the textures of certain numbers are live. -/
structure CompleteAttachments (live : Nat → Prop) (attachments : List Attachment) : Prop where
  someAttachment : attachments ≠ []
  others : (attachments.countP fun a => a.point.isDepthOrStencil) ≤ 1
  colors : (attachments.countP fun a => !a.point.isDepthOrStencil) ≤
    HeadlessDevice.maxColorAttachments
  textures : ∀ a ∈ attachments, live a.texture.number
  indices : ∀ a ∈ attachments, ∀ index, a.point = .color index →
    index < HeadlessDevice.maxColorAttachments

namespace HeadlessDevice

variable {device : HeadlessDevice} {attachments : List Attachment}

theorem attachmentFault?_eq_none_iff :
    device.attachmentFault? attachments = none ↔
      ∀ a ∈ attachments, a.texture.number ∈ device.textures ∧
        ∀ index, a.point = .color index → index < maxColorAttachments := by
  induction attachments with
  | nil => exact iff_of_true rfl fun a member => absurd member List.not_mem_nil
  | cons a rest inductionHypothesis =>
      rw [List.forall_mem_cons, ← inductionHypothesis, attachmentFault?]
      by_cases live : a.texture.number ∈ device.textures
      · rw [if_pos live]
        cases pointEq : a.point with
        | color index =>
            by_cases small : index < maxColorAttachments
            · simp [small, live]
            · simp [small]
        | depth | stencil | depthStencil => simp [live]
      · rw [if_neg live]
        simp [live]

/-- A headless device refuses exactly what is not complete. -/
theorem completenessFault?_eq_none_iff :
    device.completenessFault? attachments = none ↔
      CompleteAttachments (· ∈ device.textures) attachments := by
  have total := List.length_eq_countP_add_countP
    (fun a : Attachment => a.point.isDepthOrStencil) (l := attachments)
  have colorsEq : attachments.length - attachments.countP (fun a => a.point.isDepthOrStencil) =
      attachments.countP fun a => !a.point.isDepthOrStencil := by
    simp only [Bool.not_eq_true, Bool.decide_eq_false] at total
    omega
  unfold completenessFault?
  dsimp only
  rw [colorsEq]
  constructor
  · intro accepted
    split at accepted
    · cases accepted
    split at accepted
    · cases accepted
    split at accepted
    · cases accepted
    next nonempty fewOthers fewColors =>
      have each := attachmentFault?_eq_none_iff.mp accepted
      refine ⟨?_, Nat.le_of_not_lt fewOthers, Nat.le_of_not_lt fewColors,
        fun a member => (each a member).1, fun a member => (each a member).2⟩
      rintro rfl
      exact nonempty rfl
  · rintro ⟨nonempty, fewOthers, fewColors, live, small⟩
    rw [if_neg (by simpa using nonempty), if_neg (Nat.not_lt.mpr fewOthers),
      if_neg (Nat.not_lt.mpr fewColors)]
    exact attachmentFault?_eq_none_iff.mpr fun a member => ⟨live a member, small a member⟩

theorem createFramebuffer_of_complete (width height : Nat)
    (complete : CompleteAttachments (· ∈ device.textures) attachments) :
    device.createFramebuffer attachments width height =
      (.ok ⟨device.nextHandle⟩, ⟨device.nextHandle + 1, device.textures,
        device.framebuffers.insert device.nextHandle ⟨attachments, width, height⟩⟩) := by
  rw [createFramebuffer, completenessFault?_eq_none_iff.mpr complete]

theorem createFramebuffer_of_incomplete (width height : Nat)
    (incomplete : ¬ CompleteAttachments (· ∈ device.textures) attachments) :
    ∃ fault, device.createFramebuffer attachments width height =
      (.error (.incompleteFramebuffer fault), device) := by
  cases found : device.completenessFault? attachments with
  | none => exact absurd (completenessFault?_eq_none_iff.mp found) incomplete
  | some fault =>
      refine ⟨fault, ?_⟩
      rw [createFramebuffer, found]

end HeadlessDevice

/-! ## Points in order -/

def TextureFormat.isColor (format : TextureFormat) : Bool := format.formatClass = .color

def AttachmentPoint.colorIndex? : AttachmentPoint → Option Nat
  | .color index => some index
  | _ => none

/-- The points at which a texture of a format of some class may stand. -/
def FormatClass.Allows : FormatClass → AttachmentPoint → Prop
  | .color, point => ∃ index, point = .color index
  | .depth, point => point = .depth
  | .stencil, point => point = .stencil
  | .depthStencil, point => point = .depthStencil

theorem AttachmentPoint.isDepthOrStencil_iff {point : AttachmentPoint} :
    point.isDepthOrStencil = true ↔ point.colorIndex? = none := by
  cases point <;> simp [isDepthOrStencil, colorIndex?]

/-- Points are apart when their color indices are and at most one of them is no color. -/
theorem AttachmentPoint.nodup_of_colorIndices {points : List AttachmentPoint}
    (fewOthers : points.countP isDepthOrStencil ≤ 1)
    (apart : (points.filterMap colorIndex?).Nodup) : points.Nodup := by
  induction points with
  | nil => exact List.nodup_nil
  | cons point rest inductionHypothesis =>
      rw [List.countP_cons] at fewOthers
      rw [List.nodup_cons]
      cases found : point.colorIndex? with
      | some index =>
          rw [List.filterMap_cons_some found, List.nodup_cons] at apart
          refine ⟨fun member => apart.1 ?_, inductionHypothesis (by omega) apart.2⟩
          exact List.mem_filterMap.mpr ⟨point, member, found⟩
      | none =>
          have other := isDepthOrStencil_iff.mpr found
          rw [List.filterMap_cons_none found] at apart
          rw [if_pos other] at fewOthers
          have noOther : rest.countP isDepthOrStencil = 0 := by omega
          refine ⟨fun member => ?_, inductionHypothesis (by omega) apart⟩
          exact List.countP_eq_zero.mp noOther point member other

namespace Framebuffer

theorem allows_pointFor (format : TextureFormat) (color : Nat) :
    format.formatClass.Allows (pointFor format color) := by
  unfold pointFor
  cases format.formatClass with
  | color => exact ⟨color, rfl⟩
  | depth | stencil | depthStencil => exact rfl

theorem colorIndex?_pointFor (format : TextureFormat) (color : Nat) :
    (pointFor format color).colorIndex? = if format.isColor then some color else none := by
  unfold pointFor TextureFormat.isColor
  cases format.formatClass <;> rfl

theorem isDepthOrStencil_pointFor (format : TextureFormat) (color : Nat) :
    (pointFor format color).isDepthOrStencil = !format.isColor := by
  unfold pointFor TextureFormat.isColor
  cases format.formatClass <;> rfl

/-- The formats of the listed texture slots, as far as there are such slots. -/
def formatsOf (table : Array Texture) (slots : List Nat) : List TextureFormat :=
  slots.filterMap fun slot => (table[slot]?).map Texture.format

/-- A texture slot has a live texture of the given size. -/
def HasTexture (device : HeadlessDevice) (table : Array Texture) (width height slot : Nat) :
    Prop :=
  ∃ t h, table[slot]? = some t ∧ t.handle = some h ∧ h.number ∈ device.textures ∧
    t.width = width ∧ t.height = height

/-- Attachments of texture slots in order, with the color indices from `color` on. -/
structure Attached (table : Array Texture) (color : Nat) (slots : List Nat)
    (attachments : List Attachment) : Prop where
  textures : attachments.map (fun a => some a.texture) =
    slots.map fun slot => (table[slot]?).bind Texture.handle
  allowed : List.Forall₂ (fun format a => format.formatClass.Allows a.point)
    (formatsOf table slots) attachments
  colors : attachments.filterMap (fun a => a.point.colorIndex?) =
    List.range' color ((formatsOf table slots).countP TextureFormat.isColor)
  others : (attachments.countP fun a => a.point.isDepthOrStencil) =
    (formatsOf table slots).countP fun format => !format.isColor

variable {device : HeadlessDevice} {table : Array Texture} {slots : List Nat}
  {width height color : Nat} {attachments : List Attachment} {f : Framebuffer}

theorem attachmentsFrom_of_hasTexture
    (bound : ∀ slot ∈ slots, HasTexture device table width height slot) (color : Nat) :
    ∃ attachments, attachmentsFrom table color slots = .ok attachments ∧
      Attached table color slots attachments := by
  induction slots generalizing color with
  | nil => exact ⟨[], rfl, rfl, .nil, rfl, rfl⟩
  | cons slot rest inductionHypothesis =>
      obtain ⟨⟨t, h, found, held, -⟩, restBound⟩ := List.forall_mem_cons.mp bound
      obtain ⟨others, othersEq, attached⟩ := inductionHypothesis restBound
        (if (pointFor t.format color).isDepthOrStencil then color else color + 1)
      have madeEq : attachmentsFrom table color (slot :: rest) =
          .ok (⟨pointFor t.format color, h⟩ :: others) := by
        simp only [attachmentsFrom, found, held, othersEq, Except.map]
      have formatsEq : formatsOf table (slot :: rest) = t.format :: formatsOf table rest :=
        List.filterMap_cons_some (congrArg (Option.map Texture.format) found)
      refine ⟨_, madeEq, texture_of_attachmentsFrom madeEq, ?_, ?_, ?_⟩
      · rw [formatsEq]
        exact .cons (allows_pointFor t.format color) attached.allowed
      · have colorsEq := attached.colors
        rw [isDepthOrStencil_pointFor] at colorsEq
        rw [formatsEq, List.countP_cons, List.filterMap_cons, colorIndex?_pointFor, colorsEq]
        cases t.format.isColor with
        | true => exact List.range'_succ.symm
        | false => rfl
      · rw [formatsEq, List.countP_cons, List.countP_cons, isDepthOrStencil_pointFor,
          attached.others]

theorem sizeFault?_of_hasTexture
    (bound : ∀ slot ∈ slots, HasTexture device table width height slot) :
    sizeFault? table width height slots = none := by
  induction slots with
  | nil => rfl
  | cons slot rest inductionHypothesis =>
      obtain ⟨⟨t, h, found, held, live, size⟩, restBound⟩ := List.forall_mem_cons.mp bound
      rw [sizeFault?, found]
      dsimp only
      rw [if_pos size, inductionHypothesis restBound]

namespace Attached

theorem length_eq (attached : Attached table color slots attachments) :
    attachments.length = slots.length := by
  have lengths := congrArg List.length attached.textures
  rwa [List.length_map, List.length_map] at lengths

theorem countP_color (attached : Attached table color slots attachments) :
    (attachments.countP fun a => !a.point.isDepthOrStencil) =
      (formatsOf table slots).countP TextureFormat.isColor := by
  have lengths := congrArg List.length attached.colors
  rw [List.length_range', List.length_filterMap_eq_countP] at lengths
  rw [← lengths]
  apply List.countP_congr
  intro a _
  cases a.point <;> simp [AttachmentPoint.isDepthOrStencil, AttachmentPoint.colorIndex?]

theorem nodup_points (attached : Attached table color slots attachments)
    (fewOthers : ((formatsOf table slots).countP fun format => !format.isColor) ≤ 1) :
    (attachments.map Attachment.point).Nodup := by
  apply AttachmentPoint.nodup_of_colorIndices
  · rw [List.countP_map]
    exact Nat.le_trans (Nat.le_of_eq attached.others) fewOthers
  · rw [List.filterMap_map]
    exact attached.colors ▸ List.nodup_range'

/-- The slot's count of colors and of others is all that a device checks. -/
theorem complete_iff (attached : Attached table 0 slots attachments)
    (bound : ∀ slot ∈ slots, HasTexture device table width height slot) :
    CompleteAttachments (· ∈ device.textures) attachments ↔
      slots ≠ [] ∧ ((formatsOf table slots).countP fun format => !format.isColor) ≤ 1 ∧
        (formatsOf table slots).countP TextureFormat.isColor ≤ 8 := by
  have lengths := attached.length_eq
  constructor
  · intro complete
    refine ⟨?_, attached.others ▸ complete.others, attached.countP_color ▸ complete.colors⟩
    rintro rfl
    exact complete.someAttachment (List.length_eq_zero_iff.mp lengths)
  · rintro ⟨nonempty, fewOthers, fewColors⟩
    refine ⟨?_, attached.others ▸ fewOthers, attached.countP_color ▸ fewColors, ?_, ?_⟩
    · rintro rfl
      exact nonempty (List.length_eq_zero_iff.mp lengths.symm)
    · intro a member
      have listed : some a.texture ∈ attachments.map (fun a => some a.texture) :=
        List.mem_map_of_mem member
      rw [attached.textures] at listed
      obtain ⟨slot, slotMember, same⟩ := List.mem_map.mp listed
      obtain ⟨t, h, found, held, live, -⟩ := bound slot slotMember
      rw [found, Option.bind_some, held] at same
      cases same
      exact live
    · intro a member index pointEq
      have listed : index ∈ attachments.filterMap (fun a => a.point.colorIndex?) :=
        List.mem_filterMap.mpr ⟨a, member, by rw [pointEq]; rfl⟩
      rw [attached.colors] at listed
      have small := (List.mem_range'_1.mp listed).2
      unfold HeadlessDevice.maxColorAttachments
      omega

end Attached

/-! ## Framebuffers of live textures -/

/-- A device after a framebuffer slot gave up its native framebuffer. -/
theorem release_gives_up_handle (f : Framebuffer) (device : HeadlessDevice) :
    (f.release device).2.nextHandle = device.nextHandle ∧
      (f.release device).2.textures = device.textures ∧
      ∀ number, (f.release device).2.framebuffers[number]? =
        if f.handle = some ⟨number⟩ then none else device.framebuffers[number]? := by
  unfold release
  cases held : f.handle with
  | none => exact ⟨rfl, rfl, fun number => rfl⟩
  | some h =>
      refine ⟨rfl, rfl, fun number => ?_⟩
      have erased : (device.framebuffers.erase h.number)[number]? =
          if h.number = number then none else device.framebuffers[number]? := by
        simp [HandleTable.getElem?_erase]
      exact erased.trans (if_congr (by cases h; simp) rfl rfl)

/-- With a live texture of the right size in every slot, the attachments go to the device. -/
theorem resize_of_hasTexture (f : Framebuffer)
    (bound : ∀ slot ∈ f.textures, HasTexture device table width height slot) :
    ∃ attachments, Attached table 0 f.textures attachments ∧
      f.resize device table width height =
        match (f.release device).2.createFramebuffer attachments width height with
        | (.error e, after) => ⟨{ f with handle := none }, after, some e⟩
        | (.ok h, after) => ⟨⟨f.textures, width, height, some h⟩, after, none⟩ := by
  obtain ⟨attachments, attachmentsEq, attached⟩ := attachmentsFrom_of_hasTexture bound 0
  refine ⟨attachments, attached, ?_⟩
  rw [resize]
  dsimp only
  rw [sizeFault?_of_hasTexture bound, Framebuffer.attachments, attachmentsEq]
  dsimp only [Device.createFramebuffer]
  rcases (f.release device).2.createFramebuffer attachments width height with
    ⟨e | h, after⟩ <;> rfl

end Framebuffer

/-- A framebuffer slot whose texture slots hold live textures of its size is resized exactly if
there is a texture, at most one that is no color and at most eight colors.  The new framebuffer
has the textures in the order of the slots, each where its format belongs, with the colors
numbered from zero without gaps.  A slot that is refused loses its old native framebuffer, and
nothing else happens to the device. -/
theorem framebuffer_is_made_iff_complete {f : Framebuffer} {device : HeadlessDevice}
    {table : Array Texture} {width height : Nat}
    (bound : ∀ slot ∈ f.textures, Framebuffer.HasTexture device table width height slot) :
    let made := f.resize device table width height
    let formats := Framebuffer.formatsOf table f.textures
    let others := formats.countP fun format => !format.isColor
    let colors := formats.countP TextureFormat.isColor
    let kept : Nat → Option FramebufferRecord := fun number =>
      if f.handle = some ⟨number⟩ then none else device.framebuffers[number]?
    (made.failure = none ↔ f.textures ≠ [] ∧ others ≤ 1 ∧ colors ≤ 8) ∧
    (made.failure = none → ∃ attachments,
      made.owner = ⟨f.textures, width, height, some ⟨device.nextHandle⟩⟩ ∧
      made.device.nextHandle = device.nextHandle + 1 ∧
      made.device.textures = device.textures ∧
      (∀ number, made.device.framebuffers[number]? =
        if number = device.nextHandle then some ⟨attachments, width, height⟩ else kept number) ∧
      attachments.map (fun a => some a.texture) =
        f.textures.map (fun slot => (table[slot]?).bind Texture.handle) ∧
      List.Forall₂ (fun format a => format.formatClass.Allows a.point) formats attachments ∧
      attachments.filterMap (fun a => a.point.colorIndex?) = List.range colors ∧
      (attachments.map Attachment.point).Nodup) ∧
    (made.failure ≠ none →
      made.owner = { f with handle := none } ∧
      made.device.nextHandle = device.nextHandle ∧
      made.device.textures = device.textures ∧
      ∀ number, made.device.framebuffers[number]? = kept number) := by
  intro made formats others colors kept
  obtain ⟨attachments, attached, madeEq⟩ := Framebuffer.resize_of_hasTexture f bound
  obtain ⟨nextEq, texturesEq, keptEq⟩ := f.release_gives_up_handle device
  have completeIff := attached.complete_iff bound
  rw [← texturesEq] at completeIff
  by_cases complete :
      CompleteAttachments (· ∈ (f.release device).2.textures) attachments
  · have limits := completeIff.mp complete
    rw [HeadlessDevice.createFramebuffer_of_complete width height complete] at madeEq
    have succeeded : made.failure = none := congrArg Attempt.failure madeEq
    refine ⟨iff_of_true succeeded limits, fun _ => ?_, fun failed => absurd succeeded failed⟩
    refine ⟨attachments, ?_, ?_, ?_, ?_, attached.textures, attached.allowed, ?_,
      attached.nodup_points limits.2.1⟩
    · exact (congrArg Attempt.owner madeEq).trans (by rw [nextEq])
    · exact (congrArg (·.device.nextHandle) madeEq).trans (congrArg (· + 1) nextEq)
    · exact (congrArg (·.device.textures) madeEq).trans texturesEq
    · intro number
      have deviceEq := congrArg (·.device.framebuffers[number]?) madeEq
      rw [show kept number = _ from (keptEq number).symm]
      refine deviceEq.trans ?_
      simp [HandleTable.getElem?_insert, nextEq, eq_comm (a := number)]
    · rw [attached.colors, List.range_eq_range']
  · obtain ⟨fault, refused⟩ :=
      HeadlessDevice.createFramebuffer_of_incomplete width height complete
    rw [refused] at madeEq
    have failed : made.failure ≠ none := by
      rw [show made = _ from madeEq]
      exact Option.some_ne_none _
    refine ⟨iff_of_false failed (mt completeIff.mpr complete), fun succeeded =>
      absurd succeeded failed, fun _ => ⟨congrArg Attempt.owner madeEq, ?_, ?_, ?_⟩⟩
    · exact (congrArg (·.device.nextHandle) madeEq).trans nextEq
    · exact (congrArg (·.device.textures) madeEq).trans texturesEq
    · intro number
      exact (congrArg (·.device.framebuffers[number]?) madeEq).trans (keptEq number)

namespace Sample

/-- A device with a color texture, a depth texture and a framebuffer over the first of them. -/
def drawingDevice : HeadlessDevice where
  nextHandle := 4
  textures := (∅ : HandleTable TextureRecord).insert 1 ⟨.rgba8, 4, 4⟩
    |>.insert 2 ⟨.depthComponent24, 4, 4⟩
  framebuffers := (∅ : HandleTable FramebufferRecord).insert 3 ⟨[⟨.color 0, ⟨1⟩⟩], 4, 4⟩

def drawingTextures : Array Texture :=
  #[⟨.rgba8, 4, 4, some ⟨1⟩⟩, ⟨.depthComponent24, 4, 4, some ⟨2⟩⟩]

theorem hasTexture_of_drawing {slot : Nat} (small : slot < 2) :
    Framebuffer.HasTexture drawingDevice drawingTextures 4 4 slot := by
  have first : 1 ∈ drawingDevice.textures := by decide
  have second : 2 ∈ drawingDevice.textures := by decide
  match slot, small with
  | 0, _ => exact ⟨_, ⟨1⟩, rfl, rfl, first, rfl, rfl⟩
  | 1, _ => exact ⟨_, ⟨2⟩, rfl, rfl, second, rfl, rfl⟩

/-- A framebuffer over listed slots that still has the one that it had before. -/
def drawingSlot (slots : List Nat) : Framebuffer := ⟨slots, 4, 4, some ⟨3⟩⟩

end Sample

theorem framebuffers_of_drawing :
    let made := (Sample.drawingSlot [1, 0]).resize Sample.drawingDevice Sample.drawingTextures 4 4
    let refused :=
      (Sample.drawingSlot [1, 1]).resize Sample.drawingDevice Sample.drawingTextures 4 4
    (made.failure = none ∧ made.owner = ⟨[1, 0], 4, 4, some ⟨4⟩⟩) ∧
      refused.failure ≠ none ∧ refused.device.nextHandle = 4 ∧
      refused.device.framebuffers[3]? = none := by
  have bound (slots : List Nat) (small : ∀ slot ∈ slots, slot < 2) :
      ∀ slot ∈ (Sample.drawingSlot slots).textures,
        Framebuffer.HasTexture Sample.drawingDevice Sample.drawingTextures 4 4 slot :=
    fun slot member => Sample.hasTexture_of_drawing (small slot member)
  intro made refused
  constructor
  · obtain ⟨iff, success, -⟩ := framebuffer_is_made_iff_complete (bound [1, 0] (by decide))
    have succeeded : made.failure = none := iff.mpr (by decide)
    obtain ⟨-, owner, -⟩ := success succeeded
    exact ⟨succeeded, owner⟩
  · obtain ⟨iff, -, failure⟩ := framebuffer_is_made_iff_complete (bound [1, 1] (by decide))
    have failed : refused.failure ≠ none := fun succeeded =>
      absurd (iff.mp succeeded).2.1 (by decide)
    obtain ⟨-, next, -, kept⟩ := failure failed
    exact ⟨failed, next, (kept 3).trans (if_pos rfl)⟩

end FrameGraph
