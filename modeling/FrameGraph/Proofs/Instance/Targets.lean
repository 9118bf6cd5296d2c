import FrameGraph.Proofs.Instance.Host

/-!
# Targets after a failed resize

A resize that is stopped binds no pass, so that operations keep the targets of the last resize
that succeeded, while textures behind these targets are gone already.  Which of the targets can
still be rendered into is read off the texture slots: a framebuffer is usable as long as all of
its slots hold the storage that they held when it was made.
-/

namespace FrameGraph

open Compiler HeadlessBacked

variable {ω δ : Type}

/-! ## Devices -/

namespace HeadlessDevice

/-- A live framebuffer all of whose attached textures are live. -/
def Renderable (device : HeadlessDevice) (h : Handle) : Prop :=
  ∃ record, device.framebuffers[h.number]? = some record ∧
    ∀ a ∈ record.attachments, a.texture.number ∈ device.textures

/-- Since an earlier state of the device no framebuffer changed: what is live now was the same
then, or is new. -/
structure Erodes (origin device : HeadlessDevice) : Prop where
  grows : origin.nextHandle ≤ device.nextHandle
  framebuffers : ∀ number record, number < origin.nextHandle →
    device.framebuffers[number]? = some record → origin.framebuffers[number]? = some record

theorem Erodes.refl (device : HeadlessDevice) : device.Erodes device :=
  ⟨Nat.le_refl _, fun _ _ _ found => found⟩

/-- A handle, if it is there at all, that an earlier state of the device had not handed out. -/
def NewSince (origin : HeadlessDevice) (held : Option Handle) : Prop :=
  ∀ h, held = some h → origin.nextHandle ≤ h.number

end HeadlessDevice

/-- Owners hold exactly the live objects, also when one looks back at an earlier state. -/
theorem HeadlessBacked.custody_since [Device δ] [HeadlessBacked δ] (origin : HeadlessDevice) :
    Custody fun textures framebuffers (device : δ) =>
      (backing device).Accounts textures framebuffers ∧ origin.Erodes (backing device) where
  perm_textures before same := ⟨before.1.perm_textures same, before.2⟩
  perm_framebuffers before same := ⟨before.1.perm_framebuffers same, before.2⟩
  destroyTexture {_ _ _ device} before := by
    refine ⟨custody.destroyTexture before.1, ?_⟩
    rw [HeadlessBacked.destroyTexture]
    exact ⟨before.2.grows, before.2.framebuffers⟩
  destroyFramebuffer {h _ _ device} before := by
    refine ⟨custody.destroyFramebuffer before.1, ?_⟩
    rw [HeadlessBacked.destroyFramebuffer]
    refine ⟨before.2.grows, fun number record old found => ?_⟩
    refine before.2.framebuffers number record old ?_
    rw [HeadlessDevice.destroyFramebuffer, HandleTable.getElem?_erase] at found
    split at found
    · cases found
    · exact found
  createTexture {_ _ device} format width height before := by
    rcases createTexture_cases device format width height with
      ⟨e, after, failed, same⟩ | ⟨after, created, deviceEq⟩
    · rw [failed]
      exact Or.inl ⟨e, rfl, same ▸ before⟩
    · rw [created]
      refine Or.inr ⟨_, rfl, ?_⟩
      rw [deviceEq]
      refine ⟨before.1.createTexture format width height, ?_⟩
      exact ⟨Nat.le_succ_of_le before.2.grows, before.2.framebuffers⟩
  createFramebuffer {_ _ device} attachments width height before := by
    rcases createFramebuffer_cases device attachments width height with
      ⟨e, after, failed, same⟩ | ⟨after, created, deviceEq⟩
    · rw [failed]
      exact Or.inl ⟨e, rfl, same ▸ before⟩
    · rw [created]
      refine Or.inr ⟨_, rfl, ?_⟩
      rw [deviceEq]
      refine ⟨before.1.createFramebuffer _, Nat.le_succ_of_le before.2.grows, ?_⟩
      intro number record old found
      refine before.2.framebuffers number record old ?_
      -- The new framebuffer has a number that was not handed out before.
      have other : (backing device).nextHandle ≠ number :=
        Nat.ne_of_gt (Nat.lt_of_lt_of_le old before.2.grows)
      simpa [HandleTable.getElem?_insert, other] using found

/-! ## Slots -/

/-- Attempts for owners in turn give every place a new object or none, up to the first failure,
and leave the places behind it as they are. -/
theorem Attempt.replaced_each {α : Type} {handle : α → Option Handle}
    {attempt : α → δ → Attempt α δ} (Safe : δ → Prop) (New : Option Handle → Prop)
    (absent : New none)
    (step : ∀ a device, Safe device →
      New (handle (attempt a device).owner) ∧ Safe (attempt a device).device)
    (owners : List α) {device : δ} (safe : Safe device) (place : Nat) :
    New (((each attempt owners device).owner[place]?).bind handle) ∨
      (each attempt owners device).failure ≠ none ∧
        ((each attempt owners device).owner[place]?).bind handle =
          (owners[place]?).bind handle := by
  refine each_induction (motive := fun owners device made => Safe device → ∀ place,
    New ((made.owner[place]?).bind handle) ∨
      made.failure ≠ none ∧
        (made.owner[place]?).bind handle = (owners[place]?).bind handle)
    ?nil ?failure ?success owners device safe place
  case nil =>
    intro device _ place
    rw [List.getElem?_nil]
    exact Or.inl absent
  case failure =>
    intro a others device e _ safe place
    cases place with
    | zero => exact Or.inl (step a device safe).1
    | succ later => exact Or.inr ⟨Option.some_ne_none e, rfl⟩
  case success =>
    intro a others device _ made inductionHypothesis safe place
    obtain ⟨new, stillSafe⟩ := step a device safe
    cases place with
    | zero => exact Or.inl new
    | succ later => exact inductionHypothesis stillSafe later

theorem Texture.new_of_resize [Device δ] [HeadlessBacked δ] {origin : HeadlessDevice}
    (t : Texture) {device : δ} (later : origin.nextHandle ≤ (backing device).nextHandle)
    (width height : Nat) :
    origin.NewSince (t.resize device width height).owner.handle ∧
      origin.nextHandle ≤ (backing (t.resize device width height).device).nextHandle := by
  have releasedEq : (backing (t.release device).2).nextHandle = (backing device).nextHandle := by
    rw [t.backing_release device]
    cases t.handle <;> rfl
  rcases createTexture_cases (t.release device).2 t.format width height with
    ⟨e, after, failed, same⟩ | ⟨after, created, deviceEq⟩
  · rw [resize_of_error failed, same, releasedEq]
    exact ⟨nofun, later⟩
  · rw [resize_of_ok created, deviceEq, releasedEq]
    refine ⟨fun h held => ?_, ?_⟩
    · cases held
      exact later
    · exact Nat.le_succ_of_le (releasedEq ▸ later)

/-- Owners that hold different objects are different owners. -/
theorem eq_of_nodup_heldHandles {α : Type} {handle : α → Option Handle} {owners : List α}
    (once : (heldHandles handle owners).Nodup) {j k : Nat} {h : Handle}
    (first : (owners[j]?).bind handle = some h) (second : (owners[k]?).bind handle = some h) :
    j = k := by
  obtain ⟨a, atFirst, heldFirst⟩ := Option.bind_eq_some_iff.mp first
  obtain ⟨b, atSecond, heldSecond⟩ := Option.bind_eq_some_iff.mp second
  obtain ⟨inside, rfl⟩ := List.getElem?_eq_some_iff.mp atFirst
  obtain ⟨others, rfl⟩ := List.getElem?_eq_some_iff.mp atSecond
  have apart := List.pairwise_iff_getElem.mp (List.nodup_flatMap.mp once).2
  have shared (m n : Nat) (hm : m < owners.length) (hn : n < owners.length) (earlier : m < n)
      (heldHere : handle owners[m] = some h) (heldThere : handle owners[n] = some h) : False :=
    apart m n hm hn earlier (Option.mem_toList.mpr heldHere) (Option.mem_toList.mpr heldThere)
  rcases Nat.lt_trichotomy j k with earlier | same | later
  · exact (shared j k inside others earlier heldFirst heldSecond).elim
  · exact same
  · exact (shared k j others inside later heldSecond heldFirst).elim

namespace Instance

/-! ## Compiled instances -/

/-- What is true of the bindings of an instance that was not resized yet. -/
structure Unbound (config : Config) (i : Instance ω) : Prop where
  host : ∀ h, i.defaultFramebuffer = .external h → config.framebuffer = .external h
  slots : ∀ f ∈ i.framebuffers, f.textures ≠ []
  targets : ∀ p ∈ i.passes, p.task.target = {}

theorem unbound_of_compile {registry : Registry ω} {config : Config} {g : Graph}
    {compiled : Instance ω} {world left : ω}
    (success : Build.Succeeds (compile registry config g) world compiled left) :
    compiled.Unbound config := by
  obtain ⟨schedule, layout, w, between, program, -, made, -, -, rfl⟩ :=
    succeeds_compile_iff.mp success
  have finished : (∀ f ∈ w.framebuffers, f.textures ≠ []) ∧
      ∀ p ∈ w.passes, p.task.target = {} := by
    refine Build.foldlM_invariant
      (fun _ (now : Workshop ω) => (∀ f ∈ now.framebuffers, f.textures ≠ []) ∧
        ∀ p ∈ now.passes, p.task.target = {}) ?_
      ⟨fun f member => absurd member (Array.not_mem_empty f),
        fun p member => absurd member (Array.not_mem_empty p)⟩ made
    rintro ⟨n, ports⟩ rest now world after next ⟨slots, targets⟩ added
    obtain ⟨_, _, _, _, _, -, -, drawn, -, rfl⟩ := succeeds_addPass_iff.mp added
    constructor
    · intro f member
      rcases mem_of_addFramebuffer drawn f member with earlier | ⟨someSlots, -⟩
      · exact slots f earlier
      · exact someSlots
    · intro p member
      rcases Array.mem_push.mp member with earlier | rfl
      · exact targets p earlier
      · rfl
  refine ⟨fun h external => ?_, finished.1, finished.2⟩
  cases modeEq : config.framebuffer with
  | external other =>
      simp only [chooseDefault, modeEq, DefaultFramebuffer.external.injEq] at external
      rw [external]
  | internal =>
      simp only [chooseDefault, modeEq] at external
      split at external <;> cases external

/-- The plan decides what there is to bind. -/
theorem host_of_samePlan {config : Config} {i compiled : Instance ω}
    (unbound : compiled.Unbound config) (same : i.SamePlan compiled) (h : Handle)
    (external : i.defaultFramebuffer = .external h) : config.framebuffer = .external h :=
  unbound.host h (same.defaultFramebuffer ▸ external)

theorem slots_of_samePlan {config : Config} {i compiled : Instance ω}
    (unbound : compiled.Unbound config) (same : i.SamePlan compiled) :
    ∀ f ∈ i.framebuffers, f.textures ≠ [] := by
  intro f member
  have listed : f.textures ∈ i.framebuffers.toList.map Framebuffer.textures :=
    List.mem_map_of_mem (Array.mem_toList_iff.mpr member)
  rw [same.slots] at listed
  obtain ⟨other, here, texturesEq⟩ := List.mem_map.mp listed
  rw [← texturesEq]
  exact unbound.slots other (Array.mem_toList_iff.mp here)

/-! ## Sessions -/

/-- The calls on an instance that owns its device, together with the instance as the last
resize that succeeded has left it.  Every resize may ask through another device in front of
the one that is kept, also one that refuses creations. -/
inductive Session (compiled : Instance ω) : Instance ω → Instance ω → HeadlessDevice → Prop where
  | compiled : Session compiled compiled compiled {}
  | setConstant {last i after : Instance ω} {device : HeadlessDevice} {index : Nat} {c : Cell}
      (earlier : Session compiled last i device) (success : i.setConstant index c = .ok after) :
      Session compiled last after device
  | execute {last i : Instance ω} {device : HeadlessDevice}
      (earlier : Session compiled last i device) (world : ω) :
      Session compiled last (i.execute world).after device
  | resized {last i after : Instance ω} {δ : Type} [Device δ] [HeadlessBacked δ]
      {device left : δ} {world later : ω} {width height : Nat}
      (earlier : Session compiled last i (backing device))
      (success : i.resize device world width height = (⟨after, left, none⟩, later)) :
      Session compiled after after (backing left)
  | stopped {last i after : Instance ω} {δ : Type} [Device δ] [HeadlessBacked δ]
      {device left : δ} {world later : ω} {width height : Nat} {e : Error}
      (earlier : Session compiled last i (backing device))
      (failure : i.resize device world width height = (⟨after, left, some e⟩, later)) :
      Session compiled last after (backing left)

/-- What is true right after a resize that succeeded, and before the first one: operations have
targets of the instance, and its framebuffers stand over the storage of their slots. -/
structure Settled (config : Config) (last : Instance ω) (origin : HeadlessDevice) : Prop where
  accounts : origin.Accounts last.textureHandles last.framebufferHandles
  targets : ∀ p ∈ last.passes, p.task.target.framebuffer = .null ∨
    config.framebuffer = .external p.task.target.framebuffer ∨
    p.task.target.framebuffer ∈ last.framebufferHandles
  framebuffers : ∀ f ∈ last.framebuffers, ∀ h, f.handle = some h → f.textures ≠ [] ∧
    ∃ record, origin.framebuffers[h.number]? = some record ∧
      record.attachments.map (fun a => some a.texture) = f.textures.map last.renderTexture?

/-- What is true since then: slots keep their storage or have given it up, and framebuffers stay
until all storage was given up. -/
structure Since (last : Instance ω) (origin : HeadlessDevice) (i : Instance ω)
    (device : HeadlessDevice) : Prop where
  accounts : device.Accounts i.textureHandles i.framebufferHandles
  erodes : origin.Erodes device
  passes : i.passes = last.passes
  textures : ∀ slot, origin.NewSince (i.renderTexture? slot) ∨
    i.renderTexture? slot = last.renderTexture? slot
  framebuffers : i.framebuffers = last.framebuffers ∨
    ∀ slot, origin.NewSince (i.renderTexture? slot)

section Moments

variable {config : Config} {last i : Instance ω} {origin device : HeadlessDevice}

theorem Settled.since (settled : last.Settled config origin) : last.Since origin last origin where
  accounts := settled.accounts
  erodes := .refl origin
  passes := rfl
  textures _ := Or.inr rfl
  framebuffers := Or.inl rfl

theorem Since.setValues (since : last.Since origin i device) (values : Array Cell)
    (machine : Machine) :
    last.Since origin { i with values := values, machine := machine } device where
  accounts := since.accounts
  erodes := since.erodes
  passes := since.passes
  textures := since.textures
  framebuffers := since.framebuffers

theorem mem_textureHandles {h : Handle} :
    h ∈ i.textureHandles ↔ ∃ slot, i.renderTexture? slot = some h := by
  simp only [textureHandles, mem_heldHandles, renderTexture?, Option.bind_eq_some_iff,
    Array.mem_toList_iff, Array.mem_iff_getElem?]
  constructor
  · rintro ⟨t, ⟨slot, here⟩, held⟩
    exact ⟨slot, t, here, held⟩
  · rintro ⟨slot, t, here, held⟩
    exact ⟨t, ⟨slot, here⟩, held⟩

theorem mem_framebufferHandles {h : Handle} :
    h ∈ i.framebufferHandles ↔ ∃ f ∈ i.framebuffers, f.handle = some h := by
  simp only [framebufferHandles, mem_heldHandles, Array.mem_toList_iff]

/-- A slot that holds an old handle has held it all the time. -/
theorem Since.renderTexture?_eq (since : last.Since origin i device) {slot : Nat} {h : Handle}
    (held : i.renderTexture? slot = some h) (old : h.number < origin.nextHandle) :
    last.renderTexture? slot = some h := by
  rcases since.textures slot with new | same
  · exact absurd (new h held) (Nat.not_le.mpr old)
  · rw [← same, held]

/-- A framebuffer of the last resize can be rendered into exactly as long as its slots hold the
storage that they held then. -/
theorem Since.renderable_iff (since : last.Since origin i device)
    (settled : last.Settled config origin) {f : Framebuffer} {h : Handle}
    (member : f ∈ last.framebuffers) (held : f.handle = some h) :
    device.Renderable h ↔
      ∀ slot ∈ f.textures, i.renderTexture? slot = last.renderTexture? slot := by
  obtain ⟨someSlots, record, found, attachmentsEq⟩ := settled.framebuffers f member h held
  have oldFramebuffer : h.number < origin.nextHandle :=
    settled.accounts.oldFramebuffers h (mem_framebufferHandles.mpr ⟨f, member, held⟩)
  have attached : ∀ a ∈ record.attachments, ∃ slot ∈ f.textures,
      last.renderTexture? slot = some a.texture := by
    intro a isAttached
    have listed := List.mem_map_of_mem (f := fun a : Attachment => some a.texture) isAttached
    rw [attachmentsEq] at listed
    exact List.mem_map.mp listed
  have stored : ∀ slot ∈ f.textures, ∃ a ∈ record.attachments,
      last.renderTexture? slot = some a.texture := by
    intro slot isBound
    have listed := List.mem_map_of_mem (f := last.renderTexture?) isBound
    rw [← attachmentsEq] at listed
    obtain ⟨a, isAttached, same⟩ := List.mem_map.mp listed
    exact ⟨a, isAttached, same.symm⟩
  have oldTexture : ∀ slot texture, last.renderTexture? slot = some texture →
      texture.number < origin.nextHandle := fun slot texture holds =>
    settled.accounts.oldTextures texture (mem_textureHandles.mpr ⟨slot, holds⟩)
  constructor
  · rintro ⟨other, live, attachmentsLive⟩ slot isBound
    -- The record is still the one that the framebuffer was made with.
    obtain rfl : record = other :=
      Option.some.inj (found.symm.trans (since.erodes.framebuffers _ _ oldFramebuffer live))
    obtain ⟨a, isAttached, holds⟩ := stored slot isBound
    obtain ⟨place, heldNow⟩ := mem_textureHandles.mp
      ((since.accounts.liveTextures.live a.texture).mpr (attachmentsLive a isAttached))
    have heldThen := since.renderTexture?_eq heldNow (oldTexture slot _ holds)
    have placeEq : place = slot := by
      rw [renderTexture?, ← Array.getElem?_toList] at heldThen holds
      exact eq_of_nodup_heldHandles settled.accounts.liveTextures.once heldThen holds
    rw [holds, ← placeEq, heldNow]
  · intro kept
    obtain ⟨slot, isBound⟩ := List.exists_mem_of_ne_nil f.textures someSlots
    obtain ⟨a, -, holds⟩ := stored slot isBound
    have sameFramebuffers : i.framebuffers = last.framebuffers := by
      rcases since.framebuffers with same | allNew
      · exact same
      · have new := allNew slot a.texture ((kept slot isBound).trans holds)
        exact absurd (oldTexture slot _ holds) (Nat.not_lt.mpr new)
    have liveNow : h.number ∈ device.framebuffers := by
      refine (since.accounts.liveFramebuffers.live h).mp (mem_framebufferHandles.mpr ?_)
      rw [sameFramebuffers]
      exact ⟨f, member, held⟩
    obtain ⟨other, live⟩ := Option.isSome_iff_exists.mp
      (HandleTable.isSome_getElem?_iff_mem.mpr liveNow)
    obtain rfl : record = other :=
      Option.some.inj (found.symm.trans (since.erodes.framebuffers _ _ oldFramebuffer live))
    refine ⟨record, live, fun b isAttached => ?_⟩
    obtain ⟨place, isBound, holds⟩ := attached b isAttached
    refine (since.accounts.liveTextures.live b.texture).mp (mem_textureHandles.mpr ⟨place, ?_⟩)
    rw [kept place isBound, holds]

end Moments

/-! ## One resize -/

section Resize

variable [Device δ] [HeadlessBacked δ] {config : Config} {last i after : Instance ω}
  {origin : HeadlessDevice} {device left : δ} {world later : ω} {width height : Nat}

theorem Since.holds_resize (since : last.Since origin i (backing device)) (world : ω)
    (width height : Nat) :
    let made := (i.resize device world width height).1
    (backing made.device).Accounts made.owner.textureHandles made.owner.framebufferHandles ∧
      origin.Erodes (backing made.device) := by
  have before : (backing device).Accounts (i.textureHandles ++ []) (i.framebufferHandles ++ []) ∧
      origin.Erodes (backing device) := by
    rw [List.append_nil, List.append_nil]
    exact ⟨since.accounts, since.erodes⟩
  have kept := i.holds_resize (custody_since origin) before world width height
  rwa [List.append_nil, List.append_nil] at kept

/-- A resize gives every texture slot new storage or none, up to the first failure. -/
theorem Since.replaced_newTextures (since : last.Since origin i (backing device))
    (width height slot : Nat) :
    origin.NewSince ((i.renewed device width height).renderTexture? slot) ∨
      (i.newTextures device width height).failure ≠ none ∧
        (i.renewed device width height).renderTexture? slot = i.renderTexture? slot := by
  have replaced := Attempt.replaced_each
    (fun between => origin.nextHandle ≤ (backing between).nextHandle) origin.NewSince
    nofun (fun (t : Texture) _ grown => t.new_of_resize grown width height) i.textures.toList
    since.erodes.grows slot
  simpa only [renderTexture?, renewed, newTextures, List.getElem?_toArray,
    Array.getElem?_toList] using replaced

/-- A resize that fails goes on from what was true before it. -/
theorem Since.stopped (since : last.Since origin i (backing device)) {e : Error}
    (failure : i.resize device world width height = (⟨after, left, some e⟩, later)) :
    last.Since origin after (backing left) := by
  have kept := since.holds_resize world width height
  rw [failure] at kept
  have replaced := since.replaced_newTextures width height
  have texturesKept (slot : Nat) :
      origin.NewSince ((i.renewed device width height).renderTexture? slot) ∨
        (i.renewed device width height).renderTexture? slot = last.renderTexture? slot := by
    rcases replaced slot with new | ⟨-, same⟩
    · exact Or.inl new
    · rw [same]
      exact since.textures slot
  rcases i.resize_cases device width height world with
    ⟨_, stopped⟩ | ⟨_, stopped⟩ | ⟨_, texturesMade, stopped⟩ | ⟨-, -, done⟩
  · cases failure.symm.trans stopped
    exact since
  · cases failure.symm.trans stopped
    refine ⟨kept.1, kept.2, since.passes, texturesKept, ?_⟩
    rcases since.framebuffers with same | allNew
    · exact Or.inl same
    · refine Or.inr fun slot => ?_
      rcases replaced slot with new | ⟨-, same⟩
      · exact new
      · exact same ▸ allNew slot
  · cases failure.symm.trans stopped
    refine ⟨kept.1, kept.2, since.passes, texturesKept, Or.inr fun slot => ?_⟩
    exact (replaced slot).resolve_right fun stuck => stuck.1 texturesMade
  · cases failure.symm.trans done

/-- The target of a pass is the null handle, the host's framebuffer or one of the instance. -/
theorem targetHandle_cases (i : Instance ω) (p : PassSlot ω) :
    i.targetHandle p = .null ∨ i.defaultFramebuffer = .external (i.targetHandle p) ∨
      i.targetHandle p ∈ i.framebufferHandles := by
  have held {index : Nat} {h : Handle} (found : i.framebufferHandle? index = some h) :
      h ∈ i.framebufferHandles := by
    obtain ⟨f, here, holds⟩ := Option.bind_eq_some_iff.mp found
    exact mem_framebufferHandles.mpr ⟨f, Array.mem_of_getElem? here, holds⟩
  unfold targetHandle
  cases ownEq : p.framebuffer.bind i.framebufferHandle? with
  | some h =>
      obtain ⟨index, -, found⟩ := Option.bind_eq_some_iff.mp ownEq
      exact Or.inr (Or.inr (held found))
  | none =>
      rw [Option.getD_none, defaultHandle]
      cases i.defaultFramebuffer with
      | external h => exact Or.inr (Or.inl rfl)
      | unbound => exact Or.inl rfl
      | internal index =>
          dsimp only
          cases found : i.framebufferHandle? index with
          | none => exact Or.inl rfl
          | some h => exact Or.inr (Or.inr (held found))

/-- A resize that succeeds settles the instance anew. -/
theorem Since.settled (since : last.Since origin i (backing device))
    {compiled : Instance ω} (unbound : compiled.Unbound config) (same : i.SamePlan compiled)
    (success : i.resize device world width height = (⟨after, left, none⟩, later)) :
    after.Settled config (backing left) := by
  have kept := since.holds_resize world width height
  rw [success] at kept
  obtain ⟨-, framebuffersMade, rfl, rfl, -⟩ := bound_of_resize success
  have stillSame := (i.samePlan_bound device width height).trans same
  refine ⟨kept.1, fun p member => ?_, fun f member h held => ?_⟩
  · obtain ⟨k, here⟩ := Array.mem_iff_getElem?.mp member
    rw [target_of_bound here]
    rcases (i.bound device width height).targetHandle_cases p with none | host | own
    · exact Or.inl none
    · exact Or.inr (Or.inl (host_of_samePlan unbound stillSame _ host))
    · exact Or.inr (Or.inr own)
  · have below : i.HoldsBelow (backing device).nextHandle :=
      ⟨fun t here h held => since.accounts.oldTextures h (mem_heldHandles.mpr ⟨t, here, held⟩),
        fun f here h held =>
          since.accounts.oldFramebuffers h (mem_heldHandles.mpr ⟨f, here, held⟩)⟩
    obtain ⟨other, record, sameHandle, found, attached, -⟩ :=
      (below.allRenewed_framebuffers width height).live framebuffersMade f
        (List.mem_toArray.mp member)
    obtain rfl : other = h := Option.some.inj (sameHandle.symm.trans held)
    refine ⟨slots_of_samePlan unbound stillSame f member, record, found, ?_⟩
    exact Framebuffer.texture_of_attachments attached

end Resize

/-! ## Any calls -/

theorem Settled.start {config : Config} {compiled : Instance ω} (bare : compiled.Bare)
    (unbound : compiled.Unbound config) : compiled.Settled config {} where
  accounts := by
    rw [bare.textureHandles_eq, bare.framebufferHandles_eq]
    exact .start
  targets p member := by
    rw [unbound.targets p member]
    exact Or.inl rfl
  framebuffers f member h held := by
    rw [bare.framebuffers f member] at held
    cases held

theorem Session.samePlan {compiled last i : Instance ω} {device : HeadlessDevice}
    (session : compiled.Session last i device) : i.SamePlan compiled := by
  induction session with
  | compiled => exact .refl compiled
  | setConstant _ success inductionHypothesis =>
      exact (samePlan_setConstant success).trans inductionHypothesis
  | execute _ world inductionHypothesis =>
      exact (samePlan_execute _ world).trans inductionHypothesis
  | @resized _ i _ _ _ _ device _ world _ width height _ success inductionHypothesis =>
      have kept := i.samePlan_resize device width height world
      rw [success] at kept
      exact kept.trans inductionHypothesis
  | @stopped _ i _ _ _ _ device _ world _ width height _ _ failure inductionHypothesis =>
      have kept := i.samePlan_resize device width height world
      rw [failure] at kept
      exact kept.trans inductionHypothesis

/-- Whatever is called, the last resize that succeeded has settled the instance, and nothing has
happened since but that storage was given up. -/
theorem Session.since {config : Config} {compiled last i : Instance ω} {device : HeadlessDevice}
    (bare : compiled.Bare) (unbound : compiled.Unbound config)
    (session : compiled.Session last i device) :
    ∃ origin, last.Settled config origin ∧ last.Since origin i device := by
  induction session with
  | compiled => exact ⟨{}, .start bare unbound, (Settled.start bare unbound).since⟩
  | setConstant _ success inductionHypothesis =>
      obtain ⟨origin, settled, since⟩ := inductionHypothesis
      obtain rfl := eq_of_setConstant success
      exact ⟨origin, settled, since.setValues _ _⟩
  | execute _ world inductionHypothesis =>
      obtain ⟨origin, settled, since⟩ := inductionHypothesis
      exact ⟨origin, settled, since.setValues _ _⟩
  | resized earlier success inductionHypothesis =>
      obtain ⟨origin, -, since⟩ := inductionHypothesis
      have settled := since.settled unbound earlier.samePlan success
      exact ⟨_, settled, settled.since⟩
  | stopped _ failure inductionHypothesis =>
      obtain ⟨origin, settled, since⟩ := inductionHypothesis
      exact ⟨origin, settled, since.stopped failure⟩

end Instance

/-- An operation is bound to no framebuffer, to that of the host or to one that the last resize
that succeeded has made.  The last can be rendered into exactly if no texture behind it was given
up since, so right after the resize all of them can.  The device counts its objects without a
bound, so this is about sessions with fewer than `2 ^ 32 - 1` of them, whose numbers fit in 32
bits. -/
theorem target_is_from_last_resize {registry : Registry ω} {config : Config} {g : Graph}
    {compiled last i : Instance ω} {world left : ω} {device : HeadlessDevice}
    (success : Build.Succeeds (compile registry config g) world compiled left)
    (session : compiled.Session last i device) {p : PassSlot ω} (member : p ∈ i.passes) :
    p.task.target.framebuffer = .null ∨
      config.framebuffer = .external p.task.target.framebuffer ∨
      ∃ f ∈ last.framebuffers, f.handle = some p.task.target.framebuffer ∧
        (device.Renderable p.task.target.framebuffer ↔
          ∀ slot ∈ f.textures, i.renderTexture? slot = last.renderTexture? slot) := by
  obtain ⟨_, _, _, _, -, bare⟩ := Instance.equipped_of_compile success
  have unbound := Instance.unbound_of_compile success
  obtain ⟨origin, settled, since⟩ := session.since bare unbound
  rw [since.passes] at member
  rcases settled.targets p member with none | host | own
  · exact Or.inl none
  · exact Or.inr (Or.inl host)
  · obtain ⟨f, here, held⟩ := Instance.mem_framebufferHandles.mp own
    exact Or.inr (Or.inr ⟨f, here, held, since.renderable_iff settled here held⟩)

namespace Sample

/-- A device that refuses the third creation. -/
def tiring : GuardedDevice :=
  { refusal? := fun asked _ _ => if asked = 2 then some "busy" else none }

def sized : Attempt (Instance Unit) GuardedDevice := (compiled.resize tiring () 4 4).1

/-- The sample after a resize that gave the texture up and found no other. -/
def outdated : Attempt (Instance Unit) GuardedDevice := (sized.owner.resize sized.device () 8 8).1

theorem session_outdated :
    compiled.Session sized.owner outdated.owner outdated.device.device := by
  have made : compiled.resize tiring () 4 4 = (⟨sized.owner, sized.device, none⟩, ()) := by
    rfl
  have stopped : sized.owner.resize sized.device () 8 8 =
      (⟨outdated.owner, outdated.device, some (.incompleteFramebuffer (.refused "busy"))⟩,
        ()) := by
    rfl
  have start : compiled.Session compiled compiled (backing tiring) := .compiled
  have first : compiled.Session sized.owner sized.owner (backing sized.device) :=
    .resized start made
  exact .stopped first stopped

end Sample

/-- The pass keeps its framebuffer, which stands over a texture that is gone. -/
theorem outdated_target_of_sample :
    ∃ p ∈ Sample.outdated.owner.passes, p.task.target = ⟨⟨2⟩, 4, 4⟩ ∧
      ⟨2⟩ ∈ Sample.outdated.owner.framebufferHandles ∧
      ¬ Sample.outdated.device.device.Renderable ⟨2⟩ := by
  have member : ⟨"p", ⟨Sample.fill, ⟨0, 1⟩, ⟨⟨2⟩, 4, 4⟩⟩, some 0⟩ ∈
      Sample.outdated.owner.passes := List.mem_toArray.mpr List.mem_cons_self
  refine ⟨_, member, rfl, List.mem_cons_self, fun usable => ?_⟩
  rcases target_is_from_last_resize Sample.succeeds_compile Sample.session_outdated member with
    none | host | ⟨f, made, -, usableIff⟩
  · cases none
  · cases host
  · obtain rfl : f = ⟨[0], 4, 4, some ⟨2⟩⟩ :=
      List.mem_singleton.mp (Array.mem_toList_iff.mpr made)
    have kept := usableIff.mp usable 0 List.mem_cons_self
    cases kept

end FrameGraph
