import FrameGraph.Proofs.Compiler.Equipment
import FrameGraph.Proofs.Evaluation.Simulation
import FrameGraph.Proofs.Instance.Reachable
import FrameGraph.Proofs.Resource.Provision

/-!
# Resizing

A resize that succeeds provides every native object anew and binds every pass to the
framebuffer that its outgoing edges ask for, whatever earlier calls have left behind.  Earlier
resizes may have been stopped half-way by a device, and each may have found another device; all
that is asked for is that none of these is ahead of the last one.  On a device that has yet to
hand out a number that the instance holds, a resize may succeed and destroy what it has just
made.
-/

namespace FrameGraph

open Compiler HeadlessBacked

variable {ω δ : Type}

namespace Instance

/-! ## The parts of a resize -/

section Parts

variable [Device δ]

theorem resizeTextures_eq_each (width height : Nat) (textures : List Texture) (device : δ) :
    resizeTextures width height textures device =
      Attempt.each (fun t device => t.resize device width height) textures device := by
  induction textures generalizing device with
  | nil => rfl
  | cons t rest inductionHypothesis =>
      rw [resizeTextures, Attempt.each]
      rcases t.resize device width height with ⟨t, device, _ | e⟩
      · simp only [inductionHypothesis]
      · rfl

theorem resizeFramebuffers_eq_each (table : Array Texture) (width height : Nat)
    (framebuffers : List Framebuffer) (device : δ) :
    resizeFramebuffers table width height framebuffers device =
      Attempt.each (fun f device => f.resize device table width height) framebuffers
        device := by
  induction framebuffers generalizing device with
  | nil => rfl
  | cons f rest inductionHypothesis =>
      rw [resizeFramebuffers, Attempt.each]
      rcases f.resize device table width height with ⟨f, device, _ | e⟩
      · simp only [inductionHypothesis]
      · rfl

/-- Every pass is told its target, and the pass after it finds the world that this leaves
behind. -/
theorem bindTargets_eq (targetOf : PassSlot ω → RenderTarget) (passes : List (PassSlot ω))
    (world : ω) :
    bindTargets targetOf passes world =
      (passes.map fun p => { p with task := { p.task with target := targetOf p } },
        passes.foldl (fun world p => p.task.operation.bound (targetOf p) world) world) := by
  induction passes generalizing world with
  | nil => rfl
  | cons p rest inductionHypothesis =>
      rw [bindTargets]
      simp only [Task.bind, inductionHypothesis, List.map_cons, List.foldl_cons]

variable (i : Instance ω) (device : δ) (width height : Nat)

/-- What becomes of the texture slots. -/
def newTextures : Attempt (List Texture) δ :=
  Attempt.each (fun t device => t.resize device width height) i.textures.toList device

/-- What becomes of the framebuffer slots behind the textures. -/
def newFramebuffers : Attempt (List Framebuffer) δ :=
  Attempt.each
    (fun f between => f.resize between (i.newTextures device width height).owner.toArray width
      height)
    i.framebuffers.toList (i.newTextures device width height).device

/-- The instance with its new textures and framebuffers, before its passes are bound. -/
def renewed : Instance ω :=
  { i with
    textures := (i.newTextures device width height).owner.toArray
    framebuffers := (i.newFramebuffers device width height).owner.toArray }

/-- The instance with its passes bound to the new framebuffers. -/
def bound : Instance ω :=
  { i.renewed device width height with
    passes := (i.passes.toList.map fun p => { p with
      task := { p.task with
        target := ⟨(i.renewed device width height).targetHandle p, width, height⟩ } }).toArray
    size := some (width, height) }

/-- A resize asks for nothing, stops at a texture, stops at a framebuffer or binds all
passes. -/
theorem resize_cases (world : ω) :
    (∃ e, i.resize device world width height = (⟨i, device, some e⟩, world)) ∨
    (∃ e, i.resize device world width height =
      (⟨{ i with textures := (i.newTextures device width height).owner.toArray },
        (i.newTextures device width height).device, some e⟩, world)) ∨
    (∃ e, (i.newTextures device width height).failure = none ∧
      i.resize device world width height =
        (⟨i.renewed device width height, (i.newFramebuffers device width height).device,
          some e⟩, world)) ∨
    (i.newTextures device width height).failure = none ∧
      (i.newFramebuffers device width height).failure = none ∧
      i.resize device world width height =
        (⟨i.bound device width height, (i.newFramebuffers device width height).device, none⟩,
          i.passes.toList.foldl (fun world p => p.task.operation.bound
            ⟨(i.renewed device width height).targetHandle p, width, height⟩ world) world) := by
  have texturesEq : resizeTextures width height i.textures.toList device =
      ⟨(i.newTextures device width height).owner, (i.newTextures device width height).device,
        (i.newTextures device width height).failure⟩ :=
    resizeTextures_eq_each width height i.textures.toList device
  have framebuffersEq :
      resizeFramebuffers (i.newTextures device width height).owner.toArray width height
          i.framebuffers.toList (i.newTextures device width height).device =
        ⟨(i.newFramebuffers device width height).owner,
          (i.newFramebuffers device width height).device,
          (i.newFramebuffers device width height).failure⟩ :=
    resizeFramebuffers_eq_each _ width height i.framebuffers.toList _
  by_cases empty : width = 0 ∨ height = 0
  · refine Or.inl ⟨.invalidDimensions width height, ?_⟩
    rw [resize, if_pos empty]
  · rw [resize, if_neg empty, texturesEq]
    refine Or.inr ?_
    cases (i.newTextures device width height).failure with
    | some e => exact Or.inl ⟨e, rfl⟩
    | none =>
        refine Or.inr ?_
        dsimp only
        rw [framebuffersEq]
        cases (i.newFramebuffers device width height).failure with
        | some e => exact Or.inl ⟨e, rfl, rfl⟩
        | none =>
            refine Or.inr ⟨rfl, rfl, ?_⟩
            dsimp only
            rw [bindTargets_eq]
            rfl

theorem resize_eq_of_undisturbed {i : Instance ω} {device : δ} {world : ω} {width height : Nat}
    (undisturbed : (i.resize device world width height).1.failure = none) :
    i.resize device world width height =
      (⟨(i.resize device world width height).1.owner,
        (i.resize device world width height).1.device, none⟩,
        (i.resize device world width height).2) := by
  rw [← undisturbed]

/-- Nothing stopped a resize that succeeds. -/
theorem bound_of_resize {i after : Instance ω} {device left : δ} {world later : ω}
    {width height : Nat}
    (resized : i.resize device world width height = (⟨after, left, none⟩, later)) :
    (i.newTextures device width height).failure = none ∧
      (i.newFramebuffers device width height).failure = none ∧
      after = i.bound device width height ∧
      left = (i.newFramebuffers device width height).device ∧
      later = i.passes.toList.foldl (fun world p => p.task.operation.bound
        ⟨(i.renewed device width height).targetHandle p, width, height⟩ world) world := by
  rcases i.resize_cases device width height world with
    ⟨e, stopped⟩ | ⟨e, stopped⟩ | ⟨e, -, stopped⟩ | ⟨texturesMade, framebuffersMade, done⟩
  · rw [stopped] at resized
    cases resized
  · rw [stopped] at resized
    cases resized
  · rw [stopped] at resized
    cases resized
  · rw [done] at resized
    cases resized
    exact ⟨texturesMade, framebuffersMade, rfl, rfl, rfl⟩

end Parts

/-- A write leaves everything but value memory alone. -/
theorem eq_of_setConstant {i after : Instance ω} {index : Nat} {c : Cell}
    (success : i.setConstant index c = .ok after) :
    after = { i with values := i.values.setIfInBounds index c } := by
  unfold setConstant at success
  split at success
  · exact (Except.ok.inj success).symm
  · cases success

/-! ## What no call changes -/

/-- The tables of two instances differ only in cells, native objects and bindings. -/
structure SamePlan (i compiled : Instance ω) : Prop where
  symbols : i.symbols = compiled.symbols
  defaultFramebuffer : i.defaultFramebuffer = compiled.defaultFramebuffer
  formats : i.textures.toList.map Texture.format = compiled.textures.toList.map Texture.format
  slots : i.framebuffers.toList.map Framebuffer.textures =
    compiled.framebuffers.toList.map Framebuffer.textures
  passes : i.passes.toList.map (fun p => (p.node, p.framebuffer)) =
    compiled.passes.toList.map fun p => (p.node, p.framebuffer)

theorem SamePlan.refl (i : Instance ω) : i.SamePlan i :=
  ⟨rfl, rfl, rfl, rfl, rfl⟩

theorem SamePlan.trans {i j k : Instance ω} (first : i.SamePlan j) (second : j.SamePlan k) :
    i.SamePlan k where
  symbols := first.symbols.trans second.symbols
  defaultFramebuffer := first.defaultFramebuffer.trans second.defaultFramebuffer
  formats := first.formats.trans second.formats
  slots := first.slots.trans second.slots
  passes := first.passes.trans second.passes

theorem samePlan_setConstant {i after : Instance ω} {index : Nat} {c : Cell}
    (success : i.setConstant index c = .ok after) : after.SamePlan i := by
  obtain rfl := eq_of_setConstant success
  exact ⟨rfl, rfl, rfl, rfl, rfl⟩

theorem samePlan_execute (i : Instance ω) (world : ω) :
    (i.execute world).after.SamePlan i :=
  ⟨rfl, rfl, rfl, rfl, rfl⟩

section Plan

variable [Device δ] (i : Instance ω) (device : δ) (width height : Nat)

theorem formats_newTextures :
    (i.newTextures device width height).owner.map Texture.format =
      i.textures.toList.map Texture.format :=
  Attempt.map_owner_each Texture.format (Texture.format_resize width height) _ device

theorem slots_newFramebuffers :
    (i.newFramebuffers device width height).owner.map Framebuffer.textures =
      i.framebuffers.toList.map Framebuffer.textures :=
  Attempt.map_owner_each Framebuffer.textures (Framebuffer.textures_resize _ width height) _ _

theorem samePlan_renewed : (i.renewed device width height).SamePlan i :=
  ⟨rfl, rfl, i.formats_newTextures device width height,
    i.slots_newFramebuffers device width height, rfl⟩

theorem samePlan_bound : (i.bound device width height).SamePlan i := by
  refine ⟨rfl, rfl, i.formats_newTextures device width height,
    i.slots_newFramebuffers device width height, ?_⟩
  simp [bound]

theorem samePlan_resize (world : ω) :
    (i.resize device world width height).1.owner.SamePlan i := by
  rcases i.resize_cases device width height world with
    ⟨e, stopped⟩ | ⟨e, stopped⟩ | ⟨e, -, stopped⟩ | ⟨-, -, done⟩
  · rw [stopped]
    exact .refl i
  · rw [stopped]
    exact ⟨rfl, rfl, i.formats_newTextures device width height, rfl, rfl⟩
  · rw [stopped]
    exact i.samePlan_renewed device width height
  · rw [done]
    exact i.samePlan_bound device width height

end Plan

theorem Reachable.samePlan {compiled i : Instance ω} (reachable : compiled.Reachable i) :
    i.SamePlan compiled := by
  induction reachable with
  | compiled => exact .refl compiled
  | setConstant _ success inductionHypothesis =>
      exact (samePlan_setConstant success).trans inductionHypothesis
  | execute _ world inductionHypothesis =>
      exact (samePlan_execute _ world).trans inductionHypothesis
  | resize _ device world width height inductionHypothesis =>
      exact (samePlan_resize _ device width height world).trans inductionHypothesis

/-- The plan decides how an instance is equipped. -/
theorem Equipped.of_samePlan {config : Config} {g : Graph} {final : NodeId}
    {i compiled : Instance ω} (equipped : compiled.Equipped config g final)
    (same : i.SamePlan compiled) : i.Equipped config g final := by
  have formatsEq (slot : Nat) := congrArg (fun formats => formats[slot]?) same.formats
  have slotsEq (index : Nat) := congrArg (fun slots => slots[index]?) same.slots
  have passesEq (k : Nat) := congrArg (fun passes => passes[k]?) same.passes
  simp only [List.getElem?_map, Array.getElem?_toList] at formatsEq slotsEq passesEq
  refine ⟨?_, ?_, ?_, ?_⟩
  · rw [same.defaultFramebuffer]
    exact equipped.host
  · intro n slot found
    rw [same.symbols] at found
    obtain ⟨t, here, formatEq⟩ := equipped.formats n slot found
    have mapped := formatsEq slot
    rw [here, Option.map_some] at mapped
    obtain ⟨u, there, sameFormat⟩ := Option.map_eq_some_iff.mp mapped
    exact ⟨u, there, sameFormat ▸ formatEq⟩
  · have lengths := congrArg List.length same.passes
    simp only [List.length_map, Array.length_toList] at lengths
    exact lengths.trans equipped.passes
  · intro k n position
    obtain ⟨operationEq, p, here, nodeEq, draws⟩ := equipped.pass k n position
    have mapped := passesEq k
    rw [here, Option.map_some] at mapped
    obtain ⟨q, there, sameSlot⟩ := Option.map_eq_some_iff.mp mapped
    obtain ⟨sameNode, sameFramebuffer⟩ := Prod.mk.inj sameSlot
    rw [same.symbols]
    refine ⟨operationEq, q, there, sameNode.trans nodeEq, ?_⟩
    rw [sameFramebuffer]
    cases framebufferEq : p.framebuffer with
    | none =>
        rw [framebufferEq] at draws
        exact draws
    | some index =>
        rw [framebufferEq] at draws
        exact ⟨draws.1, draws.2.1, (slotsEq index).trans draws.2.2⟩

/-! ## Instances and their devices -/

/-- The instance holds only numbers below the given one. -/
structure HoldsBelow (i : Instance ω) (next : Nat) : Prop where
  textures : HeldBelow Texture.handle i.textures.toList next
  framebuffers : HeldBelow Framebuffer.handle i.framebuffers.toList next

/-- What a compiled instance can become while no device behind a resize hands out the number
`next` or a larger one.  Every resize may ask through another device in front of a headless one,
also one that refuses creations, and other owners may use the devices between two calls. -/
inductive ReachableBelow (compiled : Instance ω) (next : Nat) : Instance ω → Prop where
  | compiled : ReachableBelow compiled next compiled
  | setConstant {i after : Instance ω} {index : Nat} {c : Cell}
      (earlier : ReachableBelow compiled next i) (success : i.setConstant index c = .ok after) :
      ReachableBelow compiled next after
  | execute {i : Instance ω} (earlier : ReachableBelow compiled next i) (world : ω) :
      ReachableBelow compiled next (i.execute world).after
  | resize {i : Instance ω} {δ : Type} [Device δ] [HeadlessBacked δ]
      (earlier : ReachableBelow compiled next i) (device : δ) (world : ω) (width height : Nat)
      (within : (backing (i.resize device world width height).1.device).nextHandle ≤ next) :
      ReachableBelow compiled next (i.resize device world width height).1.owner

theorem ReachableBelow.reachable {compiled i : Instance ω} {next : Nat}
    (reachable : compiled.ReachableBelow next i) : compiled.Reachable i := by
  induction reachable with
  | compiled => exact .compiled
  | setConstant _ success inductionHypothesis => exact .setConstant inductionHypothesis success
  | execute _ world inductionHypothesis => exact .execute inductionHypothesis world
  | resize _ device world width height _ inductionHypothesis =>
      exact .resize inductionHypothesis device world width height

section Below

variable [Device δ] [HeadlessBacked δ] {i : Instance ω} {device : δ}

theorem HoldsBelow.allRenewed_textures (below : i.HoldsBelow (backing device).nextHandle)
    (width height : Nat) :
    (Texture.holding width height).AllRenewed i.textures.toList device
      (i.newTextures device width height) :=
  Holding.allRenewed_each (Texture.renewed_resize width height) _ device below.textures

theorem HoldsBelow.allRenewed_framebuffers (below : i.HoldsBelow (backing device).nextHandle)
    (width height : Nat) :
    (Framebuffer.holding (i.newTextures device width height).owner.toArray width
      height).AllRenewed i.framebuffers.toList (i.newTextures device width height).device
        (i.newFramebuffers device width height) := by
  have grows : (backing device).nextHandle ≤
      (backing (i.newTextures device width height).device).nextHandle :=
    Holding.nextHandle_le_each (Texture.renewed_resize width height) _ device
  exact Holding.allRenewed_each (Framebuffer.renewed_resize _ width height) _ _
    (below.framebuffers.mono grows)

/-- Wherever a resize stops, and on whatever device, the instance holds what it held before or
what this device has handed out. -/
theorem HoldsBelow.resize {next : Nat} (below : i.HoldsBelow next) (world : ω)
    (width height : Nat)
    (within : (backing (i.resize device world width height).1.device).nextHandle ≤ next) :
    (i.resize device world width height).1.owner.HoldsBelow next := by
  have textures (bound : (backing (i.newTextures device width height).device).nextHandle ≤ next) :
      HeldBelow Texture.handle (i.newTextures device width height).owner next :=
    Holding.heldBelow_each (Texture.renewed_resize width height) _ device below.textures bound
  have framebuffers
      (bound : (backing (i.newFramebuffers device width height).device).nextHandle ≤ next) :
      HeldBelow Framebuffer.handle (i.newFramebuffers device width height).owner next :=
    Holding.heldBelow_each (Framebuffer.renewed_resize _ width height) _ _ below.framebuffers
      bound
  have grows : (backing (i.newTextures device width height).device).nextHandle ≤
      (backing (i.newFramebuffers device width height).device).nextHandle :=
    Holding.nextHandle_le_each (Framebuffer.renewed_resize _ width height) _ _
  rcases i.resize_cases device width height world with
    ⟨e, stopped⟩ | ⟨e, stopped⟩ | ⟨e, -, stopped⟩ | ⟨-, -, done⟩
  · rw [stopped]
    exact below
  · rw [stopped] at within ⊢
    exact ⟨textures within, below.framebuffers⟩
  · rw [stopped] at within ⊢
    exact ⟨textures (Nat.le_trans grows within), framebuffers within⟩
  · rw [done] at within ⊢
    exact ⟨textures (Nat.le_trans grows within), framebuffers within⟩

end Below

theorem ReachableBelow.holdsBelow {compiled i : Instance ω} {next : Nat} (bare : compiled.Bare)
    (reachable : compiled.ReachableBelow next i) : i.HoldsBelow next := by
  induction reachable with
  | compiled =>
      refine ⟨fun t member h held => ?_, fun f member h held => ?_⟩
      · rw [bare.textures t (Array.mem_toList_iff.mp member)] at held
        cases held
      · rw [bare.framebuffers f (Array.mem_toList_iff.mp member)] at held
        cases held
  | setConstant _ success inductionHypothesis =>
      obtain rfl := eq_of_setConstant success
      exact ⟨inductionHypothesis.textures, inductionHypothesis.framebuffers⟩
  | execute _ _ inductionHypothesis =>
      exact ⟨inductionHypothesis.textures, inductionHypothesis.framebuffers⟩
  | resize _ device world width height within inductionHypothesis =>
      exact inductionHypothesis.resize world width height within

end Instance

/-! ## What a pass renders -/

namespace Graph

/-- A node renders the final output itself: it is the final node, or an edge leads from it to
the final texture. -/
def RendersFinal (g : Graph) (final n : NodeId) : Prop :=
  n = final ∨ g.kind? final = some .texture ∧ Feeds g.edgeList n final

/-- The texture slots that the edges out of a node lead to, in the order of the edges. -/
def targetSlots (g : Graph) (symbols : Symbols) (n : NodeId) : List Nat :=
  (g.outgoing n).filterMap fun e => (symbols.slotsOf e.target).texture

/-- The distinct texture slots that the edges out of a node lead to, in the order in which the
edges first lead there. -/
structure RendersSlots (g : Graph) (symbols : Symbols) (n : NodeId) (slots : List Nat) :
    Prop where
  once : slots.Nodup
  mem_iff : ∀ slot, slot ∈ slots ↔ slot ∈ g.targetSlots symbols n
  ordered : slots.Pairwise fun a b =>
    (g.targetSlots symbols n).idxOf a < (g.targetSlots symbols n).idxOf b

theorem rendersSlots_renderedSlots (g : Graph) (symbols : Symbols) (n : NodeId) :
    g.RendersSlots symbols n (renderedSlots g symbols n) where
  once := nodup_distinct _
  mem_iff _ := mem_distinct
  ordered := pairwise_distinct _

end Graph

namespace Instance

/-! ## After a resize -/

/-- The framebuffer that a pass draws into: the host's framebuffer if there is one and the pass
renders the final output, and otherwise its own one, over the textures that it renders, or the
default framebuffer if it renders none. -/
inductive DrawsInto (config : Config) (g : Graph) (final n : NodeId) (i : Instance ω)
    (p : PassSlot ω) (h : Handle) : Prop where
  | host (external : config.framebuffer = .external h) (renders : g.RendersFinal final n)
  | own {slots : List Nat} {index : Nat} {f : Framebuffer}
      (elsewhere : ∀ host, config.framebuffer = .external host → ¬ g.RendersFinal final n)
      (rendered : g.RendersSlots i.symbols n slots) (someSlots : slots ≠ [])
      (owned : p.framebuffer = some index) (here : i.framebuffers[index]? = some f)
      (slotsEq : f.textures = slots) (held : f.handle = some h)
  | default
      (elsewhere : ∀ host, config.framebuffer = .external host → ¬ g.RendersFinal final n)
      (noSlots : g.targetSlots i.symbols n = []) (same : h = i.defaultHandle)

/-- Every texture slot and every framebuffer slot holds a live object of the given size, and
every pass is bound to the framebuffer that it draws into. -/
structure Provided (config : Config) (g : Graph) (final : NodeId) (i : Instance ω)
    (device : HeadlessDevice) (width height : Nat) : Prop where
  size : i.size = some (width, height)
  formats : ∀ n slot, (i.symbols.slotsOf n).texture = some slot →
    ∃ t, i.textures[slot]? = some t ∧ g.textureFormat n = .ok t.format
  textures : ∀ t ∈ i.textures, ∃ h, t.handle = some h ∧
    device.textures[h.number]? = some ⟨t.format, width, height⟩
  framebuffers : ∀ f ∈ i.framebuffers, ∃ h attachments, f.handle = some h ∧
    device.framebuffers[h.number]? = some ⟨attachments, width, height⟩ ∧
    f.attachments i.textures = .ok attachments ∧
    attachments.map (fun a => some a.texture) = f.textures.map i.renderTexture?
  passes : i.passes.size = (g.nodesOfKind fun kind => kind = .pass).length
  targets : ∀ k n, (g.nodesOfKind fun kind => kind = .pass)[k]? = some n →
    (i.symbols.slotsOf n).operation = some k ∧
      ∃ p h, i.passes[k]? = some p ∧ p.node = g.nameOf n ∧
        p.task.target = ⟨h, width, height⟩ ∧ i.DrawsInto config g final n p h

/-- What belongs to the nodes is as it was: the program, the values, the symbols and the
number of slots of each kind. -/
structure SameLayout (after i : Instance ω) : Prop where
  program : after.program = i.program
  values : after.values = i.values
  symbols : after.symbols = i.symbols
  textures : after.textures.size = i.textures.size
  passes : after.passes.size = i.passes.size
  framebuffers : after.framebuffers.size = i.framebuffers.size

/-- A pass with a native framebuffer is bound to the one that it draws into. -/
theorem drawsInto_targetHandle {config : Config} {g : Graph} {final n : NodeId}
    {i : Instance ω} {p : PassSlot ω}
    (host : ∀ h, config.framebuffer = .external h → i.defaultFramebuffer = .external h)
    (live : ∀ f ∈ i.framebuffers, ∃ h, f.handle = some h)
    (draws : Draws config g final i.symbols i.framebuffers n p.framebuffer) :
    i.DrawsInto config g final n p (i.targetHandle p) := by
  have elsewhere (notWritten : ¬ writesDefault config g final n = true) (h : Handle)
      (external : config.framebuffer = .external h) : ¬ g.RendersFinal final n :=
    fun renders => notWritten (writesDefault_iff.mpr ⟨h, external, renders⟩)
  have rendered := g.rendersSlots_renderedSlots i.symbols n
  unfold targetHandle
  cases framebufferEq : p.framebuffer with
  | none =>
      rw [framebufferEq] at draws
      rw [Option.bind_none, Option.getD_none]
      by_cases writes : writesDefault config g final n = true
      · -- Only an external framebuffer is written to, and then it is the default one.
        obtain ⟨h, external, renders⟩ := writesDefault_iff.mp writes
        rw [defaultHandle, host h external]
        exact .host external renders
      · have noSlots : g.targetSlots i.symbols n = [] := by
          rw [List.eq_nil_iff_forall_not_mem]
          intro slot member
          have listed := (rendered.mem_iff slot).mpr member
          rw [draws.resolve_left writes] at listed
          cases listed
        exact .default (elsewhere writes) noSlots rfl
  | some index =>
      rw [framebufferEq] at draws
      obtain ⟨notWritten, someSlots, slotsEq⟩ := draws
      obtain ⟨f, here, texturesEq⟩ := Option.map_eq_some_iff.mp slotsEq
      obtain ⟨h, held⟩ := live f (Array.mem_of_getElem? here)
      rw [Option.bind_some, framebufferHandle?, here, Option.bind_some, held, Option.getD_some]
      exact .own (elsewhere (by simp [notWritten])) rendered someSlots framebufferEq here
        texturesEq held

section Success

variable [Device δ] {i : Instance ω} {device : δ} {width height : Nat}

theorem target_of_bound {k : Nat} {p : PassSlot ω}
    (here : (i.bound device width height).passes[k]? = some p) :
    p.task.target = ⟨(i.bound device width height).targetHandle p, width, height⟩ := by
  simp only [bound, List.getElem?_toArray, List.getElem?_map, Option.map_eq_some_iff] at here
  obtain ⟨q, -, rfl⟩ := here
  rfl

theorem sameLayout_bound : (i.bound device width height).SameLayout i := by
  have texturesEq := congrArg List.length (i.formats_newTextures device width height)
  have framebuffersEq := congrArg List.length (i.slots_newFramebuffers device width height)
  simp only [List.length_map, Array.length_toList] at texturesEq framebuffersEq
  exact ⟨rfl, rfl, rfl, texturesEq, by simp [bound], framebuffersEq⟩

variable [HeadlessBacked δ]

/-- Binding the passes after all native objects were renewed provides everything. -/
theorem provided_bound {config : Config} {g : Graph} {final : NodeId}
    (equipped : i.Equipped config g final) (below : i.HoldsBelow (backing device).nextHandle)
    (texturesMade : (i.newTextures device width height).failure = none)
    (framebuffersMade : (i.newFramebuffers device width height).failure = none) :
    (i.bound device width height).Provided config g final
      (backing (i.newFramebuffers device width height).device) width height := by
  have boundEquipped := equipped.of_samePlan (i.samePlan_bound device width height)
  have textures := (below.allRenewed_textures width height).live texturesMade
  have framebuffers := (below.allRenewed_framebuffers width height).live framebuffersMade
  -- The framebuffers come after the textures and leave their storage alone.
  have texturesKept : (backing (i.newFramebuffers device width height).device).textures =
      (backing (i.newTextures device width height).device).textures :=
    Attempt.device_each (fun between => (backing between).textures)
      (Framebuffer.backing_textures_resize _ width height) _ _
  refine ⟨rfl, boundEquipped.formats, ?_, ?_, boundEquipped.passes, ?_⟩
  · intro t member
    obtain ⟨h, record, held, found, rfl, -, -⟩ := textures t (List.mem_toArray.mp member)
    refine ⟨h, held, ?_⟩
    rw [texturesKept]
    exact found
  · intro f member
    obtain ⟨h, ⟨attachments, _, _⟩, held, found, attached, rfl, rfl, -, -⟩ :=
      framebuffers f (List.mem_toArray.mp member)
    exact ⟨h, attachments, held, found, attached, Framebuffer.texture_of_attachments attached⟩
  · intro k n position
    obtain ⟨operationEq, p, here, nodeEq, draws⟩ := boundEquipped.pass k n position
    refine ⟨operationEq, p, _, here, nodeEq, target_of_bound here, ?_⟩
    refine drawsInto_targetHandle boundEquipped.host ?_ draws
    intro f member
    obtain ⟨h, -, held, -⟩ := framebuffers f (List.mem_toArray.mp member)
    exact ⟨h, held⟩

end Success

end Instance

/-- A resize on a headless device that succeeds provides everything anew, whatever came before
on devices that are not ahead of this one.  The numbers of its objects are counted without a
bound, so this is about devices that hand out fewer than `2 ^ 32 - 1` of them, whose numbers fit
in 32 bits.  Every operation is told its target, one after the other. -/
theorem resize_provides_everything {registry : Registry ω} {config : Config} {g : Graph}
    {compiled i after : Instance ω} {world left now later : ω} {device rest : HeadlessDevice}
    {width height : Nat}
    (success : Build.Succeeds (compile registry config g) world compiled left)
    (reachable : compiled.ReachableBelow device.nextHandle i)
    (resized : i.resize device now width height = (⟨after, rest, none⟩, later)) :
    ∃ sink schedule, g.presentNode = .ok sink ∧ g.schedule sink = .ok schedule ∧
      after.Provided config g schedule.finalNode rest width height ∧ after.SameLayout i ∧
      later = after.passes.foldl
        (fun world p => p.task.operation.bound p.task.target world) now := by
  obtain ⟨sink, schedule, present, scheduled, equipped, bare⟩ :=
    Instance.equipped_of_compile success
  have stillEquipped := equipped.of_samePlan reachable.reachable.samePlan
  have below := reachable.holdsBelow bare
  obtain ⟨texturesMade, framebuffersMade, rfl, rfl, rfl⟩ := Instance.bound_of_resize resized
  refine ⟨sink, schedule, present, scheduled,
    Instance.provided_bound stillEquipped below texturesMade framebuffersMade,
    Instance.sameLayout_bound, ?_⟩
  simp only [Instance.bound, List.foldl_toArray, List.foldl_map]

namespace Sample

/-- A device that refuses the second creation. -/
def refusing : GuardedDevice :=
  { refusal? := fun asked _ _ => if asked = 1 then some "busy" else none }

/-- The sample after a resize that found storage for the texture, but no framebuffer. -/
def halfway : Attempt (Instance Unit) GuardedDevice := (compiled.resize refusing () 4 4).1

theorem reachableBelow_halfway :
    compiled.ReachableBelow halfway.device.device.nextHandle halfway.owner :=
  .resize .compiled refusing () 4 4 (Nat.le_refl _)

end Sample

theorem resize_of_refused_sample :
    Sample.halfway.failure = some (.incompleteFramebuffer (.refused "busy")) ∧
      ∃ after rest, Sample.halfway.owner.resize Sample.halfway.device.device () 8 6 =
          (⟨after, rest, none⟩, ()) ∧
        ∃ sink schedule, Sample.graph.presentNode = .ok sink ∧
          Sample.graph.schedule sink = .ok schedule ∧
          after.Provided Sample.config Sample.graph schedule.finalNode rest 8 6 ∧
          after.SameLayout Sample.halfway.owner := by
  have stopped : Sample.halfway.failure = some (.incompleteFramebuffer (.refused "busy")) := by
    rfl
  have undisturbed :
      (Sample.halfway.owner.resize Sample.halfway.device.device () 8 6).1.failure = none := by
    rfl
  have resized := Instance.resize_eq_of_undisturbed undisturbed
  obtain ⟨sink, schedule, present, scheduled, provided, same, -⟩ :=
    resize_provides_everything Sample.succeeds_compile Sample.reachableBelow_halfway resized
  exact ⟨stopped, _, _, resized, sink, schedule, present, scheduled, provided, same⟩

/-! ## A device that is behind -/

namespace Sample

/-- A texture that two of three passes render. -/
def twofoldGraph : Graph where
  nodes := #[.pass "idle" "fill", .pass "p" "fill", .pass "q" "fill", .texture "t" "RGBA8",
    .present "out"]
  edges := #[(⟨0⟩, ⟨⟨2⟩, ⟨3⟩, {}⟩), (⟨1⟩, ⟨⟨1⟩, ⟨3⟩, {}⟩), (⟨2⟩, ⟨⟨3⟩, ⟨4⟩, {}⟩)]

def twofold : Instance Unit where
  program := ⟨#[80, 0, 2, 2, 0, 1, 80, 0, 1, 2, 0, 0, 255], by decide⟩
  values := #[.zero, .zero]
  textures := #[{ format := .rgba8 }]
  passes := #[⟨"idle", ⟨fill, ⟨0, 0⟩, {}⟩, none⟩, ⟨"p", ⟨fill, ⟨0, 1⟩, {}⟩, some 0⟩,
    ⟨"q", ⟨fill, ⟨0, 1⟩, {}⟩, some 1⟩]
  framebuffers := #[{ textures := [0] }, { textures := [0] }]
  defaultFramebuffer := .internal 0
  symbols :=
    ⟨#["idle", "p", "q", "t", "out"],
      #[⟨0, 0, none, some 0⟩, ⟨0, 1, none, some 1⟩, ⟨1, 2, none, some 2⟩, ⟨0, 0, some 0, none⟩,
        {}], 2, 1, 3⟩
  machine := { stackLimit := 1 }

theorem succeeds_twofold :
    Build.Succeeds (compile registry config twofoldGraph) () twofold () :=
  succeeds_compile_of_plan ⟨[⟨4⟩, ⟨3⟩, ⟨1⟩, ⟨2⟩], ⟨3⟩⟩ #[(⟨0⟩, 0), (⟨1⟩, 1), (⟨2⟩, 1)]
    (by decide +kernel) (by with_unfolding_all exact rfl) rfl rfl (by decide +kernel) rfl rfl

/-- The instance with the objects 1, 2 and 3 of a new device. -/
def rooted : Instance Unit := (twofold.resize ({} : HeadlessDevice) () 4 4).1.owner

/-- Another device, which has handed out one number. -/
def behind : HeadlessDevice := (({} : HeadlessDevice).createTexture .rgba8 4 4).2

/-- What a resize on that device makes of the instance: the framebuffer of the first pass gets
the number 3, and the second pass gives up its framebuffer 3 after that. -/
def transplanted : Attempt (Instance Unit) HeadlessDevice := (rooted.resize behind () 4 4).1

theorem reachable_rooted : twofold.Reachable rooted :=
  .resize .compiled ({} : HeadlessDevice) () 4 4

theorem not_provided_transplanted (final : NodeId) :
    ¬ transplanted.owner.Provided config twofoldGraph final transplanted.device 4 4 := by
  intro provided
  have listed : (⟨[0], 4, 4, some ⟨3⟩⟩ : Framebuffer) ∈ transplanted.owner.framebuffers :=
    List.mem_toArray.mpr List.mem_cons_self
  obtain ⟨h, attachments, held, live, -⟩ := provided.framebuffers _ listed
  cases held
  cases live

end Sample

/-- Without a condition on the devices, a resize may succeed and leave a pass with a framebuffer
that is gone. -/
theorem framebuffer_lost_on_device_behind :
    Build.Succeeds (compile Sample.registry Sample.config Sample.twofoldGraph) ()
      Sample.twofold () ∧
    Sample.twofold.Reachable Sample.rooted ∧
    Sample.rooted.resize Sample.behind () 4 4 =
      (⟨Sample.transplanted.owner, Sample.transplanted.device, none⟩, ()) ∧
    (∃ p ∈ Sample.transplanted.owner.passes, p.node = "p" ∧ p.task.target = ⟨⟨3⟩, 4, 4⟩) ∧
    Sample.transplanted.device.framebuffers[3]? = none ∧
    ∀ final, ¬ Sample.transplanted.owner.Provided Sample.config Sample.twofoldGraph final
      Sample.transplanted.device 4 4 := by
  have passes : (⟨"p", ⟨Sample.fill, ⟨0, 1⟩, ⟨⟨3⟩, 4, 4⟩⟩, some 0⟩ : PassSlot Unit) ∈
      Sample.transplanted.owner.passes :=
    List.mem_toArray.mpr (List.mem_cons_of_mem _ List.mem_cons_self)
  exact ⟨Sample.succeeds_twofold, Sample.reachable_rooted, rfl, ⟨_, passes, rfl, rfl⟩, rfl,
    Sample.not_provided_transplanted⟩

end FrameGraph
