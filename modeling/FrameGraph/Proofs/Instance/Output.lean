import FrameGraph.Proofs.Compiler.Output
import FrameGraph.Proofs.Instance.Resizing

/-!
# The final output

Which framebuffer stands behind the present node is decided when a graph is compiled, by the
places of passes and framebuffers.  What the choice leads to are native objects, which every
resize replaces.
-/

namespace FrameGraph

open Compiler HeadlessBacked

variable {ω δ : Type}

namespace Instance

/-! ## Between two resizes -/

/-- What an instance can become without a resize. -/
inductive Unresized (start : Instance ω) : Instance ω → Prop where
  | start : Unresized start start
  | setConstant {i after : Instance ω} {index : Nat} {c : Cell} (earlier : Unresized start i)
      (success : i.setConstant index c = .ok after) : Unresized start after
  | execute {i : Instance ω} (earlier : Unresized start i) (world : ω) :
      Unresized start (i.execute world).after

/-- Without a resize only cells and the machine change. -/
theorem Unresized.exists_eq {start i : Instance ω} (unresized : start.Unresized i) :
    ∃ values machine, i = { start with values := values, machine := machine } := by
  induction unresized with
  | start => exact ⟨_, _, rfl⟩
  | setConstant _ success inductionHypothesis =>
      obtain ⟨values, machine, rfl⟩ := inductionHypothesis
      exact ⟨_, machine, eq_of_setConstant success⟩
  | execute _ world inductionHypothesis =>
      obtain ⟨values, machine, rfl⟩ := inductionHypothesis
      exact ⟨_, _, rfl⟩

/-! ## Native framebuffers -/

/-- The native texture of a node, once it has storage. -/
def nodeTexture? (i : Instance ω) (n : NodeId) : Option Handle :=
  (i.symbols.slotsOf n).texture.bind i.renderTexture?

/-- The default framebuffer is the live framebuffer of the pass of a node, and if the final node
is a texture, its storage is attached there. -/
def ShownBy (g : Graph) (final n : NodeId) (i : Instance ω) (device : HeadlessDevice) : Prop :=
  ∃ index h record, g.OwnFramebuffer i.passes n index ∧
    i.framebufferHandle? index = some h ∧ i.defaultHandle = h ∧
    device.framebuffers[h.number]? = some record ∧
    (g.kind? final = some .texture →
      ∃ a ∈ record.attachments, i.nodeTexture? final = some a.texture)

variable {config : Config} {g : Graph} {final n : NodeId} {i compiled : Instance ω}
  {device : HeadlessDevice} {width height : Nat}

/-- The plan decides what stands behind the present node. -/
theorem Fronted.of_samePlan (fronted : compiled.Fronted config g final)
    (same : i.SamePlan compiled) : i.Fronted config g final := by
  refine ⟨?_, ?_, ?_, ?_, ?_⟩
  · rw [same.symbols]
    exact fronted.textures
  · rw [same.symbols]
    exact fronted.apart
  · intro f member slot isBound
    have listed : f.textures ∈ i.framebuffers.toList.map Framebuffer.textures :=
      List.mem_map_of_mem (Array.mem_toList_iff.mpr member)
    rw [same.slots] at listed
    obtain ⟨other, here, texturesEq⟩ := List.mem_map.mp listed
    rw [same.symbols]
    exact fronted.slots other (Array.mem_toList_iff.mp here) slot (texturesEq ▸ isBound)
  · intro internal n found
    obtain ⟨index, ⟨k, p, position, here, framebufferEq⟩, chosen⟩ :=
      fronted.shown internal n found
    have mapped := congrArg (fun passes => passes[k]?) same.passes
    simp only [List.getElem?_map, Array.getElem?_toList, here, Option.map_some] at mapped
    obtain ⟨q, there, sameSlot⟩ := Option.map_eq_some_iff.mp mapped
    have sameFramebuffer := (Prod.mk.inj sameSlot).2
    exact ⟨index, ⟨k, q, position, there, sameFramebuffer.trans framebufferEq⟩,
      same.defaultFramebuffer.trans chosen⟩
  · intro internal absent
    rw [same.defaultFramebuffer]
    exact fronted.unbound internal absent

/-- An instance without native objects has no default framebuffer of its own. -/
theorem defaultHandle_of_bare (fronted : i.Fronted config g final) (bare : i.Bare)
    (internal : config.framebuffer = .internal) : i.defaultHandle = .null := by
  cases found : g.finalPass? final with
  | none => rw [defaultHandle, fronted.unbound internal found]
  | some n =>
      obtain ⟨index, -, chosen⟩ := fronted.shown internal n found
      have empty : i.framebufferHandle? index = none := by
        rw [framebufferHandle?, Option.bind_eq_none_iff]
        exact fun f here => bare.framebuffers f (Array.mem_of_getElem? here)
      rw [defaultHandle, chosen]
      dsimp only
      rw [empty]
      rfl

/-- With all native objects provided, the final pass shows the final node. -/
theorem Provided.shownBy (provided : i.Provided config g final device width height)
    (equipped : i.Equipped config g final) (fronted : i.Fronted config g final)
    (internal : config.framebuffer = .internal) (found : g.finalPass? final = some n) :
    i.ShownBy g final n device := by
  obtain ⟨index, owned, chosen⟩ := fronted.shown internal n found
  obtain ⟨k, p, position, here, framebufferEq⟩ := owned
  obtain ⟨-, q, again, -, draws⟩ := equipped.pass k n position
  obtain rfl : p = q := Option.some.inj (here.symm.trans again)
  rw [framebufferEq] at draws
  obtain ⟨f, there, texturesEq⟩ := Option.map_eq_some_iff.mp draws.2.2
  obtain ⟨h, attachments, held, live, -, attached⟩ :=
    provided.framebuffers f (Array.mem_of_getElem? there)
  have handleEq : i.framebufferHandle? index = some h := by
    rw [framebufferHandle?, there, Option.bind_some, held]
  refine ⟨index, h, _, ⟨k, p, position, here, framebufferEq⟩, handleEq, ?_, live, ?_⟩
  · rw [defaultHandle, chosen]
    dsimp only
    rw [handleEq, Option.getD_some]
  · intro isTexture
    obtain ⟨slot, slotEq⟩ := (fronted.textures final).mpr ⟨isTexture, by simp [internal]⟩
    have joined : g.hasEdge n final = true := by
      simp only [Graph.finalPass?, isTexture] at found
      exact List.find?_some (p := fun m => g.hasEdge m final) found
    have isBound : slot ∈ f.textures := by
      obtain ⟨e, listed, rfl, rfl⟩ := Graph.hasEdge_iff_feeds.mp joined
      rw [texturesEq, mem_renderedSlots]
      exact ⟨e, List.mem_filter.mpr ⟨listed, decide_eq_true rfl⟩, slotEq⟩
    have listed := List.mem_map_of_mem (f := i.renderTexture?) isBound
    rw [← attached] at listed
    obtain ⟨a, isAttached, same⟩ := List.mem_map.mp listed
    refine ⟨a, isAttached, ?_⟩
    rw [nodeTexture?, slotEq, Option.bind_some, same]

/-- The final node is shown by its final pass, or not at all. -/
def Shows (g : Graph) (final : NodeId) (i : Instance ω) (device : HeadlessDevice) : Prop :=
  match g.finalPass? final with
  | some n => i.ShownBy g final n device
  | none => i.defaultHandle = .null

theorem Provided.shows (provided : i.Provided config g final device width height)
    (equipped : i.Equipped config g final) (fronted : i.Fronted config g final)
    (internal : config.framebuffer = .internal) : i.Shows g final device := by
  unfold Shows
  split
  · next n found => exact provided.shownBy equipped fronted internal found
  · next absent => rw [defaultHandle, fronted.unbound internal absent]

/-- Only a resize can change what is shown. -/
theorem Shows.of_unresized {after shown : Instance ω} (shows : after.Shows g final device)
    (unresized : after.Unresized shown) : shown.Shows g final device := by
  obtain ⟨values, machine, rfl⟩ := unresized.exists_eq
  exact shows

end Instance

/-- A graph that is compiled without a host's framebuffer shows its final node in the framebuffer
of the final pass.  It is there after every resize that succeeds on a device that is not behind
those of earlier resizes, until the next resize, and nothing is shown if there is no final pass,
or before the first resize.  Devices count without a bound here, so they hand out fewer than
`2 ^ 32 - 1` numbers.  In front of a host's framebuffer that one is shown at all times, and a
final texture has neither a slot nor a place in any framebuffer. -/
theorem default_framebuffer_shows_final_node {registry : Registry ω} {config : Config}
    {g : Graph} {compiled : Instance ω} {world left : ω}
    (success : Build.Succeeds (compile registry config g) world compiled left) :
    ∃ sink schedule, g.presentNode = .ok sink ∧ g.schedule sink = .ok schedule ∧
      (config.framebuffer = .internal →
        (∀ i, compiled.Unresized i → i.defaultHandle = .null) ∧
        ∀ {δ : Type} [Device δ] [HeadlessBacked δ] (i after shown : Instance ω)
          (device rest : δ) (now later : ω) (width height : Nat),
          compiled.ReachableBelow (backing device).nextHandle i →
            i.resize device now width height = (⟨after, rest, none⟩, later) →
              after.Unresized shown → shown.Shows g schedule.finalNode (backing rest)) ∧
      ∀ h, config.framebuffer = .external h → ∀ i, compiled.Reachable i →
        i.defaultHandle = h ∧
          (g.kind? schedule.finalNode = some .texture →
            (i.symbols.slotsOf schedule.finalNode).texture = none ∧
            ∀ f ∈ i.framebuffers, ∀ slot ∈ f.textures,
              ∃ n, n ≠ schedule.finalNode ∧ (i.symbols.slotsOf n).texture = some slot) := by
  obtain ⟨sink, schedule, present, scheduled, equipped, bare, fronted⟩ :=
    Instance.fronted_of_compile success
  refine ⟨sink, schedule, present, scheduled, fun internal => ⟨?_, ?_⟩, ?_⟩
  · intro i unresized
    obtain ⟨values, machine, rfl⟩ := unresized.exists_eq
    have atFirst : compiled.defaultHandle = .null :=
      Instance.defaultHandle_of_bare fronted bare internal
    exact atFirst
  · intro δ _ _ i after shown device rest now later width height reachable resized unresized
    have same := reachable.reachable.samePlan
    have below := reachable.holdsBelow bare
    obtain ⟨texturesMade, framebuffersMade, rfl, rfl, -⟩ := Instance.bound_of_resize resized
    have boundSame := (i.samePlan_bound device width height).trans same
    have provided := Instance.provided_bound (equipped.of_samePlan same) below texturesMade
      framebuffersMade
    exact (provided.shows (equipped.of_samePlan boundSame) (fronted.of_samePlan boundSame)
      internal).of_unresized unresized
  · intro h external i reachable
    have same := reachable.samePlan
    have frontedNow := fronted.of_samePlan same
    refine ⟨?_, fun isTexture => ?_⟩
    · rw [Instance.defaultHandle, (equipped.of_samePlan same).host h external]
    · have noSlot (slot : Nat) :
          (i.symbols.slotsOf schedule.finalNode).texture ≠ some slot := fun found =>
        ((frontedNow.textures _).mp ⟨slot, found⟩).2 h external rfl
      refine ⟨Option.eq_none_iff_forall_ne_some.mpr noSlot, fun f member slot isBound => ?_⟩
      obtain ⟨n, found⟩ := frontedNow.slots f member slot isBound
      exact ⟨n, fun isFinal => noSlot slot (isFinal ▸ found), found⟩

/-- The first of the two is shown, in the framebuffer behind the texture. -/
theorem default_framebuffer_of_twofold :
    ∃ after rest,
      Sample.twofold.resize ({} : HeadlessDevice) () 4 4 = (⟨after, rest, none⟩, ()) ∧
      after.defaultHandle = ⟨2⟩ ∧ after.ShownBy Sample.twofoldGraph ⟨3⟩ ⟨1⟩ rest := by
  have undisturbed :
      (Sample.twofold.resize ({} : HeadlessDevice) () 4 4).1.failure = none := by
    rfl
  have resized := Instance.resize_eq_of_undisturbed undisturbed
  obtain ⟨sink, schedule, present, scheduled, internal, -⟩ :=
    default_framebuffer_shows_final_node Sample.succeeds_twofold
  obtain ⟨-, shows⟩ := internal rfl
  have final : schedule.finalNode = ⟨3⟩ := by
    have chosen : (Sample.twofoldGraph.presentNode.bind Sample.twofoldGraph.schedule).map
        Schedule.finalNode = .ok ⟨3⟩ := by
      decide +kernel
    rw [present] at chosen
    dsimp only [Except.bind] at chosen
    rw [scheduled] at chosen
    exact Except.ok.inj chosen
  have shown := shows Sample.twofold _ _ ({} : HeadlessDevice) _ () () 4 4 .compiled resized
    .start
  have first : Sample.twofoldGraph.finalPass? ⟨3⟩ = some ⟨1⟩ := by
    decide +kernel
  rw [final, Instance.Shows, first] at shown
  exact ⟨_, _, resized, rfl, shown⟩

namespace Sample

/-- A device that refuses the third creation. -/
def faltering : GuardedDevice :=
  { refusal? := fun asked _ _ => if asked = 2 then some "busy" else none }

theorem not_shownBy_transplanted :
    ¬ transplanted.owner.ShownBy twofoldGraph ⟨3⟩ ⟨1⟩ transplanted.device := by
  rintro ⟨index, h, record, -, -, chosen, live, -⟩
  cases chosen
  cases live

end Sample

/-- On a device that is behind, a resize that succeeds may leave a default framebuffer that is
gone, and a first resize that fails may leave one that is there already. -/
theorem default_framebuffer_lost_on_device_behind :
    (Build.Succeeds (compile Sample.registry Sample.config Sample.twofoldGraph) ()
        Sample.twofold () ∧
      Sample.config.framebuffer = .internal ∧
      Sample.twofoldGraph.finalPass? ⟨3⟩ = some ⟨1⟩) ∧
    (Sample.twofold.Reachable Sample.rooted ∧
      Sample.rooted.resize Sample.behind () 4 4 =
        (⟨Sample.transplanted.owner, Sample.transplanted.device, none⟩, ()) ∧
      Sample.transplanted.owner.defaultHandle = ⟨3⟩ ∧
      Sample.transplanted.device.framebuffers[3]? = none ∧
      ¬ Sample.transplanted.owner.ShownBy Sample.twofoldGraph ⟨3⟩ ⟨1⟩
        Sample.transplanted.device) ∧
    (Sample.twofold.resize Sample.faltering () 4 4).1.failure ≠ none ∧
      (Sample.twofold.resize Sample.faltering () 4 4).1.owner.defaultHandle = ⟨2⟩ := by
  refine ⟨⟨Sample.succeeds_twofold, rfl, ?_⟩, ⟨Sample.reachable_rooted, rfl, rfl, rfl,
    Sample.not_shownBy_transplanted⟩, ?_, rfl⟩
  · decide +kernel
  · exact Option.some_ne_none _

end FrameGraph
