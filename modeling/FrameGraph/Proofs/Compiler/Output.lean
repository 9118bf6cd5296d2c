import FrameGraph.Proofs.Compiler.Equipment
import FrameGraph.Proofs.Compiler.Placement

/-!
# The framebuffer behind the present node

Framebuffers stand in the order of their passes, but passes without one are left out.  The first
framebuffer over a texture slot is therefore that of the first pass that renders the texture,
although the two have different places in their tables.
-/

namespace FrameGraph

open Compiler

variable {ω : Type}

/-! ## Slots of textures and passes -/

namespace Layout

variable {g : Graph} {l after : Layout}

/-- A layout that has handed out nothing but value slots. -/
structure Blank (g : Graph) (l : Layout) : Prop where
  size : l.symbols.slots.size = g.nodes.size
  count : l.symbols.textureCount = 0
  storage : l.textures = #[]
  slots : ∀ n, (l.symbols.slotsOf n).texture = none ∧ (l.symbols.slotsOf n).operation = none

theorem blank_start (g : Graph) : Blank g { symbols := .ofGraph g } where
  size := Array.size_replicate
  count := rfl
  storage := rfl
  slots n := by
    rw [Symbols.slotsOf_ofGraph]
    exact ⟨rfl, rfl⟩

theorem Blank.allocateValues {n : NodeId} {count : Nat} {symbols : Symbols}
    {values : Array Cell} {passes : Array (NodeId × Nat)} (blank : l.Blank g)
    (success : l.symbols.allocateValues n count = .ok symbols) :
    Blank g ⟨symbols, values, l.textures, passes⟩ := by
  obtain ⟨sizeEq, -, countEq, slotsEq⟩ := Symbols.others_of_allocateValues success
  refine ⟨sizeEq.trans blank.size, countEq.trans blank.count, blank.storage, fun n => ?_⟩
  exact ⟨(slotsEq n).1.trans (blank.slots n).1, (slotsEq n).2.trans (blank.slots n).2⟩

theorem blank_valued (success : valued g = .ok l) : l.Blank g := by
  obtain ⟨floats, operators, floatsAdded, operatorsAdded, passesAdded⟩ :=
    valued_eq_ok_iff.mp success
  have floatsBlank : floats.Blank g := by
    refine foldlM_ok_invariant (fun _ (now : Layout) => now.Blank g) ?_ (blank_start g)
      floatsAdded
    intro n rest now next blank added
    obtain ⟨symbols, c, allocated, -, rfl⟩ := addFloat_eq_ok_iff.mp added
    exact blank.allocateValues allocated
  have operatorsBlank : operators.Blank g := by
    refine foldlM_ok_invariant (fun _ (now : Layout) => now.Blank g) ?_ floatsBlank
      operatorsAdded
    intro n rest now next blank added
    obtain ⟨symbols, allocated, rfl⟩ := addOperator_eq_ok_iff.mp added
    exact blank.allocateValues allocated
  refine foldlM_ok_invariant (fun _ (now : Layout) => now.Blank g) ?_ operatorsBlank passesAdded
  intro n rest now next blank added
  obtain ⟨ports, symbols, -, allocated, rfl⟩ := addPass_eq_ok_iff.mp added
  exact blank.allocateValues allocated

theorem Blank.textured (blank : l.Blank g) : Textured g l [] l where
  slots slot n := by simp [(blank.slots n).1]
  formats := by rw [blank.storage]; rfl
  size := blank.size
  count := blank.count
  names := rfl
  values := rfl
  ports _ _ := rfl

/-- However many value slots there are, the stored textures have the texture slots in order, and
no operation has an index yet. -/
theorem textureSlots_ofGraph {aliased : Option NodeId} (success : ofGraph g aliased = .ok l) :
    (∀ slot n, (g.storedTextures aliased)[slot]? = some n ↔
      (l.symbols.slotsOf n).texture = some slot) ∧
      ∀ n, (l.symbols.slotsOf n).operation = none := by
  rw [ofGraph_eq] at success
  obtain ⟨values, valuesMade, texturesAdded⟩ := bind_eq_ok_iff.mp success
  have blank := blank_valued valuesMade
  refine ⟨(textured_addTextures blank.textured texturesAdded).slots, ?_⟩
  refine foldlM_ok_invariant
    (fun _ (now : Layout) => ∀ n, (now.symbols.slotsOf n).operation = none) ?_
    (fun n => (blank.slots n).2) texturesAdded
  intro n rest now next unused added other
  obtain ⟨format, symbols, -, allocated, rfl⟩ := addTexture_eq_ok_iff.mp added
  rw [Symbols.slotsOf_allocateTexture allocated]
  split <;> exact unused other

end Layout

/-! ## Framebuffers in the order of passes -/

namespace Compiler

variable {registry : Registry ω} {config : Config} {g : Graph} {final n : NodeId}
  {symbols : Symbols}

/-- Whether a pass has a framebuffer over a texture slot. -/
def drawsTo (config : Config) (g : Graph) (final : NodeId) (symbols : Symbols) (slot : Nat)
    (n : NodeId) : Bool :=
  !writesDefault config g final n && (renderedSlots g symbols n).contains slot

/-- A pass that draws to some slot puts a framebuffer over all its slots behind the others. -/
theorem addFramebuffer_cases {framebuffers after : Array Framebuffer}
    {framebuffer : Option Nat}
    (success : addFramebuffer config g final symbols framebuffers n =
      .ok (framebuffer, after)) :
    (after = framebuffers ∧ ∀ slot, drawsTo config g final symbols slot n = false) ∨
      framebuffer = some framebuffers.size ∧
        after = framebuffers.push { textures := renderedSlots g symbols n } ∧
        ∀ slot, drawsTo config g final symbols slot n =
          (renderedSlots g symbols n).contains slot := by
  unfold addFramebuffer at success
  by_cases host : writesDefault config g final n = true
  · rw [if_pos host] at success
    split at success
    · cases success
      exact Or.inl ⟨rfl, fun slot => by simp [drawsTo, host]⟩
    · cases success
  · rw [if_neg host] at success
    split at success
    · next noSlots =>
        cases success
        exact Or.inl ⟨rfl, fun slot => by simp [drawsTo, noSlots]⟩
    · cases success
      exact Or.inr ⟨rfl, rfl, fun slot => by simp [drawsTo, host]⟩

theorem mem_renderedSlots {slot : Nat} :
    slot ∈ renderedSlots g symbols n ↔
      ∃ e ∈ g.outgoing n, (symbols.slotsOf e.target).texture = some slot := by
  rw [renderedSlots, mem_distinct, List.mem_filterMap]

/-- What the tables of the passes and of the framebuffers have in common after some passes:
the first framebuffer over a slot is that of the first pass that draws to it. -/
structure Workshop.InOrder (config : Config) (g : Graph) (final : NodeId) (symbols : Symbols)
    (passes : List NodeId) (w : Workshop ω) : Prop where
  size : w.passes.size = passes.length
  textures : ∀ n, (w.symbols.slotsOf n).texture = (symbols.slotsOf n).texture
  operations : ∀ n index, (w.symbols.slotsOf n).operation = some index → n ∈ passes
  slots : ∀ f ∈ w.framebuffers, ∀ slot ∈ f.textures,
    ∃ n, (symbols.slotsOf n).texture = some slot
  first : ∀ slot k, passes.findIdx? (drawsTo config g final symbols slot) = some k →
    ∃ p index, w.passes[k]? = some p ∧ p.framebuffer = some index ∧
      w.framebuffers.findIdx? (fun f => f.textures.contains slot) = some index
  nowhere : ∀ slot, passes.findIdx? (drawsTo config g final symbols slot) = none →
    w.framebuffers.findIdx? (fun f => f.textures.contains slot) = none

theorem Workshop.inOrder_start (unused : ∀ n, (symbols.slotsOf n).operation = none) :
    Workshop.InOrder config g final symbols [] ({ symbols := symbols } : Workshop ω) where
  size := rfl
  textures _ := rfl
  operations n index found := by simp [unused n] at found
  slots f member := absurd member (Array.not_mem_empty f)
  first slot k found := by simp at found
  nowhere slot _ := Array.findIdx?_empty

theorem drawsTo_congr {others : Symbols} {slot : Nat}
    (textures : ∀ n, (others.slotsOf n).texture = (symbols.slotsOf n).texture) :
    drawsTo config g final others slot n = drawsTo config g final symbols slot n := by
  rw [drawsTo, drawsTo, renderedSlots_congr textures]

theorem Workshop.InOrder.addPass {passes : List NodeId} {ports : Nat} {w next : Workshop ω}
    {world after : ω} (inOrder : w.InOrder config g final symbols passes)
    (success : Build.Succeeds (Compiler.addPass registry config g final w (n, ports)) world
      next after) :
    next.InOrder config g final symbols (passes ++ [n]) := by
  obtain ⟨factory, operation, framebuffer, framebuffers, handed, -, -, added, allocated, rfl⟩ :=
    succeeds_addPass_iff.mp success
  have slotsEq := Symbols.slotsOf_allocateOperation allocated
  have drawn := addFramebuffer_cases added
  simp only [drawsTo_congr inOrder.textures, renderedSlots_congr inOrder.textures] at drawn
  refine ⟨?_, ?_, ?_, ?_, ?_, ?_⟩
  · rw [Array.size_push, inOrder.size, List.length_append, List.length_singleton]
  · intro other
    rw [slotsEq]
    split <;> exact inOrder.textures other
  · intro other index
    rw [slotsEq]
    split
    · next here =>
        intro _
        exact List.mem_append_right _ (List.mem_singleton.mpr here.1.symm)
    · exact fun found => List.mem_append_left _ (inOrder.operations other index found)
  · intro f member slot isBound
    rcases drawn with ⟨rfl, -⟩ | ⟨-, rfl, -⟩
    · exact inOrder.slots f member slot isBound
    · rcases Array.mem_push.mp member with old | rfl
      · exact inOrder.slots f old slot isBound
      · obtain ⟨e, -, found⟩ := mem_renderedSlots.mp isBound
        exact ⟨e.target, found⟩
  · intro slot k found
    rw [List.findIdx?_append, List.findIdx?_singleton, Option.or_eq_some_iff] at found
    rcases found with earlier | ⟨nobody, here⟩
    · obtain ⟨p, index, passHere, framebufferEq, firstEq⟩ := inOrder.first slot k earlier
      refine ⟨p, index, getElem?_push_of_some passHere, framebufferEq, ?_⟩
      rcases drawn with ⟨rfl, -⟩ | ⟨-, rfl, -⟩
      · exact firstEq
      · rw [Array.findIdx?_push, firstEq, Option.some_or]
    · -- The new pass is the first, so the new framebuffer is the first as well.
      split at here
      · next draws =>
          rcases drawn with ⟨-, silent⟩ | ⟨rfl, rfl, drawnEq⟩
          · rw [silent slot] at draws
            cases draws
          · rw [Option.map_some, Nat.zero_add, Option.some.injEq] at here
            rw [← here, ← inOrder.size]
            refine ⟨_, w.framebuffers.size, Array.getElem?_push_size, rfl, ?_⟩
            rw [Array.findIdx?_push, inOrder.nowhere slot nobody, Option.none_or,
              if_pos ((drawnEq slot).symm.trans draws)]
      · cases here
  · intro slot found
    rw [List.findIdx?_append, List.findIdx?_singleton, Option.or_eq_none_iff] at found
    have before := inOrder.nowhere slot found.1
    rcases drawn with ⟨rfl, -⟩ | ⟨-, rfl, drawnEq⟩
    · exact before
    · have silent : ¬ (renderedSlots g symbols n).contains slot = true := by
        rw [← drawnEq slot]
        intro draws
        simp [draws] at found
      rw [Array.findIdx?_push, before, Option.none_or, if_neg silent]

/-- Making passes in turn puts their framebuffers in order. -/
theorem Workshop.inOrder_foldlM {passes : List (NodeId × Nat)} {w : Workshop ω}
    {world after : ω} (unused : ∀ n, (symbols.slotsOf n).operation = none)
    (made : Build.Succeeds
      (passes.foldlM (Compiler.addPass registry config g final) { symbols := symbols })
      world w after) :
    w.InOrder config g final symbols (passes.map Prod.fst) := by
  have invariant := Build.foldlM_invariant
    (fun rest (now : Workshop ω) => ∃ done, passes = done ++ rest ∧
      now.InOrder config g final symbols (done.map Prod.fst)) ?_
    ⟨[], rfl, Workshop.inOrder_start unused⟩ made
  · obtain ⟨done, allDone, inOrder⟩ := invariant
    rw [allDone, List.append_nil]
    exact inOrder
  · rintro ⟨n, ports⟩ rest now world after next ⟨done, split, inOrder⟩ added
    refine ⟨done ++ [(n, ports)], by rw [split, List.append_assoc]; rfl, ?_⟩
    rw [List.map_append]
    exact inOrder.addPass added

end Compiler

/-! ## The final pass -/

/-- The pass that renders the final node: the first one with an edge to it if it is a texture,
and itself if it is a pass that renders some texture. -/
def Graph.finalPass? (g : Graph) (final : NodeId) : Option NodeId :=
  match g.kind? final with
  | some .texture => (g.nodesOfKind fun kind => kind = .pass).find? fun n => g.hasEdge n final
  | some .pass =>
    if (g.outgoing final).any fun e => g.kind? e.target = some .texture then some final
    else none
  | _ => none

/-- The framebuffer slot that the pass of a node has for itself. -/
def Graph.OwnFramebuffer (g : Graph) (passes : Array (PassSlot ω)) (n : NodeId) (index : Nat) :
    Prop :=
  ∃ (k : Nat) (p : PassSlot ω), (g.nodesOfKind fun kind => kind = .pass)[k]? = some n ∧
    passes[k]? = some p ∧ p.framebuffer = some index

/-- The slots behind the present node of an instance, in terms of its graph. -/
structure Instance.Fronted (config : Config) (g : Graph) (final : NodeId) (i : Instance ω) :
    Prop where
  textures : ∀ n, (∃ slot, (i.symbols.slotsOf n).texture = some slot) ↔
    g.kind? n = some .texture ∧ ∀ h, config.framebuffer = .external h → n ≠ final
  apart : ∀ n other slot, (i.symbols.slotsOf n).texture = some slot →
    (i.symbols.slotsOf other).texture = some slot → n = other
  slots : ∀ f ∈ i.framebuffers, ∀ slot ∈ f.textures,
    ∃ n, (i.symbols.slotsOf n).texture = some slot
  shown : config.framebuffer = .internal → ∀ n, g.finalPass? final = some n →
    ∃ index, Graph.OwnFramebuffer g i.passes n index ∧ i.defaultFramebuffer = .internal index
  unbound : config.framebuffer = .internal → g.finalPass? final = none →
    i.defaultFramebuffer = .unbound

theorem exists_findIdx?_of_find? {α : Type} {test : α → Bool} {l : List α} {a : α}
    (found : l.find? test = some a) : ∃ k, l.findIdx? test = some k ∧ l[k]? = some a := by
  obtain ⟨passes, k, inside, rfl, before⟩ := List.find?_eq_some_iff_getElem.mp found
  refine ⟨k, List.findIdx?_eq_some_iff_getElem.mpr ⟨inside, passes, fun j earlier => ?_⟩,
    List.getElem?_eq_getElem inside⟩
  simpa using before j earlier

namespace Compiler

variable {registry : Registry ω} {config : Config} {g : Graph} {final n : NodeId}
  {symbols : Symbols}

theorem writesDefault_of_internal (internal : config.framebuffer = .internal) :
    writesDefault config g final n = false := by
  simp [writesDefault, internal, FramebufferMode.externalHandle?]

/-- Without a host's framebuffer every pass draws to all textures that it has an edge to. -/
theorem drawsTo_eq_hasEdge {slot : Nat} (internal : config.framebuffer = .internal)
    (apart : ∀ n other slot, (symbols.slotsOf n).texture = some slot →
      (symbols.slotsOf other).texture = some slot → n = other)
    (here : (symbols.slotsOf final).texture = some slot) :
    drawsTo config g final symbols slot = fun n => g.hasEdge n final := by
  funext n
  rw [drawsTo, writesDefault_of_internal internal, Bool.not_false, Bool.true_and,
    Bool.eq_iff_iff, List.contains_iff_mem, mem_renderedSlots, Graph.hasEdge_iff_feeds]
  simp only [Graph.outgoing, List.mem_filter, decide_eq_true_eq, Feeds, and_assoc]
  refine exists_congr fun e => and_congr_right fun _ => and_congr_right fun _ => ?_
  exact ⟨fun found => apart _ _ slot found here, fun same => same ▸ here⟩

theorem renderedSlots_eq_nil_iff
    (textures : ∀ n, (∃ slot, (symbols.slotsOf n).texture = some slot) ↔
      g.kind? n = some .texture) :
    renderedSlots g symbols n = [] ↔
      ((g.outgoing n).any fun e => g.kind? e.target = some .texture) = false := by
  simp only [List.eq_nil_iff_forall_not_mem, mem_renderedSlots, List.any_eq_false,
    decide_eq_true_eq, ← textures]
  constructor
  · rintro none e member ⟨slot, found⟩
    exact none slot ⟨e, member, found⟩
  · rintro none slot ⟨e, member, found⟩
    exact none e member ⟨slot, found⟩

section Workshop

variable {w : Workshop ω} (internal : config.framebuffer = .internal)
  (inOrder : w.InOrder config g final symbols (g.nodesOfKind fun kind => kind = .pass))

include internal inOrder

/-- A final texture is shown by the first pass with an edge to it, if there is one. -/
theorem internalDefault?_of_texture {slot : Nat}
    (apart : ∀ n other slot, (symbols.slotsOf n).texture = some slot →
      (symbols.slotsOf other).texture = some slot → n = other)
    (here : (symbols.slotsOf final).texture = some slot) :
    match (g.nodesOfKind fun kind => kind = .pass).find? fun n => g.hasEdge n final with
    | some n => ∃ index, Graph.OwnFramebuffer g w.passes n index ∧
        internalDefault? w.symbols w.passes w.framebuffers final = some index
    | none => internalDefault? w.symbols w.passes w.framebuffers final = none := by
  have first := inOrder.first slot
  have nowhere := inOrder.nowhere slot
  rw [drawsTo_eq_hasEdge internal apart here] at first nowhere
  have chosen : internalDefault? w.symbols w.passes w.framebuffers final =
      w.framebuffers.findIdx? fun f => f.textures.contains slot := by
    rw [internalDefault?, inOrder.textures, here]
  rw [chosen]
  split
  · next n found =>
      obtain ⟨k, foundAt, position⟩ := exists_findIdx?_of_find? found
      obtain ⟨p, index, passHere, framebufferEq, firstEq⟩ := first k foundAt
      exact ⟨index, ⟨k, p, position, passHere, framebufferEq⟩, firstEq⟩
  · next absent =>
      refine nowhere (List.findIdx?_eq_none_iff.mpr fun n member => ?_)
      simpa using List.find?_eq_none.mp absent n member

omit internal in
/-- Any other node is shown only if it is a pass with a framebuffer. -/
theorem internalDefault?_of_noTexture (noSlot : (symbols.slotsOf final).texture = none) :
    internalDefault? w.symbols w.passes w.framebuffers final =
      ((w.symbols.slotsOf final).operation.bind fun index => w.passes[index]?).bind
        PassSlot.framebuffer := by
  have noSlotNow : (w.symbols.slotsOf final).texture = none :=
    (inOrder.textures final).trans noSlot
  simp only [internalDefault?, noSlotNow, Option.bind_eq_bind, Option.bind_assoc]

/-- The choice follows the final pass of the graph. -/
theorem internalDefault?_of_finalPass
    (textures : ∀ n, (∃ slot, (symbols.slotsOf n).texture = some slot) ↔
      g.kind? n = some .texture)
    (apart : ∀ n other slot, (symbols.slotsOf n).texture = some slot →
      (symbols.slotsOf other).texture = some slot → n = other)
    (pass : ∀ k n, (g.nodesOfKind fun kind => kind = .pass)[k]? = some n →
      (w.symbols.slotsOf n).operation = some k ∧ ∃ p, w.passes[k]? = some p ∧
        Draws config g final symbols w.framebuffers n p.framebuffer) :
    match g.finalPass? final with
    | some n => ∃ index, Graph.OwnFramebuffer g w.passes n index ∧
        internalDefault? w.symbols w.passes w.framebuffers final = some index
    | none => internalDefault? w.symbols w.passes w.framebuffers final = none := by
  by_cases isTexture : g.kind? final = some .texture
  · obtain ⟨slot, here⟩ := (textures final).mpr isTexture
    simp only [Graph.finalPass?, isTexture]
    exact internalDefault?_of_texture internal inOrder apart here
  have noSlot : (symbols.slotsOf final).texture = none :=
    Option.eq_none_iff_forall_ne_some.mpr fun slot found =>
      isTexture ((textures final).mp ⟨slot, found⟩)
  rw [internalDefault?_of_noTexture inOrder noSlot]
  by_cases isPass : g.kind? final = some .pass
  · have member : final ∈ g.nodesOfKind fun kind => kind = .pass :=
      Graph.mem_nodesOfKind.mpr ⟨.pass, isPass, rfl⟩
    obtain ⟨k, position⟩ := List.mem_iff_getElem?.mp member
    obtain ⟨operationEq, p, here, draws⟩ := pass k final position
    have someSlots := renderedSlots_eq_nil_iff (n := final) textures
    simp only [Graph.finalPass?, isPass, operationEq, Option.bind_some, here]
    cases framebufferEq : p.framebuffer with
    | none =>
        rw [framebufferEq, Draws, writesDefault_of_internal internal] at draws
        have noSlots := draws.resolve_left Bool.false_ne_true
        rw [someSlots.mp noSlots, if_neg Bool.false_ne_true]
    | some index =>
        rw [framebufferEq] at draws
        have rendersTexture := Bool.of_not_eq_false (mt someSlots.mpr draws.2.1)
        rw [if_pos rendersTexture]
        exact ⟨index, ⟨k, p, position, here, framebufferEq⟩, rfl⟩
  · have noOperation : (w.symbols.slotsOf final).operation = none :=
      Option.eq_none_iff_forall_ne_some.mpr fun index found =>
        isPass (Graph.kind?_of_mem_nodesOfKind (inOrder.operations final index found))
    have noPass : g.finalPass? final = none := by
      unfold Graph.finalPass?
      split
      · next isTextureNow => exact absurd isTextureNow isTexture
      · next isPassNow => exact absurd isPassNow isPass
      · rfl
    rw [noPass, noOperation]
    rfl

end Workshop

end Compiler

/-- A compilation that succeeds puts the framebuffer of the final pass behind the present node. -/
theorem Instance.fronted_of_compile {registry : Registry ω} {config : Config} {g : Graph}
    {compiled : Instance ω} {world after : ω}
    (success : Build.Succeeds (compile registry config g) world compiled after) :
    ∃ sink schedule, g.presentNode = .ok sink ∧ g.schedule sink = .ok schedule ∧
      compiled.Equipped config g schedule.finalNode ∧ compiled.Bare ∧
      compiled.Fronted config g schedule.finalNode := by
  obtain ⟨sink, schedule, present, scheduled, equipped, bare⟩ := equipped_of_compile success
  refine ⟨sink, schedule, present, scheduled, equipped, bare, ?_⟩
  obtain ⟨again, layout, w, between, program, planned, made, -, -, rfl⟩ :=
    succeeds_compile_iff.mp success
  obtain ⟨sinkAgain, presentAgain, scheduledAgain, laidOut⟩ := blueprint_eq_ok_iff.mp planned
  obtain rfl : sink = sinkAgain := Except.ok.inj (present.symm.trans presentAgain)
  obtain rfl : schedule = again := Except.ok.inj (scheduled.symm.trans scheduledAgain)
  obtain ⟨slotsIff, unused⟩ := Layout.textureSlots_ofGraph laidOut
  have inOrder := Workshop.inOrder_foldlM unused made
  rw [(Layout.listed_ofGraph laidOut).passes] at inOrder
  have textures (n : NodeId) : (∃ slot, (layout.symbols.slotsOf n).texture = some slot) ↔
      g.kind? n = some .texture ∧
        ∀ h, config.framebuffer = .external h → n ≠ schedule.finalNode := by
    rw [← Graph.mem_storedTextures_aliased, List.mem_iff_getElem?]
    exact exists_congr fun slot => (slotsIff slot n).symm
  have apart (n other : NodeId) (slot : Nat)
      (first : (layout.symbols.slotsOf n).texture = some slot)
      (second : (layout.symbols.slotsOf other).texture = some slot) : n = other := by
    rw [← slotsIff] at first second
    exact Option.some.inj (first.symm.trans second)
  have chosen (internal : config.framebuffer = .internal) :=
    internalDefault?_of_finalPass internal inOrder
      (fun n => (textures n).trans (and_iff_left (by simp [internal]))) apart
      fun k n position => by
        obtain ⟨operationEq, p, here, -, draws⟩ := equipped.pass k n position
        exact ⟨operationEq, p, here, draws.congr inOrder.textures⟩
  refine ⟨?_, ?_, ?_, ?_, ?_⟩
  · intro n
    rw [← textures n]
    simp only [inOrder.textures]
  · intro n other slot
    simp only [inOrder.textures]
    exact apart n other slot
  · intro f member slot isBound
    simp only [inOrder.textures]
    exact inOrder.slots f member slot isBound
  · intro internal n found
    have choice := chosen internal
    rw [found] at choice
    obtain ⟨index, owned, chosenEq⟩ := choice
    exact ⟨index, owned, by simp [chooseDefault, internal, chosenEq]⟩
  · intro internal absent
    have choice := chosen internal
    rw [absent] at choice
    simp [chooseDefault, internal, choice]

end FrameGraph
