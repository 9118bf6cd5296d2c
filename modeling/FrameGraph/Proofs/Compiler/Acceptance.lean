import FrameGraph.Proofs.Compiler.Linked
import FrameGraph.Proofs.Compiler.Passes
import FrameGraph.Proofs.Compiler.Resolution
import FrameGraph.Proofs.Evaluation.Simulation
import FrameGraph.Proofs.Graph.Scheduling

/-!
# Which graphs are compiled

A compilation succeeds exactly on the well-formed graphs whose operations accept their
initialization.  Some conditions concern all nodes and others only those that reach the
present node.  That the aliased texture and the present node are never read needs no
condition: either would close a cycle.
-/

namespace FrameGraph

variable {ω : Type}

open Compiler

/-! ## Nodes of one kind -/

namespace Graph

variable {g : Graph}

/-- The present node is the only node of its kind. -/
theorem presentNode_eq_ok_iff {sink : NodeId} :
    g.presentNode = .ok sink ↔ ∀ n, g.kind? n = some .present ↔ n = sink := by
  have nodup := g.nodup_nodesOfKind fun kind => kind = .present
  have member (n : NodeId) :
      n ∈ g.nodesOfKind (fun kind => kind = .present) ↔ g.kind? n = some .present := by
    simp [mem_nodesOfKind]
  unfold presentNode
  simp only [← member]
  revert nodup
  rcases g.nodesOfKind (fun kind => kind = .present) with _ | ⟨first, _ | ⟨second, rest⟩⟩
  · intro _
    refine iff_of_false (by simp) fun only => ?_
    exact List.not_mem_nil ((only sink).mpr rfl)
  · intro _
    simp only [Except.ok.injEq, List.mem_singleton]
    constructor
    · rintro rfl n
      exact Iff.rfl
    · intro only
      exact (only first).mp rfl
  · intro nodup
    refine iff_of_false (by simp) fun only => ?_
    have firstEq := (only first).mp (by simp)
    have secondEq := (only second).mp (by simp)
    exact (List.nodup_cons.mp nodup).1 (by simp [firstEq, secondEq])

theorem mem_storedTextures_aliased {config : Config} {final n : NodeId} :
    n ∈ g.storedTextures (aliased? config g final) ↔
      g.kind? n = some .texture ∧ ∀ h, config.framebuffer = .external h → n ≠ final := by
  simp only [storedTextures, List.mem_filter, mem_nodesOfKind, decide_eq_true_eq,
    exists_eq_right]
  refine and_congr_right fun isTexture => ?_
  unfold aliased?
  cases config.framebuffer with
  | internal => simp [FramebufferMode.externalHandle?]
  | external h =>
      by_cases same : n = final
      · simp [FramebufferMode.externalHandle?, same, same ▸ isTexture]
      · by_cases finalTexture : g.kind? final = some .texture
        · simp [FramebufferMode.externalHandle?, finalTexture, same]
        · simp [FramebufferMode.externalHandle?, finalTexture, same]

theorem hasEdge_iff_feeds {n target : NodeId} :
    g.hasEdge n target = true ↔ Feeds g.edgeList n target := by
  rw [hasEdge, ← Array.any_toList, List.any_eq_true]
  simp only [Feeds, edgeList, List.mem_map, exists_exists_and_eq_and, Bool.and_eq_true,
    decide_eq_true_eq]

end Graph

/-- Whether a pass renders into the host's framebuffer can be read off the edges. -/
theorem Compiler.writesDefault_iff {config : Config} {g : Graph} {final n : NodeId} :
    writesDefault config g final n = true ↔
      ∃ h, config.framebuffer = .external h ∧
        (n = final ∨ g.kind? final = some .texture ∧ Feeds g.edgeList n final) := by
  unfold writesDefault
  cases config.framebuffer with
  | internal => simp [FramebufferMode.externalHandle?]
  | external h => simp [FramebufferMode.externalHandle?, Graph.hasEdge_iff_feeds]

/-! ## Well-formed graphs -/

/-- What a graph must satisfy, where `sink` is its present node and `final` the node whose
output is shown. -/
structure Graph.WellFormed (g : Graph) (registry : Registry ω) (config : Config)
    (sink final : NodeId) : Prop where
  present : g.kind? sink = some .present
  predecessor : (g.incoming sink).map Edge.source = [final]
  acyclic : ¬ CycleBefore g.edgeList sink
  constants : ∀ n, g.kind? n = some .float → ∃ raw x,
    g.metadata? n valueKey = some raw ∧
      Binary32.ofCharacters? (Text.trim raw.toList) = some x
  outputs : ∀ n, g.kind? n = some .pass →
    ∀ e ∈ g.outgoing n, ∃ port, e.sourcePort = .ok port
  values_room : g.neededValues ≤ Address.spaceSize
  formats : ∀ n, g.kind? n = some .texture →
    (∀ h, config.framebuffer = .external h → n ≠ final) → ∃ name format,
      g.metadata? n formatKey = some name ∧ TextureFormat.ofName? name = some format
  textures_room : (g.storedTextures (aliased? config g final)).length ≤ Address.spaceSize
  subtypes : ∀ n, g.kind? n = some .pass → registry.contains (g.subtype n) = true
  passes_room : (g.nodesOfKind fun kind => kind = .pass).length ≤ Symbols.operationSpaceSize
  host : ∀ h n, config.framebuffer = .external h → g.kind? n = some .pass →
    n = final ∨ g.kind? final = some .texture ∧ Feeds g.edgeList n final →
      (g.outgoing n).length = 1
  supplied : ∀ n, Reaches g.edgeList n sink → g.Supplied n

/-- The operations of a graph, made in the order of its passes, all accept their
initialization in this order. -/
def Registry.Starts (r : Registry ω) (g : Graph) (world : ω) : Prop :=
  (Operation.initAll (r.makeAll g.subtypes world).1 (r.makeAll g.subtypes world).2).1 = true

/-! ## No aliased texture is read -/

/-- What reaches the sink reaches its one predecessor first. -/
theorem Reaches.predecessor {g : Graph} {sink final n : NodeId}
    (predecessor : (g.incoming sink).map Edge.source = [final])
    (reaches : Reaches g.edgeList n sink) (elsewhere : n ≠ sink) :
    Reaches g.edgeList n final := by
  rcases reaches.cases_tail with same | ⟨last, walk, e, edge, rfl, targetEq⟩
  · exact absurd same.symm elsewhere
  · have listed : e.source ∈ (g.incoming sink).map Edge.source :=
      List.mem_map_of_mem (List.mem_filter.mpr ⟨edge, decide_eq_true targetEq⟩)
    rw [predecessor, List.mem_singleton] at listed
    rw [← listed]
    exact walk

/-- A node before the sink reads no texture that the host's framebuffer replaces, since
this would close a cycle. -/
theorem Graph.mem_storedTextures_of_reaches {g : Graph} {config : Config}
    {sink final n : NodeId} {e : Edge}
    (predecessor : (g.incoming sink).map Edge.source = [final])
    (acyclic : ¬ CycleBefore g.edgeList sink) (reaches : Reaches g.edgeList n sink)
    (elsewhere : n ≠ sink) (incoming : e ∈ g.incoming n)
    (isTexture : g.kind? e.source = some .texture) :
    e.source ∈ g.storedTextures (aliased? config g final) := by
  refine mem_storedTextures_aliased.mpr ⟨isTexture, fun _ _ same => acyclic ?_⟩
  obtain ⟨edge, targetEq⟩ := List.mem_filter.mp incoming
  have feeds : Feeds g.edgeList final n := ⟨e, edge, same, of_decide_eq_true targetEq⟩
  have back := Reaches.predecessor predecessor reaches elsewhere
  exact ⟨final, .of_feeds feeds back, .head feeds reaches⟩

/-! ## Accepted graphs -/

namespace Compiler

variable {registry : Registry ω} {config : Config} {g : Graph} {sink : NodeId}
  {schedule : Schedule} {layout : Layout} {w : Workshop ω} {world between : ω}

/-- The symbols of a furnished workshop serve the emitter. -/
theorem furnished_emitter (config : Config) (word : g.neededValues < 2 ^ 64)
    {aliased : Option NodeId} {final : NodeId} (laidOut : Layout.ofGraph g aliased = .ok layout)
    (made : Build.Succeeds (layout.passes.toList.foldlM (addPass registry config g final)
      { symbols := layout.symbols }) world w between) :
    Emitter.Furnished ⟨g, w.symbols, config.defaultMode⟩ ∧
      ∀ n ∈ g.storedTextures aliased, ∃ slot, (w.symbols.slotsOf n).texture = some slot := by
  have complete := Layout.complete_ofGraph word laidOut
  have furnished := Workshop.furnished_of_complete complete made
  have sound := Workshop.Sound.foldlM complete.sound (by rwa [← Array.foldlM_toList])
  refine ⟨⟨sound.symbols, ?_, ?_⟩, ?_⟩
  · intro n
    rw [← complete.counts n]
    exact sound.counts n
  · intro n isPass
    have listed : (n, g.neededPorts n) ∈ layout.passes.toList := by
      rw [complete.passes]
      exact List.mem_map_of_mem (Graph.mem_nodesOfKind.mpr ⟨.pass, isPass, rfl⟩)
    obtain ⟨k, position⟩ := List.mem_iff_getElem?.mp listed
    exact ⟨k, (furnished.pass k n _ position).1⟩
  · intro n member
    rw [furnished.textures n]
    exact complete.textures n member

/-- With the workshop of a graph the scheduled nodes have code exactly when every node
before the sink has what its code needs. -/
theorem exists_program_iff_supplied (word : g.neededValues < 2 ^ 64)
    (scheduled : g.schedule sink = .ok schedule) (present : g.kind? sink = some .present)
    (laidOut : Layout.ofGraph g (aliased? config g schedule.finalNode) = .ok layout)
    (made : Build.Succeeds (layout.passes.toList.foldlM
      (addPass registry config g schedule.finalNode) { symbols := layout.symbols }) world w
      between) :
    (∃ program, Emitter.program ⟨g, w.symbols, config.defaultMode⟩ schedule = .ok program) ↔
      ∀ n, Reaches g.edgeList n sink → g.Supplied n := by
  have covers := Schedule.covers_of_schedule scheduled
  have acyclic := (Graph.exists_schedule_iff.mp ⟨schedule, scheduled, rfl⟩).2
  obtain ⟨furnished, textured⟩ := furnished_emitter config word laidOut made
  rw [Emitter.exists_program_iff, Emitter.exists_code_iff]
  refine forall_congr' fun n => ?_
  rw [covers.mem_evaluationOrder]
  refine forall_congr' fun reaches => ?_
  refine Emitter.exists_nodeCode_iff furnished fun notPresent e incoming isTexture _ => ?_
  have elsewhere : n ≠ sink := fun same => notPresent (same ▸ present)
  exact textured _ (Graph.mem_storedTextures_of_reaches covers.final acyclic reaches
    elsewhere incoming isTexture)

theorem possible_of_wellFormed {final : NodeId}
    (wellFormed : g.WellFormed registry config sink final) :
    Layout.Possible g (aliased? config g final) := by
  constructor
  · intro n member
    exact Graph.exists_floatValue_iff.mpr
      (wellFormed.constants n (Graph.kind?_of_mem_nodesOfKind member))
  · intro n member
    exact Graph.exists_outputPorts_iff.mpr
      (wellFormed.outputs n (Graph.kind?_of_mem_nodesOfKind member))
  · intro n member
    obtain ⟨isTexture, stored⟩ := Graph.mem_storedTextures_aliased.mp member
    exact Graph.exists_textureFormat_iff.mpr (wellFormed.formats n isTexture stored)
  · exact wellFormed.values_room
  · exact wellFormed.textures_room

/-- The conditions on a graph, gathered as the steps of a compilation meet them. -/
theorem wellFormed_iff {final : NodeId} :
    g.WellFormed registry config sink final ↔
      g.kind? sink = some .present ∧
      ((g.incoming sink).map Edge.source = [final] ∧ ¬ CycleBefore g.edgeList sink) ∧
      Layout.Possible g (aliased? config g final) ∧
      ((∀ n ∈ g.nodesOfKind fun kind => kind = .pass,
          registry.contains (g.subtype n) = true ∧
            (writesDefault config g final n = true → (g.outgoing n).length = 1)) ∧
        (g.nodesOfKind fun kind => kind = .pass).length ≤ Symbols.operationSpaceSize) ∧
      ∀ n, Reaches g.edgeList n sink → g.Supplied n := by
  constructor
  · intro wellFormed
    refine ⟨wellFormed.present, ⟨wellFormed.predecessor, wellFormed.acyclic⟩,
      possible_of_wellFormed wellFormed, ⟨?_, wellFormed.passes_room⟩, wellFormed.supplied⟩
    intro n member
    have isPass := Graph.kind?_of_mem_nodesOfKind member
    refine ⟨wellFormed.subtypes n isPass, fun claimed => ?_⟩
    obtain ⟨h, external, renders⟩ := writesDefault_iff.mp claimed
    exact wellFormed.host h n external isPass renders
  · rintro ⟨present, ⟨predecessor, acyclic⟩, possible, ⟨passes, passesRoom⟩, supplied⟩
    have listed {n : NodeId} {kind : NodeKind} (found : g.kind? n = some kind) :
        n ∈ g.nodesOfKind fun other => other = kind :=
      Graph.mem_nodesOfKind.mpr ⟨kind, found, decide_eq_true rfl⟩
    constructor
    · exact present
    · exact predecessor
    · exact acyclic
    · intro n isFloat
      exact Graph.exists_floatValue_iff.mp (possible.floats n (listed isFloat))
    · intro n isPass
      exact Graph.exists_outputPorts_iff.mp (possible.passes n (listed isPass))
    · exact possible.values_room
    · intro n isTexture stored
      have member := Graph.mem_storedTextures_aliased.mpr ⟨isTexture, stored⟩
      exact Graph.exists_textureFormat_iff.mp (possible.textures n member)
    · exact possible.textures_room
    · intro n isPass
      exact (passes n (listed isPass)).1
    · exact passesRoom
    · intro h n external isPass renders
      have claimed := writesDefault_iff.mpr ⟨h, external, renders⟩
      exact (passes n (listed isPass)).2 claimed
    · exact supplied

end Compiler

/-- A compilation succeeds exactly on the well-formed graphs with one present node whose
operations accept their initialization. -/
theorem succeeds_compile_iff_wellFormed {g : Graph} (word : g.neededValues < 2 ^ 64)
    (registry : Registry ω) (config : Config) (world : ω) :
    (∃ i after, Build.Succeeds (compile registry config g) world i after) ↔
      (∃ sink final, (∀ n, g.kind? n = some .present → n = sink) ∧
        g.WellFormed registry config sink final) ∧
      registry.Starts g world := by
  constructor
  · -- Every part of the compilation has met its own condition.
    rintro ⟨i, after, success⟩
    obtain ⟨schedule, layout, w, between, program, planned, made, emitted, initialized, -⟩ :=
      succeeds_compile_iff.mp success
    obtain ⟨sink, presentEq, scheduled, laidOut⟩ := blueprint_eq_ok_iff.mp planned
    have only := Graph.presentNode_eq_ok_iff.mp presentEq
    have present := (only sink).mpr rfl
    have complete := Layout.complete_ofGraph word laidOut
    have furnished := Workshop.furnished_of_complete complete made
    refine ⟨⟨sink, schedule.finalNode, fun n => (only n).mp, wellFormed_iff.mpr
      ⟨present, ?_, ?_, ?_, ?_⟩⟩, ?_⟩
    · exact Graph.exists_schedule_iff.mp ⟨schedule, scheduled, rfl⟩
    · exact (Layout.exists_ofGraph_iff word).mp ⟨layout, laidOut⟩
    · exact (exists_addPasses_of_complete_iff complete).mp ⟨w, between, made⟩
    · exact (exists_program_iff_supplied word scheduled present laidOut made).mp
        ⟨program, emitted⟩
    · rw [Registry.Starts, makeAll_of_complete complete furnished]
      rw [(succeeds_initAll_iff []).mp initialized]
  · -- The parts are made in turn, each from the condition that is left for it.
    rintro ⟨⟨sink, final, unique, wellFormed⟩, starts⟩
    obtain ⟨present, schedulable, possible, passes, supplied⟩ := wellFormed_iff.mp wellFormed
    have presentEq : g.presentNode = .ok sink :=
      Graph.presentNode_eq_ok_iff.mpr fun n => ⟨unique n, fun same => same ▸ present⟩
    obtain ⟨schedule, scheduled, rfl⟩ := Graph.exists_schedule_iff.mpr schedulable
    obtain ⟨layout, laidOut⟩ := (Layout.exists_ofGraph_iff word).mpr possible
    have complete := Layout.complete_ofGraph word laidOut
    obtain ⟨w, between, made⟩ := (exists_addPasses_of_complete_iff complete).mpr passes
    have furnished := Workshop.furnished_of_complete complete made
    obtain ⟨program, emitted⟩ :=
      (exists_program_iff_supplied word scheduled present laidOut made).mpr supplied
    rw [Registry.Starts, makeAll_of_complete complete furnished] at starts
    have initialized := (succeeds_initAll_iff []).mpr (Prod.ext starts rfl)
    exact ⟨_, _, succeeds_compile_iff.mpr ⟨schedule, layout, w, between, program,
      blueprint_eq_ok_iff.mpr ⟨sink, presentEq, scheduled, laidOut⟩, made, emitted,
      initialized, rfl⟩⟩

/-- The sample is compiled, so it is well-formed. -/
theorem wellFormed_of_sample :
    (∃ sink final, (∀ n, Sample.graph.kind? n = some .present → n = sink) ∧
      Sample.graph.WellFormed Sample.registry Sample.config sink final) ∧
    Sample.registry.Starts Sample.graph () :=
  (succeeds_compile_iff_wellFormed Sample.neededValues_lt Sample.registry Sample.config
    ()).mp ⟨_, _, Sample.succeeds_compile⟩

/-! ## A second present node -/

/-- A constant that is shown, next to a present node without a predecessor. -/
def twoSinks : Graph where
  nodes := #[.float "x" ⟨0⟩, .present "out", .present "spare"]
  edges := #[(⟨0⟩, .withPorts ⟨0⟩ 0 ⟨1⟩ 0)]

theorem feeds_twoSinks {source target : NodeId} :
    Feeds twoSinks.edgeList source target ↔ source = ⟨0⟩ ∧ target = ⟨1⟩ := by
  simp [Feeds, twoSinks, Graph.edgeList, Edge.withPorts, eq_comm]

theorem kind?_twoSinks {n : NodeId} {kind : NodeKind} (found : twoSinks.kind? n = some kind) :
    n = ⟨0⟩ ∧ kind = .float ∨ n ≠ ⟨0⟩ ∧ kind = .present := by
  match n with
  | ⟨0⟩ =>
      cases found
      exact Or.inl ⟨rfl, rfl⟩
  | ⟨1⟩ | ⟨2⟩ =>
      cases found
      exact Or.inr ⟨by decide, rfl⟩
  | ⟨k + 3⟩ => cases found

theorem wellFormed_twoSinks :
    twoSinks.WellFormed ({} : Registry Unit) {} ⟨1⟩ ⟨0⟩ := by
  have isPresent {n : NodeId} {kind : NodeKind} (found : twoSinks.kind? n = some kind)
      (notFloat : kind ≠ .float) : kind = .present :=
    ((kind?_twoSinks found).resolve_left fun both => notFloat both.2).2
  constructor
  case present => rfl
  case predecessor => decide
  case acyclic =>
    rintro ⟨n, cycle, -⟩
    obtain ⟨next, feeds, back⟩ := cycle.exists_feeds
    obtain ⟨rfl, rfl⟩ := feeds_twoSinks.mp feeds
    rcases back.cases_head with same | ⟨other, leaves, -⟩
    · exact absurd same (by decide)
    · exact absurd (feeds_twoSinks.mp leaves).1 (by decide)
  case constants =>
    intro n isFloat
    obtain rfl := ((kind?_twoSinks isFloat).resolve_right fun both => by cases both.2).1
    exact ⟨"0", ⟨0⟩, by decide, by decide⟩
  case outputs | subtypes =>
    intro n isPass
    cases isPresent isPass (by decide)
  case formats =>
    intro n isTexture
    cases isPresent isTexture (by decide)
  case host =>
    intro h n _ isPass
    cases isPresent isPass (by decide)
  case values_room | textures_room | passes_room => decide
  case supplied =>
    intro n _
    unfold Graph.Supplied
    split
    · next op isOperator => cases isPresent isOperator (by simp)
    · next isPass => cases isPresent isPass (by decide)
    all_goals trivial

/-- A second present node is refused, although the first one satisfies all conditions. -/
theorem twoSinks_refused :
    twoSinks.neededValues < 2 ^ 64 ∧
      (∃ sink final, twoSinks.WellFormed ({} : Registry Unit) {} sink final) ∧
      ({} : Registry Unit).Starts twoSinks () ∧
      ¬ ∃ i after, Build.Succeeds (compile ({} : Registry Unit) {} twoSinks) () i after := by
  refine ⟨by decide, ⟨_, _, wellFormed_twoSinks⟩, rfl, ?_⟩
  rintro ⟨i, after, success⟩
  have refused : (compile ({} : Registry Unit) {} twoSinks).outcome () =
      (.error .duplicatePresentNode, ()) := rfl
  rw [Build.Succeeds, refused] at success
  cases success

end FrameGraph
