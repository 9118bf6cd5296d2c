import FrameGraph.Proofs.Compiler.Acceptance

/-!
# The order of edges

The order in which edges were added decides which schedule is found, the program and the
order of attachments.  Whether a graph is compiled, the slots of its nodes and its passes
do not depend on it, nor on any metadata of the edges apart from their ports.
-/

namespace FrameGraph

variable {ω : Type}

namespace Edge

/-! ## Wiring -/

/-- The ends of an edge and its ports. -/
structure Wiring where
  source : NodeId
  target : NodeId
  sourcePort : Except String Nat
  targetPort : Except String Nat

/-- All that is read of an edge: its metadata under other keys is not. -/
def wiring (e : Edge) : Wiring := ⟨e.source, e.target, e.sourcePort, e.targetPort⟩

variable {e f : Edge} {first second : List Edge}

theorem source_eq_of_wiring (same : e.wiring = f.wiring) : e.source = f.source :=
  congrArg Wiring.source same

theorem target_eq_of_wiring (same : e.wiring = f.wiring) : e.target = f.target :=
  congrArg Wiring.target same

theorem sourcePort_eq_of_wiring (same : e.wiring = f.wiring) : e.sourcePort = f.sourcePort :=
  congrArg Wiring.sourcePort same

theorem targetPort_eq_of_wiring (same : e.wiring = f.wiring) : e.targetPort = f.targetPort :=
  congrArg Wiring.targetPort same

/-- What depends on the wiring of edges alone is the same over edges that are wired alike. -/
theorem perm_map_of_wiring {β : Type} [Nonempty β] {read : Edge → β}
    (reads : read.FactorsThrough wiring)
    (alike : (first.map wiring).Perm (second.map wiring)) :
    (first.map read).Perm (second.map read) := by
  obtain ⟨readWiring, rfl⟩ := (Function.factorsThrough_iff read).mp reads
  simpa only [List.map_map] using alike.map readWiring

theorem exists_mem_of_wiring (alike : (first.map wiring).Perm (second.map wiring))
    (member : e ∈ first) : ∃ f ∈ second, f.wiring = e.wiring :=
  List.mem_map.mp (alike.mem_iff.mp (List.mem_map_of_mem member))

end Edge

/-- The same nodes, with edges that are wired in the same way in another order. -/
structure Graph.Rearranges (h g : Graph) : Prop where
  nodes : h.nodes = g.nodes
  edges : (h.edgeList.map Edge.wiring).Perm (g.edgeList.map Edge.wiring)

namespace Graph

variable {g h : Graph} {n : NodeId}

/-- The same edges in another order are wired in the same way. -/
theorem Rearranges.of_perm (nodes : h.nodes = g.nodes) (edges : h.edgeList.Perm g.edgeList) :
    h.Rearranges g :=
  ⟨nodes, edges.map _⟩

/-! ## Ports in any order -/

theorem outputPorts_of_perm {count : Nat}
    (outgoing : ((h.outgoing n).map Edge.wiring).Perm ((g.outgoing n).map Edge.wiring))
    (success : g.outputPorts n = .ok count) : h.outputPorts n = .ok count := by
  obtain ⟨readable, countEq⟩ := portCount_eq_ok_iff.mp success
  refine portCount_eq_ok_iff.mpr ⟨?_, ?_⟩
  · intro e member
    obtain ⟨f, otherMember, same⟩ := Edge.exists_mem_of_wiring outgoing member
    rw [← Edge.sourcePort_eq_of_wiring same]
    exact readable f otherMember
  · have counts : Edge.countedPorts.FactorsThrough Edge.wiring := by
      intro e f same
      unfold Edge.countedPorts
      rw [Edge.sourcePort_eq_of_wiring same]
    have commutes : LeftCommutative (max : Nat → Nat → Nat) := ⟨Nat.max_left_comm⟩
    rw [countEq]
    exact ((Edge.perm_map_of_wiring counts outgoing).foldr_eq 0).symm

/-- Accepted inputs stand at their target ports, so that any order of the edges into a node
leads to inputs that are wired alike. -/
theorem inputs_of_perm {edges : List Edge}
    (incoming : ((h.incoming n).map Edge.wiring).Perm ((g.incoming n).map Edge.wiring))
    (success : g.inputs n = .ok edges) :
    ∃ others, h.inputs n = .ok others ∧ others.map Edge.wiring = edges.map Edge.wiring := by
  have byTarget : Edge.targetPort.FactorsThrough Edge.wiring :=
    fun _ _ => Edge.targetPort_eq_of_wiring
  have inOrder : h.PortsInOrder n := by
    have sorted := exists_inputs_iff.mp ⟨edges, success⟩
    have lengthEq := incoming.length_eq
    rw [List.length_map, List.length_map] at lengthEq
    unfold PortsInOrder at sorted ⊢
    rw [lengthEq]
    exact (Edge.perm_map_of_wiring byTarget incoming).trans sorted
  obtain ⟨others, otherSuccess⟩ := exists_inputs_iff.mpr inOrder
  have permutation : (others.map Edge.wiring).Perm (edges.map Edge.wiring) :=
    ((inputs_eq_ok otherSuccess).1.map _).trans
      (incoming.trans ((inputs_eq_ok success).1.symm.map _))
  have lengthEq := permutation.length_eq
  have ports := map_targetPort_of_inputs success
  have samePorts : others.map Edge.targetPort = edges.map Edge.targetPort := by
    rw [List.length_map, List.length_map] at lengthEq
    rw [map_targetPort_of_inputs otherSuccess, ports, lengthEq]
  have distinctPorts : ((edges.map Edge.wiring).map Edge.Wiring.targetPort).Nodup := by
    rw [List.map_map]
    change (edges.map Edge.targetPort).Nodup
    rw [ports]
    exact List.nodup_range.map fun _ _ same => Except.ok.inj same
  refine ⟨others, otherSuccess, ?_⟩
  -- A permutation with the same key at each position, and no key twice, changes nothing.
  apply List.ext_getElem lengthEq
  intro k inside otherInside
  refine List.inj_on_of_nodup_map distinctPorts
    (permutation.mem_iff.mp (List.getElem_mem inside)) (List.getElem_mem otherInside) ?_
  have here := congrArg (fun ports => ports[k]?) samePorts
  rw [List.length_map] at inside otherInside
  simpa [inside, otherInside, Edge.wiring] using here

end Graph

/-! ## Framebuffers over the same textures -/

namespace Framebuffer

/-- The framebuffers bind the same texture slots, maybe in another order. -/
def Alike (first second : Framebuffer) : Prop :=
  ∀ slot, slot ∈ first.textures ↔ slot ∈ second.textures

/-- Tables of framebuffers that are alike one by one. -/
def AllAlike (first second : Array Framebuffer) : Prop :=
  List.Forall₂ Alike first.toList second.toList

variable {first second : Array Framebuffer}

theorem AllAlike.refl (table : Array Framebuffer) : AllAlike table table :=
  List.forall₂_same.mpr fun _ _ _ => Iff.rfl

theorem AllAlike.length_eq (alike : AllAlike first second) : first.size = second.size :=
  List.Forall₂.length_eq alike

theorem AllAlike.push {f k : Framebuffer} (alike : AllAlike first second)
    (here : f.Alike k) : AllAlike (first.push f) (second.push k) := by
  unfold AllAlike
  rw [Array.toList_push, Array.toList_push]
  exact List.rel_append alike (.cons here .nil)

private theorem findIdx?_of_forall₂ {table others : List Framebuffer}
    (alike : List.Forall₂ Alike table others) (slot : Nat) :
    others.findIdx? (fun f => f.textures.contains slot) =
      table.findIdx? fun f => f.textures.contains slot := by
  induction alike with
  | nil => rfl
  | @cons f k _ _ here _ inductionHypothesis =>
      have sameTest : k.textures.contains slot = f.textures.contains slot := by
        rw [Bool.eq_iff_iff, List.contains_iff_mem, List.contains_iff_mem, here slot]
      rw [List.findIdx?_cons, List.findIdx?_cons, sameTest, inductionHypothesis]

/-- A slot is found in the same framebuffer. -/
theorem AllAlike.findIdx?_eq (alike : AllAlike first second) (slot : Nat) :
    second.findIdx? (fun f => f.textures.contains slot) =
      first.findIdx? fun f => f.textures.contains slot := by
  have onLists := findIdx?_of_forall₂ alike slot
  rwa [← List.findIdx?_toArray, ← List.findIdx?_toArray, Array.toArray_toList,
    Array.toArray_toList] at onLists

end Framebuffer

namespace Compiler.Workshop

/-- The workshops differ at most in the order in which framebuffers bind textures. -/
structure Alike (w other : Workshop ω) : Prop where
  symbols : other.symbols = w.symbols
  passes : other.passes = w.passes
  framebuffers : Framebuffer.AllAlike w.framebuffers other.framebuffers

theorem Alike.refl (w : Workshop ω) : w.Alike w := ⟨rfl, rfl, .refl _⟩

theorem Alike.chooseDefault {w other : Workshop ω} (alike : w.Alike other) (config : Config)
    (final : NodeId) :
    Compiler.chooseDefault config other final = Compiler.chooseDefault config w final := by
  unfold Compiler.chooseDefault internalDefault?
  rw [alike.symbols, alike.passes]
  simp only [alike.framebuffers.findIdx?_eq]

end Compiler.Workshop

namespace Graph.Rearranges

variable {g h : Graph} {n : NodeId}

theorem symm (rearranged : h.Rearranges g) : g.Rearranges h :=
  ⟨rearranged.nodes.symm, rearranged.edges.symm⟩

section

variable (rearranged : h.Rearranges g)

include rearranged

/-! ## Nodes and edges -/

theorem kind? (n : NodeId) : h.kind? n = g.kind? n := by
  unfold Graph.kind? Graph.node?
  rw [rearranged.nodes]

theorem metadata? (n : NodeId) (key : String) : h.metadata? n key = g.metadata? n key := by
  unfold Graph.metadata? Graph.node?
  rw [rearranged.nodes]

theorem nameOf (n : NodeId) : h.nameOf n = g.nameOf n := by
  unfold Graph.nameOf Graph.node?
  rw [rearranged.nodes]

theorem nodesOfKind (test : NodeKind → Bool) : h.nodesOfKind test = g.nodesOfKind test := by
  unfold Graph.nodesOfKind
  rw [rearranged.nodes]

theorem incoming (n : NodeId) :
    ((h.incoming n).map Edge.wiring).Perm ((g.incoming n).map Edge.wiring) := by
  have filtered := rearranged.edges.filter fun w => w.target = n
  rwa [List.filter_map, List.filter_map] at filtered

theorem outgoing (n : NodeId) :
    ((h.outgoing n).map Edge.wiring).Perm ((g.outgoing n).map Edge.wiring) := by
  have filtered := rearranged.edges.filter fun w => w.source = n
  rwa [List.filter_map, List.filter_map] at filtered

theorem length_incoming (n : NodeId) : (h.incoming n).length = (g.incoming n).length := by
  simpa only [List.length_map] using (rearranged.incoming n).length_eq

theorem length_outgoing (n : NodeId) : (h.outgoing n).length = (g.outgoing n).length := by
  simpa only [List.length_map] using (rearranged.outgoing n).length_eq

/-- No edge leads into a node, or one that is wired in the same way, or several do. -/
theorem incoming_cases (n : NodeId) :
    (h.incoming n = [] ∧ g.incoming n = []) ∨
      (∃ e f, h.incoming n = [e] ∧ g.incoming n = [f] ∧ e.wiring = f.wiring) ∨
      ∃ e f rest otherE otherF others,
        h.incoming n = e :: f :: rest ∧ g.incoming n = otherE :: otherF :: others := by
  have permutation := rearranged.incoming n
  have lengthEq := rearranged.length_incoming n
  rcases here : h.incoming n with _ | ⟨first, _ | ⟨second, rest⟩⟩
  · rw [here] at lengthEq
    exact Or.inl ⟨rfl, List.length_eq_zero_iff.mp lengthEq.symm⟩
  · rw [here] at lengthEq permutation
    obtain ⟨other, there⟩ := List.length_eq_one_iff.mp lengthEq.symm
    rw [there] at permutation
    have same := List.perm_singleton.mp permutation
    exact Or.inr (Or.inl ⟨first, other, rfl, there, List.singleton_inj.mp same⟩)
  · rw [here] at lengthEq
    rcases there : g.incoming n with _ | ⟨otherFirst, _ | ⟨otherSecond, others⟩⟩
    · simp [there] at lengthEq
    · simp [there] at lengthEq
    · exact Or.inr (Or.inr ⟨first, second, rest, otherFirst, otherSecond, others, rfl, rfl⟩)

/-- An edge of one graph has an edge of the other that is wired in the same way. -/
theorem exists_alike {e : Edge} (member : e ∈ h.edgeList) :
    ∃ f ∈ g.edgeList, f.wiring = e.wiring :=
  Edge.exists_mem_of_wiring rearranged.edges member

theorem feeds_of_feeds {source target : NodeId} (feeds : Feeds h.edgeList source target) :
    Feeds g.edgeList source target := by
  obtain ⟨e, member, rfl, rfl⟩ := feeds
  obtain ⟨f, otherMember, same⟩ := rearranged.exists_alike member
  exact ⟨f, otherMember, Edge.source_eq_of_wiring same, Edge.target_eq_of_wiring same⟩

theorem feeds : Feeds h.edgeList = Feeds g.edgeList := by
  funext source target
  exact propext ⟨rearranged.feeds_of_feeds, rearranged.symm.feeds_of_feeds⟩

theorem presentNode : h.presentNode = g.presentNode := by
  unfold Graph.presentNode
  rw [rearranged.nodesOfKind]

theorem neededPorts (n : NodeId) : h.neededPorts n = g.neededPorts n := by
  have needs : Edge.neededPorts.FactorsThrough Edge.wiring := by
    intro e f same
    unfold Edge.neededPorts
    rw [Edge.sourcePort_eq_of_wiring same]
  have commutes : LeftCommutative (max : Nat → Nat → Nat) := ⟨Nat.max_left_comm⟩
  exact (Edge.perm_map_of_wiring needs (rearranged.outgoing n)).foldr_eq 0

theorem neededValues : h.neededValues = g.neededValues := by
  unfold Graph.neededValues
  rw [rearranged.nodesOfKind, rearranged.nodesOfKind, rearranged.nodesOfKind,
    funext rearranged.neededPorts]

/-- A single edge into a node stays the single one. -/
theorem predecessor {sink final : NodeId}
    (single : (g.incoming sink).map Edge.source = [final]) :
    (h.incoming sink).map Edge.source = [final] := by
  have bySource : Edge.source.FactorsThrough Edge.wiring :=
    fun _ _ => Edge.source_eq_of_wiring
  have : Nonempty NodeId := ⟨sink⟩
  have permutation := Edge.perm_map_of_wiring bySource (rearranged.incoming sink)
  rw [single] at permutation
  exact List.perm_singleton.mp permutation

theorem exists_schedule {sink : NodeId} {schedule : Schedule}
    (scheduled : g.schedule sink = .ok schedule) :
    ∃ other, h.schedule sink = .ok other ∧ other.finalNode = schedule.finalNode := by
  obtain ⟨single, acyclic⟩ := Graph.exists_schedule_iff.mp ⟨schedule, scheduled, rfl⟩
  refine Graph.exists_schedule_iff.mpr ⟨rearranged.predecessor single, ?_⟩
  unfold CycleBefore OnCycle Reaches at acyclic ⊢
  rwa [rearranged.feeds]

/-- A schedule covers a graph whatever the order of its edges. -/
theorem covers {sink : NodeId} {schedule : Schedule} (covers : schedule.Covers g sink) :
    schedule.Covers h sink where
  starts := covers.starts
  nodup := covers.nodup
  mem_iff n := by
    rw [covers.mem_iff]
    unfold Reaches
    rw [rearranged.feeds]
  before e member := by
    obtain ⟨f, otherMember, same⟩ := rearranged.exists_alike member
    rw [← Edge.source_eq_of_wiring same, ← Edge.target_eq_of_wiring same]
    exact covers.before f otherMember
  final := rearranged.predecessor covers.final

/-! ## Layouts -/

theorem floatValue (n : NodeId) : h.floatValue n = g.floatValue n := by
  unfold Graph.floatValue Graph.invalidMetadata
  rw [rearranged.metadata?, rearranged.nameOf]

theorem textureFormat (n : NodeId) : h.textureFormat n = g.textureFormat n := by
  unfold Graph.textureFormat
  rw [rearranged.metadata?]

theorem addLayoutPasses {nodes : List NodeId} {l after : Layout}
    (success : nodes.foldlM (Layout.addPass g) l = .ok after) :
    nodes.foldlM (Layout.addPass h) l = .ok after := by
  induction nodes generalizing l with
  | nil => exact success
  | cons n rest inductionHypothesis =>
      rw [List.foldlM_cons] at success ⊢
      obtain ⟨next, added, success⟩ := bind_eq_ok_iff.mp success
      obtain ⟨ports, symbols, portsEq, allocated, nextEq⟩ := Layout.addPass_eq_ok_iff.mp added
      have again := Graph.outputPorts_of_perm (rearranged.outgoing n) portsEq
      have addedAgain : Layout.addPass h l n = .ok next :=
        Layout.addPass_eq_ok_iff.mpr ⟨ports, symbols, again, allocated, nextEq⟩
      exact bind_eq_ok_iff.mpr ⟨next, addedAgain, inductionHypothesis success⟩

theorem layout {aliased : Option NodeId} {l : Layout}
    (success : Layout.ofGraph g aliased = .ok l) : Layout.ofGraph h aliased = .ok l := by
  have floats : Layout.addFloat h = Layout.addFloat g := by
    funext l n
    simp only [Layout.addFloat, rearranged.floatValue]
  have textures : Layout.addTexture h = Layout.addTexture g := by
    funext l n
    simp only [Layout.addTexture, rearranged.textureFormat]
  have stored : h.storedTextures aliased = g.storedTextures aliased := by
    unfold Graph.storedTextures
    rw [rearranged.nodesOfKind]
  have symbols : Symbols.ofGraph h = Symbols.ofGraph g := by
    unfold Symbols.ofGraph
    rw [rearranged.nodes]
  rw [Layout.ofGraph_eq] at success ⊢
  obtain ⟨values, valuesMade, texturesAdded⟩ := bind_eq_ok_iff.mp success
  obtain ⟨first, second, floatsAdded, operatorsAdded, passesAdded⟩ :=
    Layout.valued_eq_ok_iff.mp valuesMade
  have valuesAgain : Layout.valued h = .ok values := by
    refine Layout.valued_eq_ok_iff.mpr ⟨first, second, ?_, ?_, ?_⟩
    · rw [rearranged.nodesOfKind, floats, symbols]
      exact floatsAdded
    · rw [rearranged.nodesOfKind]
      exact operatorsAdded
    · rw [rearranged.nodesOfKind]
      exact rearranged.addLayoutPasses passesAdded
  refine bind_eq_ok_iff.mpr ⟨values, valuesAgain, ?_⟩
  rw [stored, textures]
  exact texturesAdded

/-! ## Code -/

section Emitted

variable (symbols : Symbols) (defaultMode : NumericMode)

theorem resolveProducer (consumer : NodeId) (port : Nat) {e f : Edge}
    (same : e.wiring = f.wiring) :
    Emitter.resolveProducer ⟨h, symbols, defaultMode⟩ consumer port e =
      Emitter.resolveProducer ⟨g, symbols, defaultMode⟩ consumer port f := by
  simp only [Emitter.resolveProducer, Emitter.valueAddress, Graph.invalidMetadata,
    rearranged.kind?, rearranged.nameOf, Edge.source_eq_of_wiring same,
    Edge.sourcePort_eq_of_wiring same]

theorem resolve (consumer : NodeId) (port : Nat) {e f : Edge} (same : e.wiring = f.wiring) :
    Emitter.resolve ⟨h, symbols, defaultMode⟩ consumer port e =
      Emitter.resolve ⟨g, symbols, defaultMode⟩ consumer port f := by
  simp only [Emitter.resolve, rearranged.kind?, rearranged.nameOf,
    rearranged.resolveProducer symbols defaultMode consumer port same,
    Edge.source_eq_of_wiring same]
  rcases rearranged.incoming_cases f.source with
    ⟨here, there⟩ | ⟨hop, otherHop, here, there, sameHop⟩ | ⟨_, _, _, _, _, _, here, there⟩
  · simp only [here, there]
  · simp only [here, there, Edge.source_eq_of_wiring sameHop,
      rearranged.resolveProducer symbols defaultMode consumer port sameHop]
  · simp only [here, there]

theorem pushes (consumer : NodeId) (port : Nat) {edges others : List Edge}
    (same : edges.map Edge.wiring = others.map Edge.wiring) :
    Emitter.pushes ⟨h, symbols, defaultMode⟩ consumer port edges =
      Emitter.pushes ⟨g, symbols, defaultMode⟩ consumer port others := by
  induction edges generalizing port others with
  | nil =>
      obtain rfl := List.map_eq_nil_iff.mp same.symm
      rfl
  | cons e rest inductionHypothesis =>
      obtain ⟨f, otherRest, rfl, sameHere, sameRest⟩ := List.map_eq_cons_iff.mp same.symm
      rw [Emitter.pushes, Emitter.pushes,
        rearranged.resolve symbols defaultMode consumer port sameHere.symm,
        inductionHypothesis _ sameRest.symm]

theorem valueAddress (n : NodeId) (port : Nat) :
    Emitter.valueAddress ⟨h, symbols, defaultMode⟩ n port =
      Emitter.valueAddress ⟨g, symbols, defaultMode⟩ n port := by
  simp only [Emitter.valueAddress, rearranged.nameOf]

theorem pops (n : NodeId) (count : Nat) :
    Emitter.pops ⟨h, symbols, defaultMode⟩ n count =
      Emitter.pops ⟨g, symbols, defaultMode⟩ n count := by
  induction count with
  | zero => rfl
  | succ port inductionHypothesis =>
      rw [Emitter.pops, Emitter.pops, rearranged.valueAddress, inductionHypothesis]

theorem mode (n : NodeId) :
    Emitter.mode ⟨h, symbols, defaultMode⟩ n = Emitter.mode ⟨g, symbols, defaultMode⟩ n := by
  simp only [Emitter.mode, Graph.invalidMetadata, rearranged.metadata?, rearranged.nameOf]

/-- A node has the same code. -/
theorem nodeCode {code : List Instruction}
    (success : Emitter.nodeCode ⟨g, symbols, defaultMode⟩ n = .ok code) :
    Emitter.nodeCode ⟨h, symbols, defaultMode⟩ n = .ok code := by
  have inputsAgain {edges : List Edge} (inputsEq : g.inputs n = .ok edges) :=
    Graph.inputs_of_perm (rearranged.incoming n) inputsEq
  unfold Emitter.nodeCode at success ⊢
  rw [rearranged.kind?]
  cases kindEq : g.kind? n with
  | none => simpa only [kindEq] using success
  | some kind =>
      simp only [kindEq] at success ⊢
      cases kind with
      | float | texture | present => exact success
      | operator op =>
          obtain ⟨edges, edgesEq, success⟩ := bind_eq_ok_iff.mp success
          obtain ⟨others, othersEq, same⟩ := inputsAgain edgesEq
          have lengthEq : others.length = edges.length := by
            simpa only [List.length_map] using congrArg List.length same
          refine bind_eq_ok_iff.mpr ⟨others, othersEq, ?_⟩
          simpa only [rearranged.mode, rearranged.pushes symbols defaultMode n 0 same,
            rearranged.valueAddress, rearranged.nameOf, lengthEq] using success
      | pass =>
          obtain ⟨edges, edgesEq, success⟩ := bind_eq_ok_iff.mp success
          obtain ⟨others, othersEq, same⟩ := inputsAgain edgesEq
          refine bind_eq_ok_iff.mpr ⟨others, othersEq, ?_⟩
          simpa only [rearranged.pushes symbols defaultMode n 0 same, rearranged.pops,
            rearranged.nameOf] using success

theorem exists_program {sink : NodeId} {first second : Schedule} {program : Program}
    (firstCovers : first.Covers g sink) (secondCovers : second.Covers h sink)
    (success : Emitter.program ⟨g, symbols, defaultMode⟩ first = .ok program) :
    ∃ other, Emitter.program ⟨h, symbols, defaultMode⟩ second = .ok other := by
  rw [Emitter.exists_program_iff, Emitter.exists_code_iff]
  have coded := Emitter.exists_code_iff.mp (Emitter.exists_program_iff.mp ⟨program, success⟩)
  intro n member
  have reaches := (rearranged.symm.covers secondCovers).mem_evaluationOrder.mp member
  obtain ⟨code, emitted⟩ := coded n (firstCovers.mem_evaluationOrder.mpr reaches)
  exact ⟨code, rearranged.nodeCode symbols defaultMode emitted⟩

end Emitted

/-! ## Passes and framebuffers -/

theorem writesDefault (config : Config) (final n : NodeId) :
    Compiler.writesDefault config h final n = Compiler.writesDefault config g final n := by
  rw [Bool.eq_iff_iff, Compiler.writesDefault_iff, Compiler.writesDefault_iff, rearranged.feeds,
    rearranged.kind?]

theorem mem_renderedSlots (symbols : Symbols) (n : NodeId) (slot : Nat) :
    slot ∈ Compiler.renderedSlots h symbols n ↔ slot ∈ Compiler.renderedSlots g symbols n := by
  have byTarget : (fun e : Edge => (symbols.slotsOf e.target).texture).FactorsThrough
      Edge.wiring := by
    intro e f same
    simp only [Edge.target_eq_of_wiring same]
  simp only [Compiler.renderedSlots, mem_distinct, List.mem_filterMap, ← List.mem_map,
    (Edge.perm_map_of_wiring byTarget (rearranged.outgoing n)).mem_iff]

theorem addFramebuffer {config : Config} {final : NodeId} {symbols : Symbols}
    {first second after : Array Framebuffer} {framebuffer : Option Nat}
    (alike : Framebuffer.AllAlike first second)
    (success : Compiler.addFramebuffer config g final symbols first n =
      .ok (framebuffer, after)) :
    ∃ other, Compiler.addFramebuffer config h final symbols second n = .ok (framebuffer, other) ∧
      Framebuffer.AllAlike after other := by
  have sizeEq : first.size = second.size := alike.length_eq
  have sameSlots := rearranged.mem_renderedSlots symbols n
  unfold Compiler.addFramebuffer at success ⊢
  rw [rearranged.writesDefault, rearranged.length_outgoing, rearranged.nameOf]
  by_cases host : Compiler.writesDefault config g final n = true
  · rw [if_pos host] at success ⊢
    by_cases single : (g.outgoing n).length = 1
    · rw [if_pos single] at success ⊢
      cases success
      exact ⟨second, rfl, alike⟩
    · rw [if_neg single] at success
      cases success
  · rw [if_neg host] at success ⊢
    -- The lists of rendered slots may differ in their order, so that only whether they are
    -- empty carries over, and membership.
    cases slotsEq : Compiler.renderedSlots g symbols n with
    | nil =>
        have none : Compiler.renderedSlots h symbols n = [] := by
          rw [List.eq_nil_iff_forall_not_mem]
          intro slot member
          simpa [slotsEq] using (sameSlots slot).mp member
        simp only [slotsEq] at success
        cases success
        exact ⟨second, by simp only [none], alike⟩
    | cons slot slots =>
        simp only [slotsEq] at success
        cases success
        cases othersEq : Compiler.renderedSlots h symbols n with
        | nil =>
            have member := (sameSlots slot).mpr (by simp [slotsEq])
            simp [othersEq] at member
        | cons otherSlot others =>
            refine ⟨second.push { textures := otherSlot :: others }, by rw [sizeEq], ?_⟩
            have here : Framebuffer.Alike ⟨slot :: slots, 0, 0, none⟩
                ⟨otherSlot :: others, 0, 0, none⟩ := by
              intro each
              simpa [slotsEq, othersEq, eq_comm] using (sameSlots each).symm
            exact alike.push here

theorem addPass {registry : Registry ω} {config : Config} {final : NodeId} {ports : Nat}
    {w other next : Compiler.Workshop ω} {world after : ω} (alike : w.Alike other)
    (success : Build.Succeeds (Compiler.addPass registry config g final w (n, ports)) world
      next after) :
    ∃ otherNext, Build.Succeeds (Compiler.addPass registry config h final other (n, ports))
      world otherNext after ∧ next.Alike otherNext := by
  obtain ⟨factory, operation, framebuffer, framebuffers, symbols, found, made, added,
    allocated, rfl⟩ := Compiler.succeeds_addPass_iff.mp success
  obtain ⟨symbolsEq, passesEq, framebuffersAlike⟩ := alike
  obtain ⟨otherFramebuffers, otherAdded, alikeAfter⟩ :=
    rearranged.addFramebuffer framebuffersAlike added
  have subtypeEq : h.subtype n = g.subtype n := by
    unfold Graph.subtype
    rw [rearranged.metadata?]
  refine ⟨_, Compiler.succeeds_addPass_iff.mpr ⟨factory, operation, framebuffer,
    otherFramebuffers, symbols, subtypeEq ▸ found, made, symbolsEq ▸ otherAdded,
    symbolsEq ▸ allocated, rfl⟩, rfl, ?_, alikeAfter⟩
  simp only [passesEq, rearranged.nameOf, rearranged.length_incoming]

theorem addPasses {registry : Registry ω} {config : Config} {final : NodeId}
    {passes : List (NodeId × Nat)} {w made other : Compiler.Workshop ω} {world after : ω}
    (alike : w.Alike other)
    (success : Build.Succeeds (passes.foldlM (Compiler.addPass registry config g final) w)
      world made after) :
    ∃ otherMade, Build.Succeeds
      (passes.foldlM (Compiler.addPass registry config h final) other) world otherMade after ∧
        made.Alike otherMade := by
  have imitate (p : NodeId × Nat) (now next t : Compiler.Workshop ω × ω)
      (related : now.1.Alike t.1 ∧ t.2 = now.2)
      (added : Build.Succeeds (Compiler.addPass registry config g final now.1 p) now.2 next.1
        next.2) :
      ∃ otherNext : Compiler.Workshop ω × ω,
        Build.Succeeds (Compiler.addPass registry config h final t.1 p) t.2 otherNext.1
          otherNext.2 ∧ next.1.Alike otherNext.1 ∧ otherNext.2 = next.2 := by
    obtain ⟨otherNext, otherAdded, nextAlike⟩ := rearranged.addPass related.1 added
    exact ⟨(otherNext, next.2), related.2 ▸ otherAdded, nextAlike, rfl⟩
  obtain ⟨⟨otherMade, _⟩, chained, madeAlike, rfl⟩ :=
    (Build.succeeds_foldlM_iff.mp success).simulate
      (fun now other : Compiler.Workshop ω × ω => now.1.Alike other.1 ∧ other.2 = now.2)
      (fun p _ => imitate p) (show w.Alike (other, world).1 ∧ _ from ⟨alike, rfl⟩)
  exact ⟨otherMade, Build.succeeds_foldlM_iff.mpr chained, madeAlike⟩

/-! ## The whole compilation -/

/-- What is compiled with one order of the edges is compiled with any other one, into an
instance with the same slots and the same passes. -/
theorem succeeds_compile {registry : Registry ω} {config : Config} {i : Instance ω}
    {world after : ω} (success : Build.Succeeds (compile registry config g) world i after) :
    ∃ j, Build.Succeeds (compile registry config h) world j after ∧ j.symbols = i.symbols ∧
      j.values = i.values ∧ j.textures = i.textures ∧ j.passes = i.passes ∧
      j.defaultFramebuffer = i.defaultFramebuffer := by
  obtain ⟨schedule, layout, w, between, program, planned, made, emitted, initialized, rfl⟩ :=
    Compiler.succeeds_compile_iff.mp success
  obtain ⟨sink, present, scheduled, laidOut⟩ := Compiler.blueprint_eq_ok_iff.mp planned
  obtain ⟨other, otherScheduled, finalEq⟩ := rearranged.exists_schedule scheduled
  have aliasedEq : Compiler.aliased? config h other.finalNode =
      Compiler.aliased? config g schedule.finalNode := by
    unfold Compiler.aliased?
    rw [rearranged.kind?, finalEq]
  have otherPlanned : Compiler.blueprint config h = .ok ⟨other, layout⟩ := by
    refine Compiler.blueprint_eq_ok_iff.mpr
      ⟨sink, rearranged.presentNode.trans present, otherScheduled, ?_⟩
    rw [aliasedEq]
    exact rearranged.layout laidOut
  obtain ⟨otherMade, otherAdded, symbolsEq, passesEq, alike⟩ :=
    rearranged.addPasses (Compiler.Workshop.Alike.refl _) made
  obtain ⟨otherProgram, otherEmitted⟩ := rearranged.exists_program w.symbols config.defaultMode
    (Schedule.covers_of_schedule scheduled) (Schedule.covers_of_schedule otherScheduled) emitted
  refine ⟨_, Compiler.succeeds_compile_iff.mpr ⟨other, layout, otherMade, between,
    otherProgram, otherPlanned, finalEq ▸ otherAdded, symbolsEq ▸ otherEmitted,
    passesEq ▸ initialized, rfl⟩, symbolsEq, rfl, rfl, passesEq, ?_⟩
  exact finalEq ▸ Compiler.Workshop.Alike.chooseDefault ⟨symbolsEq, passesEq, alike⟩ config _

end

end Graph.Rearranges

end FrameGraph
