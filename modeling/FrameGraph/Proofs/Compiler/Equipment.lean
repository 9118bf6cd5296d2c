import FrameGraph.Proofs.Compiler.Acceptance

/-!
# The tables of a compiled instance

The textures of an instance have the formats of their nodes, and its passes are those of the
graph in the order of the nodes, each with the framebuffer that it is given.  None of them has
a native object yet.  All of this holds however many value slots the graph needs.
-/

namespace FrameGraph

variable {ω : Type}

/-! ## Layouts -/

/-- A layout lists passes in order, and the textures that it lists have the formats of their
nodes and no storage. -/
structure Layout.Listed (g : Graph) (passes : List NodeId) (l : Layout) : Prop where
  slots : l.symbols.slots.size = g.nodes.size
  operations : l.symbols.operationCount = 0
  passes : l.passes.toList.map Prod.fst = passes
  textureCount : l.textures.size = l.symbols.textureCount
  formats : ∀ n slot, (l.symbols.slotsOf n).texture = some slot →
    ∃ t, l.textures[slot]? = some t ∧ g.textureFormat n = .ok t.format
  bare : ∀ t ∈ l.textures, t.handle = none

/-- Value slots make no difference to the other slots, also when their number passes a
word. -/
theorem Symbols.others_of_allocateValues {s after : Symbols} {n : NodeId} {count : Nat}
    (success : s.allocateValues n count = .ok after) :
    after.slots.size = s.slots.size ∧ after.operationCount = s.operationCount ∧
      after.textureCount = s.textureCount ∧
      ∀ other, (after.slotsOf other).texture = (s.slotsOf other).texture ∧
        (after.slotsOf other).operation = (s.slotsOf other).operation := by
  unfold allocateValues at success
  simp only at success
  split at success
  · cases success
  · cases success
    refine ⟨Array.size_modify .., rfl, rfl, fun other => ?_⟩
    rw [slotsOf_modify]
    split <;> exact ⟨rfl, rfl⟩

namespace Layout

variable {g : Graph} {passes : List NodeId} {l after : Layout}

theorem Listed.allocateValues {n : NodeId} {count : Nat} {symbols : Symbols}
    {values : Array Cell} {others : Array (NodeId × Nat)} {listed : List NodeId}
    (before : l.Listed g passes) (success : l.symbols.allocateValues n count = .ok symbols)
    (othersEq : others.toList.map Prod.fst = listed) :
    Listed g listed ⟨symbols, values, l.textures, others⟩ := by
  obtain ⟨sizeEq, operationsEq, texturesEq, sameSlots⟩ :=
    Symbols.others_of_allocateValues success
  refine ⟨sizeEq.trans before.slots, operationsEq.trans before.operations, othersEq,
    before.textureCount.trans texturesEq.symm, ?_, before.bare⟩
  intro other slot found
  exact before.formats other slot ((sameSlots other).1.symm.trans found)

theorem Listed.addTexture {n : NodeId} (before : l.Listed g passes)
    (success : l.addTexture g n = .ok after) : after.Listed g passes := by
  obtain ⟨format, symbols, formatEq, allocated, rfl⟩ := addTexture_eq_ok_iff.mp success
  have slotsEq := Symbols.slotsOf_allocateTexture allocated
  obtain ⟨-, rfl⟩ := Symbols.allocateTexture_eq_ok allocated
  refine ⟨(Array.size_modify ..).trans before.slots, before.operations, before.passes, ?_, ?_,
    ?_⟩
  · rw [Array.size_push, before.textureCount]
  · intro other slot
    rw [slotsEq]
    split
    · next here =>
        rintro ⟨⟩
        refine ⟨{ format := format }, ?_, here.1 ▸ formatEq⟩
        rw [← before.textureCount]
        exact Array.getElem?_push_size
    · intro found
      obtain ⟨t, here, sameFormat⟩ := before.formats other slot found
      exact ⟨t, getElem?_push_of_some here, sameFormat⟩
  · intro t member
    rcases Array.mem_push.mp member with old | rfl
    · exact before.bare t old
    · rfl

theorem listed_start (g : Graph) : Listed g [] { symbols := .ofGraph g } where
  slots := Array.size_replicate
  operations := rfl
  passes := rfl
  textureCount := rfl
  formats n slot found := by
    rw [Symbols.slotsOf_ofGraph] at found
    cases found
  bare t member := absurd member (Array.not_mem_empty t)

/-- The layout of a graph lists the passes of the graph. -/
theorem listed_ofGraph {aliased : Option NodeId} (success : ofGraph g aliased = .ok l) :
    l.Listed g (g.nodesOfKind fun kind => kind = .pass) := by
  rw [ofGraph_eq] at success
  obtain ⟨values, valuesMade, texturesAdded⟩ := bind_eq_ok_iff.mp success
  obtain ⟨floats, operators, floatsAdded, operatorsAdded, passesAdded⟩ :=
    valued_eq_ok_iff.mp valuesMade
  have floatsListed : floats.Listed g [] := by
    refine foldlM_ok_invariant (fun _ (now : Layout) => now.Listed g []) ?_ (listed_start g)
      floatsAdded
    intro n rest now next listed added
    obtain ⟨symbols, c, allocated, -, rfl⟩ := addFloat_eq_ok_iff.mp added
    exact listed.allocateValues allocated listed.passes
  have operatorsListed : operators.Listed g [] := by
    refine foldlM_ok_invariant (fun _ (now : Layout) => now.Listed g []) ?_ floatsListed
      operatorsAdded
    intro n rest now next listed added
    obtain ⟨symbols, allocated, rfl⟩ := addOperator_eq_ok_iff.mp added
    exact listed.allocateValues allocated listed.passes
  have passesListed : values.Listed g (g.nodesOfKind fun kind => kind = .pass) := by
    have invariant := foldlM_ok_invariant
      (fun rest (now : Layout) => ∃ done,
        (g.nodesOfKind fun kind => kind = .pass) = done ++ rest ∧ now.Listed g done)
      ?_ ⟨[], rfl, operatorsListed⟩ passesAdded
    · obtain ⟨done, allDone, listed⟩ := invariant
      rw [allDone, List.append_nil]
      exact listed
    · rintro n rest now next ⟨done, split, listed⟩ added
      obtain ⟨ports, symbols, -, allocated, rfl⟩ := addPass_eq_ok_iff.mp added
      refine ⟨done ++ [n], by simp [split], listed.allocateValues allocated ?_⟩
      rw [Array.toList_push, List.map_append, listed.passes]
      rfl
  refine foldlM_ok_invariant
    (fun _ (now : Layout) => now.Listed g (g.nodesOfKind fun kind => kind = .pass)) ?_
    passesListed texturesAdded
  intro n rest now next listed added
  exact listed.addTexture added

end Layout

/-! ## Compiled instances -/

open Compiler

/-- What the tables of an instance hold besides cells and native objects. -/
structure Instance.Equipped (config : Config) (g : Graph) (final : NodeId) (i : Instance ω) :
    Prop where
  host : ∀ h, config.framebuffer = .external h → i.defaultFramebuffer = .external h
  formats : ∀ n slot, (i.symbols.slotsOf n).texture = some slot →
    ∃ t, i.textures[slot]? = some t ∧ g.textureFormat n = .ok t.format
  passes : i.passes.size = (g.nodesOfKind fun kind => kind = .pass).length
  pass : ∀ k n, (g.nodesOfKind fun kind => kind = .pass)[k]? = some n →
    (i.symbols.slotsOf n).operation = some k ∧
      ∃ p, i.passes[k]? = some p ∧ p.node = g.nameOf n ∧
        Draws config g final i.symbols i.framebuffers n p.framebuffer

/-- An instance without native objects. -/
structure Instance.Bare (i : Instance ω) : Prop where
  textures : ∀ t ∈ i.textures, t.handle = none
  framebuffers : ∀ f ∈ i.framebuffers, f.handle = none

/-- A framebuffer that is added for a pass has texture slots and no native object yet. -/
theorem Compiler.mem_of_addFramebuffer {config : Config} {g : Graph} {final n : NodeId}
    {symbols : Symbols} {framebuffers after : Array Framebuffer} {framebuffer : Option Nat}
    (success : addFramebuffer config g final symbols framebuffers n =
      .ok (framebuffer, after)) :
    ∀ f ∈ after, f ∈ framebuffers ∨ f.textures ≠ [] ∧ f.handle = none := by
  unfold addFramebuffer at success
  split at success
  · split at success
    · cases success
      exact fun f member => Or.inl member
    · cases success
  · split at success
    · cases success
      exact fun f member => Or.inl member
    · next someSlots =>
        cases success
        intro f member
        rcases Array.mem_push.mp member with old | rfl
        · exact Or.inl old
        · exact Or.inr ⟨someSlots, rfl⟩

/-- Making the passes that a layout lists furnishes a workshop for all of them. -/
theorem Compiler.Workshop.furnished_of_listed {registry : Registry ω} {config : Config}
    {g : Graph} {final : NodeId} {l : Layout} {w : Workshop ω} {world after : ω}
    (listed : l.Listed g (g.nodesOfKind fun kind => kind = .pass))
    (made : Build.Succeeds (l.passes.toList.foldlM (addPass registry config g final)
      { symbols := l.symbols }) world w after) :
    w.Furnished registry config g final l.symbols l.passes.toList world after := by
  refine Workshop.furnished_foldlM ?_ ?_ listed.operations made
  · rw [listed.passes]
    exact g.nodup_nodesOfKind _
  · intro p member
    have isPass : p.1 ∈ g.nodesOfKind fun kind => kind = .pass := by
      rw [← listed.passes]
      exact List.mem_map_of_mem member
    rw [listed.slots]
    exact Graph.index_lt_of_kind? (Graph.kind?_of_mem_nodesOfKind isPass)

/-- A compilation that succeeds equips the instance and creates no native object. -/
theorem Instance.equipped_of_compile {registry : Registry ω} {config : Config} {g : Graph}
    {compiled : Instance ω} {world after : ω}
    (success : Build.Succeeds (compile registry config g) world compiled after) :
    ∃ sink schedule, g.presentNode = .ok sink ∧ g.schedule sink = .ok schedule ∧
      compiled.Equipped config g schedule.finalNode ∧ compiled.Bare := by
  obtain ⟨schedule, layout, w, between, program, planned, made, -, -, rfl⟩ :=
    succeeds_compile_iff.mp success
  obtain ⟨sink, present, scheduled, laidOut⟩ := blueprint_eq_ok_iff.mp planned
  have listed := Layout.listed_ofGraph laidOut
  have furnished := Workshop.furnished_of_listed listed made
  refine ⟨sink, schedule, present, scheduled, ⟨?_, ?_, ?_, ?_⟩, listed.bare, ?_⟩
  · intro h external
    simp [chooseDefault, external]
  · intro n slot found
    exact listed.formats n slot ((furnished.textures n).symm.trans found)
  · rw [← listed.passes, List.length_map]
    exact furnished.size
  · intro k n position
    rw [← listed.passes, List.getElem?_map, Option.map_eq_some_iff] at position
    obtain ⟨⟨n, ports⟩, position, rfl⟩ := position
    obtain ⟨operationEq, p, here, nodeEq, -, -, draws⟩ := furnished.pass k n ports position
    exact ⟨operationEq, p, here, nodeEq,
      draws.congr fun other => (furnished.textures other).symm⟩
  · refine Build.foldlM_invariant
      (fun _ (now : Workshop ω) => ∀ f ∈ now.framebuffers, f.handle = none) ?_
      (fun f member => absurd member (Array.not_mem_empty f)) made
    rintro ⟨n, ports⟩ rest now world after next bare added
    obtain ⟨_, _, _, _, _, -, -, drawn, -, rfl⟩ := succeeds_addPass_iff.mp added
    intro f member
    rcases mem_of_addFramebuffer drawn f member with earlier | ⟨-, empty⟩
    · exact bare f earlier
    · exact empty

end FrameGraph
