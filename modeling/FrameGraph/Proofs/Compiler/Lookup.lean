import FrameGraph.Proofs.Compiler.Linked
import FrameGraph.Proofs.Compiler.Placement

/-!
# Lookups

The symbols of a compiled graph, the tables of the instance and the signatures of its operations
all follow the order of the nodes.  A lookup by name finds the slots of the last node that has
the name.
-/

namespace FrameGraph

open Compiler

/-! ## Looking up -/

theorem find?_reverse_range {test : Nat → Bool} {count index : Nat} :
    (List.range count).reverse.find? test = some index ↔
      index < count ∧ test index = true ∧
        ∀ later, index < later → later < count → test later = false := by
  simp only [List.find?_eq_some_iff_getElem, List.getElem_reverse, List.getElem_range,
    List.length_reverse, List.length_range, Bool.not_eq_true']
  constructor
  · rintro ⟨here, place, bound, rfl, none⟩
    refine ⟨by omega, here, fun later above below => ?_⟩
    have before := none (count - 1 - later) (by omega)
    rwa [Nat.sub_sub_self (by omega)] at before
  · rintro ⟨below, here, none⟩
    refine ⟨here, count - 1 - index, by omega, by omega, fun earlier before => ?_⟩
    exact none _ (by omega) (by omega)

/-- The last node with a name. -/
def Graph.LastNamed (g : Graph) (id : String) (n : NodeId) : Prop :=
  (g.node? n).map Node.id = some id ∧
    ∀ later : NodeId, n.index < later.index → (g.node? later).map Node.id ≠ some id

namespace Symbols

variable {s : Symbols} {g : Graph} {id : String}

/-- A name stands for the last node that has it. -/
theorem find?_eq_some_iff (named : s.names = g.nodes.map Node.id) {n : NodeId} :
    s.find? id = some n ↔ g.LastNamed id n := by
  have nameEq (index : Nat) : s.names[index]? = (g.node? ⟨index⟩).map Node.id := by
    rw [named, Array.getElem?_map]
    rfl
  obtain ⟨index⟩ := n
  unfold find? Graph.LastNamed
  rw [Option.map_eq_some_iff]
  simp only [NodeId.mk.injEq, exists_eq_right, find?_reverse_range, decide_eq_true_eq,
    decide_eq_false_iff_not, nameEq]
  constructor
  · rintro ⟨-, here, none⟩
    refine ⟨here, fun later above found => ?_⟩
    have bound : later.index < s.names.size := by
      rw [← nameEq] at found
      exact (Array.getElem?_eq_some_iff.mp found).1
    exact none later.index above bound found
  · rintro ⟨here, none⟩
    refine ⟨?_, here, fun later above _ => none ⟨later⟩ above⟩
    rw [← nameEq] at here
    exact (Array.getElem?_eq_some_iff.mp here).1

theorem valueSlots?_eq_some_iff {start stop : Nat} :
    s.valueSlots? id = some (start, stop) ↔ ∃ n, s.find? id = some n ∧ start < stop ∧
      ∀ slot, (start ≤ slot ∧ slot < stop) ↔
        ∃ port, (s.slotsOf n).value? port = some slot := by
  have range (t : Slots) (slot : Nat) :
      (∃ port, t.value? port = some slot) ↔ t.start ≤ slot ∧ slot < t.stop := by
    simp only [Slots.value?_eq_some_iff]
    constructor
    · rintro ⟨port, rfl, below⟩
      exact ⟨Nat.le_add_right _ _, below⟩
    · rintro ⟨above, below⟩
      exact ⟨slot - t.start, by omega, below⟩
  simp only [valueSlots?, Option.bind_eq_bind, Option.bind_eq_some_iff, range]
  refine exists_congr fun n => and_congr_right fun _ => ?_
  generalize s.slotsOf n = t
  constructor
  · intro found
    split at found
    · next filled =>
        cases found
        exact ⟨filled, fun slot => Iff.rfl⟩
    · cases found
  · -- Two ranges with the same members, one of them not empty, have the same ends.
    rintro ⟨filled, same⟩
    have first := (same start).mp ⟨Nat.le_refl _, filled⟩
    have last := (same (stop - 1)).mp (by omega)
    have firstBack := (same t.start).mpr (by omega)
    have lastBack := (same (t.stop - 1)).mpr (by omega)
    rw [if_pos (by omega)]
    exact congrArg some (Prod.ext (by simp only; omega) (by simp only; omega))

theorem valueSlot?_eq_some_iff {slot : Nat} :
    s.valueSlot? id = some slot ↔
      ∃ n, s.find? id = some n ∧ (s.slotsOf n).value? 0 = some slot := by
  simp only [valueSlot?, valueSlots?, Option.map_eq_some_iff, Option.bind_eq_bind,
    Option.bind_eq_some_iff, Slots.value?_eq_some_iff, Nat.add_zero]
  constructor
  · rintro ⟨_, ⟨n, found, inside⟩, rfl⟩
    split at inside
    · next filled =>
        cases inside
        exact ⟨n, found, rfl, filled⟩
    · cases inside
  · rintro ⟨n, found, rfl, filled⟩
    exact ⟨_, ⟨n, found, if_pos filled⟩, rfl⟩

theorem textureSlot?_eq_some_iff {slot : Nat} :
    s.textureSlot? id = some slot ↔
      ∃ n, s.find? id = some n ∧ (s.slotsOf n).texture = some slot := by
  simp only [textureSlot?, Option.bind_eq_bind, Option.bind_eq_some_iff]

theorem operationIndex?_eq_some_iff {index : Nat} :
    s.operationIndex? id = some index ↔
      ∃ n, s.find? id = some n ∧ (s.slotsOf n).operation = some index := by
  simp only [operationIndex?, Option.bind_eq_bind, Option.bind_eq_some_iff]

end Symbols

/-! ## Compiled instances -/

variable {ω : Type}

/-- The slots of an instance are those of its graph, in order, and the lookups by name find
them. -/
structure Instance.LaidOut (config : Config) (g : Graph) (final : NodeId) (i : Instance ω) :
    Prop where
  values : ∀ slot n port, g.valuePorts[slot]? = some (n, port) ↔
    (i.symbols.slotsOf n).value? port = some slot
  cells : i.values.toList.map .ok = g.valuePorts.map g.initialCell
  textures : ∀ slot n, (g.storedTextures (aliased? config g final))[slot]? = some n ↔
    (i.symbols.slotsOf n).texture = some slot
  formats : i.textures.toList.map (fun t => .ok t.format) =
    (g.storedTextures (aliased? config g final)).map g.textureFormat
  operations : ∀ k n, (g.nodesOfKind fun kind => kind = .pass)[k]? = some n ↔
    (i.symbols.slotsOf n).operation = some k
  signatures : i.passes.toList.map (fun p => (p.node, p.task.signature)) =
    (g.nodesOfKind fun kind => kind = .pass).map fun n =>
      (g.nameOf n, ⟨(g.incoming n).length, g.neededPorts n⟩)
  valueCount : i.symbols.valueCount = i.values.size ∧ i.symbols.valueCount ≤ 32768
  textureCount : i.symbols.textureCount = i.textures.size ∧ i.symbols.textureCount ≤ 32768
  operationCount : i.symbols.operationCount = i.passes.size
  valueSlots : ∀ id start stop, i.symbols.valueSlots? id = some (start, stop) ↔
    ∃ n, g.LastNamed id n ∧ start < stop ∧
      ∀ slot, (start ≤ slot ∧ slot < stop) ↔ ∃ port, g.valuePorts[slot]? = some (n, port)
  valueSlot : ∀ id slot, i.symbols.valueSlot? id = some slot ↔
    ∃ n, g.LastNamed id n ∧ g.valuePorts[slot]? = some (n, 0)
  textureSlot : ∀ id slot, i.symbols.textureSlot? id = some slot ↔
    ∃ n, g.LastNamed id n ∧ (g.storedTextures (aliased? config g final))[slot]? = some n
  operationIndex : ∀ id k, i.symbols.operationIndex? id = some k ↔
    ∃ n, g.LastNamed id n ∧ (g.nodesOfKind fun kind => kind = .pass)[k]? = some n

/-- Making passes leaves the names of the nodes alone. -/
theorem Compiler.names_of_addPasses {registry : Registry ω} {config : Config} {g : Graph}
    {final : NodeId} {symbols : Symbols} {passes : List (NodeId × Nat)} {w : Workshop ω}
    {world after : ω}
    (success : Build.Succeeds
      (passes.foldlM (addPass registry config g final) { symbols := symbols }) world w after) :
    w.symbols.names = symbols.names := by
  refine Build.foldlM_invariant
    (fun _ (now : Workshop ω) => now.symbols.names = symbols.names) ?_ rfl success
  rintro ⟨n, ports⟩ rest now world after next kept added
  obtain ⟨_, _, _, _, handed, -, -, -, allocated, rfl⟩ := succeeds_addPass_iff.mp added
  rw [(Symbols.allocateOperation_eq_ok allocated).2]
  exact kept

/-- An operation index is the place of its pass. -/
theorem Compiler.Workshop.Furnished.operation_eq_some_iff {registry : Registry ω}
    {config : Config} {g : Graph} {final n : NodeId} {l : Layout} {w : Workshop ω}
    {world after : ω} {k : Nat}
    (furnished : w.Furnished registry config g final l.symbols l.passes.toList world after)
    (sound : w.Sound g l) :
    (w.symbols.slotsOf n).operation = some k ↔ ∃ ports, l.passes.toList[k]? = some (n, ports) := by
  constructor
  · intro found
    obtain ⟨ports, member, -⟩ := sound.signatures n k found
    obtain ⟨place, there⟩ := List.mem_iff_getElem?.mp (Array.mem_toList_iff.mpr member)
    have same := (furnished.pass place n ports there).1.symm.trans found
    cases same
    exact ⟨ports, there⟩
  · rintro ⟨ports, there⟩
    exact (furnished.pass k n ports there).1

/-- A compilation that succeeds lays the slots out in the order of the nodes, and the symbols,
the tables and the signatures agree on them. -/
theorem slots_follow_the_nodes {registry : Registry ω} {config : Config} {g : Graph}
    {i : Instance ω} {world left : ω} (word : g.neededValues < 2 ^ 64)
    (success : Build.Succeeds (compile registry config g) world i left) :
    ∃ sink schedule, g.presentNode = .ok sink ∧ g.schedule sink = .ok schedule ∧
      i.LaidOut config g schedule.finalNode := by
  obtain ⟨schedule, layout, w, between, program, planned, made, -, -, rfl⟩ :=
    succeeds_compile_iff.mp success
  obtain ⟨sink, present, scheduled, laidOut⟩ := blueprint_eq_ok_iff.mp planned
  obtain ⟨l, placed, textured⟩ := Layout.exists_textured_ofGraph word laidOut
  have complete := Layout.complete_ofGraph word laidOut
  have furnished := Workshop.furnished_of_complete complete made
  have sound : w.Sound g layout := by
    rw [Array.foldlM_toList] at made
    exact Workshop.Sound.foldlM complete.sound made
  have named : w.symbols.names = g.nodes.map Node.id :=
    (names_of_addPasses made).trans (textured.names.trans placed.names)
  have values (slot : Nat) (n : NodeId) (port : Nat) :
      g.valuePorts[slot]? = some (n, port) ↔ (w.symbols.slotsOf n).value? port = some slot := by
    rw [Graph.valuePorts_eq, placed.ports, ← textured.ports]
    simp only [Slots.value?_eq_some_iff, furnished.values n]
  have textures (slot : Nat) (n : NodeId) :
      (g.storedTextures (aliased? config g schedule.finalNode))[slot]? = some n ↔
        (w.symbols.slotsOf n).texture = some slot := by
    rw [textured.slots, furnished.textures]
  have operations (k : Nat) (n : NodeId) :
      (g.nodesOfKind fun kind => kind = .pass)[k]? = some n ↔
        (w.symbols.slotsOf n).operation = some k := by
    rw [furnished.operation_eq_some_iff sound, complete.passes]
    simp
  refine ⟨sink, schedule, present, scheduled, ?_⟩
  constructor
  case values => exact values
  case textures => exact textures
  case operations => exact operations
  case signatures =>
    dsimp only
    rw [furnished.signatures, complete.passes, List.map_map]
    rfl
  case cells =>
    dsimp only
    rw [textured.values, placed.cells, Graph.valuePorts_eq]
  case formats => exact textured.formats
  case valueCount =>
    exact ⟨sound.valueCount.trans complete.sound.values.symm, sound.symbols.values_bound⟩
  case textureCount =>
    exact ⟨sound.textureCount.trans complete.sound.textures.symm, sound.symbols.textures_bound⟩
  case operationCount => exact sound.operations.symm
  case valueSlots =>
    intro id start stop
    simp only [Symbols.valueSlots?_eq_some_iff, Symbols.find?_eq_some_iff named, values]
  case valueSlot =>
    intro id slot
    simp only [Symbols.valueSlot?_eq_some_iff, Symbols.find?_eq_some_iff named, values]
  case textureSlot =>
    intro id slot
    simp only [Symbols.textureSlot?_eq_some_iff, Symbols.find?_eq_some_iff named, textures]
  case operationIndex =>
    intro id k
    simp only [Symbols.operationIndex?_eq_some_iff, Symbols.find?_eq_some_iff named, operations]

theorem slots_of_sample :
    ∃ sink schedule, Sample.graph.presentNode = .ok sink ∧
      Sample.graph.schedule sink = .ok schedule ∧
      Sample.compiled.LaidOut Sample.config Sample.graph schedule.finalNode :=
  slots_follow_the_nodes Sample.neededValues_lt Sample.succeeds_compile

/-! ## A name of two nodes -/

/-- A constant and a texture of the same name, as replacing a node can leave them. -/
def shadowed : Graph where
  nodes := #[.float "a" ⟨0⟩, .texture "a" "RGBA8", .present "out"]
  edges := #[(⟨0⟩, .withPorts ⟨0⟩ 0 ⟨2⟩ 0)]

def shadowedInstance : Instance Unit where
  program := ⟨#[255], by decide⟩
  values := #[.zero]
  textures := #[{ format := .rgba8 }]
  passes := #[]
  framebuffers := #[]
  defaultFramebuffer := .external .null
  symbols := ⟨#["a", "a", "out"], #[⟨0, 1, none, none⟩, ⟨0, 0, some 0, none⟩, {}], 1, 1, 0⟩
  machine := { stackLimit := 1024 }

/-- The name leads to the texture only: the slot of the constant is not found by it. -/
theorem shadowed_constant_not_found :
    shadowed.neededValues < 2 ^ 64 ∧
      Build.Succeeds (compile ({} : Registry Unit) {} shadowed) () shadowedInstance () ∧
      shadowed.nameOf ⟨0⟩ = "a" ∧ shadowed.valuePorts[0]? = some (⟨0⟩, 0) ∧
      shadowedInstance.symbols.valueSlot? "a" = none := by
  refine ⟨by decide, ?_, rfl, rfl, rfl⟩
  unfold Build.Succeeds
  with_unfolding_all rfl

end FrameGraph
