import FrameGraph.Proofs.Binary32.Text
import FrameGraph.Proofs.Compiler.Lookup

/-!
# Literals

A node keeps its constant as text.  Compiling reads the text and puts the constant into the slot
of the node, and the constant that is there has the bits that were written.
-/

namespace FrameGraph

open Compiler

/-! ## Reading constants -/

namespace Graph

variable {g : Graph} {n : NodeId} {id : String} {x : Binary32}

/-- The number that is read from the text of a number. -/
theorem floatValue_of_float (float : g.node? n = some (.float id x)) :
    g.floatValue n = .ok (.ofFloat (if x.isNaN then .nan else x)) := by
  have raw : g.metadata? n valueKey = some x.text := by
    rw [metadata?, float]
    rfl
  rw [floatValue, raw, Option.bind_some, Binary32.ofCharacters?_trim_text]

theorem kind?_of_float (float : g.node? n = some (.float id x)) : g.kind? n = some .float := by
  rw [kind?, float]
  rfl

theorem exists_valuePorts_of_float (kind : g.kind? n = some .float) :
    ∃ slot : Nat, g.valuePorts[slot]? = some (n, 0) := by
  refine List.mem_iff_getElem?.mp (List.mem_append_left _ (List.mem_append_left _ ?_))
  exact List.mem_map_of_mem (mem_nodesOfKind.mpr ⟨.float, kind, rfl⟩)

end Graph

/-! ## Slots of constants -/

section Compilations

variable {ω : Type} {registry : Registry ω} {config : Config} {g : Graph} {i : Instance ω}
  {world left : ω}

/-- The symbols of a compiled graph have the names of its nodes, a constant has one slot, and the
value that was read for it is there. -/
theorem Compiler.exists_slot_of_float (word : g.neededValues < 2 ^ 64)
    (success : Build.Succeeds (compile registry config g) world i left) {n : NodeId}
    (kind : g.kind? n = some .float) :
    i.symbols.names = g.nodes.map Node.id ∧
      ∃ slot c, (i.symbols.slotsOf n).value? 0 = some slot ∧ i.values[slot]? = some c ∧
        g.floatValue n = .ok c := by
  obtain ⟨schedule, layout, w, between, program, planned, made, -, -, rfl⟩ :=
    succeeds_compile_iff.mp success
  obtain ⟨sink, -, -, laidOut⟩ := blueprint_eq_ok_iff.mp planned
  obtain ⟨l, placed, textured⟩ := Layout.exists_textured_ofGraph word laidOut
  have furnished := Workshop.furnished_of_complete (Layout.complete_ofGraph word laidOut) made
  refine ⟨(names_of_addPasses made).trans (textured.names.trans placed.names), ?_⟩
  obtain ⟨slot, here⟩ := Graph.exists_valuePorts_of_float kind
  have cell : (layout.values.toList.map .ok)[slot]? = some (g.floatValue n) := by
    rw [textured.values, placed.cells, ← Graph.valuePorts_eq, List.getElem?_map, here,
      Option.map_some, Graph.initialCell, if_pos kind]
  rw [List.getElem?_map, Option.map_eq_some_iff] at cell
  obtain ⟨c, found, read⟩ := cell
  rw [Graph.valuePorts_eq, placed.ports, ← textured.ports] at here
  refine ⟨slot, c, ?_, Array.getElem?_toList ▸ found, read.symm⟩
  rw [Slots.value?_eq_some_iff] at here ⊢
  rwa [(furnished.values n).1, (furnished.values n).2]

/-- A constant that a node was built with is read from its text with the bits it had, or, if it
is not a number, as something that is none either.  If the value slots fit a word, that is what
the slot of the node holds at first, and the name of the node leads to the slot. -/
theorem literals_survive_their_text {n : NodeId} {id : String} {x : Binary32}
    (success : Build.Succeeds (compile registry config g) world i left)
    (float : g.node? n = some (.float id x)) :
    ∃ y : Binary32, (x.isNaN = false → y = x) ∧ (x.isNaN = true → y.isNaN = true) ∧
      g.floatValue n = .ok (.ofFloat y) ∧
      (g.neededValues < 2 ^ 64 → ∃ slot, (i.symbols.slotsOf n).value? 0 = some slot ∧
        i.values[slot]? = some (.ofFloat y) ∧
        (g.LastNamed id n → i.symbols.valueSlot? id = some slot)) := by
  have read := Graph.floatValue_of_float float
  refine ⟨if x.isNaN then .nan else x, fun number => ?_, fun undefined => ?_, read,
    fun word => ?_⟩
  · rw [number, if_neg Bool.false_ne_true]
  · rw [undefined, if_pos rfl]
    rfl
  · obtain ⟨names, slot, c, owned, held, same⟩ :=
      exists_slot_of_float word success (Graph.kind?_of_float float)
    obtain rfl : c = _ := Except.ok.inj (same.symm.trans read)
    refine ⟨slot, owned, held, fun last => ?_⟩
    exact Symbols.valueSlot?_eq_some_iff.mpr ⟨n, (Symbols.find?_eq_some_iff names).mpr last, owned⟩

end Compilations

namespace Sample

/-- The smallest positive number, whose text has 45 digits behind the point, is negated. -/
def smallest : Graph where
  nodes := #[.float "x" ⟨1⟩, .operator "n" (.numeric .neg), .present "out"]
  edges := #[(⟨0⟩, .withPorts ⟨0⟩ 0 ⟨1⟩ 0), (⟨1⟩, .withPorts ⟨1⟩ 0 ⟨2⟩ 0)]

def smallestCompiled : Instance Unit where
  program := ⟨#[1, 0, 0, 20, 1, 2, 0, 1, 255], by decide⟩
  values := #[⟨1⟩, .zero]
  textures := #[]
  passes := #[]
  framebuffers := #[]
  defaultFramebuffer := .unbound
  symbols := ⟨#["x", "n", "out"], #[⟨0, 1, none, none⟩, ⟨1, 2, none, none⟩, {}], 2, 0, 0⟩
  machine := { stackLimit := 1 }

theorem succeeds_compile_smallest :
    Build.Succeeds (compile registry config smallest) () smallestCompiled () :=
  succeeds_compile_of_plan ⟨[⟨2⟩, ⟨1⟩, ⟨0⟩], ⟨1⟩⟩ #[]
    (by decide +kernel) (by with_unfolding_all exact rfl) rfl rfl rfl rfl rfl

end Sample

theorem smallest_literal_survives :
    ∃ slot, Sample.smallestCompiled.symbols.valueSlot? "x" = some slot ∧
      Sample.smallestCompiled.values[slot]? = some (.ofFloat ⟨1⟩) := by
  have float : Sample.smallest.node? ⟨0⟩ = some (.float "x" ⟨1⟩) := rfl
  have last : Sample.smallest.LastNamed "x" ⟨0⟩ := by
    refine ⟨rfl, fun later above => ?_⟩
    match later, above with
    | ⟨1⟩, _ | ⟨2⟩, _ => decide
    | ⟨k + 3⟩, _ =>
        have absent : (Sample.smallest.node? ⟨k + 3⟩).map Node.id = none := rfl
        rw [absent]
        exact (Option.some_ne_none "x").symm
  obtain ⟨y, same, -, -, placed⟩ :=
    literals_survive_their_text Sample.succeeds_compile_smallest float
  obtain ⟨slot, -, held, found⟩ := placed (by decide)
  exact ⟨slot, found last, same rfl ▸ held⟩

end FrameGraph
