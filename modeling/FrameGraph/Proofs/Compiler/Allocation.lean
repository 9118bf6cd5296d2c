import FrameGraph.Proofs.Compiler.Layout
import Mathlib.Data.List.Sigma

/-!
# Layouts that can be made

A graph has a layout exactly when its constants have values, its passes name readable
source ports, its textures name formats, and both memories have room.  The layout gives
every node as many value slots as the node has output ports, every texture that is not
replaced a texture slot, and lists the passes in the order of the nodes.
-/

namespace FrameGraph

namespace Graph

variable {g : Graph} {n : NodeId}

/-! ## What nodes say about themselves -/

/-- The number of output ports of a node.  Each of them has a value slot. -/
def outputCount (g : Graph) (n : NodeId) : Nat :=
  match g.kind? n with
  | some .float | some (.operator _) => 1
  | some .pass => g.neededPorts n
  | some .texture | some .present | none => 0

/-- The textures that have storage of their own. -/
def storedTextures (g : Graph) (aliased : Option NodeId) : List NodeId :=
  (g.nodesOfKind fun kind => kind = .texture).filter fun n => some n ≠ aliased

/-- What a node adds to the list of the passes. -/
def passEntries (g : Graph) (n : NodeId) : List (NodeId × Nat) :=
  if g.kind? n = some .pass then [(n, g.neededPorts n)] else []

theorem kind?_of_mem_nodesOfKind {kind : NodeKind}
    (member : n ∈ g.nodesOfKind fun other => other = kind) : g.kind? n = some kind := by
  obtain ⟨other, found, same⟩ := mem_nodesOfKind.mp member
  rw [found, of_decide_eq_true same]

theorem nodup_nodesOfKind (g : Graph) (test : NodeKind → Bool) :
    (g.nodesOfKind test).Nodup := by
  have positions : (g.nodes.toList.zipIdx.map Prod.snd).Nodup :=
    List.nodup_zipIdx_map_snd g.nodes.toList
  have selected := positions.sublist
    ((List.filter_sublist (p := fun p => test p.1.kind)).map Prod.snd)
  have injective : Function.Injective NodeId.mk := fun _ _ same => NodeId.mk.inj same
  have mapped := selected.map injective
  rw [List.map_map] at mapped
  exact mapped

theorem exists_operator_of_mem (member : n ∈ g.nodesOfKind isOperator) :
    ∃ op, g.kind? n = some (.operator op) := by
  obtain ⟨kind, found, test⟩ := mem_nodesOfKind.mp member
  cases kind with
  | operator op => exact ⟨op, found⟩
  | present | texture | float | pass => cases test

theorem exists_outputPorts_iff :
    (∃ count, g.outputPorts n = .ok count) ↔
      ∀ e ∈ g.outgoing n, ∃ port, e.sourcePort = .ok port := by
  unfold outputPorts
  simp only [portCount_eq_ok_iff, exists_and_left, exists_eq, and_true]

theorem exists_floatValue_iff :
    (∃ c, g.floatValue n = .ok c) ↔
      ∃ raw x, g.metadata? n valueKey = some raw ∧
        Binary32.ofCharacters? (Text.trim raw.toList) = some x := by
  unfold floatValue
  cases g.metadata? n valueKey with
  | none => simp
  | some raw =>
      cases valueEq : Binary32.ofCharacters? (Text.trim raw.toList) with
      | none => simp [valueEq]
      | some x => simp [valueEq]

theorem exists_textureFormat_iff :
    (∃ format, g.textureFormat n = .ok format) ↔
      ∃ name format, g.metadata? n formatKey = some name ∧
        TextureFormat.ofName? name = some format := by
  unfold textureFormat
  cases g.metadata? n formatKey with
  | none =>
      have nameless : TextureFormat.ofName? "" = none := by decide
      simp [nameless]
  | some name =>
      cases formatEq : TextureFormat.ofName? name with
      | none => simp [formatEq]
      | some format => simp [formatEq]

/-! ## Counting outputs -/

theorem outputCount_of_float (kind : g.kind? n = some .float) : g.outputCount n = 1 := by
  simp only [outputCount, kind]

theorem outputCount_of_operator {op : Operator} (kind : g.kind? n = some (.operator op)) :
    g.outputCount n = 1 := by
  simp only [outputCount, kind]

theorem outputCount_of_pass (kind : g.kind? n = some .pass) :
    g.outputCount n = g.neededPorts n := by
  simp only [outputCount, kind]

/-- The value slots that a graph needs are those of the outputs of its nodes. -/
theorem neededValues_eq (g : Graph) :
    g.neededValues =
      ((g.nodesOfKind fun kind => kind = .float).map g.outputCount).sum +
        ((g.nodesOfKind isOperator).map g.outputCount).sum +
        ((g.nodesOfKind fun kind => kind = .pass).map g.outputCount).sum := by
  have one {nodes : List NodeId} (each : ∀ n ∈ nodes, g.outputCount n = 1) :
      (nodes.map g.outputCount).sum = nodes.length := by
    have ones : nodes.map g.outputCount = nodes.map fun _ => 1 := List.map_congr_left each
    simp [ones]
  have floats := one fun n member => outputCount_of_float (kind?_of_mem_nodesOfKind member)
  have operators := one fun n member => by
    obtain ⟨op, kind⟩ := exists_operator_of_mem member
    exact outputCount_of_operator kind
  have passes : (g.nodesOfKind fun kind => kind = .pass).map g.outputCount =
      (g.nodesOfKind fun kind => kind = .pass).map g.neededPorts :=
    List.map_congr_left fun n member =>
      outputCount_of_pass (kind?_of_mem_nodesOfKind member)
  rw [neededValues, floats, operators, passes]

end Graph

/-! ## Room for slots -/

namespace Symbols

variable {s : Symbols} {n : NodeId}

theorem exists_allocateValues_iff {count : Nat} (word : s.valueCount + count < 2 ^ 64) :
    (∃ after, s.allocateValues n count = .ok after) ↔
      s.valueCount + count ≤ Address.spaceSize := by
  unfold allocateValues
  simp only [Nat.mod_eq_of_lt word]
  by_cases full : Address.spaceSize < s.valueCount + count
  · simp only [if_pos full]
    exact iff_of_false (by simp) (Nat.not_le_of_lt full)
  · simp only [if_neg full]
    exact iff_of_true ⟨_, rfl⟩ (Nat.le_of_not_lt full)

theorem exists_allocateTexture_iff :
    (∃ after, s.allocateTexture n = .ok after) ↔ s.textureCount + 1 ≤ Address.spaceSize := by
  unfold allocateTexture
  by_cases full : Address.spaceSize ≤ s.textureCount
  · simp only [if_pos full]
    exact iff_of_false (by simp) (Nat.not_le_of_lt (Nat.lt_succ_of_le full))
  · simp only [if_neg full]
    exact iff_of_true ⟨_, rfl⟩ (Nat.lt_of_not_le full)

theorem exists_allocateOperation_iff :
    (∃ after, s.allocateOperation n = .ok after) ↔
      s.operationCount + 1 ≤ operationSpaceSize := by
  unfold allocateOperation
  by_cases full : operationSpaceSize ≤ s.operationCount
  · simp only [if_pos full]
    exact iff_of_false (by simp) (Nat.not_le_of_lt (Nat.lt_succ_of_le full))
  · simp only [if_neg full]
    exact iff_of_true ⟨_, rfl⟩ (Nat.lt_of_not_le full)

end Symbols

namespace Layout

variable {g : Graph} {l after : Layout} {n : NodeId}

/-! ## Adding nodes with values -/

/-- Between two layouts nodes were given value slots for their outputs, the passes among
them were listed, and all other nodes kept their slots. -/
structure Served (g : Graph) (nodes : List NodeId) (l after : Layout) : Prop where
  sound : after.Sound g
  valueCount : after.symbols.valueCount =
    l.symbols.valueCount + (nodes.map g.outputCount).sum
  textureCount : after.symbols.textureCount = l.symbols.textureCount
  passes : after.passes.toList = l.passes.toList ++ nodes.flatMap g.passEntries
  counts : ∀ n ∈ nodes, (after.symbols.slotsOf n).count = g.outputCount n
  others : ∀ n, n ∉ nodes → after.symbols.slotsOf n = l.symbols.slotsOf n

theorem Served.refl (sound : l.Sound g) : Served g [] l l where
  sound := sound
  valueCount := by simp
  textureCount := rfl
  passes := by simp
  counts := by simp
  others _ _ := rfl

theorem Served.append {between : Layout} {first second : List NodeId}
    (earlier : Served g first l between) (later : Served g second between after) :
    Served g (first ++ second) l after where
  sound := later.sound
  valueCount := by
    rw [later.valueCount, earlier.valueCount, List.map_append, List.sum_append,
      Nat.add_assoc]
  textureCount := later.textureCount.trans earlier.textureCount
  passes := by
    rw [later.passes, earlier.passes, List.flatMap_append, List.append_assoc]
  counts n member := by
    by_cases again : n ∈ second
    · exact later.counts n again
    · rw [later.others n again]
      exact earlier.counts n ((List.mem_append.mp member).resolve_right again)
  others n absent := by
    rw [List.mem_append, not_or] at absent
    rw [later.others n absent.2, earlier.others n absent.1]

theorem Served.valueCount_add (served : Served g [n] l after) :
    after.symbols.valueCount = l.symbols.valueCount + g.outputCount n := by
  simpa using served.valueCount

/-- A way of adding nodes that succeeds on valid nodes as long as there is room, and
serves each of them. -/
structure Phase (g : Graph) (add : Layout → NodeId → Except Error Layout)
    (Valid : NodeId → Prop) (nodes : List NodeId) : Prop where
  possible : ∀ n ∈ nodes, ∀ l : Layout,
    l.symbols.valueCount + g.outputCount n < 2 ^ 64 →
      ((∃ after, add l n = .ok after) ↔
        Valid n ∧ l.symbols.valueCount + g.outputCount n ≤ Address.spaceSize)
  serves : ∀ n ∈ nodes, ∀ l after : Layout, l.Sound g →
    l.symbols.valueCount + g.outputCount n < 2 ^ 64 → add l n = .ok after →
      Served g [n] l after

namespace Phase

variable {add : Layout → NodeId → Except Error Layout} {Valid : NodeId → Prop}
  {nodes : List NodeId}

/-- A phase that succeeds serves its nodes. -/
theorem served (phase : Phase g add Valid nodes) (sound : l.Sound g)
    (word : l.symbols.valueCount + (nodes.map g.outputCount).sum < 2 ^ 64)
    (success : nodes.foldlM add l = .ok after) : Served g nodes l after := by
  induction nodes generalizing l with
  | nil =>
      cases success
      exact .refl sound
  | cons n rest inductionHypothesis =>
      rw [List.map_cons, List.sum_cons] at word
      rw [List.foldlM_cons] at success
      obtain ⟨next, added, success⟩ := bind_eq_ok_iff.mp success
      have first := phase.serves n List.mem_cons_self l next sound (by omega) added
      have restPhase : Phase g add Valid rest :=
        ⟨fun m member => phase.possible m (List.mem_cons_of_mem n member),
          fun m member => phase.serves m (List.mem_cons_of_mem n member)⟩
      have others := inductionHypothesis restPhase first.sound
        (by rw [first.valueCount_add]; omega) success
      exact first.append others

/-- A phase succeeds exactly when its nodes are valid and their outputs have room. -/
theorem exists_iff (phase : Phase g add Valid nodes) (sound : l.Sound g)
    (word : l.symbols.valueCount + (nodes.map g.outputCount).sum < 2 ^ 64) :
    (∃ after, nodes.foldlM add l = .ok after) ↔
      (∀ n ∈ nodes, Valid n) ∧
        l.symbols.valueCount + (nodes.map g.outputCount).sum ≤ Address.spaceSize := by
  simp only [foldlM_eq_ok_iff]
  have fits {n : NodeId} {rest : List NodeId} {now : Layout}
      (total : now.symbols.valueCount + ((n :: rest).map g.outputCount).sum < 2 ^ 64) :
      now.symbols.valueCount + g.outputCount n < 2 ^ 64 := by
    rw [List.map_cons, List.sum_cons] at total
    omega
  refine Chained.exists_iff
    (fun rest (now : Layout) => rest ⊆ nodes ∧ now.Sound g ∧
      now.symbols.valueCount + (rest.map g.outputCount).sum < 2 ^ 64)
    (fun now => now.symbols.valueCount) ?_ ?_ ⟨List.Subset.refl nodes, sound, word⟩
    sound.symbols.values_bound
  · intro n rest now ⟨subset, _, total⟩
    exact phase.possible n (subset List.mem_cons_self) now (fits total)
  · intro n rest now next ⟨subset, nowSound, total⟩ added
    have served := phase.serves n (subset List.mem_cons_self) now next nowSound (fits total)
      added
    have grown := served.valueCount_add
    refine ⟨⟨fun _ member => subset (List.mem_cons_of_mem n member), served.sound, ?_⟩,
      grown⟩
    rw [List.map_cons, List.sum_cons] at total
    rw [grown]
    omega

end Phase

/-- Handing out the value slots of a node serves it. -/
private theorem served_of_allocateValues (sound : l.Sound g) (afterSound : after.Sound g)
    (word : l.symbols.valueCount + g.outputCount n < 2 ^ 64)
    (inside : n.index < g.nodes.size)
    (allocated : l.symbols.allocateValues n (g.outputCount n) = .ok after.symbols)
    (passes : after.passes.toList = l.passes.toList ++ g.passEntries n) :
    Served g [n] l after := by
  have slotsEq := Symbols.slotsOf_allocateValues word allocated
  have symbolsEq := (Symbols.allocateValues_eq_ok word allocated).2
  have here : n.index < l.symbols.slots.size := sound.nodes.symm ▸ inside
  constructor
  · exact afterSound
  · rw [symbolsEq]
    simp
  · rw [symbolsEq]
  · simpa using passes
  · intro other member
    rw [List.mem_singleton.mp member, slotsEq n, if_pos ⟨rfl, here⟩]
    exact Nat.add_sub_cancel_left ..
  · intro other absent
    have different : n ≠ other := fun same => absent (by simp [same])
    rw [slotsEq other, if_neg fun both => different both.1]

/-! ## Constants, operators and passes -/

theorem addFloat_eq_ok_iff :
    l.addFloat g n = .ok after ↔ ∃ symbols c,
      l.symbols.allocateValues n 1 = .ok symbols ∧ g.floatValue n = .ok c ∧
        after = ⟨symbols, l.values.push c, l.textures, l.passes⟩ := by
  simp only [addFloat, bind_eq_ok_iff, pure_eq_ok_iff, exists_and_left]

theorem addOperator_eq_ok_iff :
    l.addOperator n = .ok after ↔ ∃ symbols,
      l.symbols.allocateValues n 1 = .ok symbols ∧
        after = ⟨symbols, l.values.push .zero, l.textures, l.passes⟩ := by
  simp only [addOperator, bind_eq_ok_iff, pure_eq_ok_iff]

theorem addPass_eq_ok_iff :
    l.addPass g n = .ok after ↔ ∃ ports symbols,
      g.outputPorts n = .ok ports ∧ l.symbols.allocateValues n ports = .ok symbols ∧
        after = ⟨symbols, resizeValues l.values symbols.valueCount, l.textures,
          l.passes.push (n, ports)⟩ := by
  simp only [addPass, bind_eq_ok_iff, pure_eq_ok_iff, exists_and_left]

theorem addTexture_eq_ok_iff :
    l.addTexture g n = .ok after ↔ ∃ format symbols,
      g.textureFormat n = .ok format ∧ l.symbols.allocateTexture n = .ok symbols ∧
        after = ⟨symbols, l.values, l.textures.push { format := format }, l.passes⟩ := by
  simp only [addTexture, bind_eq_ok_iff, pure_eq_ok_iff, exists_and_left]

theorem phase_floats (g : Graph) :
    Phase g (addFloat g) (fun n => ∃ c, g.floatValue n = .ok c)
      (g.nodesOfKind fun kind => kind = .float) where
  possible n member l word := by
    have kind := Graph.kind?_of_mem_nodesOfKind member
    rw [Graph.outputCount_of_float kind] at word ⊢
    rw [← Symbols.exists_allocateValues_iff (n := n) word]
    simp only [addFloat_eq_ok_iff]
    constructor
    · rintro ⟨after, symbols, c, allocated, valueEq, -⟩
      exact ⟨⟨c, valueEq⟩, symbols, allocated⟩
    · rintro ⟨⟨c, valueEq⟩, symbols, allocated⟩
      exact ⟨_, symbols, c, allocated, valueEq, rfl⟩
  serves n member l after sound word added := by
    have kind := Graph.kind?_of_mem_nodesOfKind member
    have inside := Graph.index_lt_of_kind? kind
    have count := Graph.outputCount_of_float kind
    have afterSound := (sound.addFloat kind (count ▸ word) added).1
    obtain ⟨symbols, c, allocated, -, rfl⟩ := addFloat_eq_ok_iff.mp added
    exact served_of_allocateValues sound afterSound word inside (count ▸ allocated)
      (by simp [Graph.passEntries, kind])

theorem phase_operators (g : Graph) :
    Phase g addOperator (fun _ => True) (g.nodesOfKind Graph.isOperator) where
  possible n member l word := by
    obtain ⟨op, kind⟩ := Graph.exists_operator_of_mem member
    rw [Graph.outputCount_of_operator kind] at word ⊢
    rw [← Symbols.exists_allocateValues_iff (n := n) word]
    simp only [addOperator_eq_ok_iff, true_and]
    constructor
    · rintro ⟨after, symbols, allocated, -⟩
      exact ⟨symbols, allocated⟩
    · rintro ⟨symbols, allocated⟩
      exact ⟨_, symbols, allocated, rfl⟩
  serves n member l after sound word added := by
    obtain ⟨op, kind⟩ := Graph.exists_operator_of_mem member
    have inside := Graph.index_lt_of_kind? kind
    have count := Graph.outputCount_of_operator kind
    have afterSound := (sound.addOperator kind (count ▸ word) added).1
    obtain ⟨symbols, allocated, rfl⟩ := addOperator_eq_ok_iff.mp added
    exact served_of_allocateValues sound afterSound word inside (count ▸ allocated)
      (by simp [Graph.passEntries, kind])

theorem phase_passes (g : Graph) :
    Phase g (addPass g) (fun n => ∃ ports, g.outputPorts n = .ok ports)
      (g.nodesOfKind fun kind => kind = .pass) where
  possible n member l word := by
    have kind := Graph.kind?_of_mem_nodesOfKind member
    rw [Graph.outputCount_of_pass kind] at word ⊢
    have few : g.neededPorts n < 2 ^ 64 := Nat.lt_of_le_of_lt (Nat.le_add_left _ _) word
    rw [← Symbols.exists_allocateValues_iff (n := n) word]
    simp only [addPass_eq_ok_iff]
    constructor
    · rintro ⟨after, ports, symbols, counted, allocated, -⟩
      have portsEq := Graph.outputPorts_eq_neededPorts counted few
      exact ⟨⟨ports, counted⟩, symbols, portsEq ▸ allocated⟩
    · rintro ⟨⟨ports, counted⟩, symbols, allocated⟩
      have portsEq := Graph.outputPorts_eq_neededPorts counted few
      exact ⟨_, ports, symbols, counted, portsEq ▸ allocated, rfl⟩
  serves n member l after sound word added := by
    have kind := Graph.kind?_of_mem_nodesOfKind member
    have inside := Graph.index_lt_of_kind? kind
    have count := Graph.outputCount_of_pass kind
    have few : g.neededPorts n < 2 ^ 64 := by omega
    have afterSound := (sound.addPass kind (count ▸ word) added).1
    obtain ⟨ports, symbols, counted, allocated, rfl⟩ := addPass_eq_ok_iff.mp added
    have portsEq := Graph.outputPorts_eq_neededPorts counted few
    subst portsEq
    exact served_of_allocateValues sound afterSound word inside (count ▸ allocated)
      (by simp [Graph.passEntries, kind])

/-! ## Textures -/

/-- Textures take one texture slot each. -/
theorem exists_addTextures_iff {nodes : List NodeId} (sound : l.Sound g) :
    (∃ after, nodes.foldlM (addTexture g) l = .ok after) ↔
      (∀ n ∈ nodes, ∃ format, g.textureFormat n = .ok format) ∧
        l.symbols.textureCount + nodes.length ≤ Address.spaceSize := by
  have oneEach : (nodes.map fun _ => 1).sum = nodes.length := by simp
  rw [← oneEach]
  simp only [foldlM_eq_ok_iff]
  refine Chained.exists_iff (fun _ _ => True)
    (fun now : Layout => now.symbols.textureCount) ?_ ?_ trivial sound.symbols.textures_bound
  · intro n rest now _
    rw [← Symbols.exists_allocateTexture_iff (n := n)]
    simp only [addTexture_eq_ok_iff]
    constructor
    · rintro ⟨next, format, symbols, formatEq, allocated, -⟩
      exact ⟨⟨format, formatEq⟩, symbols, allocated⟩
    · rintro ⟨⟨format, formatEq⟩, symbols, allocated⟩
      exact ⟨_, format, symbols, formatEq, allocated, rfl⟩
  · intro n rest now next _ added
    obtain ⟨format, symbols, -, allocated, rfl⟩ := addTexture_eq_ok_iff.mp added
    refine ⟨trivial, ?_⟩
    rw [(Symbols.allocateTexture_eq_ok allocated).2]

/-- Adding textures gives each of them a texture slot and leaves the value slots and the
passes as they were. -/
theorem served_addTextures {nodes : List NodeId} (sound : l.Sound g)
    (stored : ∀ n ∈ nodes, n.index < g.nodes.size)
    (success : nodes.foldlM (addTexture g) l = .ok after) :
    (∀ n, (after.symbols.slotsOf n).count = (l.symbols.slotsOf n).count) ∧
      (∀ n ∈ nodes, ∃ slot, (after.symbols.slotsOf n).texture = some slot) ∧
      after.passes = l.passes := by
  have invariant := foldlM_ok_invariant
    -- A node is still waiting or has its texture slot; nothing else changes.
    (fun rest now => rest ⊆ nodes ∧ now.symbols.slots.size = g.nodes.size ∧
      (∀ n, (now.symbols.slotsOf n).count = (l.symbols.slotsOf n).count) ∧
      (∀ n ∈ nodes, n ∈ rest ∨ ∃ slot, (now.symbols.slotsOf n).texture = some slot) ∧
      now.passes = l.passes)
    ?_ ⟨List.Subset.refl nodes, sound.nodes, fun _ => rfl, fun n member => Or.inl member,
      rfl⟩ success
  · obtain ⟨-, -, counts, served, passesEq⟩ := invariant
    refine ⟨counts, ?_, passesEq⟩
    intro n member
    exact (served n member).resolve_left List.not_mem_nil
  · rintro n rest now next ⟨subset, sizeEq, counts, served, passesEq⟩ added
    obtain ⟨format, symbols, -, allocated, rfl⟩ := addTexture_eq_ok_iff.mp added
    have here : n.index < now.symbols.slots.size :=
      sizeEq.symm ▸ stored n (subset List.mem_cons_self)
    have slotsEq := Symbols.slotsOf_allocateTexture allocated
    refine ⟨fun _ member => subset (List.mem_cons_of_mem n member), ?_, ?_, ?_, passesEq⟩
    · rw [(Symbols.allocateTexture_eq_ok allocated).2]
      exact (Array.size_modify ..).trans sizeEq
    · intro other
      rw [slotsEq, ← counts other]
      split <;> rfl
    · intro other member
      rw [slotsEq]
      by_cases same : n = other
      · rw [if_pos ⟨same, here⟩]
        exact Or.inr ⟨_, rfl⟩
      · rw [if_neg fun both => same both.1]
        refine (served other member).imp_left fun waiting => ?_
        exact (List.mem_cons.mp waiting).resolve_left (Ne.symm same)

/-! ## What a layout takes and gives -/

/-- The layout serves every node: each output port has a value slot, each stored texture a
texture slot, and the passes are listed in order. -/
structure Complete (g : Graph) (aliased : Option NodeId) (l : Layout) : Prop where
  sound : l.Sound g
  counts : ∀ n, (l.symbols.slotsOf n).count = g.outputCount n
  textures : ∀ n ∈ g.storedTextures aliased, ∃ slot,
    (l.symbols.slotsOf n).texture = some slot
  passes : l.passes.toList =
    (g.nodesOfKind fun kind => kind = .pass).map fun n => (n, g.neededPorts n)

/-- What a layout takes: readable nodes and room for their slots. -/
structure Possible (g : Graph) (aliased : Option NodeId) : Prop where
  floats : ∀ n ∈ g.nodesOfKind fun kind => kind = .float, ∃ c, g.floatValue n = .ok c
  passes : ∀ n ∈ g.nodesOfKind fun kind => kind = .pass,
    ∃ ports, g.outputPorts n = .ok ports
  textures : ∀ n ∈ g.storedTextures aliased, ∃ format, g.textureFormat n = .ok format
  values_room : g.neededValues ≤ Address.spaceSize
  textures_room : (g.storedTextures aliased).length ≤ Address.spaceSize

/-- The part of a layout that hands out value slots. -/
def valued (g : Graph) : Except Error Layout := do
  let floats ← (g.nodesOfKind fun kind => kind = .float).foldlM (addFloat g)
    { symbols := .ofGraph g }
  let operators ← (g.nodesOfKind Graph.isOperator).foldlM addOperator floats
  (g.nodesOfKind fun kind => kind = .pass).foldlM (addPass g) operators

theorem ofGraph_eq (g : Graph) (aliased : Option NodeId) :
    ofGraph g aliased = valued g >>= (g.storedTextures aliased).foldlM (addTexture g) := by
  simp only [ofGraph, valued, bind_assoc]
  rfl

/-- The nodes with value slots, in the order in which they get them. -/
def valueNodes (g : Graph) : List NodeId :=
  (g.nodesOfKind fun kind => kind = .float) ++ g.nodesOfKind Graph.isOperator ++
    g.nodesOfKind fun kind => kind = .pass

theorem sum_valueNodes (g : Graph) :
    ((valueNodes g).map g.outputCount).sum = g.neededValues := by
  rw [valueNodes, List.map_append, List.map_append, List.sum_append, List.sum_append,
    Graph.neededValues_eq]

/-- A node without value slots has no outputs. -/
theorem outputCount_eq_zero (absent : n ∉ valueNodes g) : g.outputCount n = 0 := by
  simp only [valueNodes, List.mem_append, not_or, Graph.mem_nodesOfKind] at absent
  obtain ⟨⟨notFloat, notOperator⟩, notPass⟩ := absent
  unfold Graph.outputCount
  cases kindEq : g.kind? n with
  | none => rfl
  | some kind =>
      cases kind with
      | float => exact absurd ⟨_, kindEq, rfl⟩ notFloat
      | operator op => exact absurd ⟨_, kindEq, rfl⟩ notOperator
      | pass => exact absurd ⟨_, kindEq, rfl⟩ notPass
      | texture | present => rfl

/-- The passes among the nodes with value slots are the passes of the graph. -/
theorem flatMap_valueNodes (g : Graph) :
    (valueNodes g).flatMap g.passEntries =
      (g.nodesOfKind fun kind => kind = .pass).map fun n => (n, g.neededPorts n) := by
  have unlisted (nodes : List NodeId)
      (others : ∀ n ∈ nodes, g.kind? n ≠ some .pass) : nodes.flatMap g.passEntries = [] := by
    refine List.flatMap_eq_nil_iff.mpr fun n member => ?_
    rw [Graph.passEntries, if_neg (others n member)]
  have floats := unlisted (g.nodesOfKind fun kind => kind = .float)
    fun n member => by simp [Graph.kind?_of_mem_nodesOfKind member]
  have operators := unlisted (g.nodesOfKind Graph.isOperator)
    fun n member => by
      obtain ⟨op, kind⟩ := Graph.exists_operator_of_mem member
      simp [kind]
  rw [valueNodes, List.flatMap_append, List.flatMap_append, floats, operators,
    ← List.flatMap_pure_eq_map]
  refine List.flatMap_congr fun n member => ?_
  simp [Graph.passEntries, Graph.kind?_of_mem_nodesOfKind member]

theorem valued_eq_ok_iff :
    valued g = .ok l ↔ ∃ floats operators,
      (g.nodesOfKind fun kind => kind = .float).foldlM (addFloat g)
        { symbols := .ofGraph g } = .ok floats ∧
      (g.nodesOfKind Graph.isOperator).foldlM addOperator floats = .ok operators ∧
      (g.nodesOfKind fun kind => kind = .pass).foldlM (addPass g) operators = .ok l := by
  simp only [valued, bind_eq_ok_iff, exists_and_left]

section Word

variable (word : g.neededValues < 2 ^ 64) {floats operators : Layout}

include word

private theorem room_for_floats :
    ({ symbols := .ofGraph g } : Layout).symbols.valueCount +
      ((g.nodesOfKind fun kind => kind = .float).map g.outputCount).sum < 2 ^ 64 := by
  rw [Graph.neededValues_eq] at word
  simp only [Symbols.ofGraph]
  omega

private theorem served_floats
    (added : (g.nodesOfKind fun kind => kind = .float).foldlM (addFloat g)
      { symbols := .ofGraph g } = .ok floats) :
    Served g (g.nodesOfKind fun kind => kind = .float) { symbols := .ofGraph g } floats :=
  (phase_floats g).served (sound_start g) (room_for_floats word) added

private theorem room_for_operators
    (served : Served g (g.nodesOfKind fun kind => kind = .float)
      { symbols := .ofGraph g } floats) :
    floats.symbols.valueCount + ((g.nodesOfKind Graph.isOperator).map g.outputCount).sum <
      2 ^ 64 := by
  rw [Graph.neededValues_eq] at word
  rw [served.valueCount]
  simp only [Symbols.ofGraph]
  omega

private theorem served_operators
    (served : Served g (g.nodesOfKind fun kind => kind = .float)
      { symbols := .ofGraph g } floats)
    (added : (g.nodesOfKind Graph.isOperator).foldlM addOperator floats = .ok operators) :
    Served g
      ((g.nodesOfKind fun kind => kind = .float) ++ g.nodesOfKind Graph.isOperator)
      { symbols := .ofGraph g } operators :=
  served.append ((phase_operators g).served served.sound (room_for_operators word served)
    added)

private theorem room_for_passes
    (served : Served g
      ((g.nodesOfKind fun kind => kind = .float) ++ g.nodesOfKind Graph.isOperator)
      { symbols := .ofGraph g } operators) :
    operators.symbols.valueCount +
      ((g.nodesOfKind fun kind => kind = .pass).map g.outputCount).sum < 2 ^ 64 := by
  rw [Graph.neededValues_eq] at word
  rw [served.valueCount, List.map_append, List.sum_append]
  simp only [Symbols.ofGraph]
  omega

theorem served_valued (success : valued g = .ok l) :
    Served g (valueNodes g) { symbols := .ofGraph g } l := by
  obtain ⟨floats, operators, floatsAdded, operatorsAdded, passesAdded⟩ :=
    valued_eq_ok_iff.mp success
  have floatsServed := served_floats word floatsAdded
  have operatorsServed := served_operators word floatsServed operatorsAdded
  exact operatorsServed.append ((phase_passes g).served operatorsServed.sound
    (room_for_passes word operatorsServed) passesAdded)

theorem exists_valued_iff :
    (∃ l, valued g = .ok l) ↔
      (∀ n ∈ g.nodesOfKind fun kind => kind = .float, ∃ c, g.floatValue n = .ok c) ∧
      (∀ n ∈ g.nodesOfKind fun kind => kind = .pass,
        ∃ ports, g.outputPorts n = .ok ports) ∧
      g.neededValues ≤ Address.spaceSize := by
  constructor
  · rintro ⟨l, success⟩
    have served := served_valued word success
    obtain ⟨floats, operators, floatsAdded, operatorsAdded, passesAdded⟩ :=
      valued_eq_ok_iff.mp success
    have floatsServed := served_floats word floatsAdded
    have operatorsServed := served_operators word floatsServed operatorsAdded
    -- Each phase starts with the counter where the phases before it have left it.
    have floatsValid := ((phase_floats g).exists_iff (sound_start g)
      (room_for_floats word)).mp ⟨floats, floatsAdded⟩
    have passesValid := ((phase_passes g).exists_iff operatorsServed.sound
      (room_for_passes word operatorsServed)).mp ⟨l, passesAdded⟩
    have bound := served.sound.symbols.values_bound
    rw [served.valueCount, sum_valueNodes] at bound
    exact ⟨floatsValid.1, passesValid.1, Nat.le_of_add_left_le bound⟩
  · rintro ⟨floatsValid, passesValid, bound⟩
    rw [Graph.neededValues_eq] at bound
    -- The total bounds every partial sum, so no phase runs out of slots.
    obtain ⟨floats, floatsAdded⟩ := ((phase_floats g).exists_iff (sound_start g)
      (room_for_floats word)).mpr ⟨floatsValid, by simp only [Symbols.ofGraph]; omega⟩
    have floatsServed := served_floats word floatsAdded
    have floatsCount := floatsServed.valueCount
    simp only [Symbols.ofGraph] at floatsCount
    obtain ⟨operators, operatorsAdded⟩ := ((phase_operators g).exists_iff
      floatsServed.sound (room_for_operators word floatsServed)).mpr
        ⟨fun _ _ => trivial, by omega⟩
    have operatorsServed := served_operators word floatsServed operatorsAdded
    have operatorsCount := operatorsServed.valueCount
    rw [List.map_append, List.sum_append] at operatorsCount
    simp only [Symbols.ofGraph] at operatorsCount
    obtain ⟨l, passesAdded⟩ := ((phase_passes g).exists_iff operatorsServed.sound
      (room_for_passes word operatorsServed)).mpr ⟨passesValid, by omega⟩
    exact ⟨l, valued_eq_ok_iff.mpr
      ⟨floats, operators, floatsAdded, operatorsAdded, passesAdded⟩⟩

/-! ## The whole layout -/

/-- A layout that was made serves every node. -/
theorem complete_ofGraph {aliased : Option NodeId} (success : ofGraph g aliased = .ok l) :
    l.Complete g aliased := by
  have sound := sound_ofGraph word success
  rw [ofGraph_eq] at success
  obtain ⟨values, valuesMade, texturesAdded⟩ := bind_eq_ok_iff.mp success
  have served := served_valued word valuesMade
  have stored : ∀ n ∈ g.storedTextures aliased, n.index < g.nodes.size := by
    intro n member
    have isTexture := (List.mem_filter.mp member).1
    exact Graph.index_lt_of_kind? (Graph.kind?_of_mem_nodesOfKind isTexture)
  obtain ⟨counts, textured, passesEq⟩ := served_addTextures served.sound stored texturesAdded
  refine ⟨sound, ?_, textured, ?_⟩
  · intro n
    rw [counts]
    by_cases hasValues : n ∈ valueNodes g
    · exact served.counts n hasValues
    · rw [served.others n hasValues, outputCount_eq_zero hasValues]
      exact congrArg Slots.count (Symbols.slotsOf_ofGraph g n)
  · rw [passesEq, served.passes, flatMap_valueNodes]
    rfl

/-- A graph has a layout exactly when its nodes are readable and their slots have room. -/
theorem exists_ofGraph_iff {aliased : Option NodeId} :
    (∃ l, ofGraph g aliased = .ok l) ↔ Possible g aliased := by
  rw [ofGraph_eq]
  constructor
  · rintro ⟨l, success⟩
    obtain ⟨values, valuesMade, texturesAdded⟩ := bind_eq_ok_iff.mp success
    obtain ⟨floats, passes, room⟩ := (exists_valued_iff word).mp ⟨values, valuesMade⟩
    have served := served_valued word valuesMade
    have textures := (exists_addTextures_iff served.sound).mp ⟨l, texturesAdded⟩
    exact ⟨floats, passes, textures.1, room, Nat.le_of_add_left_le textures.2⟩
  · intro possible
    obtain ⟨values, valuesMade⟩ := (exists_valued_iff word).mpr
      ⟨possible.floats, possible.passes, possible.values_room⟩
    have served := served_valued word valuesMade
    have noTextures : values.symbols.textureCount = 0 := served.textureCount
    have texturesRoom := possible.textures_room
    obtain ⟨l, texturesAdded⟩ := (exists_addTextures_iff served.sound).mpr
      ⟨possible.textures, by omega⟩
    exact ⟨l, bind_eq_ok_iff.mpr ⟨values, valuesMade, texturesAdded⟩⟩

end Word

end Layout

end FrameGraph
