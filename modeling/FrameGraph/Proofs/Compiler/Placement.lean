import FrameGraph.Proofs.Compiler.Acceptance

/-!
# Placement

The slots of a layout are numbered in the order of the nodes: in value memory constants come
first, operators behind them and the output ports of the passes last; textures are numbered on
their own.
-/

namespace FrameGraph

open Compiler

/-! ## Lists of slots -/

namespace Graph

variable {g : Graph} {n : NodeId}

/-- The outputs of a node. -/
def portsOf (g : Graph) (n : NodeId) : List (NodeId × Nat) :=
  (List.range (g.outputCount n)).map fun port => (n, port)

/-- What the value slots belong to, in order: constants, operators and the output ports of the
passes. -/
def valuePorts (g : Graph) : List (NodeId × Nat) :=
  (g.nodesOfKind fun kind => kind = .float).map (fun n => (n, 0)) ++
    (g.nodesOfKind isOperator).map (fun n => (n, 0)) ++
    (g.nodesOfKind fun kind => kind = .pass).flatMap fun n =>
      (List.range (g.neededPorts n)).map fun port => (n, port)

/-- What a value slot holds at first: the value of its constant, or zero. -/
def initialCell (g : Graph) (p : NodeId × Nat) : Except Error Cell :=
  if g.kind? p.1 = some .float then g.floatValue p.1 else .ok .zero

theorem valuePorts_eq (g : Graph) :
    g.valuePorts = (Layout.valueNodes g).flatMap g.portsOf := by
  have single {nodes : List NodeId} (each : ∀ n ∈ nodes, g.outputCount n = 1) :
      nodes.flatMap g.portsOf = nodes.map fun n => (n, 0) := by
    rw [← List.flatMap_pure_eq_map]
    refine List.flatMap_congr fun n member => ?_
    rw [portsOf, each n member]
    rfl
  have floats := single fun n member => outputCount_of_float (kind?_of_mem_nodesOfKind member)
  have operators := single fun n member => by
    obtain ⟨op, kind⟩ := exists_operator_of_mem member
    exact outputCount_of_operator kind
  have passes : (g.nodesOfKind fun kind => kind = .pass).flatMap g.portsOf =
      (g.nodesOfKind fun kind => kind = .pass).flatMap fun n =>
        (List.range (g.neededPorts n)).map fun port => (n, port) := by
    refine List.flatMap_congr fun n member => ?_
    rw [portsOf, outputCount_of_pass (kind?_of_mem_nodesOfKind member)]
  rw [Layout.valueNodes, List.flatMap_append, List.flatMap_append, floats, operators, passes]
  rfl

theorem getElem?_portsOf {place : Nat} {other : NodeId} {port : Nat} :
    (g.portsOf n)[place]? = some (other, port) ↔
      n = other ∧ place = port ∧ port < g.outputCount n := by
  simp only [portsOf, List.getElem?_map, Option.map_eq_some_iff, List.getElem?_eq_some_iff,
    List.length_range, List.getElem_range, Prod.mk.injEq]
  constructor
  · rintro ⟨_, ⟨inside, rfl⟩, rfl, rfl⟩
    exact ⟨rfl, rfl, inside⟩
  · rintro ⟨rfl, rfl, inside⟩
    exact ⟨place, ⟨inside, rfl⟩, rfl, rfl⟩

theorem length_flatMap_portsOf (nodes : List NodeId) :
    (nodes.flatMap g.portsOf).length = (nodes.map g.outputCount).sum := by
  simp [List.length_flatMap, portsOf]

theorem mem_of_getElem?_ports {nodes : List NodeId} {slot port : Nat}
    (here : (nodes.flatMap g.portsOf)[slot]? = some (n, port)) : n ∈ nodes := by
  obtain ⟨owner, member, listed⟩ := List.mem_flatMap.mp (List.mem_of_getElem? here)
  obtain ⟨_, -, same⟩ := List.mem_map.mp listed
  cases same
  exact member

theorem nodup_valueNodes (g : Graph) : (Layout.valueNodes g).Nodup := by
  have apart {first second : NodeKind → Bool} (different : ∀ kind, ¬ (first kind ∧ second kind)) :
      ∀ n ∈ g.nodesOfKind first, ∀ m ∈ g.nodesOfKind second, n ≠ m := by
    rintro n isFirst _ isSecond rfl
    obtain ⟨kind, found, test⟩ := mem_nodesOfKind.mp isFirst
    obtain ⟨other, same, otherTest⟩ := mem_nodesOfKind.mp isSecond
    cases found.symm.trans same
    exact different kind ⟨test, otherTest⟩
  refine List.nodup_append.mpr ⟨List.nodup_append.mpr ⟨g.nodup_nodesOfKind _,
    g.nodup_nodesOfKind _, apart ?_⟩, g.nodup_nodesOfKind _, ?_⟩
  · intro kind
    cases kind <;> simp [isOperator]
  · intro n member m isPass
    rcases List.mem_append.mp member with isFloat | isOperator
    · refine apart ?_ n isFloat m isPass
      intro kind
      cases kind <;> simp
    · refine apart ?_ n isOperator m isPass
      intro kind
      cases kind <;> simp [Graph.isOperator]

end Graph

/-! ## Value slots -/

namespace Layout

variable {g : Graph} {nodes : List NodeId} {l after : Layout} {n : NodeId}

/-- The value slots are those of the outputs of the nodes so far, in order, and there are no
texture slots yet. -/
structure Placed (g : Graph) (nodes : List NodeId) (l : Layout) : Prop where
  sound : l.Sound g
  names : l.symbols.names = g.nodes.map Node.id
  ports : ∀ slot n port, (nodes.flatMap g.portsOf)[slot]? = some (n, port) ↔
    (l.symbols.slotsOf n).value? port = some slot
  cells : l.values.toList.map .ok = (nodes.flatMap g.portsOf).map g.initialCell
  noTexture : ∀ n, (l.symbols.slotsOf n).texture = none
  noTextures : l.textures = #[]

theorem placed_start (g : Graph) : Placed g [] { symbols := .ofGraph g } where
  sound := sound_start g
  names := rfl
  ports slot n port := by simp [Slots.value?, Slots.count]
  cells := rfl
  noTexture n := by rw [Symbols.slotsOf_ofGraph]
  noTextures := rfl

theorem Placed.valueCount (placed : l.Placed g nodes) :
    l.symbols.valueCount = (nodes.flatMap g.portsOf).length := by
  have sameLength := congrArg List.length placed.cells
  rw [List.length_map, List.length_map, Array.length_toList, placed.sound.values] at sameLength
  exact sameLength

/-- The slots that a node gets stand behind all others. -/
theorem Placed.allocateValues {symbols : Symbols} {values : Array Cell}
    {passes : Array (NodeId × Nat)} {cells : List Cell} (placed : l.Placed g nodes)
    (new : n ∉ nodes) (inside : n.index < g.nodes.size)
    (word : l.symbols.valueCount + g.outputCount n < 2 ^ 64)
    (allocated : l.symbols.allocateValues n (g.outputCount n) = .ok symbols)
    (sound : Sound g ⟨symbols, values, l.textures, passes⟩)
    (valuesEq : values.toList = l.values.toList ++ cells)
    (cellsEq : cells.map .ok = (g.portsOf n).map g.initialCell) :
    Placed g (nodes ++ [n]) ⟨symbols, values, l.textures, passes⟩ := by
  have slotsEq := Symbols.slotsOf_allocateValues word allocated
  have here : n.index < l.symbols.slots.size := placed.sound.nodes.symm ▸ inside
  have countEq := placed.valueCount
  refine ⟨sound, ?_, fun slot m port => ?_, ?_, fun m => ?_, placed.noTextures⟩
  · rw [(Symbols.allocateValues_eq_ok word allocated).2]
    exact placed.names
  · rw [List.flatMap_append, List.flatMap_singleton, slotsEq m]
    have oldPorts := placed.ports slot m port
    rcases Nat.lt_or_ge slot (nodes.flatMap g.portsOf).length with earlier | later
    · rw [List.getElem?_append_left earlier]
      by_cases same : n = m
      · rw [if_pos ⟨same, here⟩, Slots.value?_eq_some_iff]
        refine iff_of_false (fun found => ?_) (fun both => ?_)
        · exact new (same ▸ Graph.mem_of_getElem?_ports found)
        · simp only at both
          omega
      · rw [if_neg fun both => same both.1]
        exact oldPorts
    · rw [List.getElem?_append_right later, Graph.getElem?_portsOf]
      by_cases same : n = m
      · rw [if_pos ⟨same, here⟩, Slots.value?_eq_some_iff]
        simp only [same, true_and]
        omega
      · rw [if_neg fun both => same both.1, ← oldPorts]
        refine iff_of_false (fun both => same both.1) fun found => ?_
        obtain ⟨bound, -⟩ := List.getElem?_eq_some_iff.mp found
        exact absurd bound (Nat.not_lt.mpr later)
  · rw [valuesEq, List.map_append, placed.cells, cellsEq, List.flatMap_append, List.map_append,
      List.flatMap_singleton]
  · rw [slotsEq m]
    split <;> exact placed.noTexture m

theorem resizeValues_of_le {values : Array Cell} {size : Nat} (fits : values.size ≤ size) :
    (resizeValues values size).toList =
      values.toList ++ List.replicate (size - values.size) .zero := by
  rw [resizeValues, if_neg (Nat.not_lt.mpr fits), Array.toList_append, Array.toList_replicate]

section Steps

variable (placed : l.Placed g nodes) (new : n ∉ nodes)
  (word : l.symbols.valueCount + g.outputCount n < 2 ^ 64)

include placed new word

theorem Placed.addFloat (kind : g.kind? n = some .float) (added : l.addFloat g n = .ok after) :
    after.Placed g (nodes ++ [n]) := by
  have count := Graph.outputCount_of_float kind
  have sound := (placed.sound.addFloat kind (count ▸ word) added).1
  obtain ⟨symbols, c, allocated, valueEq, rfl⟩ := addFloat_eq_ok_iff.mp added
  refine placed.allocateValues new (Graph.index_lt_of_kind? kind) word (count ▸ allocated) sound
    Array.toList_push ?_
  simp [Graph.portsOf, count, Graph.initialCell, kind, valueEq]

theorem Placed.addOperator {op : Operator} (kind : g.kind? n = some (.operator op))
    (added : l.addOperator n = .ok after) : after.Placed g (nodes ++ [n]) := by
  have count := Graph.outputCount_of_operator kind
  have sound := (placed.sound.addOperator kind (count ▸ word) added).1
  obtain ⟨symbols, allocated, rfl⟩ := addOperator_eq_ok_iff.mp added
  refine placed.allocateValues new (Graph.index_lt_of_kind? kind) word (count ▸ allocated) sound
    Array.toList_push ?_
  simp [Graph.portsOf, count, Graph.initialCell, kind]

theorem Placed.addPass (kind : g.kind? n = some .pass) (added : l.addPass g n = .ok after) :
    after.Placed g (nodes ++ [n]) := by
  have count := Graph.outputCount_of_pass kind
  have sound := (placed.sound.addPass kind (count ▸ word) added).1
  obtain ⟨ports, symbols, counted, allocated, rfl⟩ := addPass_eq_ok_iff.mp added
  have portsEq := Graph.outputPorts_eq_neededPorts counted (by omega)
  rw [portsEq, ← count] at allocated
  have grown : symbols.valueCount = l.values.size + g.outputCount n := by
    rw [(Symbols.allocateValues_eq_ok word allocated).2, placed.sound.values]
  refine placed.allocateValues new (Graph.index_lt_of_kind? kind) word allocated sound
    (resizeValues_of_le (by omega)) ?_
  rw [grown, Nat.add_sub_cancel_left]
  refine List.ext_getElem (by simp [Graph.portsOf]) fun place _ _ => ?_
  simp [Graph.portsOf, Graph.initialCell, kind]

end Steps

/-- Gives a node the value slots of its outputs. -/
def addValues (g : Graph) (l : Layout) (n : NodeId) : Except Error Layout :=
  match g.kind? n with
  | some .float => l.addFloat g n
  | some (.operator _) => l.addOperator n
  | some .pass => l.addPass g n
  | some .texture | some .present | none => .ok l

theorem foldlM_congr_of_mem {add other : Layout → NodeId → Except Error Layout}
    (same : ∀ n ∈ nodes, ∀ l, add l n = other l n) (l : Layout) :
    nodes.foldlM add l = nodes.foldlM other l := by
  induction nodes generalizing l with
  | nil => rfl
  | cons n rest inductionHypothesis =>
      rw [List.foldlM_cons, List.foldlM_cons, same n List.mem_cons_self]
      congr 1
      funext next
      exact inductionHypothesis (fun m member => same m (List.mem_cons_of_mem n member)) next

/-- The nodes with value slots get them in one go. -/
theorem valued_eq (g : Graph) :
    valued g = (valueNodes g).foldlM (addValues g) { symbols := .ofGraph g } := by
  have floats (l : Layout) : (g.nodesOfKind fun kind => kind = .float).foldlM (addFloat g) l =
      (g.nodesOfKind fun kind => kind = .float).foldlM (addValues g) l :=
    foldlM_congr_of_mem (fun n member l => by
      rw [addValues, Graph.kind?_of_mem_nodesOfKind member]) l
  have operators (l : Layout) : (g.nodesOfKind Graph.isOperator).foldlM addOperator l =
      (g.nodesOfKind Graph.isOperator).foldlM (addValues g) l :=
    foldlM_congr_of_mem (fun n member l => by
      obtain ⟨op, kind⟩ := Graph.exists_operator_of_mem member
      rw [addValues, kind]) l
  have passes (l : Layout) : (g.nodesOfKind fun kind => kind = .pass).foldlM (addPass g) l =
      (g.nodesOfKind fun kind => kind = .pass).foldlM (addValues g) l :=
    foldlM_congr_of_mem (fun n member l => by
      rw [addValues, Graph.kind?_of_mem_nodesOfKind member]) l
  simp only [valued, valueNodes, List.foldlM_append, floats, operators, passes, bind_assoc]

theorem placed_valued (word : g.neededValues < 2 ^ 64) (success : valued g = .ok l) :
    l.Placed g (valueNodes g) := by
  rw [valued_eq] at success
  have invariant := foldlM_ok_invariant
    (fun rest now => ∃ done, valueNodes g = done ++ rest ∧ now.Placed g done) ?_
    ⟨[], rfl, placed_start g⟩ success
  · obtain ⟨done, allDone, placed⟩ := invariant
    rw [allDone, List.append_nil]
    exact placed
  · rintro n rest now next ⟨done, split, placed⟩ added
    have once := g.nodup_valueNodes
    rw [split] at once
    have new : n ∉ done := fun member =>
      (List.nodup_append.mp once).2.2 n member n List.mem_cons_self rfl
    have room : now.symbols.valueCount + g.outputCount n < 2 ^ 64 := by
      have total := sum_valueNodes g
      rw [split, List.map_append, List.sum_append, List.map_cons, List.sum_cons] at total
      rw [placed.valueCount, Graph.length_flatMap_portsOf]
      omega
    refine ⟨done ++ [n], by rw [split, List.append_assoc]; rfl, ?_⟩
    have member : n ∈ valueNodes g := by
      rw [split]
      exact List.mem_append_right done List.mem_cons_self
    rw [valueNodes, List.mem_append, List.mem_append] at member
    rcases member with (isFloat | isOperator) | isPass
    · have kind := Graph.kind?_of_mem_nodesOfKind isFloat
      rw [addValues, kind] at added
      exact placed.addFloat new room kind added
    · obtain ⟨op, kind⟩ := Graph.exists_operator_of_mem isOperator
      rw [addValues, kind] at added
      exact placed.addOperator new room kind added
    · have kind := Graph.kind?_of_mem_nodesOfKind isPass
      rw [addValues, kind] at added
      exact placed.addPass new room kind added

/-! ## Texture slots -/

/-- The texture slots are those of the nodes so far, in order, and what a layout had before is
as it was. -/
structure Textured (g : Graph) (l : Layout) (nodes : List NodeId) (after : Layout) : Prop where
  slots : ∀ slot n, nodes[slot]? = some n ↔ (after.symbols.slotsOf n).texture = some slot
  formats : after.textures.toList.map (fun t => .ok t.format) = nodes.map g.textureFormat
  size : after.symbols.slots.size = g.nodes.size
  count : after.symbols.textureCount = nodes.length
  names : after.symbols.names = l.symbols.names
  values : after.values = l.values
  ports : ∀ n port, (after.symbols.slotsOf n).value? port = (l.symbols.slotsOf n).value? port

theorem textured_start (placed : l.Placed g nodes) : Textured g l [] l where
  slots slot n := by simp [placed.noTexture]
  formats := by rw [placed.noTextures]; rfl
  size := placed.sound.nodes
  count := by rw [← placed.sound.textures, placed.noTextures]; rfl
  names := rfl
  values := rfl
  ports _ _ := rfl

/-- The slot that a texture gets stands behind all others. -/
theorem Textured.addTexture {next : Layout} (textured : Textured g l nodes after)
    (new : n ∉ nodes) (inside : n.index < g.nodes.size)
    (added : after.addTexture g n = .ok next) : Textured g l (nodes ++ [n]) next := by
  obtain ⟨format, symbols, formatEq, allocated, rfl⟩ := addTexture_eq_ok_iff.mp added
  have slotsEq := Symbols.slotsOf_allocateTexture allocated
  have here : n.index < after.symbols.slots.size := textured.size.symm ▸ inside
  have symbolsEq := (Symbols.allocateTexture_eq_ok allocated).2
  refine ⟨fun slot m => ?_, ?_, ?_, ?_, ?_, textured.values, fun m port => ?_⟩
  · have oldSlots := textured.slots slot m
    rw [slotsEq m]
    by_cases same : n = m
    · rw [if_pos ⟨same, here⟩, ← same, textured.count]
      constructor
      · intro found
        rcases Nat.lt_or_ge slot nodes.length with earlier | later
        · rw [List.getElem?_append_left earlier] at found
          exact absurd (List.mem_of_getElem? found) new
        · obtain ⟨bound, -⟩ := List.getElem?_eq_some_iff.mp found
          rw [List.length_append, List.length_singleton] at bound
          exact congrArg some (by omega)
      · rintro ⟨⟩
        exact List.getElem?_concat_length
    · rw [if_neg fun both => same both.1, ← oldSlots]
      constructor
      · intro found
        rcases Nat.lt_or_ge slot nodes.length with earlier | later
        · rwa [List.getElem?_append_left earlier] at found
        · rw [List.getElem?_append_right later] at found
          exact absurd (List.mem_singleton.mp (List.mem_of_getElem? found)).symm same
      · intro found
        obtain ⟨bound, -⟩ := List.getElem?_eq_some_iff.mp found
        rwa [List.getElem?_append_left bound]
  · rw [Array.toList_push, List.map_append, List.map_append, textured.formats, List.map_singleton,
      List.map_singleton, formatEq]
  · rw [symbolsEq]
    exact (Array.size_modify ..).trans textured.size
  · rw [symbolsEq, List.length_append, textured.count]
    rfl
  · rw [symbolsEq]
    exact textured.names
  · rw [slotsEq m, ← textured.ports m port]
    split <;> rfl

/-- Adding the stored textures of a graph in turn gives them their slots. -/
theorem textured_addTextures {aliased : Option NodeId} (start : Textured g l [] l)
    (added : (g.storedTextures aliased).foldlM (addTexture g) l = .ok after) :
    Textured g l (g.storedTextures aliased) after := by
  have invariant := foldlM_ok_invariant
    (fun rest now => ∃ done, g.storedTextures aliased = done ++ rest ∧ Textured g l done now) ?_
    ⟨[], rfl, start⟩ added
  · obtain ⟨done, allDone, textured⟩ := invariant
    rw [allDone, List.append_nil]
    exact textured
  · rintro n rest now next ⟨done, split, textured⟩ added
    have once : (g.storedTextures aliased).Nodup := (g.nodup_nodesOfKind _).filter _
    have member : n ∈ g.storedTextures aliased := by
      rw [split]
      exact List.mem_append_right done List.mem_cons_self
    have kind := Graph.kind?_of_mem_nodesOfKind (List.mem_filter.mp member).1
    rw [split] at once
    have new : n ∉ done := fun again =>
      (List.nodup_append.mp once).2.2 n again n List.mem_cons_self rfl
    exact ⟨done ++ [n], by rw [split, List.append_assoc]; rfl,
      textured.addTexture new (Graph.index_lt_of_kind? kind) added⟩

/-- The layout of a graph places every node. -/
theorem exists_textured_ofGraph {aliased : Option NodeId} (word : g.neededValues < 2 ^ 64)
    (success : ofGraph g aliased = .ok after) :
    ∃ l, l.Placed g (valueNodes g) ∧ Textured g l (g.storedTextures aliased) after := by
  rw [ofGraph_eq] at success
  obtain ⟨l, valuesMade, texturesAdded⟩ := bind_eq_ok_iff.mp success
  have placed := placed_valued word valuesMade
  exact ⟨l, placed, textured_addTextures (textured_start placed) texturesAdded⟩

end Layout

end FrameGraph
