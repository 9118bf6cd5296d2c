import FrameGraph.Compiler.Layout
import FrameGraph.Proofs.Compiler.Slots
import FrameGraph.Proofs.Compiler.Success
import Mathlib.Algebra.Order.Ring.Nat

/-!
# Sound layouts

The memories that a layout prepares have as many places as slots were handed out, and
every pass owns exactly the value slots of its output ports, if the graph needs fewer
value slots than a 64-bit word can count.
-/

namespace FrameGraph

/-! ## Needed value slots -/

/-- One past the source port of an edge. -/
def Edge.neededPorts (e : Edge) : Nat :=
  match e.sourcePort with
  | .ok port => port + 1
  | .error _ => 0

/-- One past the source port of an edge, counted with 64-bit words. -/
def Edge.countedPorts (e : Edge) : Nat :=
  match e.sourcePort with
  | .ok port => (port + 1) % 2 ^ 64
  | .error _ => 0

namespace Graph

/-- One past the highest source port on the edges out of a node. -/
def neededPorts (g : Graph) (n : NodeId) : Nat :=
  ((g.outgoing n).map Edge.neededPorts).foldr max 0

/-- The number of value slots that constants, operators and the output ports of passes
need. -/
def neededValues (g : Graph) : Nat :=
  (g.nodesOfKind fun kind => kind = .float).length +
    (g.nodesOfKind isOperator).length +
    ((g.nodesOfKind fun kind => kind = .pass).map g.neededPorts).sum

theorem mem_nodesOfKind {g : Graph} {test : NodeKind → Bool} {n : NodeId} :
    n ∈ g.nodesOfKind test ↔ ∃ kind, g.kind? n = some kind ∧ test kind = true := by
  obtain ⟨index⟩ := n
  simp only [nodesOfKind, kind?, node?, List.mem_map, List.mem_filter, Prod.exists,
    List.mem_zipIdx_iff_getElem?, NodeId.mk.injEq, Option.map_eq_some_iff]
  constructor
  · rintro ⟨node, position, ⟨found, passes⟩, rfl⟩
    exact ⟨node.kind, ⟨node, by simpa using found, rfl⟩, passes⟩
  · rintro ⟨kind, ⟨node, found, rfl⟩, passes⟩
    exact ⟨node, index, ⟨by simpa using found, passes⟩, rfl⟩

theorem index_lt_of_kind? {g : Graph} {n : NodeId} {kind : NodeKind}
    (found : g.kind? n = some kind) : n.index < g.nodes.size := by
  obtain ⟨node, here, -⟩ := Option.map_eq_some_iff.mp found
  obtain ⟨inside, -⟩ := Array.getElem?_eq_some_iff.mp here
  exact inside

theorem portCount_eq_ok_iff {g : Graph} {n : NodeId} {edges : List Edge} {count : Nat} :
    g.portCount n edges = .ok count ↔
      (∀ e ∈ edges, ∃ port, e.sourcePort = .ok port) ∧
        count = (edges.map Edge.countedPorts).foldr max 0 := by
  induction edges generalizing count with
  | nil => simp [portCount, eq_comm]
  | cons e rest inductionHypothesis =>
      rw [portCount, List.forall_mem_cons, List.map_cons, List.foldr_cons, Edge.countedPorts]
      cases e.sourcePort with
      | error raw => simp
      | ok port =>
          simp only [map_eq_ok_iff, inductionHypothesis]
          constructor
          · rintro ⟨others, ⟨readable, rfl⟩, rfl⟩
            exact ⟨⟨⟨port, rfl⟩, readable⟩, rfl⟩
          · rintro ⟨⟨-, readable⟩, countEq⟩
            exact ⟨_, ⟨readable, rfl⟩, countEq.symm⟩

private theorem foldr_countedPorts {edges : List Edge}
    (word : (edges.map Edge.neededPorts).foldr max 0 < 2 ^ 64) :
    (edges.map Edge.countedPorts).foldr max 0 = (edges.map Edge.neededPorts).foldr max 0 := by
  induction edges with
  | nil => rfl
  | cons e rest inductionHypothesis =>
      simp only [List.map_cons, List.foldr_cons, Nat.max_lt] at word ⊢
      rw [inductionHypothesis word.2]
      congr 1
      have fits := word.1
      unfold Edge.neededPorts Edge.countedPorts at *
      cases portEq : e.sourcePort with
      | error raw => rfl
      | ok port =>
          rw [portEq] at fits
          exact Nat.mod_eq_of_lt fits

theorem outputPorts_eq_neededPorts {g : Graph} {n : NodeId} {count : Nat}
    (success : g.outputPorts n = .ok count) (word : g.neededPorts n < 2 ^ 64) :
    count = g.neededPorts n :=
  (portCount_eq_ok_iff.mp success).2.trans (foldr_countedPorts word)

end Graph

/-! ## Layouts -/

/-- The symbols are sound, the memories have the counted sizes, and the value slots of
a pass are those of its output ports. -/
structure Layout.Sound (g : Graph) (l : Layout) : Prop where
  symbols : l.symbols.Sound
  nodes : l.symbols.slots.size = g.nodes.size
  values : l.values.size = l.symbols.valueCount
  textures : l.textures.size = l.symbols.textureCount
  operations : l.symbols.operationCount = 0
  passes : ∀ p ∈ l.passes, g.kind? p.1 = some .pass ∧ p.2 = g.neededPorts p.1 ∧
    (l.symbols.slotsOf p.1).count = p.2

namespace Layout

variable {g : Graph}

/-- Handing out value slots to a node keeps a layout sound if value memory grows with
them and the node, if it is a pass, got the slots of its ports. -/
theorem Sound.allocateValues {l : Layout} {n : NodeId} {count : Nat} {symbols : Symbols}
    {values : Array Cell} {passes : Array (NodeId × Nat)} (sound : l.Sound g)
    (word : l.symbols.valueCount + count < 2 ^ 64)
    (success : l.symbols.allocateValues n count = .ok symbols)
    (inside : n.index < g.nodes.size)
    (grown : values.size = l.symbols.valueCount + count)
    (listed : ∀ p ∈ passes, p ∈ l.passes ∨ p.1 = n)
    (mine : ∀ p ∈ passes, p.1 = n →
      g.kind? n = some .pass ∧ p.2 = g.neededPorts n ∧ count = p.2) :
    Sound g ⟨symbols, values, l.textures, passes⟩ ∧
      symbols.valueCount = l.symbols.valueCount + count := by
  have symbolsSound := sound.symbols.allocateValues word success
  have slotsEq := Symbols.slotsOf_allocateValues word success
  have here : n.index < l.symbols.slots.size := sound.nodes.symm ▸ inside
  obtain ⟨-, rfl⟩ := Symbols.allocateValues_eq_ok word success
  refine ⟨⟨symbolsSound, ?_, grown, sound.textures, sound.operations, ?_⟩, rfl⟩
  · exact (Array.size_modify ..).trans sound.nodes
  · intro p member
    rw [slotsEq]
    by_cases same : n = p.1
    · obtain ⟨kind, needed, countEq⟩ := mine p member same.symm
      rw [if_pos ⟨same, here⟩]
      refine ⟨same ▸ kind, same ▸ needed, ?_⟩
      simp only [Slots.count, countEq]
      omega
    · rw [if_neg fun both => same both.1]
      exact sound.passes p ((listed p member).resolve_right (Ne.symm same))

theorem Sound.addFloat {l after : Layout} {n : NodeId} (sound : l.Sound g)
    (kind : g.kind? n = some .float) (word : l.symbols.valueCount + 1 < 2 ^ 64)
    (success : l.addFloat g n = .ok after) :
    after.Sound g ∧ after.symbols.valueCount = l.symbols.valueCount + 1 := by
  obtain ⟨symbols, allocated, success⟩ := bind_eq_ok_iff.mp success
  obtain ⟨c, -, success⟩ := bind_eq_ok_iff.mp success
  cases success
  refine sound.allocateValues word allocated (Graph.index_lt_of_kind? kind) ?_
    (fun p member => Or.inl member) ?_
  · rw [Array.size_push, sound.values]
  · rintro p member rfl
    rw [(sound.passes p member).1] at kind
    cases kind

theorem Sound.addOperator {l after : Layout} {n : NodeId} {op : Operator}
    (sound : l.Sound g) (kind : g.kind? n = some (.operator op))
    (word : l.symbols.valueCount + 1 < 2 ^ 64) (success : l.addOperator n = .ok after) :
    after.Sound g ∧ after.symbols.valueCount = l.symbols.valueCount + 1 := by
  obtain ⟨symbols, allocated, success⟩ := bind_eq_ok_iff.mp success
  cases success
  refine sound.allocateValues word allocated (Graph.index_lt_of_kind? kind) ?_
    (fun p member => Or.inl member) ?_
  · rw [Array.size_push, sound.values]
  · rintro p member rfl
    rw [(sound.passes p member).1] at kind
    cases kind

theorem size_resizeValues (values : Array Cell) (size : Nat) :
    (resizeValues values size).size = size := by
  unfold resizeValues
  split
  · next smaller =>
      rw [Array.take_eq_extract, Array.size_extract]
      omega
  · next notSmaller =>
      rw [Array.size_append, Array.size_replicate]
      omega

theorem Sound.addPass {l after : Layout} {n : NodeId} (sound : l.Sound g)
    (kind : g.kind? n = some .pass)
    (word : l.symbols.valueCount + g.neededPorts n < 2 ^ 64)
    (success : l.addPass g n = .ok after) :
    after.Sound g ∧
      after.symbols.valueCount = l.symbols.valueCount + g.neededPorts n := by
  obtain ⟨ports, counted, success⟩ := bind_eq_ok_iff.mp success
  obtain rfl := Graph.outputPorts_eq_neededPorts counted (by omega)
  obtain ⟨symbols, allocated, success⟩ := bind_eq_ok_iff.mp success
  cases success
  have grown := (Symbols.allocateValues_eq_ok word allocated).2
  refine sound.allocateValues word allocated (Graph.index_lt_of_kind? kind) ?_ ?_ ?_
  · rw [size_resizeValues, grown]
  · intro p member
    rcases Array.mem_push.mp member with old | new
    · exact Or.inl old
    · exact Or.inr (congrArg Prod.fst new)
  · rintro p member rfl
    rcases Array.mem_push.mp member with old | new
    · have needed := (sound.passes p old).2.1
      exact ⟨kind, needed, needed.symm⟩
    · have needed := congrArg Prod.snd new
      exact ⟨kind, needed, needed.symm⟩

theorem Sound.addTexture {l after : Layout} {n : NodeId} (sound : l.Sound g)
    (success : l.addTexture g n = .ok after) :
    after.Sound g ∧ after.symbols.valueCount = l.symbols.valueCount := by
  obtain ⟨format, -, success⟩ := bind_eq_ok_iff.mp success
  obtain ⟨symbols, allocated, success⟩ := bind_eq_ok_iff.mp success
  cases success
  have symbolsSound := sound.symbols.allocateTexture allocated
  have slotsEq := Symbols.slotsOf_allocateTexture allocated
  obtain ⟨-, rfl⟩ := Symbols.allocateTexture_eq_ok allocated
  refine ⟨⟨symbolsSound, ?_, sound.values, ?_, sound.operations, ?_⟩, rfl⟩
  · exact (Array.size_modify ..).trans sound.nodes
  · rw [Array.size_push, sound.textures]
  · intro p member
    obtain ⟨kind, needed, countEq⟩ := sound.passes p member
    refine ⟨kind, needed, ?_⟩
    rw [slotsEq, ← countEq]
    split <;> rfl

/-- Adding nodes one after the other keeps a layout sound and hands out the value slots
that they need. -/
theorem Sound.foldlM {add : Layout → NodeId → Except Error Layout}
    (need : NodeId → Nat) {nodes : List NodeId} {l after : Layout}
    (step : ∀ n ∈ nodes, ∀ l after, l.Sound g → l.symbols.valueCount + need n < 2 ^ 64 →
      add l n = .ok after →
        after.Sound g ∧ after.symbols.valueCount = l.symbols.valueCount + need n)
    (sound : l.Sound g)
    (word : l.symbols.valueCount + (nodes.map need).sum < 2 ^ 64)
    (success : nodes.foldlM add l = .ok after) :
    after.Sound g ∧
      after.symbols.valueCount = l.symbols.valueCount + (nodes.map need).sum := by
  have invariant := foldlM_ok_invariant
    (fun rest now => rest ⊆ nodes ∧ now.Sound g ∧
      now.symbols.valueCount + (rest.map need).sum =
        l.symbols.valueCount + (nodes.map need).sum)
    (fun n rest now next ⟨subset, nowSound, total⟩ added => by
      rw [List.map_cons, List.sum_cons] at total
      obtain ⟨nextSound, grown⟩ :=
        step n (subset List.mem_cons_self) now next nowSound (by omega) added
      exact ⟨fun _ member => subset (List.mem_cons_of_mem n member), nextSound, by omega⟩)
    ⟨List.Subset.refl nodes, sound, rfl⟩ success
  obtain ⟨-, afterSound, total⟩ := invariant
  exact ⟨afterSound, by simpa using total⟩

theorem sound_start (g : Graph) : Sound g { symbols := .ofGraph g } where
  symbols := Symbols.sound_ofGraph g
  nodes := Array.size_replicate
  values := rfl
  textures := rfl
  operations := rfl
  passes p member := absurd member (Array.not_mem_empty p)

/-- The layout of a graph is sound. -/
theorem sound_ofGraph {aliased : Option NodeId} {l : Layout}
    (word : g.neededValues < 2 ^ 64) (success : Layout.ofGraph g aliased = .ok l) :
    l.Sound g := by
  unfold Graph.neededValues at word
  obtain ⟨floats, floatsAdded, success⟩ := bind_eq_ok_iff.mp success
  obtain ⟨operators, operatorsAdded, success⟩ := bind_eq_ok_iff.mp success
  obtain ⟨passes, passesAdded, texturesAdded⟩ := bind_eq_ok_iff.mp success
  obtain ⟨floatsSound, floatsCount⟩ :=
    (sound_start g).foldlM (fun _ => 1)
      (fun n member l after sound word added =>
        sound.addFloat (by simpa [Graph.mem_nodesOfKind] using member) word added)
      (by simp [Symbols.ofGraph]; omega) floatsAdded
  obtain ⟨operatorsSound, operatorsCount⟩ :=
    floatsSound.foldlM (fun _ => 1)
      (fun n member l after sound word added => by
        obtain ⟨kind, kindEq, test⟩ := Graph.mem_nodesOfKind.mp member
        cases kind with
        | operator op => exact sound.addOperator kindEq word added
        | present | texture | float | pass => cases test)
      (by simp [floatsCount, Symbols.ofGraph]; omega) operatorsAdded
  obtain ⟨passesSound, -⟩ :=
    operatorsSound.foldlM g.neededPorts
      (fun n member l after sound word added =>
        sound.addPass (by simpa [Graph.mem_nodesOfKind] using member) word added)
      (by simp [operatorsCount, floatsCount, Symbols.ofGraph]; omega) passesAdded
  have bounded := passesSound.symbols.values_bound
  exact (passesSound.foldlM (fun _ => 0)
    (fun n _ l after sound _ added => sound.addTexture added)
    (by simp only [Address.spaceSize] at bounded; simp; omega) texturesAdded).1

end Layout

end FrameGraph
