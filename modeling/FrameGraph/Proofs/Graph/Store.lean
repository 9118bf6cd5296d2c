import FrameGraph.Proofs.Graph.Edits
import Mathlib.Data.List.Nodup
import Std.Data.HashMap.Lemmas

/-!
# Graphs as stores

However a graph was edited, the index of identifiers, the present node and the edge numbers agree
with the stored nodes and edges.
-/

namespace FrameGraph

namespace Graph

variable {g after : Graph} {n : NodeId} {node : Node} {id : EdgeId} {e : Edge}

/-! ## Consistent graphs -/

/-- What is known by identifier or kept beside the nodes agrees with the nodes, every edge joins
nodes of the graph, and the edges stand in the order of their numbers, which are in use. -/
structure Consistent (g : Graph) : Prop where
  find : ∀ id n, g.find? id = some n ↔ ∃ node, g.node? n = some node ∧ node.id = id
  present : ∀ n, g.present = some n ↔ g.kind? n = some .present
  ends : ∀ p ∈ g.edges, p.2.source.index < g.nodes.size ∧ p.2.target.index < g.nodes.size
  increasing : g.edges.toList.Pairwise fun p q => p.1.number < q.1.number
  used : ∀ p ∈ g.edges, p.1.number < g.nextEdge

theorem consistent_empty : Consistent {} where
  find id n := by simp [find?, node?]
  present n := by simp [kind?, node?]
  ends p member := by simp at member
  increasing := List.Pairwise.nil
  used p member := by simp at member

theorem index_lt_of_node? (here : g.node? n = some node) : n.index < g.nodes.size :=
  (Array.getElem?_eq_some_iff.mp here).1

/-- No two nodes have the same identifier. -/
theorem Consistent.eq_of_id_eq (consistent : g.Consistent) {m : NodeId} {other : Node}
    (here : g.node? n = some node) (there : g.node? m = some other)
    (same : node.id = other.id) : n = m := by
  have found := (consistent.find node.id n).mpr ⟨node, here, rfl⟩
  rw [(consistent.find node.id m).mpr ⟨other, there, same.symm⟩] at found
  exact (Option.some.inj found).symm

theorem Consistent.index_lt_of_find? (consistent : g.Consistent) {name : String}
    (found : g.find? name = some n) : n.index < g.nodes.size := by
  obtain ⟨node, here, -⟩ := (consistent.find name n).mp found
  exact index_lt_of_node? here

theorem Consistent.nameOf_of_find? (consistent : g.Consistent) {name : String}
    (found : g.find? name = some n) : g.nameOf n = name := by
  obtain ⟨node, here, named⟩ := (consistent.find name n).mp found
  rw [nameOf, here]
  exact named

theorem Consistent.eq_of_present (consistent : g.Consistent) {m : NodeId}
    (here : g.kind? n = some .present) (there : g.kind? m = some .present) : n = m := by
  have known := (consistent.present n).mpr here
  rw [(consistent.present m).mpr there] at known
  exact (Option.some.inj known).symm

theorem Consistent.eq_of_number_eq (consistent : g.Consistent) {p q : EdgeId × Edge}
    (here : p ∈ g.edges) (there : q ∈ g.edges) (same : p.1 = q.1) : p = q := by
  have apart : (g.edges.toList.map fun p => p.1.number).Nodup :=
    List.pairwise_map.mpr (consistent.increasing.imp Nat.ne_of_lt)
  exact List.inj_on_of_nodup_map apart (Array.mem_toList_iff.mpr here)
    (Array.mem_toList_iff.mpr there) (congrArg EdgeId.number same)

/-- The edge with a number is found. -/
theorem Consistent.edge?_eq_some_iff (consistent : g.Consistent) :
    g.edge? id = some e ↔ (id, e) ∈ g.edges := by
  constructor
  · intro found
    obtain ⟨p, first, rfl⟩ := Option.map_eq_some_iff.mp found
    obtain rfl : p.1 = id := by simpa using Array.find?_some first
    exact Array.mem_of_find?_eq_some first
  · intro member
    have listed : (g.edges.find? fun p => p.1 = id).isSome :=
      Array.find?_isSome.mpr ⟨(id, e), member, by simp⟩
    obtain ⟨p, first⟩ := Option.isSome_iff_exists.mp listed
    have numbered : p.1 = id := by simpa using Array.find?_some first
    have same := consistent.eq_of_number_eq (Array.mem_of_find?_eq_some first) member numbered
    rw [edge?, first, same]
    rfl

/-! ## Adding nodes -/

theorem node?_pushNode (m : NodeId) :
    (g.pushNode node).node? m = if m.index = g.nodes.size then some node else g.node? m :=
  Array.getElem?_push

theorem kind?_pushNode (m : NodeId) :
    (g.pushNode node).kind? m = if m.index = g.nodes.size then some node.kind else g.kind? m := by
  rw [kind?, node?_pushNode]
  split <;> rfl

theorem find?_pushNode (id : String) :
    (g.pushNode node).find? id = if node.id = id then some ⟨g.nodes.size⟩ else g.find? id := by
  simp only [find?, pushNode, Std.HashMap.getElem?_insert, beq_iff_eq]

theorem contains_positions_iff {id : String} :
    g.positions.contains id = true ↔ g.find? id ≠ none := by
  rw [find?, Std.HashMap.contains_eq_isSome_getElem?, Option.isSome_iff_ne_none]

/-- A node is refused if its identifier is known, and else if it is a second present node. -/
theorem refusal?_eq_some_iff {fault : Error} :
    g.refusal? node = some fault ↔
      (g.find? node.id ≠ none ∧ fault = .duplicateNode node.id) ∨
        (g.find? node.id = none ∧ (node.kind = .present ∧ g.present.isSome) ∧
          fault = .duplicatePresentNode) := by
  simp only [refusal?, contains_positions_iff]
  by_cases new : g.find? node.id = none
  · by_cases second : node.kind = .present ∧ g.present.isSome
    · simp only [new, second, ne_eq, not_true_eq_false, if_false, and_self, if_true, false_and,
        false_or, true_and, Option.some.injEq]
      exact eq_comm
    · simp [new, second]
  · simp only [new, ne_eq, not_false_eq_true, if_true, true_and, false_and, or_false,
      Option.some.injEq]
    exact eq_comm

theorem refusal?_eq_none_iff :
    g.refusal? node = none ↔
      g.find? node.id = none ∧ ¬ (node.kind = .present ∧ g.present.isSome) := by
  rw [Option.eq_none_iff_forall_ne_some]
  simp only [ne_eq, refusal?_eq_some_iff]
  constructor
  · intro allowed
    have new : g.find? node.id = none := by
      by_contra known
      exact allowed _ (.inl ⟨known, rfl⟩)
    exact ⟨new, fun second => allowed _ (.inr ⟨new, second, rfl⟩)⟩
  · intro ⟨new, single⟩ fault reason
    rcases reason with ⟨known, -⟩ | ⟨-, second, -⟩
    · exact known new
    · exact single second

theorem Consistent.pushNode (consistent : g.Consistent) (allowed : g.refusal? node = none) :
    (g.pushNode node).Consistent := by
  obtain ⟨new, single⟩ := refusal?_eq_none_iff.mp allowed
  refine ⟨fun id m => ?_, fun m => ?_, fun p member => ?_, consistent.increasing,
    consistent.used⟩
  · rw [find?_pushNode, node?_pushNode]
    by_cases here : m.index = g.nodes.size
    · obtain rfl : m = ⟨g.nodes.size⟩ := congrArg NodeId.mk here
      have old : g.find? id ≠ some ⟨g.nodes.size⟩ := fun found => by
        obtain ⟨other, inside, -⟩ := (consistent.find id _).mp found
        exact absurd (index_lt_of_node? inside) (Nat.lt_irrefl _)
      by_cases named : node.id = id
      · simp [named]
      · simp [named, old]
    · have later : (⟨g.nodes.size⟩ : NodeId) ≠ m := fun same =>
        here (congrArg NodeId.index same.symm)
      rw [if_neg here, ← consistent.find id m]
      by_cases named : node.id = id
      · simp [← named, later, new]
      · rw [if_neg named]
  · rw [kind?_pushNode]
    have presentEq : (g.pushNode node).present =
        if node.kind = .present then some ⟨g.nodes.size⟩ else g.present := rfl
    rw [presentEq]
    by_cases here : m.index = g.nodes.size
    · obtain rfl : m = ⟨g.nodes.size⟩ := congrArg NodeId.mk here
      have old : g.present ≠ some ⟨g.nodes.size⟩ := fun known => by
        obtain ⟨other, inside, -⟩ := Option.map_eq_some_iff.mp ((consistent.present _).mp known)
        exact absurd (index_lt_of_node? inside) (Nat.lt_irrefl _)
      by_cases isPresent : node.kind = .present
      · simp [isPresent]
      · simp [isPresent, old]
    · have later : (⟨g.nodes.size⟩ : NodeId) ≠ m := fun same =>
        here (congrArg NodeId.index same.symm)
      rw [if_neg here, ← consistent.present m]
      by_cases isPresent : node.kind = .present
      · have absent : g.present = none := by simpa [isPresent] using single
        simp [isPresent, later, absent]
      · rw [if_neg isPresent]
  · have old := consistent.ends p member
    have grown : (g.pushNode node).nodes.size = g.nodes.size + 1 := Array.size_push ..
    rw [grown]
    omega

/-! ## Adding and removing edges -/

theorem Consistent.addEdge (consistent : g.Consistent) (added : g.addEdge e = .ok (id, after)) :
    after.Consistent := by
  obtain ⟨ends, rfl, rfl⟩ := addEdge_eq_ok_iff.mp added
  refine ⟨consistent.find, consistent.present, fun p member => ?_, ?_, fun p member => ?_⟩
  · rcases Array.mem_push.mp member with old | rfl
    · exact consistent.ends p old
    · exact ends
  · rw [Array.toList_push, List.pairwise_append]
    refine ⟨consistent.increasing, List.pairwise_singleton .., fun p member q new => ?_⟩
    rw [List.mem_singleton.mp new]
    exact consistent.used p (Array.mem_toList_iff.mp member)
  · rcases Array.mem_push.mp member with old | rfl
    · exact Nat.lt_succ_of_lt (consistent.used p old)
    · exact Nat.lt_succ_self _

theorem Consistent.removeEdge (consistent : g.Consistent)
    (found : g.removeEdge id = some (e, after)) : after.Consistent := by
  obtain ⟨-, rfl⟩ := removeEdge_eq_some_iff.mp found
  refine ⟨consistent.find, consistent.present, fun p member => ?_, ?_, fun p member => ?_⟩
  · exact consistent.ends p (Array.mem_filter.mp member).1
  · rw [Array.toList_filter]
    exact consistent.increasing.filter _
  · exact consistent.used p (Array.mem_filter.mp member).1

/-! ## Changing metadata -/

theorem node?_setMetadata (m : NodeId) (key value : String) :
    (g.setMetadata n key value).node? m =
      (g.node? m).map fun node => if n = m then node.setMetadata key value else node := by
  obtain ⟨index⟩ := n
  obtain ⟨other⟩ := m
  simp only [node?, setMetadata, Array.getElem?_modify, NodeId.mk.injEq]
  split
  · rfl
  · simp

theorem kind?_setMetadata (m : NodeId) (key value : String) :
    (g.setMetadata n key value).kind? m = g.kind? m := by
  rw [kind?, node?_setMetadata, Option.map_map, kind?]
  congr 1
  funext node
  rw [Function.comp_apply]
  split <;> rfl

theorem Consistent.setMetadata (consistent : g.Consistent) (n : NodeId) (key value : String) :
    (g.setMetadata n key value).Consistent := by
  refine ⟨fun id m => ?_, fun m => ?_, fun p member => ?_, consistent.increasing,
    consistent.used⟩
  · have sameId (node : Node) :
        (if n = m then node.setMetadata key value else node).id = node.id := by
      split <;> rfl
    rw [node?_setMetadata]
    simp only [Option.map_eq_some_iff, exists_exists_and_eq_and, sameId]
    exact consistent.find id m
  · rw [kind?_setMetadata]
    exact consistent.present m
  · have size : (g.setMetadata n key value).nodes.size = g.nodes.size := Array.size_modify ..
    rw [size]
    exact consistent.ends p member

end Graph

/-! ## Every edit -/

/-- A node is added behind the others if its identifier is new and it is no second present
node. -/
theorem Edit.apply_addNode_eq_ok_iff {g after : Graph} (node : Node) {n : NodeId} :
    (addNode node).apply g = (.ok (.node n), after) ↔
      (g.find? node.id = none ∧ ¬ (node.kind = .present ∧ g.present.isSome)) ∧
        n = ⟨g.nodes.size⟩ ∧ after = g.pushNode node := by
  rw [apply_addNode, ← Graph.refusal?_eq_none_iff, ← Graph.addNode_eq_ok_iff]
  cases g.addNode node with
  | error fault => simp [Graph.inPlace, Except.map]
  | ok added => simp [Graph.inPlace, Except.map, Prod.ext_iff]

/-- Taking out an edge answers with the edge, and changes nothing if there is none. -/
theorem Edit.answer_removeEdge (g : Graph) (id : EdgeId) :
    ((removeEdge id).apply g).1 = .ok (.removed (g.edge? id)) := by
  rw [apply_removeEdge, Graph.removeEdge]
  cases g.edge? id <;> rfl

/-- Every edit keeps a graph consistent, also one that is refused. -/
theorem Graph.Consistent.apply {g after : Graph} {edit : Edit} {answer : Except Error Edit.Answer}
    (consistent : g.Consistent) (applied : edit.apply g = (answer, after)) : after.Consistent := by
  cases Edit.effect_of_apply applied with
  | refused | unknown => exact consistent
  | node added =>
      obtain ⟨allowed, -, rfl⟩ := addNode_eq_ok_iff.mp added
      exact consistent.pushNode allowed
  | edge asked added => exact consistent.addEdge added
  | removed found => exact consistent.removeEdge found
  | metadata n key value => exact consistent.setMetadata n key value

theorem Graph.Consistent.applyAll {g : Graph} (consistent : g.Consistent) (edits : List Edit) :
    (g.applyAll edits).Consistent := by
  induction edits generalizing g with
  | nil => exact consistent
  | cons edit rest inductionHypothesis => exact inductionHypothesis (consistent.apply rfl)

end FrameGraph
