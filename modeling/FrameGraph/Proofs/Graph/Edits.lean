import FrameGraph.Graph.Edit
import FrameGraph.Proofs.Compiler.Success

/-!
# What edits do

An edit in place answers as the operation that gives the changed graph, and leaves that graph
behind; if it is refused, it leaves the graph as it was.  What a single edit can do is said once,
as its effect.
-/

namespace FrameGraph

open Build

namespace Graph

variable (g : Graph) {α : Type}

/-! ## Graphs as worlds -/

theorem outcome_get_bind (next : Graph → Build Graph α) :
    (get >>= next).outcome g = (next g).outcome g := rfl

theorem outcome_modify_bind (change : Graph → Graph) (next : Unit → Build Graph α) :
    (modify change >>= next).outcome g = (next ()).outcome (change g) := rfl

theorem outcome_pure (a : α) : (pure a : Build Graph α).outcome g = (.ok a, g) := rfl

theorem outcome_refuse_bind (reason : Option Error) (next : Unit → Build Graph α) :
    (refuse reason >>= next).outcome g =
      match reason with
      | some fault => (.error fault, g)
      | none => (next ()).outcome g := by
  cases reason <;> rfl

theorem outcome_lift_bind {β : Type} (x : Except Error β) (next : β → Build Graph α) :
    ((liftM x : Build Graph β) >>= next).outcome g =
      match x with
      | .error fault => (.error fault, g)
      | .ok b => (next b).outcome g := by
  cases x <;> rfl

theorem outcome_map {β : Type} (f : α → β) (x : Build Graph α) :
    (f <$> x).outcome g = ((x.outcome g).1.map f, (x.outcome g).2) := by
  rw [map_eq_pure_bind, outcome_bind]
  rcases x.outcome g with ⟨fault | a, after⟩ <;> rfl

/-- What an operation that gives the changed graph means in place. -/
def inPlace : Except Error (α × Graph) → Except Error α × Graph
  | .error fault => (.error fault, g)
  | .ok (a, after) => (.ok a, after)

theorem outcome_insertNode (node : Node) :
    (insertNode node).outcome g = g.inPlace (g.addNode node) := by
  simp only [insertNode, outcome_get_bind, outcome_refuse_bind, outcome_modify_bind, outcome_pure,
    addNode]
  cases g.refusal? node <;> rfl

theorem outcome_insertEdge (e : Edge) :
    (insertEdge e).outcome g = g.inPlace (g.addEdge e) := by
  simp only [insertEdge, outcome_get_bind, outcome_refuse_bind, outcome_modify_bind, outcome_pure,
    missing?, addEdge]
  by_cases noSource : g.nodes.size ≤ e.source.index
  · simp only [if_pos noSource]
    rfl
  · by_cases noTarget : g.nodes.size ≤ e.target.index
    · simp only [if_neg noSource, if_pos noTarget]
      rfl
    · simp only [if_neg noSource, if_neg noTarget]
      rfl

theorem outcome_join (source : String) (sourcePort : Nat) (target : String) (targetPort : Nat) :
    (join source sourcePort target targetPort).outcome g =
      g.inPlace (g.connect source sourcePort target targetPort) := by
  simp only [join, outcome_get_bind, outcome_lift_bind, connect]
  cases g.find source with
  | error fault => rfl
  | ok s =>
      cases g.find target with
      | error fault => rfl
      | ok t => exact outcome_insertEdge g _

theorem outcome_takeEdge (id : EdgeId) :
    (takeEdge id).outcome g =
      match g.removeEdge id with
      | none => (.ok none, g)
      | some (e, after) => (.ok (some e), after) := by
  simp only [takeEdge, outcome_get_bind, removeEdge]
  cases g.edge? id <;> rfl

/-! ## Operations that give the changed graph -/

variable {g} {after : Graph}

theorem addNode_eq_ok_iff {node : Node} {n : NodeId} :
    g.addNode node = .ok (n, after) ↔
      g.refusal? node = none ∧ n = ⟨g.nodes.size⟩ ∧ after = g.pushNode node := by
  unfold addNode
  cases g.refusal? node <;> simp [eq_comm]

theorem addEdge_eq_ok_iff {e : Edge} {id : EdgeId} :
    g.addEdge e = .ok (id, after) ↔
      (e.source.index < g.nodes.size ∧ e.target.index < g.nodes.size) ∧ id = ⟨g.nextEdge⟩ ∧
        after = { g with edges := g.edges.push (id, e), nextEdge := g.nextEdge + 1 } := by
  unfold addEdge
  by_cases noSource : g.nodes.size ≤ e.source.index
  · simp [if_pos noSource, Nat.not_lt_of_le noSource]
  · by_cases noTarget : g.nodes.size ≤ e.target.index
    · simp [if_neg noSource, if_pos noTarget, Nat.not_lt_of_le noTarget]
    · simp only [if_neg noSource, if_neg noTarget, Nat.not_le.mp noSource, Nat.not_le.mp noTarget,
        Except.ok.injEq, Prod.mk.injEq, true_and]
      constructor
      · rintro ⟨rfl, rfl⟩
        exact ⟨rfl, rfl⟩
      · rintro ⟨rfl, rfl⟩
        exact ⟨rfl, rfl⟩

theorem removeEdge_eq_some_iff {id : EdgeId} {e : Edge} :
    g.removeEdge id = some (e, after) ↔
      g.edge? id = some e ∧ after = { g with edges := g.edges.filter fun p => p.1 ≠ id } := by
  rw [removeEdge, Option.map_eq_some_iff]
  constructor
  · rintro ⟨_, found, same⟩
    cases same
    exact ⟨found, rfl⟩
  · rintro ⟨found, rfl⟩
    exact ⟨e, found, rfl⟩

theorem removeEdge_eq_none_iff {id : EdgeId} : g.removeEdge id = none ↔ g.edge? id = none :=
  Option.map_eq_none_iff

theorem find_eq_ok_iff {id : String} {n : NodeId} : g.find id = .ok n ↔ g.find? id = some n := by
  unfold find
  cases g.find? id <;> simp

theorem find_eq_error_iff {id : String} {fault : Error} :
    g.find id = .error fault ↔ g.find? id = none ∧ fault = .unknownNode id := by
  unfold find
  cases g.find? id <;> simp [eq_comm]

theorem applyAll_append (edits more : List Edit) :
    g.applyAll (edits ++ more) = (g.applyAll edits).applyAll more :=
  List.foldl_append

end Graph

namespace Edit

/-! ## Edits as operations -/

section Operations

variable (g : Graph)

theorem apply_eq (edit : Edit) : edit.apply g = edit.perform.outcome g := rfl

theorem apply_addNode (node : Node) :
    (addNode node).apply g =
      ((g.inPlace (g.addNode node)).1.map .node, (g.inPlace (g.addNode node)).2) := by
  rw [apply_eq, perform, Graph.outcome_map, Graph.outcome_insertNode]

theorem apply_addEdge (e : Edge) :
    (addEdge e).apply g = ((g.inPlace (g.addEdge e)).1.map .edge, (g.inPlace (g.addEdge e)).2) := by
  rw [apply_eq, perform, Graph.outcome_map, Graph.outcome_insertEdge]

theorem apply_connect (source : String) (sourcePort : Nat) (target : String) (targetPort : Nat) :
    (connect source sourcePort target targetPort).apply g =
      ((g.inPlace (g.connect source sourcePort target targetPort)).1.map .edge,
        (g.inPlace (g.connect source sourcePort target targetPort)).2) := by
  rw [apply_eq, perform, Graph.outcome_map, Graph.outcome_join]

theorem apply_removeEdge (id : EdgeId) :
    (removeEdge id).apply g =
      match g.removeEdge id with
      | none => (.ok (.removed none), g)
      | some (e, after) => (.ok (.removed (some e)), after) := by
  rw [apply_eq, perform, Graph.outcome_map, Graph.outcome_takeEdge]
  cases g.removeEdge id <;> rfl

end Operations

/-! ## What one edit does -/

/-- The edge that an edit asks for, between the nodes that it names. -/
def edge? (g : Graph) : Edit → Option Edge
  | addEdge e => some e
  | connect source sourcePort target targetPort => do
    return .withPorts (← g.find? source) sourcePort (← g.find? target) targetPort
  | addNode _ | removeEdge _ | setMetadata _ _ _ => none

/-- What the answer to an edit says about the graph that it leaves behind. -/
inductive Effect (g : Graph) : Edit → Except Error Answer → Graph → Prop
  | refused (edit : Edit) (fault : Error) : Effect g edit (.error fault) g
  | node {node : Node} {n : NodeId} {after : Graph} (added : g.addNode node = .ok (n, after)) :
      Effect g (addNode node) (.ok (.node n)) after
  | edge {edit : Edit} {e : Edge} {id : EdgeId} {after : Graph} (asked : edit.edge? g = some e)
      (added : g.addEdge e = .ok (id, after)) : Effect g edit (.ok (.edge id)) after
  | removed {id : EdgeId} {e : Edge} {after : Graph} (found : g.removeEdge id = some (e, after)) :
      Effect g (removeEdge id) (.ok (.removed (some e))) after
  | unknown {id : EdgeId} (absent : g.edge? id = none) :
      Effect g (removeEdge id) (.ok (.removed none)) g
  | metadata (n : NodeId) (key value : String) :
      Effect g (setMetadata n key value) (.ok .done) (g.setMetadata n key value)

theorem effect_inPlace {g : Graph} {edit : Edit} {result : Except Error (EdgeId × Graph)}
    (asked : ∀ id after, result = .ok (id, after) →
      ∃ e, edit.edge? g = some e ∧ g.addEdge e = .ok (id, after)) :
    Effect g edit ((g.inPlace result).1.map .edge) (g.inPlace result).2 := by
  cases result with
  | error fault => exact .refused edit fault
  | ok added =>
      obtain ⟨e, asksFor, addedEq⟩ := asked added.1 added.2 rfl
      exact .edge asksFor addedEq

theorem effect_apply (edit : Edit) (g : Graph) :
    Effect g edit (edit.apply g).1 (edit.apply g).2 := by
  cases edit with
  | addNode node =>
      rw [apply_addNode]
      cases result : g.addNode node with
      | error fault => exact .refused _ fault
      | ok added => exact .node result
  | addEdge e =>
      rw [apply_addEdge]
      exact effect_inPlace fun id after added => ⟨e, rfl, added⟩
  | connect source sourcePort target targetPort =>
      rw [apply_connect]
      refine effect_inPlace fun id after joined => ?_
      obtain ⟨s, sourceFound, joined⟩ := bind_eq_ok_iff.mp joined
      obtain ⟨t, targetFound, joined⟩ := bind_eq_ok_iff.mp joined
      refine ⟨_, ?_, joined⟩
      rw [edge?, Graph.find_eq_ok_iff.mp sourceFound, Graph.find_eq_ok_iff.mp targetFound]
      rfl
  | removeEdge id =>
      rw [apply_removeEdge]
      cases result : g.removeEdge id with
      | none => exact .unknown (Graph.removeEdge_eq_none_iff.mp result)
      | some taken => exact .removed result
  | setMetadata n key value => exact .metadata n key value

theorem effect_of_apply {g after : Graph} {edit : Edit} {answer : Except Error Answer}
    (applied : edit.apply g = (answer, after)) : Effect g edit answer after := by
  have effect := effect_apply edit g
  rwa [applied] at effect

end Edit

end FrameGraph
