import FrameGraph.Proofs.Graph.Blocking
import Mathlib.Data.List.Forall2

/-!
# Relevance

Scheduling looks only at the edges from whose target the sink can be reached.  When these
edges are the same in two graphs, in the same order and up to the positions of the nodes,
peeling goes through both in step: the same nodes are taken in the same order, and the same
edges are blocked.  What else the graphs hold, loops and consumers of relevant nodes
included, leaves no trace.
-/

namespace FrameGraph

/-- An edge that joins the renamed ends of another one, at any ports. -/
def Edge.Renamed (rename : NodeId → NodeId) (e renamed : Edge) : Prop :=
  renamed.source = rename e.source ∧ renamed.target = rename e.target

/-- The edges from whose target the sink can be reached, in the order of addition. -/
def Graph.edgesTowards (g : Graph) (sink : NodeId) : List Edge :=
  g.edgeList.filter fun e => Reaches g.edgeList e.target sink

variable {rename : NodeId → NodeId}

/-! ## Lists without repetitions -/

theorem distinct_map {α β : Type} [DecidableEq α] [DecidableEq β] {f : α → β}
    (injective : Function.Injective f) (l : List α) :
    distinct (l.map f) = (distinct l).map f := by
  induction l with
  | nil => rfl
  | cons a rest inductionHypothesis =>
      rw [List.map_cons, distinct, distinct, List.map_cons, inductionHypothesis,
        List.filter_map]
      simp [Function.comp_def, injective.eq_iff]

namespace Schedule

variable {edges others : List Edge}

/-! ## One step -/

theorem into_renamed (injective : Function.Injective rename)
    (renamed : List.Forall₂ (Edge.Renamed rename) edges others) (n : NodeId) :
    List.Forall₂ (Edge.Renamed rename) (into edges n) (into others (rename n)) := by
  apply List.rel_filter (R := Edge.Renamed rename) _ renamed
  rintro e f ⟨-, targetEq⟩
  simp [targetEq, injective.eq_iff]

theorem without_renamed (injective : Function.Injective rename)
    (renamed : List.Forall₂ (Edge.Renamed rename) edges others) (n : NodeId) :
    List.Forall₂ (Edge.Renamed rename) (without edges n) (without others (rename n)) := by
  apply List.rel_filter (R := Edge.Renamed rename) _ renamed
  rintro e f ⟨-, targetEq⟩
  simp [targetEq, injective.eq_iff]

theorem sources_renamed (renamed : List.Forall₂ (Edge.Renamed rename) edges others) :
    others.map Edge.source = (edges.map Edge.source).map rename := by
  induction renamed with
  | nil => rfl
  | cons ends _ inductionHypothesis =>
      rw [List.map_cons, List.map_cons, List.map_cons, inductionHypothesis, ends.1]

theorem all_source_ne_renamed (injective : Function.Injective rename)
    (renamed : List.Forall₂ (Edge.Renamed rename) edges others) (n : NodeId) :
    (others.all fun e => e.source ≠ rename n) = edges.all fun e => e.source ≠ n := by
  induction renamed with
  | nil => rfl
  | cons ends _ inductionHypothesis =>
      simp only [List.all_cons, inductionHypothesis, ends.1, ne_eq, injective.eq_iff]

theorem freed_renamed (injective : Function.Injective rename)
    (renamed : List.Forall₂ (Edge.Renamed rename) edges others) (n : NodeId) :
    freed others (rename n) = (freed edges n).map rename := by
  rw [freed, freed, sources_renamed (into_renamed injective renamed n), ← List.map_reverse,
    distinct_map injective, List.filter_map]
  congr 1
  apply List.filter_congr
  intro source _
  exact all_source_ne_renamed injective (without_renamed injective renamed n) source

/-! ## A whole run -/

/-- Renamed edges are peeled off in the renamed order, and renamed edges are left. -/
theorem peel_renamed (injective : Function.Injective rename)
    (renamed : List.Forall₂ (Edge.Renamed rename) edges others) (frontier : List NodeId) :
    (peel others (frontier.map rename)).1 = (peel edges frontier).1.map rename ∧
      List.Forall₂ (Edge.Renamed rename) (peel edges frontier).2
        (peel others (frontier.map rename)).2 := by
  induction edges, frontier using peel.induct generalizing others with
  | case1 edges =>
      rw [List.map_nil, peel_nil, peel_nil]
      exact ⟨rfl, renamed⟩
  | case2 edges n rest _ _ _ inductionHypothesis =>
      have later := inductionHypothesis (without_renamed injective renamed n)
      rw [List.map_append, ← freed_renamed injective renamed] at later
      rw [List.map_cons, peel_cons, peel_cons, List.map_cons, later.1]
      exact ⟨rfl, later.2⟩

/-- An edge of the one list leaves a node when an edge of the other leaves the renamed node. -/
theorem exists_source_renamed (injective : Function.Injective rename)
    (renamed : List.Forall₂ (Edge.Renamed rename) edges others) (n : NodeId) :
    (∃ f ∈ others, f.source = rename n) ↔ ∃ e ∈ edges, e.source = n := by
  rw [← List.mem_map, ← List.mem_map, sources_renamed renamed,
    List.mem_map_of_injective injective]

end Schedule

namespace Graph

open Schedule

variable {g h : Graph} {sink : NodeId}

theorem edgesTowards_eq_relevant (g : Graph) (sink : NodeId) :
    g.edgesTowards sink = relevant g.edgeList sink :=
  (relevant_eq_filter g.edgeList sink).symm

/-- Every edge into the sink is relevant. -/
theorem incoming_eq_into (g : Graph) (sink : NodeId) :
    g.incoming sink = into (g.edgesTowards sink) sink := by
  rw [into, edgesTowards, List.filter_filter]
  apply List.filter_congr
  intro e _
  rw [← Bool.decide_and, decide_eq_decide]
  constructor
  · rintro rfl
    exact ⟨rfl, .refl⟩
  · intro both
    exact both.1

/-- With one predecessor each, both graphs are scheduled alike or blocked alike. -/
theorem schedule_renamed (injective : Function.Injective rename)
    (renamed : List.Forall₂ (Edge.Renamed rename) (relevant g.edgeList sink)
      (relevant h.edgeList (rename sink)))
    {final : NodeId} (finalEq : g.finalNode sink = .ok final)
    (otherFinalEq : h.finalNode (rename sink) = .ok (rename final)) :
    (∃ s, g.schedule sink = .ok s ∧
      h.schedule (rename sink) = .ok ⟨s.sinkFirst.map rename, rename s.finalNode⟩) ∨
    ∃ count, g.schedule sink = .error (.cyclicGraph count) ∧
      h.schedule (rename sink) = .error (.cyclicGraph count) := by
  have orderEq : peeled h.edgeList (rename sink) = (peeled g.edgeList sink).map rename :=
    (peel_renamed injective renamed [sink]).1
  have blockedRenamed : List.Forall₂ (Edge.Renamed rename) (blocked g.edgeList sink)
      (blocked h.edgeList (rename sink)) :=
    (peel_renamed injective renamed [sink]).2
  have loopIff := exists_source_renamed injective renamed sink
  by_cases loop : ∃ e ∈ relevant g.edgeList sink, e.source = sink
  · refine Or.inr ⟨_, schedule_of_loop finalEq loop, ?_⟩
    rw [schedule_of_loop otherFinalEq (loopIff.mpr loop), renamed.length_eq]
  · have sinkUnused : ∀ e ∈ relevant g.edgeList sink, e.source ≠ sink := by
      intro e member same
      exact loop ⟨e, member, same⟩
    have otherUnused : ∀ f ∈ relevant h.edgeList (rename sink), f.source ≠ rename sink := by
      intro f member same
      exact loop (loopIff.mp ⟨f, member, same⟩)
    by_cases nothingBlocked : blocked g.edgeList sink = []
    · have otherNothing : blocked h.edgeList (rename sink) = [] := by
        rw [nothingBlocked] at blockedRenamed
        exact List.forall₂_nil_left_iff.mp blockedRenamed
      refine Or.inl ⟨_, schedule_of_unblocked finalEq ⟨sinkUnused, nothingBlocked⟩, ?_⟩
      rw [schedule_of_unblocked otherFinalEq ⟨otherUnused, otherNothing⟩, orderEq]
    · have otherSome : blocked h.edgeList (rename sink) ≠ [] := by
        intro otherNothing
        rw [otherNothing] at blockedRenamed
        exact nothingBlocked (List.forall₂_nil_right_iff.mp blockedRenamed)
      refine Or.inr ⟨_, schedule_of_blocked finalEq sinkUnused nothingBlocked, ?_⟩
      rw [schedule_of_blocked otherFinalEq otherUnused otherSome, blockedRenamed.length_eq]

end Graph

/-- Two graphs with the same edges towards a sink, in the same order and up to the positions
of the nodes, are scheduled alike: in the same order and with the same final node, or with the
same count of blocked edges, or with the same fault of the sink.  The other nodes and edges of
the graphs may be any. -/
theorem schedule_depends_on_edges_towards_sink {g h : Graph} {sink : NodeId}
    (injective : Function.Injective rename)
    (same : List.Forall₂ (Edge.Renamed rename) (g.edgesTowards sink)
      (h.edgesTowards (rename sink))) :
    (∃ s, g.schedule sink = .ok s ∧
      h.schedule (rename sink) = .ok ⟨s.sinkFirst.map rename, rename s.finalNode⟩) ∨
    (∃ count, g.schedule sink = .error (.cyclicGraph count) ∧
      h.schedule (rename sink) = .error (.cyclicGraph count)) ∨
    (g.schedule sink = .error (.invalidPresentNode (.withoutPredecessor (g.nameOf sink))) ∧
      h.schedule (rename sink) =
        .error (.invalidPresentNode (.withoutPredecessor (h.nameOf (rename sink))))) ∨
    (g.schedule sink = .error (.invalidPresentNode (.severalPredecessors (g.nameOf sink))) ∧
      h.schedule (rename sink) =
        .error (.invalidPresentNode (.severalPredecessors (h.nameOf (rename sink))))) := by
  have incoming := Schedule.into_renamed injective same sink
  rw [← Graph.incoming_eq_into, ← Graph.incoming_eq_into] at incoming
  generalize hereEq : g.incoming sink = here at incoming
  generalize thereEq : h.incoming (rename sink) = there at incoming
  cases incoming with
  | nil =>
      refine Or.inr (Or.inr (Or.inl ⟨?_, ?_⟩))
      · simp [Graph.schedule, Graph.finalNode, hereEq, bind, Except.bind]
      · simp [Graph.schedule, Graph.finalNode, thereEq, bind, Except.bind]
  | @cons e f _ _ ends more =>
      cases more with
      | nil =>
          have finalEq : g.finalNode sink = .ok e.source :=
            Graph.finalNode_eq_ok_iff.mpr (by rw [hereEq]; rfl)
          have otherFinalEq : h.finalNode (rename sink) = .ok (rename e.source) :=
            Graph.finalNode_eq_ok_iff.mpr (by rw [thereEq, ← ends.1]; rfl)
          rw [Graph.edgesTowards_eq_relevant, Graph.edgesTowards_eq_relevant] at same
          rcases Graph.schedule_renamed injective same finalEq otherFinalEq with done | cyclic
          · exact Or.inl done
          · exact Or.inr (Or.inl cyclic)
      | cons _ _ =>
          refine Or.inr (Or.inr (Or.inr ⟨?_, ?_⟩))
          · simp [Graph.schedule, Graph.finalNode, hereEq, bind, Except.bind]
          · simp [Graph.schedule, Graph.finalNode, thereEq, bind, Except.bind]

/-- A constant that is added to itself and shown. -/
def quietGraph : Graph where
  nodes := #[.float "x" ⟨0⟩, .operator "sum" (.numeric .add), .present "out"]
  edges := #[(⟨0⟩, .withPorts ⟨0⟩ 0 ⟨1⟩ 0), (⟨1⟩, .withPorts ⟨0⟩ 0 ⟨1⟩ 1),
    (⟨2⟩, .withPorts ⟨1⟩ 0 ⟨2⟩ 0)]

/-- The same behind two operators in a loop, which all other nodes feed, the sink included. -/
def noisyGraph : Graph where
  nodes := #[.operator "a" (.numeric .fma), .operator "b" (.numeric .fma), .float "x" ⟨0⟩,
    .operator "sum" (.numeric .add), .present "out"]
  edges := #[(⟨0⟩, .withPorts ⟨0⟩ 0 ⟨1⟩ 0), (⟨1⟩, .withPorts ⟨2⟩ 0 ⟨3⟩ 0),
    (⟨2⟩, .withPorts ⟨1⟩ 0 ⟨0⟩ 0), (⟨3⟩, .withPorts ⟨2⟩ 0 ⟨0⟩ 1),
    (⟨4⟩, .withPorts ⟨2⟩ 0 ⟨3⟩ 1), (⟨5⟩, .withPorts ⟨4⟩ 0 ⟨1⟩ 1),
    (⟨6⟩, .withPorts ⟨3⟩ 0 ⟨4⟩ 0), (⟨7⟩, .withPorts ⟨3⟩ 0 ⟨1⟩ 2)]

/-- The place of a node of the quiet graph in the noisy one. -/
def noisyPlace (n : NodeId) : NodeId := ⟨n.index + 2⟩

theorem noisyPlace_injective : Function.Injective noisyPlace := by
  intro m n same
  cases m
  cases n
  simpa [noisyPlace] using same

theorem noisyGraph_is_scheduled_like_quietGraph :
    noisyGraph.schedule ⟨4⟩ = .ok ⟨[⟨4⟩, ⟨3⟩, ⟨2⟩], ⟨3⟩⟩ := by
  have quietEdges : quietGraph.edgesTowards ⟨2⟩ =
      [.withPorts ⟨0⟩ 0 ⟨1⟩ 0, .withPorts ⟨0⟩ 0 ⟨1⟩ 1, .withPorts ⟨1⟩ 0 ⟨2⟩ 0] := by
    decide +kernel
  have noisyEdges : noisyGraph.edgesTowards ⟨4⟩ =
      [.withPorts ⟨2⟩ 0 ⟨3⟩ 0, .withPorts ⟨2⟩ 0 ⟨3⟩ 1, .withPorts ⟨3⟩ 0 ⟨4⟩ 0] := by
    decide +kernel
  have same : List.Forall₂ (Edge.Renamed noisyPlace) (quietGraph.edgesTowards ⟨2⟩)
      (noisyGraph.edgesTowards (noisyPlace ⟨2⟩)) := by
    rw [show noisyPlace ⟨2⟩ = ⟨4⟩ from rfl, quietEdges, noisyEdges]
    exact .cons ⟨rfl, rfl⟩ (.cons ⟨rfl, rfl⟩ (.cons ⟨rfl, rfl⟩ .nil))
  have quiet : quietGraph.schedule ⟨2⟩ = .ok ⟨[⟨2⟩, ⟨1⟩, ⟨0⟩], ⟨1⟩⟩ := by
    decide +kernel
  have alike := schedule_depends_on_edges_towards_sink noisyPlace_injective same
  rw [quiet] at alike
  rcases alike with ⟨s, here, there⟩ | ⟨count, here, -⟩ | ⟨here, -⟩ | ⟨here, -⟩
  · cases here
    exact there
  · cases here
  · cases here
  · cases here

end FrameGraph
