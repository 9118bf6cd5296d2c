import FrameGraph.Proofs.Graph.Scheduling

/-!
# Blocked edges

The error of a cyclic graph counts edges.  Peeling never enters a set of nodes in which every
node feeds another one of the set, and the nodes that meet a cycle before the sink form such a
set; conversely every node that is left out meets a cycle.  So the edges counted are those
into the nodes that meet a cycle.  When an edge leaves the sink towards one of its producers,
these are all the edges from whose target the sink can be reached.
-/

namespace FrameGraph

variable {edges : List Edge} {sink n : NodeId}

instance (edges : List Edge) (sink n : NodeId) : Decidable (MeetsCycle edges sink n) :=
  decidable_of_iff (∃ e ∈ edges, Reaches edges n e.source ∧ OnCycle edges e.source ∧
      Reaches edges e.source sink) <| by
    constructor
    · rintro ⟨e, -, meets⟩
      exact ⟨e.source, meets⟩
    · intro meets
      obtain ⟨m, walk, cycle, onwards⟩ := meets
      obtain ⟨next, ⟨e, member, sourceEq, -⟩, -⟩ := cycle.exists_feeds
      subst sourceEq
      exact ⟨e, member, walk, cycle, onwards⟩

theorem MeetsCycle.reaches (meets : MeetsCycle edges sink n) : Reaches edges n sink := by
  obtain ⟨m, walk, -, onwards⟩ := meets
  exact walk.trans onwards

namespace Schedule

/-- A node that meets a cycle feeds another one that does. -/
theorem exists_feeds_of_meetsCycle (meets : MeetsCycle edges sink n) :
    ∃ next, MeetsCycle edges sink next ∧ Feeds (relevant edges sink) n next := by
  obtain ⟨m, walk, cycle, onwards⟩ := meets
  have here : ∃ next, Feeds edges n next ∧ MeetsCycle edges sink next := by
    rcases walk.cases_head with same | ⟨next, feeds, rest⟩
    · subst same
      obtain ⟨next, feeds, back⟩ := cycle.exists_feeds
      exact ⟨next, feeds, n, back, cycle, onwards⟩
    · exact ⟨next, feeds, m, rest, cycle, onwards⟩
  obtain ⟨next, feeds, nextMeets⟩ := here
  exact ⟨next, nextMeets, feeds_relevant.mpr ⟨feeds, nextMeets.reaches⟩⟩

/-- The nodes that are left out of what reaches the sink are those that meet a cycle. -/
theorem not_mem_peeled_iff (sinkUnused : ∀ e ∈ relevant edges sink, e.source ≠ sink)
    (reaches : Reaches edges n sink) :
    n ∉ peeled edges sink ↔ MeetsCycle edges sink n := by
  constructor
  · exact meetsCycle_of_left_out reaches
  · intro meets taken
    exact not_taken_of_closed (frontier_sink sinkUnused)
      (fun _ => exists_feeds_of_meetsCycle) taken meets

/-! ## The edges counted -/

theorem relevant_eq_filter (edges : List Edge) (sink : NodeId) :
    relevant edges sink = edges.filter fun e => Reaches edges e.target sink := by
  apply List.filter_congr
  intro e _
  simp [mem_ancestors_iff]

/-- What is blocked are the edges into the nodes that meet a cycle. -/
theorem blocked_eq_filter_meetsCycle
    (sinkUnused : ∀ e ∈ relevant edges sink, e.source ≠ sink) :
    blocked edges sink = edges.filter fun e => MeetsCycle edges sink e.target := by
  rw [blocked, blocked_eq_filter, relevant_eq_filter, List.filter_filter]
  apply List.filter_congr
  intro e member
  rw [← relevant_eq_filter, ← Bool.decide_and, decide_eq_decide]
  constructor
  · intro ⟨leftOut, reaches⟩
    exact (not_mem_peeled_iff sinkUnused reaches).mp leftOut
  · intro meets
    exact ⟨(not_mem_peeled_iff sinkUnused meets.reaches).mpr meets, meets.reaches⟩

/-- If a relevant edge leaves the sink, every node that reaches the sink meets a cycle. -/
theorem relevant_eq_filter_meetsCycle
    (loop : ∃ e ∈ relevant edges sink, e.source = sink) :
    relevant edges sink = edges.filter fun e => MeetsCycle edges sink e.target := by
  obtain ⟨f, member, leaves⟩ := loop
  obtain ⟨edge, back⟩ := mem_relevant.mp member
  have cycle : OnCycle edges sink := .of_feeds ⟨f, edge, leaves, rfl⟩ back
  rw [relevant_eq_filter]
  apply List.filter_congr
  intro e _
  rw [decide_eq_decide]
  constructor
  · intro reaches
    exact ⟨sink, reaches, cycle, .refl⟩
  · intro meets
    exact meets.reaches

end Schedule

namespace Graph

open Schedule

theorem schedule_of_cycleBefore {g : Graph} {sink : NodeId} {e : Edge}
    (one : g.incoming sink = [e]) (cycle : CycleBefore g.edgeList sink) :
    g.schedule sink = .error (.cyclicGraph
      (g.edgeList.countP fun e => MeetsCycle g.edgeList sink e.target)) := by
  have finalEq : g.finalNode sink = .ok e.source :=
    finalNode_eq_ok_iff.mpr (by rw [one]; rfl)
  rw [List.countP_eq_length_filter]
  by_cases loop : ∃ e ∈ relevant g.edgeList sink, e.source = sink
  · rw [schedule_of_loop finalEq loop, relevant_eq_filter_meetsCycle loop]
  · have sinkUnused : ∀ e ∈ relevant g.edgeList sink, e.source ≠ sink := by
      intro e member same
      exact loop ⟨e, member, same⟩
    have someBlocked : blocked g.edgeList sink ≠ [] := by
      intro nothingBlocked
      exact acyclic_of_unblocked ⟨sinkUnused, nothingBlocked⟩ cycle
    rw [schedule_of_blocked finalEq sinkUnused someBlocked,
      blocked_eq_filter_meetsCycle sinkUnused]

/-- A graph is reported as cyclic only for a sink with one predecessor. -/
theorem cycleBefore_of_schedule {g : Graph} {sink : NodeId} {count : Nat}
    (failure : g.schedule sink = .error (.cyclicGraph count)) :
    (∃ e, g.incoming sink = [e]) ∧ CycleBefore g.edgeList sink := by
  cases shape : g.incoming sink with
  | nil => simp [schedule, finalNode, shape, bind, Except.bind] at failure
  | cons e rest =>
      cases rest with
      | cons second others => simp [schedule, finalNode, shape, bind, Except.bind] at failure
      | nil =>
          refine ⟨⟨e, rfl⟩, ?_⟩
          by_contra acyclic
          have finalEq : g.finalNode sink = .ok e.source :=
            finalNode_eq_ok_iff.mpr (by rw [shape]; rfl)
          rw [schedule_of_unblocked finalEq (unblocked_of_acyclic acyclic)] at failure
          cases failure

end Graph

/-- A sink with one incoming edge that a cycle reaches, and no other, fails with the report of
a cyclic graph.  The report counts the edges from whose target a walk leads to a cycle and on
to the sink, whether or not the sink itself lies on a cycle. -/
theorem cyclicGraph_counts_blocked_edges (g : Graph) (sink : NodeId) (count : Nat) :
    g.schedule sink = .error (.cyclicGraph count) ↔
      (∃ e, g.incoming sink = [e]) ∧ CycleBefore g.edgeList sink ∧
        count = g.edgeList.countP fun e => MeetsCycle g.edgeList sink e.target := by
  constructor
  · intro failure
    obtain ⟨⟨e, one⟩, cycle⟩ := Graph.cycleBefore_of_schedule failure
    have counted := Graph.schedule_of_cycleBefore one cycle
    rw [failure] at counted
    cases counted
    exact ⟨⟨e, one⟩, cycle, rfl⟩
  · rintro ⟨⟨e, one⟩, cycle, rfl⟩
    exact Graph.schedule_of_cycleBefore one cycle

/-- A constant feeds a loop of two operators, one of which is shown and feeds a texture too. -/
def loopBehindConstant : Graph where
  nodes := #[.float "x" ⟨0⟩, .operator "a" (.numeric .add), .operator "b" (.numeric .neg),
    .texture "t" "rgba8", .present "out"]
  edges := #[(⟨0⟩, .withPorts ⟨0⟩ 0 ⟨1⟩ 0), (⟨1⟩, .withPorts ⟨1⟩ 0 ⟨2⟩ 0),
    (⟨2⟩, .withPorts ⟨2⟩ 0 ⟨1⟩ 1), (⟨3⟩, .withPorts ⟨2⟩ 0 ⟨3⟩ 0),
    (⟨4⟩, .withPorts ⟨2⟩ 0 ⟨4⟩ 0)]

example : loopBehindConstant.schedule ⟨4⟩ = .error (.cyclicGraph 3) := by decide +kernel

end FrameGraph
