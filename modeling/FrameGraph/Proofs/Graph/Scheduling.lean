import FrameGraph.Compiler.Compile
import FrameGraph.Proofs.Graph.Peeling

/-!
# Schedules

A sink with one predecessor is scheduled exactly when no cycle reaches it.  The
schedule then lists what reaches the sink, once each, with every producer before its
consumers.
-/

namespace FrameGraph

/-- A cycle lies on some walk to the sink. -/
def CycleBefore (edges : List Edge) (sink : NodeId) : Prop :=
  ∃ n, OnCycle edges n ∧ Reaches edges n sink

/-- A walk leads from the node to a cycle, and another one from there to the sink. -/
def MeetsCycle (edges : List Edge) (sink n : NodeId) : Prop :=
  ∃ m, Reaches edges n m ∧ OnCycle edges m ∧ Reaches edges m sink

theorem MeetsCycle.cycleBefore {edges : List Edge} {sink n : NodeId}
    (meets : MeetsCycle edges sink n) : CycleBefore edges sink := by
  obtain ⟨m, -, cycle, onwards⟩ := meets
  exact ⟨m, cycle, onwards⟩

/-- A schedule lists what reaches the sink, once each and producers first, and names
the one predecessor of the sink. -/
structure Schedule.Covers (s : Schedule) (g : Graph) (sink : NodeId) : Prop where
  starts : s.sinkFirst.head? = some sink
  nodup : s.sinkFirst.Nodup
  mem_iff : ∀ n, n ∈ s.sinkFirst ↔ Reaches g.edgeList n sink
  before : ∀ e ∈ g.edgeList, e.source ∈ s.sinkFirst → e.target ∈ s.sinkFirst →
    s.evaluationOrder.idxOf e.source < s.evaluationOrder.idxOf e.target
  final : (g.incoming sink).map Edge.source = [s.finalNode]

namespace Schedule

theorem Covers.mem_evaluationOrder {s : Schedule} {g : Graph} {sink : NodeId}
    (covers : s.Covers g sink) {n : NodeId} :
    n ∈ s.evaluationOrder ↔ Reaches g.edgeList n sink := by
  rw [evaluationOrder, List.mem_reverse, covers.mem_iff]

theorem Covers.nodup_evaluationOrder {s : Schedule} {g : Graph} {sink : NodeId}
    (covers : s.Covers g sink) : s.evaluationOrder.Nodup :=
  List.nodup_reverse.mpr covers.nodup

/-! ## Relevant edges -/

theorem feeds_relevant {edges : List Edge} {sink source target : NodeId} :
    Feeds (relevant edges sink) source target ↔
      Feeds edges source target ∧ Reaches edges target sink := by
  constructor
  · rintro ⟨e, member, sourceEq, rfl⟩
    obtain ⟨edge, reaches⟩ := mem_relevant.mp member
    exact ⟨⟨e, edge, sourceEq, rfl⟩, reaches⟩
  · rintro ⟨⟨e, edge, sourceEq, rfl⟩, reaches⟩
    exact ⟨e, mem_relevant.mpr ⟨edge, reaches⟩, sourceEq, rfl⟩

/-- The order in which what feeds a sink is peeled off. -/
def peeled (edges : List Edge) (sink : NodeId) : List NodeId :=
  (peel (relevant edges sink) [sink]).1

/-- The edges that a cycle blocks. -/
def blocked (edges : List Edge) (sink : NodeId) : List Edge :=
  (peel (relevant edges sink) [sink]).2

theorem head?_peeled (edges : List Edge) (sink : NodeId) :
    (peeled edges sink).head? = some sink := by
  rw [peeled, peel_cons]
  rfl

theorem sink_mem_peeled (edges : List Edge) (sink : NodeId) :
    sink ∈ peeled edges sink :=
  subset_peel _ _ List.mem_cons_self

theorem reaches_of_mem_peeled {edges : List Edge} {sink n : NodeId}
    (member : n ∈ peeled edges sink) : Reaches edges n sink := by
  rcases mem_frontier_or_feeds _ _ member with isSink | ⟨next, -, feeds⟩
  · rw [List.mem_singleton.mp isSink]
    exact .refl
  · obtain ⟨edge, reaches⟩ := feeds_relevant.mp feeds
    exact .head edge reaches

/-- A node that reaches the sink is peeled off as soon as everything it feeds on the
way is. -/
theorem mem_peeled_of_consumers {edges : List Edge} {sink n : NodeId}
    (reaches : Reaches edges n sink)
    (consumers : ∀ next, Feeds edges n next → Reaches edges next sink →
      next ∈ peeled edges sink) : n ∈ peeled edges sink := by
  rcases reaches.cases_head with rfl | ⟨next, edge, onwards⟩
  · exact sink_mem_peeled edges n
  · refine mem_peel_of_consumers_taken _ _
      ⟨next, feeds_relevant.mpr ⟨edge, onwards⟩⟩ ?_
    intro other feeds
    obtain ⟨edge, onwards⟩ := feeds_relevant.mp feeds
    exact consumers other edge onwards

/-! ## Blocked edges -/

/-- No relevant edge leaves the sink, and none is blocked. -/
def Unblocked (edges : List Edge) (sink : NodeId) : Prop :=
  (∀ e ∈ relevant edges sink, e.source ≠ sink) ∧ blocked edges sink = []

/-- From a node that is left out, although it reaches the sink, a walk leads to a cycle. -/
theorem meetsCycle_of_left_out {edges : List Edge} {sink n : NodeId}
    (reaches : Reaches edges n sink) (leftOut : n ∉ peeled edges sink) :
    MeetsCycle edges sink n := by
  -- The nodes on the way that were left out feed each other, so that one lies on a cycle.
  let left := (n :: (relevant edges sink).map Edge.target).filter
    fun m => m ∉ peeled edges sink ∧ Reaches edges n m ∧ Reaches edges m sink
  have mem_left {m : NodeId} : m ∈ left ↔
      (m = n ∨ ∃ e ∈ relevant edges sink, e.target = m) ∧
        m ∉ peeled edges sink ∧ Reaches edges n m ∧ Reaches edges m sink := by
    simp [left]
  have feeds : ∀ m ∈ left, ∃ next ∈ left, Feeds edges m next := by
    intro m mLeft
    obtain ⟨-, leftOut, walk, onwards⟩ := mem_left.mp mLeft
    by_contra finished
    refine leftOut (mem_peeled_of_consumers onwards ?_)
    intro next edge nextOnwards
    by_contra nextLeftOut
    obtain ⟨e, member, -, targetEq⟩ := feeds_relevant.mpr ⟨edge, nextOnwards⟩
    exact finished ⟨next, mem_left.mpr ⟨Or.inr ⟨e, member, targetEq⟩, nextLeftOut,
      walk.tail edge, nextOnwards⟩, edge⟩
  have nLeft : n ∈ left := mem_left.mpr ⟨Or.inl rfl, leftOut, .refl, reaches⟩
  obtain ⟨m, mLeft, cycle⟩ := exists_onCycle nLeft feeds
  obtain ⟨-, -, walk, onwards⟩ := mem_left.mp mLeft
  exact ⟨m, walk, cycle, onwards⟩

/-- Without a cycle nothing is blocked. -/
theorem unblocked_of_acyclic {edges : List Edge} {sink : NodeId}
    (acyclic : ¬ CycleBefore edges sink) : Unblocked edges sink := by
  constructor
  · rintro e member rfl
    obtain ⟨edge, reaches⟩ := mem_relevant.mp member
    exact acyclic ⟨e.source, .of_feeds ⟨e, edge, rfl, rfl⟩ reaches, .refl⟩
  · by_contra nonempty
    obtain ⟨e, isBlocked⟩ := List.exists_mem_of_ne_nil _ nonempty
    obtain ⟨member, leftOut⟩ := (mem_blocked _ _).mp isBlocked
    exact acyclic (meetsCycle_of_left_out (mem_relevant.mp member).2 leftOut).cycleBefore

/-! ## The order of an unblocked run -/

section Unblocked

variable {edges : List Edge} {sink : NodeId}

theorem frontier_sink (sinkUnused : ∀ e ∈ relevant edges sink, e.source ≠ sink) :
    Frontier (relevant edges sink) [sink] where
  nodup := List.nodup_singleton sink
  exhausted n member e edge := by
    rw [List.mem_singleton.mp member]
    exact sinkUnused e edge

theorem mem_peeled_iff (unblocked : Unblocked edges sink) {n : NodeId} :
    n ∈ peeled edges sink ↔ Reaches edges n sink := by
  refine ⟨reaches_of_mem_peeled, fun reaches => ?_⟩
  refine mem_peeled_of_consumers reaches ?_
  intro next edge onwards
  obtain ⟨e, member, -, rfl⟩ := feeds_relevant.mpr ⟨edge, onwards⟩
  by_contra leftOut
  have isBlocked : e ∈ blocked edges sink := (mem_blocked _ _).mpr ⟨member, leftOut⟩
  rw [unblocked.2] at isBlocked
  exact List.not_mem_nil isBlocked

/-- In a list where no element relates to itself or to a later one, related elements
stand in the opposite order. -/
private theorem idxOf_lt_idxOf {R : NodeId → NodeId → Prop} {order : List NodeId}
    (separate : order.Pairwise fun earlier later => ¬ R earlier later)
    (irreflexive : ∀ n ∈ order, ¬ R n n) {a b : NodeId} (aMember : a ∈ order)
    (bMember : b ∈ order) (related : R a b) : order.idxOf b < order.idxOf a := by
  have aBound := List.idxOf_lt_length_of_mem aMember
  have bBound := List.idxOf_lt_length_of_mem bMember
  have aHere : order[order.idxOf a] = a := List.getElem_idxOf aBound
  have bHere : order[order.idxOf b] = b := List.getElem_idxOf bBound
  rcases Nat.lt_trichotomy (order.idxOf a) (order.idxOf b) with less | same | greater
  · have unrelated := List.pairwise_iff_getElem.mp separate _ _ aBound bBound less
    rw [aHere, bHere] at unrelated
    exact absurd related unrelated
  · have equal : a = b := by
      rw [← aHere, ← bHere]
      simp only [same]
    subst equal
    exact absurd related (irreflexive a aMember)
  · exact greater

/-- Along an edge towards the sink the evaluation goes forward. -/
theorem idxOf_lt_of_feeds (unblocked : Unblocked edges sink) {source target : NodeId}
    (feeds : Feeds edges source target) (reaches : Reaches edges target sink) :
    (peeled edges sink).reverse.idxOf source < (peeled edges sink).reverse.idxOf target := by
  have invariant := frontier_sink unblocked.1
  have separate : (peeled edges sink).reverse.Pairwise
      fun earlier later => ¬ Feeds (relevant edges sink) later earlier :=
    List.pairwise_reverse.mpr (pairwise_peel invariant)
  refine idxOf_lt_idxOf (R := fun a b => Feeds (relevant edges sink) b a) separate ?_ ?_ ?_
    (feeds_relevant.mpr ⟨feeds, reaches⟩)
  · intro n member
    exact not_feeds_self invariant (List.mem_reverse.mp member)
  · exact List.mem_reverse.mpr ((mem_peeled_iff unblocked).mpr reaches)
  · exact List.mem_reverse.mpr ((mem_peeled_iff unblocked).mpr (.head feeds reaches))

/-- An unblocked run shows that no cycle reaches the sink. -/
theorem acyclic_of_unblocked (unblocked : Unblocked edges sink) :
    ¬ CycleBefore edges sink := by
  rintro ⟨n, cycle, reaches⟩
  have forward : ∀ {a b : NodeId}, Relation.TransGen (Feeds edges) a b →
      Reaches edges b sink →
        (peeled edges sink).reverse.idxOf a < (peeled edges sink).reverse.idxOf b := by
    intro a b walk
    induction walk with
    | single feeds => exact idxOf_lt_of_feeds unblocked feeds
    | tail _ feeds inductionHypothesis =>
        intro onwards
        exact (inductionHypothesis (.head feeds onwards)).trans
          (idxOf_lt_of_feeds unblocked feeds onwards)
  exact Nat.lt_irrefl _ (forward cycle reaches)

theorem unblocked_iff_acyclic : Unblocked edges sink ↔ ¬ CycleBefore edges sink :=
  ⟨acyclic_of_unblocked, unblocked_of_acyclic⟩

end Unblocked

end Schedule

namespace Graph

open Schedule

/-! ## Schedules of a graph -/

theorem finalNode_eq_ok_iff {g : Graph} {sink final : NodeId} :
    g.finalNode sink = .ok final ↔ (g.incoming sink).map Edge.source = [final] := by
  unfold finalNode
  split
  · next none => simp [none]
  · next e one => simp [one]
  · next notNone notOne =>
      refine iff_of_false (by simp) ?_
      intro mapped
      obtain ⟨e, one, -⟩ := List.map_eq_singleton_iff.mp mapped
      exact notOne e one

theorem schedule_of_unblocked {g : Graph} {sink final : NodeId}
    (finalEq : g.finalNode sink = .ok final) (unblocked : Unblocked g.edgeList sink) :
    g.schedule sink = .ok ⟨peeled g.edgeList sink, final⟩ := by
  obtain ⟨sinkUnused, nothingBlocked⟩ := unblocked
  have split : peel (relevant g.edgeList sink) [sink] = (peeled g.edgeList sink, []) :=
    Prod.ext rfl nothingBlocked
  have noEdge : ¬ ∃ e ∈ relevant g.edgeList sink, e.source = sink := by
    rintro ⟨e, member, same⟩
    exact sinkUnused e member same
  simp [schedule, finalEq, split, noEdge, bind, Except.bind, pure, Except.pure]

/-- A relevant edge that leaves the sink is an error at once, with all relevant edges. -/
theorem schedule_of_loop {g : Graph} {sink final : NodeId}
    (finalEq : g.finalNode sink = .ok final)
    (loop : ∃ e ∈ relevant g.edgeList sink, e.source = sink) :
    g.schedule sink = .error (.cyclicGraph (relevant g.edgeList sink).length) := by
  simp [schedule, finalEq, loop, bind, Except.bind, throw, throwThe, MonadExceptOf.throw]

theorem schedule_of_blocked {g : Graph} {sink final : NodeId}
    (finalEq : g.finalNode sink = .ok final)
    (sinkUnused : ∀ e ∈ relevant g.edgeList sink, e.source ≠ sink)
    (someBlocked : blocked g.edgeList sink ≠ []) :
    g.schedule sink = .error (.cyclicGraph (blocked g.edgeList sink).length) := by
  obtain ⟨e, rest, shape⟩ := List.exists_cons_of_ne_nil someBlocked
  have split : peel (relevant g.edgeList sink) [sink] =
      (peeled g.edgeList sink, e :: rest) :=
    Prod.ext rfl shape
  have noEdge : ¬ ∃ e ∈ relevant g.edgeList sink, e.source = sink := by
    rintro ⟨e, member, same⟩
    exact sinkUnused e member same
  rw [shape]
  simp [schedule, finalEq, noEdge, split, bind, Except.bind, throw, throwThe,
    MonadExceptOf.throw]

theorem schedule_of_not_unblocked {g : Graph} {sink final : NodeId}
    (finalEq : g.finalNode sink = .ok final) (isBlocked : ¬ Unblocked g.edgeList sink) :
    ∃ count, g.schedule sink = .error (.cyclicGraph count) := by
  by_cases loop : ∃ e ∈ relevant g.edgeList sink, e.source = sink
  · exact ⟨_, schedule_of_loop finalEq loop⟩
  · have sinkUnused : ∀ e ∈ relevant g.edgeList sink, e.source ≠ sink := by
      intro e member same
      exact loop ⟨e, member, same⟩
    have someBlocked : blocked g.edgeList sink ≠ [] := by
      intro nothingBlocked
      exact isBlocked ⟨sinkUnused, nothingBlocked⟩
    exact ⟨_, schedule_of_blocked finalEq sinkUnused someBlocked⟩

theorem finalNode_of_schedule {g : Graph} {sink : NodeId} {s : Schedule}
    (success : g.schedule sink = .ok s) : g.finalNode sink = .ok s.finalNode := by
  cases finalEq : g.finalNode sink with
  | error fault => simp [schedule, finalEq, bind, Except.bind] at success
  | ok final =>
      by_cases unblocked : Unblocked g.edgeList sink
      · rw [schedule_of_unblocked finalEq unblocked] at success
        cases success
        rfl
      · obtain ⟨count, failure⟩ := schedule_of_not_unblocked finalEq unblocked
        rw [failure] at success
        cases success

theorem unblocked_of_schedule {g : Graph} {sink : NodeId} {s : Schedule}
    (success : g.schedule sink = .ok s) : Unblocked g.edgeList sink := by
  by_contra isBlocked
  obtain ⟨count, failure⟩ :=
    schedule_of_not_unblocked (finalNode_of_schedule success) isBlocked
  rw [failure] at success
  cases success

/-- There is a schedule exactly when the sink has one predecessor and no cycle reaches
it. -/
theorem exists_schedule_iff {g : Graph} {sink final : NodeId} :
    (∃ s, g.schedule sink = .ok s ∧ s.finalNode = final) ↔
      (g.incoming sink).map Edge.source = [final] ∧ ¬ CycleBefore g.edgeList sink := by
  constructor
  · rintro ⟨s, success, rfl⟩
    exact ⟨finalNode_eq_ok_iff.mp (finalNode_of_schedule success),
      acyclic_of_unblocked (unblocked_of_schedule success)⟩
  · rintro ⟨predecessor, acyclic⟩
    exact ⟨_, schedule_of_unblocked (finalNode_eq_ok_iff.mpr predecessor)
      (unblocked_of_acyclic acyclic), rfl⟩

end Graph

/-- A schedule that was found covers what feeds its sink. -/
theorem Schedule.covers_of_schedule {g : Graph} {sink : NodeId} {s : Schedule}
    (success : g.schedule sink = .ok s) : s.Covers g sink := by
  have finalEq := Graph.finalNode_of_schedule success
  have unblocked := Graph.unblocked_of_schedule success
  rw [Graph.schedule_of_unblocked finalEq unblocked] at success
  have listed : s.sinkFirst = peeled g.edgeList sink :=
    congrArg Schedule.sinkFirst (Except.ok.inj success).symm
  constructor
  · rw [listed]
    exact head?_peeled g.edgeList sink
  · rw [listed]
    exact nodup_peel (frontier_sink unblocked.1)
  · intro n
    rw [listed]
    exact mem_peeled_iff unblocked
  · intro e member _ targetListed
    rw [listed] at targetListed
    rw [evaluationOrder, listed]
    exact idxOf_lt_of_feeds unblocked ⟨e, member, rfl, rfl⟩
      ((mem_peeled_iff unblocked).mp targetListed)
  · exact Graph.finalNode_eq_ok_iff.mp finalEq

/-- An error before any operation is made is the error of the compilation. -/
theorem compile_of_blueprint_error {ω : Type} {g : Graph} {config : Config} {fault : Error}
    (failure : Compiler.blueprint config g = .error fault) (registry : Registry ω) (world : ω) :
    (compile registry config g).run.run world = (.error fault, world) := by
  simp [compile, failure]
  rfl

/-- The error of a schedule is the error of the compilation; no operation is made. -/
theorem compile_of_schedule_error {ω : Type} {g : Graph} {sink : NodeId} {fault : Error}
    (present : g.presentNode = .ok sink) (failure : g.schedule sink = .error fault)
    (registry : Registry ω) (config : Config) (world : ω) :
    (compile registry config g).run.run world = (.error fault, world) := by
  apply compile_of_blueprint_error
  simp [Compiler.blueprint, present, failure, bind, Except.bind]

/-- Scheduling is sound and complete. -/
theorem schedule_sound_and_complete (g : Graph) (sink : NodeId) :
    (∀ e, g.incoming sink = [e] →
      ((∃ s, g.schedule sink = .ok s) ↔ ¬ CycleBefore g.edgeList sink) ∧
      (CycleBefore g.edgeList sink →
        ∃ count, g.schedule sink = .error (.cyclicGraph count)) ∧
      ∀ s, g.schedule sink = .ok s → s.Covers g sink ∧ s.finalNode = e.source) ∧
    (g.incoming sink = [] →
      g.schedule sink =
        .error (.invalidPresentNode (.withoutPredecessor (g.nameOf sink)))) ∧
    (2 ≤ (g.incoming sink).length →
      g.schedule sink =
        .error (.invalidPresentNode (.severalPredecessors (g.nameOf sink)))) ∧
    ∀ fault, g.presentNode = .ok sink → g.schedule sink = .error fault →
      ∀ {ω : Type} (registry : Registry ω) (config : Config) (world : ω),
        (compile registry config g).run.run world = (.error fault, world) := by
  refine ⟨?_, ?_, ?_, fun fault present failure =>
    compile_of_schedule_error present failure⟩
  · intro e one
    have finalEq : g.finalNode sink = .ok e.source :=
      Graph.finalNode_eq_ok_iff.mpr (by rw [one]; rfl)
    have fails (cycle : CycleBefore g.edgeList sink) :
        ∃ count, g.schedule sink = .error (.cyclicGraph count) :=
      Graph.schedule_of_not_unblocked finalEq fun unblocked =>
        Schedule.unblocked_iff_acyclic.mp unblocked cycle
    refine ⟨⟨?_, ?_⟩, fails, ?_⟩
    · rintro ⟨s, success⟩ cycle
      obtain ⟨count, failure⟩ := fails cycle
      rw [failure] at success
      cases success
    · intro acyclic
      exact ⟨_, Graph.schedule_of_unblocked finalEq
        (Schedule.unblocked_iff_acyclic.mpr acyclic)⟩
    · intro s success
      have final := Graph.finalNode_of_schedule success
      rw [finalEq] at final
      exact ⟨Schedule.covers_of_schedule success, (Except.ok.inj final).symm⟩
  · intro none
    simp [Graph.schedule, Graph.finalNode, none, bind, Except.bind]
  · intro several
    obtain ⟨first, second, rest, shape⟩ :
        ∃ first second rest, g.incoming sink = first :: second :: rest := by
      match shape : g.incoming sink, several with
      | first :: second :: rest, _ => exact ⟨first, second, rest, rfl⟩
    simp [Graph.schedule, Graph.finalNode, shape, bind, Except.bind]

/-- A constant that is shown, next to a texture that feeds itself. -/
def loopAside : Graph where
  nodes := #[.float "x" ⟨0⟩, .texture "t" "rgba8", .present "out"]
  edges := #[(⟨0⟩, .withPorts ⟨0⟩ 0 ⟨2⟩ 0), (⟨1⟩, .withPorts ⟨1⟩ 0 ⟨1⟩ 0)]

theorem feeds_loopAside {source target : NodeId} :
    Feeds loopAside.edgeList source target ↔
      source = ⟨0⟩ ∧ target = ⟨2⟩ ∨ source = ⟨1⟩ ∧ target = ⟨1⟩ := by
  simp [Feeds, loopAside, Graph.edgeList, Edge.withPorts, eq_comm]

theorem acyclic_loopAside : ¬ CycleBefore loopAside.edgeList ⟨2⟩ := by
  rintro ⟨n, cycle, reaches⟩
  have notTexture : n ≠ ⟨1⟩ := by
    clear cycle
    induction reaches using Relation.ReflTransGen.head_induction_on with
    | refl => decide
    | head feeds _ inductionHypothesis =>
        rcases feeds_loopAside.mp feeds with ⟨rfl, -⟩ | ⟨-, isTexture⟩
        · decide
        · exact absurd isTexture inductionHypothesis
  obtain ⟨next, feeds, back⟩ := cycle.exists_feeds
  rcases feeds_loopAside.mp feeds with ⟨rfl, rfl⟩ | ⟨isTexture, -⟩
  · rcases back.cases_head with same | ⟨other, leaves, -⟩
    · exact absurd same (by decide)
    · simp [feeds_loopAside] at leaves
  · exact notTexture isTexture

/-- A loop that does not reach the sink blocks nothing. -/
theorem schedule_of_loopAside :
    ∃ s, loopAside.schedule ⟨2⟩ = .ok s ∧ s.Covers loopAside ⟨2⟩ ∧ s.finalNode = ⟨0⟩ := by
  have one : loopAside.incoming ⟨2⟩ = [.withPorts ⟨0⟩ 0 ⟨2⟩ 0] := by decide
  obtain ⟨scheduled, -, covers⟩ :=
    (schedule_sound_and_complete loopAside ⟨2⟩).1 _ one
  obtain ⟨s, success⟩ := scheduled.mpr acyclic_loopAside
  exact ⟨s, success, covers s success⟩

end FrameGraph
