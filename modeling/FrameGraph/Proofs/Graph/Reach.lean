import FrameGraph.Graph.Schedule
import Mathlib.Data.Set.Finite.Basic
import Mathlib.Data.List.Nodup
import Mathlib.Logic.Relation
import Mathlib.Order.WellFounded

/-!
# Reachability along edges

An edge lets its source feed its target, and a node reaches another one when a walk of
such edges, possibly an empty one, leads there.  The backward walk of the scheduler
meets exactly the nodes that reach one of the given nodes, although it drops the edges
into every node that it visits.
-/

namespace FrameGraph

/-- One of the edges leads from the first node to the second one. -/
def Feeds (edges : List Edge) (source target : NodeId) : Prop :=
  ∃ e ∈ edges, e.source = source ∧ e.target = target

/-- A walk along edges, possibly an empty one, leads from the first node to the
second one. -/
def Reaches (edges : List Edge) : NodeId → NodeId → Prop :=
  Relation.ReflTransGen (Feeds edges)

/-- A walk of at least one edge leads from the node back to itself. -/
def OnCycle (edges : List Edge) (n : NodeId) : Prop :=
  Relation.TransGen (Feeds edges) n n

theorem Feeds.mono {some others : List Edge} (subset : some ⊆ others)
    {source target : NodeId} (feeds : Feeds some source target) :
    Feeds others source target := by
  obtain ⟨e, member, ends⟩ := feeds
  exact ⟨e, subset member, ends⟩

theorem Reaches.mono {some others : List Edge} (subset : some ⊆ others)
    {source target : NodeId} (reaches : Reaches some source target) :
    Reaches others source target :=
  Relation.ReflTransGen.mono (fun _ _ => Feeds.mono subset) source target reaches

/-! ## Cycles -/

/-- If every node of a finite stock feeds another one of it, some node of it lies on a
cycle. -/
theorem exists_onCycle {edges : List Edge} {stock : List NodeId} {first : NodeId}
    (nonempty : first ∈ stock)
    (feeds : ∀ n ∈ stock, ∃ next ∈ stock, Feeds edges n next) :
    ∃ n ∈ stock, OnCycle edges n := by
  by_contra acyclic
  push Not at acyclic
  let Later (m n : { x // x ∈ stock }) : Prop :=
    Relation.TransGen (Feeds edges) n.1 m.1
  have transitive : IsTrans _ Later := ⟨fun _ _ _ left right => right.trans left⟩
  have irreflexive : Std.Irrefl Later := ⟨fun n => acyclic n.1 n.2⟩
  have wellFounded : WellFounded Later := Finite.wellFounded_of_trans_of_irrefl Later
  obtain ⟨last, -, nothingLater⟩ :=
    wellFounded.has_min Set.univ ⟨⟨first, nonempty⟩, Set.mem_univ _⟩
  obtain ⟨next, nextMember, edge⟩ := feeds last.1 last.2
  exact nothingLater ⟨next, nextMember⟩ (Set.mem_univ _) (.single edge)

/-- A node on a cycle feeds a node that reaches it. -/
theorem OnCycle.exists_feeds {edges : List Edge} {n : NodeId} (cycle : OnCycle edges n) :
    ∃ next, Feeds edges n next ∧ Reaches edges next n :=
  Relation.TransGen.head'_iff.mp cycle

/-- An edge to a node that reaches its source closes a cycle. -/
theorem OnCycle.of_feeds {edges : List Edge} {n next : NodeId}
    (feeds : Feeds edges n next) (reaches : Reaches edges next n) : OnCycle edges n :=
  Relation.TransGen.head' feeds reaches

/-! ## Lists without repetitions -/

@[simp]
theorem mem_distinct {α : Type} [DecidableEq α] {a : α} {l : List α} :
    a ∈ distinct l ↔ a ∈ l := by
  induction l with
  | nil => simp [distinct]
  | cons head tail inductionHypothesis =>
      by_cases same : a = head
      · simp [distinct, same]
      · simp [distinct, same, inductionHypothesis]

theorem nodup_distinct {α : Type} [DecidableEq α] (l : List α) :
    (distinct l).Nodup := by
  induction l with
  | nil => exact List.nodup_nil
  | cons head tail inductionHypothesis =>
      rw [distinct, List.nodup_cons]
      exact ⟨by simp, inductionHypothesis.filter _⟩

/-- The first places of the elements decide their order. -/
theorem pairwise_distinct {α : Type} [DecidableEq α] (l : List α) :
    (distinct l).Pairwise fun a b => l.idxOf a < l.idxOf b := by
  induction l with
  | nil => exact .nil
  | cons head tail inductionHypothesis =>
      have behind {b : α} (other : b ≠ head) : (head :: tail).idxOf b = tail.idxOf b + 1 :=
        List.idxOf_cons_ne tail (Ne.symm other)
      rw [distinct, List.pairwise_cons]
      constructor
      · intro b member
        rw [behind (of_decide_eq_true (List.mem_filter.mp member).2), List.idxOf_cons_self]
        exact Nat.succ_pos _
      · refine (inductionHypothesis.filter _).imp_of_mem fun first second earlier => ?_
        rw [behind (of_decide_eq_true (List.mem_filter.mp first).2),
          behind (of_decide_eq_true (List.mem_filter.mp second).2)]
        exact Nat.succ_lt_succ earlier

namespace Schedule

/-! ## Edges into a node -/

@[simp]
theorem mem_into {edges : List Edge} {n : NodeId} {e : Edge} :
    e ∈ into edges n ↔ e ∈ edges ∧ e.target = n := by
  simp [into]

@[simp]
theorem mem_without {edges : List Edge} {n : NodeId} {e : Edge} :
    e ∈ without edges n ↔ e ∈ edges ∧ e.target ≠ n := by
  simp [without]

theorem without_subset (edges : List Edge) (n : NodeId) : without edges n ⊆ edges :=
  List.filter_subset_self _

/-- The sources of the edges into a node are the nodes that feed it. -/
theorem mem_sources_into {edges : List Edge} {n source : NodeId} :
    source ∈ (into edges n).map Edge.source ↔ Feeds edges source n := by
  simp only [List.mem_map, mem_into, Feeds]
  constructor
  · rintro ⟨e, ⟨member, targetEq⟩, sourceEq⟩
    exact ⟨e, member, sourceEq, targetEq⟩
  · rintro ⟨e, member, sourceEq, targetEq⟩
    exact ⟨e, ⟨member, targetEq⟩, sourceEq⟩

/-! ## The backward walk -/

/-- A walk that reaches one of the nodes still to visit either starts at the visited
node, or reaches one of the nodes still to visit afterwards without the edges into the
visited node. -/
private theorem reaches_without {edges : List Edge} {n source : NodeId}
    {rest : List NodeId} {goal : NodeId} (goalMember : goal ∈ n :: rest)
    (reaches : Reaches edges source goal) :
    source = n ∨
      ∃ next ∈ (into edges n).map Edge.source ++ rest,
        Reaches (without edges n) source next := by
  induction reaches using Relation.ReflTransGen.head_induction_on with
  | refl =>
      rcases List.mem_cons.mp goalMember with same | later
      · exact Or.inl same
      · exact Or.inr ⟨goal, List.mem_append_right _ later, .refl⟩
  | @head first second feeds _ inductionHypothesis =>
      refine Or.inr ?_
      by_cases entering : second = n
      · subst entering
        exact ⟨first, List.mem_append_left _ (mem_sources_into.mpr feeds), .refl⟩
      · obtain ⟨next, nextMember, walk⟩ :=
          inductionHypothesis.resolve_left entering
        obtain ⟨e, member, sourceEq, targetEq⟩ := feeds
        have kept : Feeds (without edges n) first second :=
          ⟨e, mem_without.mpr ⟨member, targetEq ▸ entering⟩, sourceEq, targetEq⟩
        exact ⟨next, nextMember, .head kept walk⟩

/-- The backward walk meets exactly the nodes that reach one of the given ones. -/
theorem mem_ancestors_iff (edges : List Edge) (todo : List NodeId) (source : NodeId) :
    source ∈ ancestors edges todo ↔ ∃ goal ∈ todo, Reaches edges source goal := by
  induction edges, todo using ancestors.induct with
  | case1 edges => simp [ancestors]
  | case2 edges n rest inductionHypothesis =>
      rw [ancestors, List.mem_cons, inductionHypothesis]
      constructor
      · rintro (rfl | ⟨goal, goalMember, walk⟩)
        · exact ⟨source, List.mem_cons_self, .refl⟩
        · have whole := walk.mono (without_subset edges n)
          rcases List.mem_append.mp goalMember with feeding | later
          · exact ⟨n, List.mem_cons_self,
              whole.tail (mem_sources_into.mp feeding)⟩
          · exact ⟨goal, List.mem_cons_of_mem n later, whole⟩
      · rintro ⟨goal, goalMember, walk⟩
        exact reaches_without goalMember walk

/-- The relevant edges are those from whose target the sink can be reached. -/
theorem mem_relevant {edges : List Edge} {sink : NodeId} {e : Edge} :
    e ∈ relevant edges sink ↔ e ∈ edges ∧ Reaches edges e.target sink := by
  simp [relevant, mem_ancestors_iff]

end Schedule

/-! ## Deciding by the backward walk -/

instance (edges : List Edge) (source goal : NodeId) : Decidable (Reaches edges source goal) :=
  decidable_of_iff (source ∈ Schedule.ancestors edges [goal]) <| by
    simp [Schedule.mem_ancestors_iff]

instance (edges : List Edge) (n : NodeId) : Decidable (OnCycle edges n) :=
  decidable_of_iff (∃ e ∈ edges, e.source = n ∧ Reaches edges e.target n) <| by
    constructor
    · rintro ⟨e, member, sourceEq, back⟩
      exact .of_feeds ⟨e, member, sourceEq, rfl⟩ back
    · intro cycle
      obtain ⟨next, ⟨e, member, sourceEq, rfl⟩, back⟩ := cycle.exists_feeds
      exact ⟨e, member, sourceEq, back⟩

end FrameGraph
