import FrameGraph.Proofs.Graph.Reach

/-!
# Peeling nodes off

Taking nodes off the frontier keeps one invariant: the frontier has no repetitions and
no remaining edge leaves it.  From it follow the laws of a whole run.  A node is taken at
most once, no edge leads from a node to one taken later, a node is taken as soon as
all its consumers are, and what is blocked at the end are the edges into nodes
that were never taken.
-/

namespace FrameGraph.Schedule

/-- A list of distinct nodes that no edge leaves. -/
structure Frontier (edges : List Edge) (frontier : List NodeId) : Prop where
  nodup : frontier.Nodup
  exhausted : ∀ n ∈ frontier, ∀ e ∈ edges, e.source ≠ n

/-! ## One step -/

theorem mem_freed {edges : List Edge} {n source : NodeId} :
    source ∈ freed edges n ↔
      Feeds edges source n ∧ ∀ e ∈ without edges n, e.source ≠ source := by
  simp only [freed, List.mem_filter, mem_distinct, List.mem_reverse,
    mem_sources_into, List.all_eq_true, decide_eq_true_eq]

theorem nodup_freed (edges : List Edge) (n : NodeId) : (freed edges n).Nodup :=
  (nodup_distinct _).filter _

/-- Taking the next node keeps the invariant. -/
theorem Frontier.step {edges : List Edge} {n : NodeId} {rest : List NodeId}
    (frontier : Frontier edges (n :: rest)) :
    Frontier (without edges n) (freed edges n ++ rest) := by
  obtain ⟨nodup, exhausted⟩ := frontier
  have restNodup : rest.Nodup := (List.nodup_cons.mp nodup).2
  constructor
  · refine (nodup_freed edges n).append restNodup ?_
    intro source isFreed inRest
    obtain ⟨⟨e, member, sourceEq, -⟩, -⟩ := mem_freed.mp isFreed
    exact exhausted source (List.mem_cons_of_mem n inRest) e member sourceEq
  · intro source member e kept
    rcases List.mem_append.mp member with isFreed | inRest
    · exact (mem_freed.mp isFreed).2 e kept
    · exact exhausted source (List.mem_cons_of_mem n inRest) e
        (without_subset edges n kept)

/-! ## A whole run -/

theorem peel_nil (edges : List Edge) : peel edges [] = ([], edges) := by
  rw [peel]

theorem peel_cons (edges : List Edge) (n : NodeId) (rest : List NodeId) :
    peel edges (n :: rest) =
      (n :: (peel (without edges n) (freed edges n ++ rest)).1,
        (peel (without edges n) (freed edges n ++ rest)).2) := by
  rw [peel]

/-- Everything on the frontier is taken. -/
theorem subset_peel (edges : List Edge) (frontier : List NodeId) :
    frontier ⊆ (peel edges frontier).1 := by
  induction edges, frontier using peel.induct with
  | case1 edges => exact List.nil_subset _
  | case2 edges n rest _ _ _ inductionHypothesis =>
      rw [peel_cons]
      exact List.cons_subset_cons n
        (fun _ member => inductionHypothesis (List.mem_append_right _ member))

/-- What is blocked are the edges into nodes that were never taken. -/
theorem mem_blocked (edges : List Edge) (frontier : List NodeId) {e : Edge} :
    e ∈ (peel edges frontier).2 ↔ e ∈ edges ∧ e.target ∉ (peel edges frontier).1 := by
  induction edges, frontier using peel.induct with
  | case1 edges => simp [peel_nil]
  | case2 edges n rest _ _ _ inductionHypothesis =>
      rw [peel_cons]
      simp only [inductionHypothesis, mem_without, List.mem_cons, not_or, and_assoc]

/-- The edges that are blocked keep their order. -/
theorem blocked_eq_filter (edges : List Edge) (frontier : List NodeId) :
    (peel edges frontier).2 =
      edges.filter fun e => e.target ∉ (peel edges frontier).1 := by
  induction edges, frontier using peel.induct with
  | case1 edges => simp [peel_nil]
  | case2 edges n rest _ _ _ inductionHypothesis =>
      rw [peel_cons]
      dsimp only
      rw [inductionHypothesis, without, List.filter_filter]
      apply List.filter_congr
      intro e _
      simp [Bool.and_comm]

/-- A node is taken because it stood on the frontier, or because an edge leads from it
to a node that is taken. -/
theorem mem_frontier_or_feeds (edges : List Edge) (frontier : List NodeId) {n : NodeId}
    (taken : n ∈ (peel edges frontier).1) :
    n ∈ frontier ∨ ∃ next ∈ (peel edges frontier).1, Feeds edges n next := by
  induction edges, frontier using peel.induct with
  | case1 edges => simp [peel_nil] at taken
  | case2 edges head rest _ _ _ inductionHypothesis =>
      rw [peel_cons] at taken ⊢
      rcases List.mem_cons.mp taken with same | later
      · exact Or.inl (List.mem_cons.mpr (Or.inl same))
      · rcases inductionHypothesis later with waiting | ⟨next, nextTaken, feeds⟩
        · rcases List.mem_append.mp waiting with isFreed | inRest
          · exact Or.inr ⟨head, List.mem_cons_self, (mem_freed.mp isFreed).1⟩
          · exact Or.inl (List.mem_cons_of_mem head inRest)
        · exact Or.inr ⟨next, List.mem_cons_of_mem head nextTaken,
            feeds.mono (without_subset edges head)⟩

/-- No node is taken twice. -/
theorem nodup_peel {edges : List Edge} {frontier : List NodeId}
    (invariant : Frontier edges frontier) : (peel edges frontier).1.Nodup := by
  induction edges, frontier using peel.induct with
  | case1 edges => simp [peel_nil]
  | case2 edges n rest _ _ _ inductionHypothesis =>
      rw [peel_cons, List.nodup_cons]
      refine ⟨?_, inductionHypothesis invariant.step⟩
      have unused : ∀ e ∈ edges, e.source ≠ n :=
        invariant.exhausted n List.mem_cons_self
      intro again
      rcases mem_frontier_or_feeds _ _ again with waiting | ⟨next, -, feeds⟩
      · rcases List.mem_append.mp waiting with isFreed | inRest
        · obtain ⟨⟨e, member, sourceEq, -⟩, -⟩ := mem_freed.mp isFreed
          exact unused e member sourceEq
        · exact (List.nodup_cons.mp invariant.nodup).1 inRest
      · obtain ⟨e, member, sourceEq, -⟩ := feeds
        exact unused e (without_subset edges n member) sourceEq

/-- No edge leads from a node to one that is taken later. -/
theorem pairwise_peel {edges : List Edge} {frontier : List NodeId}
    (invariant : Frontier edges frontier) :
    (peel edges frontier).1.Pairwise fun earlier later => ¬ Feeds edges earlier later := by
  induction edges, frontier using peel.induct with
  | case1 edges => simp [peel_nil]
  | case2 edges n rest _ _ _ inductionHypothesis =>
      have nodup := nodup_peel invariant
      rw [peel_cons, List.nodup_cons] at nodup
      rw [peel_cons, List.pairwise_cons]
      constructor
      · rintro later - ⟨e, member, sourceEq, -⟩
        exact invariant.exhausted n List.mem_cons_self e member sourceEq
      · refine (inductionHypothesis invariant.step).imp_of_mem ?_
        -- An edge that taking the node removed does not end at a node taken after it.
        rintro earlier later - laterTaken separate ⟨e, member, sourceEq, targetEq⟩
        have kept : e ∈ without edges n := by
          refine mem_without.mpr ⟨member, ?_⟩
          rintro rfl
          exact nodup.1 (targetEq ▸ laterTaken)
        exact separate ⟨e, kept, sourceEq, targetEq⟩

/-- A node that feeds itself is never taken. -/
theorem not_feeds_self {edges : List Edge} {frontier : List NodeId}
    (invariant : Frontier edges frontier) {n : NodeId}
    (taken : n ∈ (peel edges frontier).1) : ¬ Feeds edges n n := by
  induction edges, frontier using peel.induct with
  | case1 edges => simp [peel_nil] at taken
  | case2 edges head rest _ _ _ inductionHypothesis =>
      rintro ⟨e, member, sourceEq, targetEq⟩
      have elsewhere : n ≠ head := by
        rintro rfl
        exact invariant.exhausted n List.mem_cons_self e member sourceEq
      rw [peel_cons] at taken
      have takenLater := (List.mem_cons.mp taken).resolve_left elsewhere
      have kept : e ∈ without edges head :=
        mem_without.mpr ⟨member, targetEq ▸ elsewhere⟩
      exact inductionHypothesis invariant.step takenLater
        ⟨e, kept, sourceEq, targetEq⟩

/-- A node that feeds something is taken once all its consumers are. -/
theorem mem_peel_of_consumers_taken (edges : List Edge) (frontier : List NodeId)
    {n : NodeId} (feedsSome : ∃ next, Feeds edges n next)
    (consumersTaken : ∀ next, Feeds edges n next → next ∈ (peel edges frontier).1) :
    n ∈ (peel edges frontier).1 := by
  induction edges, frontier using peel.induct with
  | case1 edges =>
      obtain ⟨next, feeds⟩ := feedsSome
      simpa [peel_nil] using consumersTaken next feeds
  | case2 edges head rest _ _ _ inductionHypothesis =>
      rw [peel_cons] at consumersTaken ⊢
      refine List.mem_cons_of_mem head ?_
      by_cases feedsOther : ∃ next, Feeds (without edges head) n next
      · refine inductionHypothesis feedsOther ?_
        rintro next ⟨e, kept, sourceEq, targetEq⟩
        obtain ⟨member, elsewhere⟩ := mem_without.mp kept
        have taken := consumersTaken next ⟨e, member, sourceEq, targetEq⟩
        exact (List.mem_cons.mp taken).resolve_left (targetEq ▸ elsewhere)
      · obtain ⟨next, e, member, sourceEq, targetEq⟩ := feedsSome
        have lastOnes : ∀ e ∈ without edges head, e.source ≠ n := by
          intro e kept same
          exact feedsOther ⟨e.target, e, kept, same, rfl⟩
        have intoHead : e.target = head := by
          by_contra elsewhere
          exact lastOnes e (mem_without.mpr ⟨member, elsewhere⟩) sourceEq
        have isFreed : n ∈ freed edges head :=
          mem_freed.mpr ⟨⟨e, member, sourceEq, intoHead⟩, lastOnes⟩
        exact subset_peel _ _ (List.mem_append_left rest isFreed)

/-- No node of a set is ever taken in which every node feeds another one of the set. -/
theorem not_taken_of_closed {edges : List Edge} {frontier : List NodeId}
    (invariant : Frontier edges frontier) {stuck : NodeId → Prop}
    (closed : ∀ n, stuck n → ∃ next, stuck next ∧ Feeds edges n next) {n : NodeId}
    (taken : n ∈ (peel edges frontier).1) : ¬ stuck n := by
  induction edges, frontier using peel.induct with
  | case1 edges => simp [peel_nil] at taken
  | case2 edges head rest _ _ _ inductionHypothesis =>
      have headFree : ¬ stuck head := by
        intro isStuck
        obtain ⟨next, -, e, member, sourceEq, -⟩ := closed head isStuck
        exact invariant.exhausted head List.mem_cons_self e member sourceEq
      -- The edges that go with the head lead into the head, hence to no node of the set.
      have closedLater : ∀ n, stuck n → ∃ next, stuck next ∧
          Feeds (without edges head) n next := by
        intro n isStuck
        obtain ⟨next, nextStuck, e, member, sourceEq, targetEq⟩ := closed n isStuck
        refine ⟨next, nextStuck, e, mem_without.mpr ⟨member, ?_⟩, sourceEq, targetEq⟩
        rintro rfl
        exact headFree (targetEq ▸ nextStuck)
      rw [peel_cons] at taken
      rcases List.mem_cons.mp taken with same | later
      · rw [same]
        exact headFree
      · exact inductionHypothesis invariant.step closedLater later

end FrameGraph.Schedule
