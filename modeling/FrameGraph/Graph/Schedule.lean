import FrameGraph.Graph.Basic

/-!
# Schedules

The order in which nodes are evaluated so that every producer comes before its
consumers.  Only edges from which the sink can be reached matter.  Nodes are peeled off
from the sink backwards: a node is taken, the edges into it go, and its sources
follow as soon as no edge leaves them any more.  Edges that are never taken away are
blocked by a cycle.
-/

namespace FrameGraph

/-- The elements of a list without repetitions, each at its first place. -/
def distinct {α : Type} [DecidableEq α] : List α → List α
  | [] => []
  | a :: rest => a :: (distinct rest).filter fun b => b ≠ a

theorem length_distinct_le {α : Type} [DecidableEq α] (l : List α) :
    (distinct l).length ≤ l.length := by
  induction l with
  | nil => simp [distinct]
  | cons a rest ih =>
    have := List.length_filter_le (fun b => decide (b ≠ a)) (distinct rest)
    simp only [distinct, List.length_cons]
    omega

namespace Schedule

/-! ## Taking a node -/

def into (edges : List Edge) (n : NodeId) : List Edge :=
  edges.filter fun e => e.target = n

/-- The edges that stay when the edges into a node go. -/
def without (edges : List Edge) (n : NodeId) : List Edge :=
  edges.filter fun e => e.target ≠ n

theorem length_into_add_length_without (edges : List Edge) (n : NodeId) :
    (into edges n).length + (without edges n).length = edges.length := by
  induction edges with
  | nil => rfl
  | cons e rest ih =>
    simp only [into, without, ne_eq, decide_not] at ih ⊢
    by_cases h : e.target = n <;> simp [h] <;> omega

/-- The sources that taking a node sets free: no edge leaves them any more.  The one
whose last edge goes last comes first. -/
def freed (edges : List Edge) (n : NodeId) : List NodeId :=
  (distinct ((into edges n).map Edge.source).reverse).filter fun s =>
    (without edges n).all fun e => e.source ≠ s

theorem length_freed_le (edges : List Edge) (n : NodeId) :
    (freed edges n).length ≤ (into edges n).length := by
  refine Nat.le_trans (List.length_filter_le _ _) (Nat.le_trans (length_distinct_le _) ?_)
  simp

/-! ## Walking backwards -/

/-- The nodes met on the way backwards from the given ones, these included. -/
def ancestors (edges : List Edge) : List NodeId → List NodeId
  | [] => []
  | n :: rest =>
    n :: ancestors (without edges n) ((into edges n).map Edge.source ++ rest)
termination_by todo => edges.length + todo.length
decreasing_by
  have := length_into_add_length_without edges n
  simp only [List.length_append, List.length_map, List.length_cons]
  omega

/-- The edges from whose target the sink can be reached. -/
def relevant (edges : List Edge) (sink : NodeId) : List Edge :=
  let live := ancestors edges [sink]
  edges.filter fun e => e.target ∈ live

/-- The nodes in the order in which they are peeled off, and the edges that are left.
The frontier holds the nodes that no edge leaves, the next one first. -/
def peel (edges : List Edge) : List NodeId → List NodeId × List Edge
  | [] => ([], edges)
  | n :: rest =>
    let (order, blocked) := peel (without edges n) (freed edges n ++ rest)
    (n :: order, blocked)
termination_by frontier => edges.length + frontier.length
decreasing_by
  have := length_into_add_length_without edges n
  have := length_freed_le edges n
  simp only [List.length_append, List.length_cons]
  omega

end Schedule

/-- An evaluation order for what feeds a sink. -/
structure Schedule where
  /-- The sink first, the sources last. -/
  sinkFirst : List NodeId
  finalNode : NodeId
  deriving DecidableEq, Repr

namespace Schedule

/-- The nodes with every producer before its consumers. -/
def evaluationOrder (s : Schedule) : List NodeId := s.sinkFirst.reverse

end Schedule

namespace Graph

/-- The one predecessor of a sink. -/
def finalNode (g : Graph) (sink : NodeId) : Except Error NodeId :=
  match g.incoming sink with
  | [] => .error (.invalidPresentNode (.withoutPredecessor (g.nameOf sink)))
  | [e] => .ok e.source
  | _ => .error (.invalidPresentNode (.severalPredecessors (g.nameOf sink)))

/-- Schedules every node that feeds the sink.  An edge that leaves the sink towards one
of its own producers closes a cycle at once. -/
def schedule (g : Graph) (sink : NodeId) : Except Error Schedule := do
  let final ← g.finalNode sink
  let edges := Schedule.relevant g.edgeList sink
  if edges.any fun e => e.source = sink then
    throw (.cyclicGraph edges.length)
  match Schedule.peel edges [sink] with
  | (order, []) => return ⟨order, final⟩
  | (_, blocked) => throw (.cyclicGraph blocked.length)

end Graph

end FrameGraph
