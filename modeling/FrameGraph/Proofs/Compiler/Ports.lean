import FrameGraph.Proofs.Compiler.Inputs
import Mathlib.Data.List.Perm.Basic
import Mathlib.Data.List.Sort

/-!
# Target ports in order

The edges into a node are accepted as its inputs exactly when their target ports can be
read and are 0, 1, 2, … up to the number of edges, once each.  Accepted inputs stand at
the position that their port names, so that they do not depend on the order in which the
edges were added.
-/

namespace FrameGraph.Graph

/-- The target ports of the edges into a node are 0, 1, 2, … without gap or repetition. -/
def PortsInOrder (g : Graph) (n : NodeId) : Prop :=
  ((g.incoming n).map Edge.targetPort).Perm
    ((List.range (g.incoming n).length).map Except.ok)

/-! ## Sorted ports -/

theorem pairwise_insertByPort {p : Nat × Edge} {ports : List (Nat × Edge)}
    (sorted : ports.Pairwise fun q r => q.1 ≤ r.1) :
    (insertByPort p ports).Pairwise fun q r => q.1 ≤ r.1 := by
  induction ports with
  | nil => simp [insertByPort]
  | cons q rest inductionHypothesis =>
      have behind := (List.pairwise_cons.mp sorted).1
      have restSorted := (List.pairwise_cons.mp sorted).2
      rw [insertByPort]
      by_cases inFront : p.1 ≤ q.1
      · rw [if_pos inFront, List.pairwise_cons]
        refine ⟨?_, sorted⟩
        intro r member
        rcases List.mem_cons.mp member with rfl | later
        · exact inFront
        · exact Nat.le_trans inFront (behind r later)
      · rw [if_neg inFront, List.pairwise_cons]
        refine ⟨?_, inductionHypothesis restSorted⟩
        intro r member
        have placed : r ∈ p :: rest := (perm_insertByPort p rest).mem_iff.mp member
        rcases List.mem_cons.mp placed with rfl | later
        · exact Nat.le_of_not_le inFront
        · exact behind r later

theorem pairwise_sortByPort (ports : List (Nat × Edge)) :
    (sortByPort ports).Pairwise fun q r => q.1 ≤ r.1 := by
  induction ports with
  | nil => exact List.Pairwise.nil
  | cons p rest inductionHypothesis => exact pairwise_insertByPort inductionHypothesis

theorem portFault?_eq_none_iff {due : Nat} {ports : List (Nat × Edge)} :
    portFault? due ports = none ↔
      ports.map Prod.fst = List.range' due ports.length := by
  induction ports generalizing due with
  | nil => simp [portFault?]
  | cons p rest inductionHypothesis =>
      rw [portFault?, List.map_cons, List.length_cons, List.range'_succ, List.cons.injEq]
      by_cases same : p.1 = due
      · rw [if_pos same, inductionHypothesis]
        simp [same]
      · simp [same]

/-- Sorted ports are without a fault when they are 0, 1, 2, … in any order. -/
theorem portFault?_sortByPort_eq_none {ports : List (Nat × Edge)}
    (complete : (ports.map Prod.fst).Perm (List.range ports.length)) :
    portFault? 0 (sortByPort ports) = none := by
  have sorted := perm_sortByPort ports
  have lengthEq : (sortByPort ports).length = ports.length := sorted.length_eq
  rw [portFault?_eq_none_iff, lengthEq, ← List.range_eq_range']
  apply @List.Perm.eq_of_pairwise Nat fun i j => i ≤ j
  · intro i j _ _ first second
    exact Nat.le_antisymm first second
  · exact List.pairwise_map.mpr (pairwise_sortByPort ports)
  · exact List.pairwise_le_range
  · exact (sorted.map Prod.fst).trans complete

/-! ## Accepted inputs -/

theorem exists_targetPorts_iff {g : Graph} {n : NodeId} {edges : List Edge} :
    (∃ ports, g.targetPorts n edges = .ok ports) ↔
      ∀ e ∈ edges, ∃ port, e.targetPort = .ok port := by
  induction edges with
  | nil => simp [targetPorts]
  | cons e rest inductionHypothesis =>
      rw [List.forall_mem_cons, ← inductionHypothesis, targetPorts]
      cases e.targetPort with
      | error raw => simp
      | ok port => simp [map_eq_ok_iff]

/-- The edge at each position names this position as its port. -/
theorem map_targetPort_of_inputs {g : Graph} {n : NodeId} {edges : List Edge}
    (success : g.inputs n = .ok edges) :
    edges.map Edge.targetPort = (List.range edges.length).map Except.ok := by
  have pointwise := (inputs_eq_ok success).2
  apply List.ext_getElem
  · simp
  · intro k inside _
    rw [List.length_map] at inside
    have here : edges[k]? = some edges[k] := List.getElem?_eq_getElem inside
    have found := pointwise k edges[k] here
    have passes := List.find?_some found
    rw [decide_eq_true_eq] at passes
    rw [List.getElem_map, List.getElem_map, List.getElem_range]
    cases portEq : edges[k].targetPort with
    | error raw => simp [portEq, Except.toOption] at passes
    | ok port =>
        simp only [portEq, Except.toOption, Option.some.injEq] at passes
        rw [passes]

theorem exists_inputs_iff {g : Graph} {n : NodeId} :
    (∃ edges, g.inputs n = .ok edges) ↔ g.PortsInOrder n := by
  constructor
  · rintro ⟨edges, success⟩
    have permutation := (inputs_eq_ok success).1
    have ports := (permutation.map Edge.targetPort).symm
    rw [map_targetPort_of_inputs success, permutation.length_eq] at ports
    exact ports
  · intro inOrder
    have readable : ∀ e ∈ g.incoming n, ∃ port, e.targetPort = .ok port := by
      intro e member
      have listed := inOrder.mem_iff.mp (List.mem_map_of_mem member)
      obtain ⟨port, -, portEq⟩ := List.mem_map.mp listed
      exact ⟨port, portEq.symm⟩
    obtain ⟨ports, portsRead⟩ := exists_targetPorts_iff.mpr readable
    obtain ⟨edgesEq, portsEq⟩ := targetPorts_eq_ok portsRead
    have portsMapped : (g.incoming n).map Edge.targetPort =
        (ports.map Prod.fst).map Except.ok := by
      rw [← edgesEq, List.map_map, List.map_map]
      exact List.map_congr_left portsEq
    have lengthEq : (g.incoming n).length = ports.length := by
      rw [← edgesEq, List.length_map]
    have complete : (ports.map Prod.fst).Perm (List.range ports.length) := by
      have wrapped := inOrder
      rw [PortsInOrder, portsMapped, lengthEq] at wrapped
      have injective : Function.Injective (Except.ok (ε := String) (α := Nat)) :=
        fun _ _ same => Except.ok.inj same
      exact (List.map_perm_map_iff injective).mp wrapped
    have faultless := portFault?_sortByPort_eq_none complete
    exact ⟨(sortByPort ports).map Prod.snd, bind_eq_ok_iff.mpr
      ⟨ports, portsRead, by simp only [faultless]; rfl⟩⟩

end FrameGraph.Graph
