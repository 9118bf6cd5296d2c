import FrameGraph.Compiler.Emission
import FrameGraph.Proofs.Compiler.Success
import Mathlib.Data.List.Basic

/-!
# Inputs by port

The input edges of a node, when they are accepted, are all the edges into it, and the
edge at each position is the one that names this position as its target port.
-/

namespace FrameGraph

/-- The first edge into a node that names the given target port. -/
def Graph.inputEdge? (g : Graph) (n : NodeId) (port : Nat) : Option Edge :=
  (g.incoming n).find? fun e => e.targetPort.toOption = some port

/-- The edges into a node by target port, if every port below their number has one. -/
def Graph.inputEdges? (g : Graph) (n : NodeId) : Option (List Edge) :=
  (List.range (g.incoming n).length).mapM (g.inputEdge? n)

/-- A list is read successfully when each of its elements is. -/
theorem mapM_eq_some_iff {α β : Type} {f : α → Option β} {l : List α} {results : List β} :
    l.mapM f = some results ↔ l.map f = results.map some := by
  induction l generalizing results with
  | nil => cases results <;> simp
  | cons a rest inductionHypothesis =>
      simp only [List.mapM_cons, List.map_cons, Option.bind_eq_bind, Option.bind_eq_some_iff,
        Option.pure_def, Option.some.injEq, inductionHypothesis]
      constructor
      · rintro ⟨b, here, others, later, rfl⟩
        rw [here, later, List.map_cons]
      · intro mapped
        obtain ⟨b, others, rfl, here, later⟩ := List.map_eq_cons_iff.mp mapped.symm
        exact ⟨b, here.symm, others, later.symm, rfl⟩

namespace Graph

/-! ## Sorting -/

theorem perm_insertByPort (p : Nat × Edge) (ports : List (Nat × Edge)) :
    (insertByPort p ports).Perm (p :: ports) := by
  induction ports with
  | nil => exact List.Perm.refl _
  | cons q rest inductionHypothesis =>
      rw [insertByPort]
      split
      · exact List.Perm.refl _
      · exact (inductionHypothesis.cons q).trans (List.Perm.swap p q rest)

theorem perm_sortByPort (ports : List (Nat × Edge)) : (sortByPort ports).Perm ports := by
  induction ports with
  | nil => exact List.Perm.refl _
  | cons p rest inductionHypothesis =>
      exact (perm_insertByPort p _).trans (inductionHypothesis.cons p)

/-- Without a fault the ports count up from the number that is due. -/
theorem port_of_portFault?_eq_none {due : Nat} {ports : List (Nat × Edge)}
    (faultless : portFault? due ports = none) {k : Nat} {p : Nat × Edge}
    (here : ports[k]? = some p) : p.1 = due + k := by
  induction ports generalizing due k with
  | nil => simp at here
  | cons q rest inductionHypothesis =>
      rw [portFault?] at faultless
      split at faultless
      · next same =>
          cases k with
          | zero =>
              cases here
              exact same
          | succ k =>
              have later := inductionHypothesis faultless here
              omega
      · cases faultless

/-! ## Input edges -/

/-- The target ports are read off the edges one by one. -/
theorem targetPorts_eq_ok {g : Graph} {n : NodeId} {edges : List Edge}
    {ports : List (Nat × Edge)} (success : g.targetPorts n edges = .ok ports) :
    ports.map Prod.snd = edges ∧ ∀ p ∈ ports, p.2.targetPort = .ok p.1 := by
  induction edges generalizing ports with
  | nil =>
      cases success
      simp
  | cons e rest inductionHypothesis =>
      rw [targetPorts] at success
      split at success
      · cases success
      · next port portEq =>
          obtain ⟨others, restEq, rfl⟩ := map_eq_ok_iff.mp success
          obtain ⟨edgesEq, portsEq⟩ := inductionHypothesis restEq
          refine ⟨by simp [edgesEq], ?_⟩
          intro p member
          rcases List.mem_cons.mp member with rfl | later
          · exact portEq
          · exact portsEq p later

private theorem find?_eq_some_of_unique {α : Type} {test : α → Bool} {l : List α} {a : α}
    (member : a ∈ l) (passes : test a = true) (only : ∀ b ∈ l, test b = true → b = a) :
    l.find? test = some a := by
  have found : (l.find? test).isSome := List.find?_isSome.mpr ⟨a, member, passes⟩
  obtain ⟨b, first⟩ := Option.isSome_iff_exists.mp found
  rw [first, only b (List.mem_of_find?_eq_some first) (List.find?_some first)]

/-- Accepted inputs are the edges into the node, each at its own target port. -/
theorem inputs_eq_ok {g : Graph} {n : NodeId} {edges : List Edge}
    (success : g.inputs n = .ok edges) :
    edges.Perm (g.incoming n) ∧
      ∀ k e, edges[k]? = some e → g.inputEdge? n k = some e := by
  obtain ⟨ports, portsRead, success⟩ := bind_eq_ok_iff.mp success
  obtain ⟨edgesEq, portsEq⟩ := targetPorts_eq_ok portsRead
  have sorted := perm_sortByPort ports
  cases faultEq : portFault? 0 (sortByPort ports) with
  | some port => simp [faultEq] at success
  | none =>
      simp only [faultEq] at success
      cases success
      refine ⟨edgesEq ▸ sorted.map Prod.snd, ?_⟩
      intro k e here
      obtain ⟨p, pHere, rfl⟩ : ∃ p, (sortByPort ports)[k]? = some p ∧ p.2 = e := by
        simpa using here
      have pMember : p ∈ ports := sorted.mem_iff.mp (List.mem_of_getElem? pHere)
      have pPort : p.1 = 0 + k := port_of_portFault?_eq_none faultEq pHere
      rw [inputEdge?, ← edgesEq]
      refine find?_eq_some_of_unique (List.mem_map_of_mem pMember) ?_ ?_
      · simp [portsEq p pMember, pPort, Except.toOption]
      · -- An edge with the same port is sorted to the same position.
        intro other otherMember otherPasses
        obtain ⟨q, qMember, rfl⟩ := List.mem_map.mp otherMember
        simp only [portsEq q qMember, Except.toOption, Option.some.injEq,
          decide_eq_true_eq] at otherPasses
        obtain ⟨j, qHere⟩ := List.mem_iff_getElem?.mp (sorted.mem_iff.mpr qMember)
        have qPort : q.1 = 0 + j := port_of_portFault?_eq_none faultEq qHere
        obtain rfl : j = k := by omega
        rw [Option.some.inj (qHere.symm.trans pHere)]

private theorem mapM_range_eq_some {α : Type} {f : Nat → Option α} {l : List α}
    (pointwise : ∀ k a, l[k]? = some a → f k = some a) :
    (List.range l.length).mapM f = some l := by
  rw [mapM_eq_some_iff]
  apply List.ext_getElem
  · simp
  · intro k inRange inside
    simp only [List.length_map] at inside
    simp [pointwise k l[k] (List.getElem?_eq_getElem inside)]

/-- Accepted inputs are the edges that the ports name. -/
theorem inputEdges?_of_inputs {g : Graph} {n : NodeId} {edges : List Edge}
    (success : g.inputs n = .ok edges) : g.inputEdges? n = some edges := by
  obtain ⟨permutation, pointwise⟩ := inputs_eq_ok success
  rw [inputEdges?, ← permutation.length_eq]
  exact mapM_range_eq_some pointwise

end Graph

end FrameGraph
