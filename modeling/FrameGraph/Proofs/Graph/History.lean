import FrameGraph.Proofs.Graph.Store
import FrameGraph.Proofs.Text.Numeral

/-!
# The history of a graph

The edges of a graph are those that edits added and did not take out again, as they were added,
and the number of an edge is how many were added before it.
-/

namespace FrameGraph

/-! ## The history of the edges -/

namespace Edit

/-- The edge that an edit added, with its number. -/
def gained (g : Graph) (edit : Edit) : Except Error Answer → List (EdgeId × Edge)
  | .ok (.edge id) => ((edit.edge? g).map fun e => (id, e)).toList
  | _ => []

/-- The number of the edge that an edit took out. -/
def lost : Edit → Except Error Answer → List EdgeId
  | removeEdge id, .ok (.removed (some _)) => [id]
  | _, _ => []

end Edit

namespace Graph

/-- The edges that edits add, in the order of addition. -/
def added (g : Graph) : List Edit → List (EdgeId × Edge)
  | [] => []
  | edit :: rest => edit.gained g (edit.apply g).1 ++ (edit.apply g).2.added rest

/-- The numbers of the edges that edits take out. -/
def taken (g : Graph) : List Edit → List EdgeId
  | [] => []
  | edit :: rest => edit.lost (edit.apply g).1 ++ (edit.apply g).2.taken rest

/-- The edges and the next number follow from what was there, what was added and what was taken
out. -/
structure Grown (g after : Graph) (added : List (EdgeId × Edge)) (taken : List EdgeId) : Prop where
  edges : after.edges.toList = (g.edges.toList ++ added).filter fun p => p.1 ∉ taken
  numbers : (added.map fun p => p.1.number) = List.range' g.nextEdge added.length
  next : after.nextEdge = g.nextEdge + added.length
  old : ∀ id ∈ taken, id.number < after.nextEdge

variable {g after : Graph}

theorem Grown.of_edges_eq (edges : after.edges = g.edges) (next : after.nextEdge = g.nextEdge) :
    Grown g after [] [] :=
  ⟨by simp [edges], rfl, next, by simp⟩

theorem Grown.le_number {added : List (EdgeId × Edge)} {taken : List EdgeId}
    (grown : Grown g after added taken) {p : EdgeId × Edge} (member : p ∈ added) :
    g.nextEdge ≤ p.1.number := by
  have listed := List.mem_map_of_mem (f := fun p : EdgeId × Edge => p.1.number) member
  rw [grown.numbers] at listed
  exact (List.mem_range'_1.mp listed).1

theorem Grown.trans {final : Graph} {added added' : List (EdgeId × Edge)}
    {taken taken' : List EdgeId} (first : Grown g after added taken)
    (second : Grown after final added' taken') :
    Grown g final (added ++ added') (taken ++ taken') := by
  -- What was taken out earlier has a smaller number than all that is added later.
  have kept : (added'.filter fun p => p.1 ∉ taken) = added' := by
    refine List.filter_eq_self.mpr fun p member => decide_eq_true fun out => ?_
    exact Nat.not_lt_of_le (second.le_number member) (first.old p.1 out)
  refine ⟨?_, ?_, ?_, fun id member => ?_⟩
  · calc final.edges.toList
        = ((g.edges.toList ++ added).filter (fun p => p.1 ∉ taken) ++
            added'.filter (fun p => p.1 ∉ taken)).filter fun p => p.1 ∉ taken' := by
          rw [second.edges, first.edges, kept]
      _ = (g.edges.toList ++ (added ++ added')).filter fun p => p.1 ∉ taken ++ taken' := by
          rw [← List.filter_append, List.filter_filter, List.append_assoc]
          congr 1
          funext p
          simp [Bool.and_comm]
  · rw [List.map_append, first.numbers, second.numbers, first.next, List.length_append,
      List.range'_append_1]
  · rw [second.next, first.next, List.length_append, Nat.add_assoc]
  · rcases List.mem_append.mp member with early | late
    · have := first.old id early
      have := second.next
      omega
    · exact second.old id late

theorem Consistent.grown {edit : Edit} {answer : Except Error Edit.Answer}
    (consistent : g.Consistent) (effect : Edit.Effect g edit answer after) :
    Grown g after (edit.gained g answer) (edit.lost answer) := by
  cases effect with
  | refused _ fault =>
      have nothing : edit.lost (.error fault) = [] := by cases edit <;> rfl
      rw [nothing]
      exact .of_edges_eq rfl rfl
  | unknown => exact .of_edges_eq rfl rfl
  | metadata n key value => exact .of_edges_eq rfl rfl
  | node addedEq =>
      obtain ⟨-, -, rfl⟩ := addNode_eq_ok_iff.mp addedEq
      exact .of_edges_eq rfl rfl
  | @edge _ e id _ asked addedEq =>
      obtain ⟨-, rfl, rfl⟩ := addEdge_eq_ok_iff.mp addedEq
      have nothing : edit.lost (.ok (.edge ⟨g.nextEdge⟩)) = [] := by cases edit <;> rfl
      rw [nothing, Edit.gained, asked]
      exact ⟨by simp, rfl, rfl, by simp⟩
  | @removed id e _ found =>
      obtain ⟨known, rfl⟩ := removeEdge_eq_some_iff.mp found
      have member := consistent.edge?_eq_some_iff.mp known
      refine ⟨?_, rfl, rfl, fun other out => ?_⟩
      · simp [Edit.gained, Edit.lost]
      · obtain rfl : other = id := List.mem_singleton.mp out
        exact consistent.used _ member

theorem Consistent.grown_applyAll (consistent : g.Consistent) (edits : List Edit) :
    Grown g (g.applyAll edits) (g.added edits) (g.taken edits) := by
  induction edits generalizing g with
  | nil => exact .of_edges_eq rfl rfl
  | cons edit rest inductionHypothesis =>
      exact (consistent.grown (Edit.effect_apply edit g)).trans
        (inductionHypothesis (consistent.apply rfl))

theorem hasEdge_eq_true_iff {source target : NodeId} :
    g.hasEdge source target = true ↔
      ∃ p ∈ g.edges, p.2.source = source ∧ p.2.target = target := by
  simp [hasEdge, Array.any_eq_true', -Array.any_eq_true]

/-- An edge that is there stays as it is until it is taken out. -/
theorem Grown.edge?_eq {added : List (EdgeId × Edge)} {taken : List EdgeId}
    (grown : Grown g after added taken) (before : g.Consistent) (kept : after.Consistent)
    {id : EdgeId} (given : id.number < g.nextEdge) :
    after.edge? id = if id ∈ taken then none else g.edge? id := by
  have other (e : Edge) : (id, e) ∉ added := fun member =>
    Nat.not_lt_of_le (grown.le_number member) given
  have listed (e : Edge) : (id, e) ∈ after.edges ↔ (id, e) ∈ g.edges ∧ id ∉ taken := by
    rw [← Array.mem_toList_iff, grown.edges, List.mem_filter, List.mem_append]
    simp [other e]
  apply Option.ext
  intro e
  rw [kept.edge?_eq_some_iff, listed, ← before.edge?_eq_some_iff]
  by_cases out : id ∈ taken
  · simp [out]
  · simp [out]

end Graph

/-! ## Ports -/

namespace Edge

theorem readPort_toString {port : Nat} (word : port < 2 ^ 64) :
    readPort (toString port) = .ok port := by
  have chars : (toString port).toList = Nat.toDigits 10 port := Nat.toList_repr
  have solid : ∀ c ∈ Nat.toDigits 10 port, Text.isBlank c = false := fun c member =>
    Text.isBlank_of_isDigit (Nat.isDigit_of_mem_toDigits (by decide) (by decide) member)
  rw [readPort, chars, Text.trim_eq_self solid, Text.readWord64?_toDigits word]

theorem port_of_get? {e : Edge} {key : String} {port : Nat}
    (kept : e.metadata.get? key = some (toString port)) (word : port < 2 ^ 64) :
    e.port key = .ok port := by
  rw [Edge.port, kept]
  exact readPort_toString word

variable (source target : NodeId) {sourcePort targetPort : Nat}

/-- The ports of an edge are read back from its metadata. -/
theorem sourcePort_withPorts (word : sourcePort < 2 ^ 64) (targetPort : Nat) :
    (withPorts source sourcePort target targetPort).sourcePort = .ok sourcePort := by
  apply port_of_get? _ word
  rfl

theorem targetPort_withPorts (sourcePort : Nat) (word : targetPort < 2 ^ 64) :
    (withPorts source sourcePort target targetPort).targetPort = .ok targetPort := by
  apply port_of_get? _ word
  rfl

end Edge

/-! ## Single edits -/

namespace Edit

variable {g after : Graph}

theorem eq_of_refused {edit : Edit} {fault : Error}
    (refused : edit.apply g = (.error fault, after)) : after = g := by
  cases effect_of_apply refused
  rfl

variable (source : String) (sourcePort : Nat) (target : String) (targetPort : Nat)

/-- Connecting two nodes adds the edge between them exactly if there are nodes of these names. -/
theorem apply_connect_eq_ok_iff {id : EdgeId} :
    (connect source sourcePort target targetPort).apply g = (.ok (.edge id), after) ↔
      ∃ s t, g.find? source = some s ∧ g.find? target = some t ∧
        g.addEdge (.withPorts s sourcePort t targetPort) = .ok (id, after) := by
  constructor
  · intro applied
    cases effect_of_apply applied with
    | edge asked added =>
        obtain ⟨s, sourceFound, rest⟩ := Option.bind_eq_some_iff.mp asked
        obtain ⟨t, targetFound, made⟩ := Option.bind_eq_some_iff.mp rest
        cases made
        exact ⟨s, t, sourceFound, targetFound, added⟩
  · intro ⟨s, t, sourceFound, targetFound, added⟩
    have joined : g.connect source sourcePort target targetPort = .ok (id, after) := by
      rw [Graph.connect, Graph.find_eq_ok_iff.mpr sourceFound,
        Graph.find_eq_ok_iff.mpr targetFound]
      exact added
    rw [apply_connect, joined]
    rfl

theorem exists_apply_connect_iff (consistent : g.Consistent) :
    (∃ id after, (connect source sourcePort target targetPort).apply g = (.ok (.edge id), after)) ↔
      (g.find? source).isSome ∧ (g.find? target).isSome := by
  simp only [Option.isSome_iff_exists]
  constructor
  · intro ⟨id, after, applied⟩
    obtain ⟨s, t, sourceFound, targetFound, -⟩ :=
      (apply_connect_eq_ok_iff source sourcePort target targetPort).mp applied
    exact ⟨⟨s, sourceFound⟩, ⟨t, targetFound⟩⟩
  · intro ⟨⟨s, sourceFound⟩, ⟨t, targetFound⟩⟩
    refine ⟨_, _, (apply_connect_eq_ok_iff source sourcePort target targetPort).mpr
      ⟨s, t, sourceFound, targetFound, Graph.addEdge_eq_ok_iff.mpr ⟨⟨?_, ?_⟩, rfl, rfl⟩⟩⟩
    · exact consistent.index_lt_of_find? sourceFound
    · exact consistent.index_lt_of_find? targetFound

variable {sourcePort targetPort}

/-- An edge made by connecting two nodes joins them, and its ports are read back as they were
given, until it is taken out. -/
theorem readsBack_connect (consistent : g.Consistent) (sourceWord : sourcePort < 2 ^ 64)
    (targetWord : targetPort < 2 ^ 64) {id : EdgeId}
    (applied : (connect source sourcePort target targetPort).apply g = (.ok (.edge id), after)) :
    ∃ e : Edge, g.find? source = some e.source ∧ g.find? target = some e.target ∧
      e.sourcePort = .ok sourcePort ∧ e.targetPort = .ok targetPort ∧
      ∀ later, (after.applyAll later).edge? id =
        if id ∈ after.taken later then none else some e := by
  obtain ⟨s, t, sourceFound, targetFound, added⟩ :=
    (apply_connect_eq_ok_iff source sourcePort target targetPort).mp applied
  have kept : after.Consistent := consistent.addEdge added
  obtain ⟨-, rfl, rfl⟩ := Graph.addEdge_eq_ok_iff.mp added
  refine ⟨.withPorts s sourcePort t targetPort, sourceFound, targetFound,
    Edge.sourcePort_withPorts s t sourceWord targetPort,
    Edge.targetPort_withPorts s t sourcePort targetWord, fun later => ?_⟩
  rw [(kept.grown_applyAll later).edge?_eq kept (kept.applyAll later) (Nat.lt_succ_self _),
    kept.edge?_eq_some_iff.mpr (Array.mem_push_self ..)]

end Edit

/-! ## What holds after any edits -/

/-- Whatever edits were asked of the empty graph, refused ones among them: identifiers tell nodes
apart and lead to them, one node at most is present and known as such, and any other node can be
added; every edge joins nodes; the edges are those added and not taken out again, in the order of
their numbers, which count the edges ever added; the queries agree with the edges; connected ports
are read back; and an edit that is refused, or takes out an edge that is not there, changes
nothing. -/
theorem edited_graphs_are_consistent (edits : List Edit) :
    let g := Graph.applyAll {} edits
    let added := Graph.added {} edits
    g.Consistent ∧
    (∀ m n node other, g.node? m = some node → g.node? n = some other → node.id = other.id →
      m = n) ∧
    (∀ m n, g.kind? m = some .present → g.kind? n = some .present → m = n) ∧
    (∀ node n after, (Edit.addNode node).apply g = (.ok (.node n), after) ↔
      (g.find? node.id = none ∧ ¬ (node.kind = .present ∧ g.present.isSome)) ∧
        n = ⟨g.nodes.size⟩ ∧ after = g.pushNode node) ∧
    g.edges.toList = added.filter (fun p => p.1 ∉ Graph.taken {} edits) ∧
    (added.map fun p => p.1.number) = List.range g.nextEdge ∧
    (∀ id e, g.edge? id = some e ↔ (id, e) ∈ g.edges) ∧
    (∀ n, g.edgesTo n = g.edges.toList.filter fun p => p.2.target = n) ∧
    (∀ n, g.edgesFrom n = g.edges.toList.filter fun p => p.2.source = n) ∧
    (∀ s t, g.hasEdge s t = true ↔ ∃ p ∈ g.edges, p.2.source = s ∧ p.2.target = t) ∧
    (∀ source sourcePort target targetPort,
      ((∃ id after, (Edit.connect source sourcePort target targetPort).apply g =
          (.ok (.edge id), after)) ↔
        (g.find? source).isSome ∧ (g.find? target).isSome) ∧
      ∀ id after, sourcePort < 2 ^ 64 → targetPort < 2 ^ 64 →
        (Edit.connect source sourcePort target targetPort).apply g = (.ok (.edge id), after) →
        ∃ e : Edge, g.find? source = some e.source ∧ g.find? target = some e.target ∧
          e.sourcePort = .ok sourcePort ∧ e.targetPort = .ok targetPort ∧
          ∀ later, (after.applyAll later).edge? id =
            if id ∈ after.taken later then none else some e) ∧
    (∀ edit fault after, Edit.apply edit g = (.error fault, after) → after = g) ∧
    (∀ id, ((Edit.removeEdge id).apply g).1 = .ok (.removed (g.edge? id))) ∧
    (∀ id, g.edge? id = none → ((Edit.removeEdge id).apply g).2 = g) := by
  intro g added
  have consistent : g.Consistent := Graph.consistent_empty.applyAll edits
  have grown := Graph.consistent_empty.grown_applyAll edits
  refine ⟨consistent, fun m n node other => consistent.eq_of_id_eq,
    fun m n => consistent.eq_of_present, fun node n after => Edit.apply_addNode_eq_ok_iff node,
    grown.edges, ?_, fun id e => consistent.edge?_eq_some_iff,
    fun n => rfl, fun n => rfl, fun s t => ?_,
    fun source sourcePort target targetPort => ⟨?_, ?_⟩,
    fun edit fault after => Edit.eq_of_refused, Edit.answer_removeEdge g, fun id unknown => ?_⟩
  · have count : g.nextEdge = 0 + added.length := grown.next
    rw [count, Nat.zero_add, List.range_eq_range']
    exact grown.numbers
  · exact Graph.hasEdge_eq_true_iff
  · exact Edit.exists_apply_connect_iff source sourcePort target targetPort consistent
  · intro id after sourceWord targetWord applied
    exact Edit.readsBack_connect source target consistent sourceWord targetWord applied
  · rw [Edit.apply_removeEdge, Graph.removeEdge_eq_none_iff.mpr unknown]

end FrameGraph
