import FrameGraph.Graph.Source
import FrameGraph.Proofs.Compiler.Failure
import FrameGraph.Proofs.Graph.Store

/-!
# Loading documents

A document is loaded exactly if its nodes can be told apart and its edges join them, and the
graph is then the one that the same nodes and edges make when they are added one by one.  Every
other document is refused for the first record at fault, nodes before edges.
-/

namespace FrameGraph

/-! ## Tags -/

theorem Operator.ofTag?_tag (op : Operator) : ofTag? op.tag = some op := by
  cases op with
  | numeric op => cases op <;> decide
  | logical op => cases op <;> decide

theorem Operator.ofTag?_eq_some_iff {s : String} {op : Operator} :
    ofTag? s = some op ↔ op.tag = s := by
  constructor
  · intro found
    have passes := List.find?_some found
    exact of_decide_eq_true passes
  · intro same
    rw [← same]
    exact ofTag?_tag op

namespace NodeKind

theorem ofTag_tag (kind : NodeKind) : ofTag kind.tag = .ok kind := by
  cases kind with
  | present | texture | float | pass => rfl
  | operator op =>
      cases op with
      | numeric op => cases op <;> rfl
      | logical op => cases op <;> rfl

/-- A tag is that of a kind, or it is unknown. -/
theorem ofTag_cases (s : String) :
    (∃ kind : NodeKind, kind.tag = s) ∨ ofTag s = .error (.unknownNodeType s) := by
  unfold ofTag
  by_cases isPresent : s = "present"
  · exact .inl ⟨.present, isPresent.symm⟩
  by_cases isTexture : s = "texture"
  · exact .inl ⟨.texture, isTexture.symm⟩
  by_cases isFloat : s = "float"
  · exact .inl ⟨.float, isFloat.symm⟩
  by_cases isPass : s = "pass"
  · exact .inl ⟨.pass, isPass.symm⟩
  rw [if_neg isPresent, if_neg isTexture, if_neg isFloat, if_neg isPass]
  cases found : Operator.ofTag? s with
  | none => exact .inr rfl
  | some op => exact .inl ⟨.operator op, Operator.ofTag?_eq_some_iff.mp found⟩

theorem ofTag_eq_ok_iff {s : String} {kind : NodeKind} : ofTag s = .ok kind ↔ kind.tag = s := by
  constructor
  · intro read
    rcases ofTag_cases s with ⟨other, same⟩ | unknown
    · rw [← same, ofTag_tag] at read
      cases read
      exact same
    · rw [unknown] at read
      cases read
  · intro same
    rw [← same]
    exact ofTag_tag kind

theorem ofTag_eq_error_iff {s : String} {fault : Error} :
    ofTag s = .error fault ↔ (∀ kind : NodeKind, kind.tag ≠ s) ∧ fault = .unknownNodeType s := by
  rcases ofTag_cases s with ⟨kind, same⟩ | unknown
  · rw [← same, ofTag_tag]
    constructor
    · intro failure
      cases failure
    · intro ⟨others, _⟩
      exact absurd rfl (others kind)
  · have noKind (kind : NodeKind) : kind.tag ≠ s := fun same => by
      rw [ofTag_eq_ok_iff.mpr same] at unknown
      cases unknown
    rw [unknown, Except.error.injEq]
    constructor
    · intro same
      exact ⟨noKind, same.symm⟩
    · intro ⟨_, same⟩
      exact same.symm

/-- The kinds of nodes are told apart by their tags. -/
theorem tag_eq_iff {kind other : NodeKind} : kind.tag = other.tag ↔ kind = other := by
  constructor
  · intro same
    have read := ofTag_eq_ok_iff.mpr same
    rw [ofTag_tag] at read
    cases read
    rfl
  · intro same
    rw [same]

end NodeKind

/-! ## Documents of graphs -/

def Node.record (node : Node) : NodeRecord := ⟨node.id, node.kind.tag, node.metadata⟩

namespace Graph

/-- An edge as it is written in a document of the graph. -/
def edgeRecord (g : Graph) (e : Edge) : EdgeRecord :=
  ⟨g.nameOf e.source, g.nameOf e.target, e.metadata⟩

/-- The document that lists the nodes and the edges of a graph in order. -/
def document (g : Graph) : Document :=
  ⟨g.nodes.toList.map Node.record, g.edgeList.map g.edgeRecord⟩

/-- A graph holds what a document lists, as if the nodes and then the edges had been added one by
one. -/
structure Loads (g : Graph) (d : Document) : Prop where
  consistent : g.Consistent
  document : g.document = d
  numbers : (g.edges.toList.map fun p => p.1.number) = List.range d.edges.length
  next : g.nextEdge = d.edges.length
  built : g = applyAll {} (g.nodes.toList.map .addNode ++ g.edgeList.map .addEdge)

end Graph

/-! ## Faults of documents -/

/-- What is wrong with a node record behind others. -/
inductive NodeRecord.Fault (earlier : List NodeRecord) (r : NodeRecord) : Error → Prop
  /-- There is no kind of node with the tag. -/
  | tag (unknown : ∀ kind : NodeKind, kind.tag ≠ r.tag) : Fault earlier r (.unknownNodeType r.tag)
  /-- The identifier is taken. -/
  | identifier (known : ∃ kind : NodeKind, kind.tag = r.tag) (taken : ∃ s ∈ earlier, s.id = r.id) :
      Fault earlier r (.duplicateNode r.id)
  /-- There is a present node already. -/
  | present (isPresent : r.tag = NodeKind.present.tag) (new : ∀ s ∈ earlier, s.id ≠ r.id)
      (second : ∃ s ∈ earlier, s.tag = NodeKind.present.tag) :
      Fault earlier r .duplicatePresentNode

/-- What is wrong with an edge record: an end that is no node, the source first. -/
inductive EdgeRecord.Fault (nodes : List NodeRecord) (r : EdgeRecord) : Error → Prop
  | source (unknown : ∀ s ∈ nodes, s.id ≠ r.source) : Fault nodes r (.unknownNode r.source)
  | target (known : ∃ s ∈ nodes, s.id = r.source) (unknown : ∀ s ∈ nodes, s.id ≠ r.target) :
      Fault nodes r (.unknownNode r.target)

/-- What is wrong with the first record at fault, where all nodes come before all edges. -/
inductive Document.Fault (d : Document) : Error → Prop
  | node {fault : Error} (first : FirstFault NodeRecord.Fault [] d.nodes fault) : Fault d fault
  | edge {fault : Error} (sound : ∀ other, ¬ FirstFault NodeRecord.Fault [] d.nodes other)
      (first : FirstFault (fun _ => EdgeRecord.Fault d.nodes) [] d.edges fault) : Fault d fault

/-- The nodes are of known kinds and can be told apart, one at most is the present node, and the
edges join them. -/
structure Document.WellFormed (d : Document) : Prop where
  tags : ∀ r ∈ d.nodes, ∃ kind : NodeKind, kind.tag = r.tag
  identifiers : (d.nodes.map NodeRecord.id).Nodup
  present : d.nodes.Pairwise fun r s =>
    ¬ (r.tag = NodeKind.present.tag ∧ s.tag = NodeKind.present.tag)
  ends : ∀ r ∈ d.edges, (∃ s ∈ d.nodes, s.id = r.source) ∧ ∃ s ∈ d.nodes, s.id = r.target

namespace Graph

variable {g after : Graph} {nodes : List NodeRecord} {d : Document}

/-! ## What is known of the nodes -/

theorem Loads.exists_record_iff (loads : g.Loads d) {p : NodeRecord → Prop} :
    (∃ r ∈ d.nodes, p r) ↔ ∃ n node, g.node? n = some node ∧ p node.record := by
  rw [← loads.document]
  constructor
  · intro ⟨r, member, holds⟩
    obtain ⟨node, listed, rfl⟩ := List.mem_map.mp member
    obtain ⟨i, here⟩ := List.mem_iff_getElem?.mp listed
    rw [Array.getElem?_toList] at here
    exact ⟨⟨i⟩, node, here, holds⟩
  · intro ⟨n, node, here, holds⟩
    refine ⟨node.record, List.mem_map_of_mem ?_, holds⟩
    exact Array.mem_toList_iff.mpr (Array.mem_of_getElem? here)

/-- An identifier is found if a record has it. -/
theorem Loads.exists_find?_iff (loads : g.Loads d) {id : String} :
    (∃ n, g.find? id = some n) ↔ ∃ s ∈ d.nodes, s.id = id := by
  simp only [loads.exists_record_iff, loads.consistent.find, Node.record]

theorem Loads.find?_eq_none_iff (loads : g.Loads d) {id : String} :
    g.find? id = none ↔ ∀ s ∈ d.nodes, s.id ≠ id := by
  have known : (∃ n, g.find? id = some n) ↔ ∃ s ∈ d.nodes, s.id = id := loads.exists_find?_iff
  rw [Option.eq_none_iff_forall_ne_some]
  constructor
  · intro absent s member same
    obtain ⟨n, found⟩ := known.mpr ⟨s, member, same⟩
    exact absent n found
  · intro new n found
    obtain ⟨s, member, same⟩ := known.mp ⟨n, found⟩
    exact new s member same

theorem Loads.isSome_present_iff (loads : g.Loads d) :
    g.present.isSome ↔ ∃ s ∈ d.nodes, s.tag = NodeKind.present.tag := by
  rw [loads.exists_record_iff, Option.isSome_iff_exists]
  simp only [loads.consistent.present, kind?, Option.map_eq_some_iff, Node.record,
    NodeKind.tag_eq_iff]

/-! ## One node -/

theorem addNodeRecord_eq_ok_iff {r : NodeRecord} :
    g.addNodeRecord r = .ok after ↔
      ∃ node : Node, node.record = r ∧ g.refusal? node = none ∧ after = g.pushNode node := by
  constructor
  · intro success
    obtain ⟨kind, read, success⟩ := bind_eq_ok_iff.mp success
    obtain ⟨⟨n, between⟩, added, success⟩ := bind_eq_ok_iff.mp success
    obtain ⟨allowed, -, pushed⟩ := addNode_eq_ok_iff.mp added
    refine ⟨⟨r.id, kind, r.metadata⟩, ?_, allowed, ?_⟩
    · rw [Node.record, NodeKind.ofTag_eq_ok_iff.mp read]
    · rw [pure_eq_ok_iff.mp success, pushed]
  · intro ⟨node, recorded, allowed, pushed⟩
    rw [← recorded, pushed]
    refine bind_eq_ok_iff.mpr ⟨node.kind, NodeKind.ofTag_tag node.kind, ?_⟩
    exact bind_eq_ok_iff.mpr ⟨_, addNode_eq_ok_iff.mpr ⟨allowed, rfl, rfl⟩, rfl⟩

theorem addNodeRecord_eq_error_iff {r : NodeRecord} {fault : Error} :
    g.addNodeRecord r = .error fault ↔
      NodeKind.ofTag r.tag = .error fault ∨
        ∃ kind, NodeKind.ofTag r.tag = .ok kind ∧
          g.refusal? ⟨r.id, kind, r.metadata⟩ = some fault := by
  have refused (node : Node) :
      (g.addNode node >>= fun added => pure added.2) = .error fault ↔
        g.refusal? node = some fault := by
    unfold addNode
    cases g.refusal? node <;> simp [bind, Except.bind, pure, Except.pure]
  unfold addNodeRecord
  rw [bind_eq_error_iff]
  simp only [← refused]

/-- A node record is refused for its fault. -/
theorem Loads.addNodeRecord_eq_error_iff (loads : g.Loads ⟨nodes, []⟩) {r : NodeRecord}
    {fault : Error} : g.addNodeRecord r = .error fault ↔ r.Fault nodes fault := by
  rw [Graph.addNodeRecord_eq_error_iff]
  constructor
  · intro failure
    rcases failure with failure | ⟨kind, read, refused⟩
    · obtain ⟨unknown, rfl⟩ := NodeKind.ofTag_eq_error_iff.mp failure
      exact .tag unknown
    · have known : kind.tag = r.tag := NodeKind.ofTag_eq_ok_iff.mp read
      rcases refusal?_eq_some_iff.mp refused with ⟨taken, rfl⟩ | ⟨new, ⟨rfl, second⟩, rfl⟩
      · apply NodeRecord.Fault.identifier ⟨kind, known⟩
        exact loads.exists_find?_iff.mp (Option.ne_none_iff_exists'.mp taken)
      · apply NodeRecord.Fault.present known.symm
        · exact loads.find?_eq_none_iff.mp new
        · exact loads.isSome_present_iff.mp second
  · intro faulty
    cases faulty with
    | tag unknown => exact .inl (NodeKind.ofTag_eq_error_iff.mpr ⟨unknown, rfl⟩)
    | identifier known taken =>
        obtain ⟨kind, known⟩ := known
        refine .inr ⟨kind, NodeKind.ofTag_eq_ok_iff.mpr known, ?_⟩
        refine refusal?_eq_some_iff.mpr (.inl ⟨?_, rfl⟩)
        exact Option.ne_none_iff_exists'.mpr (loads.exists_find?_iff.mpr taken)
    | present isPresent new second =>
        refine .inr ⟨.present, NodeKind.ofTag_eq_ok_iff.mpr isPresent.symm, ?_⟩
        refine refusal?_eq_some_iff.mpr (.inr ⟨?_, ⟨rfl, ?_⟩, rfl⟩)
        · exact loads.find?_eq_none_iff.mpr new
        · exact loads.isSome_present_iff.mpr second

theorem Loads.addNodeRecord (loads : g.Loads ⟨nodes, []⟩) {r : NodeRecord}
    (success : g.addNodeRecord r = .ok after) : after.Loads ⟨nodes ++ [r], []⟩ := by
  obtain ⟨node, rfl, allowed, rfl⟩ := addNodeRecord_eq_ok_iff.mp success
  have listed : g.nodes.toList.map Node.record = nodes := congrArg Document.nodes loads.document
  have noEdges : g.edgeList = [] :=
    List.map_eq_nil_iff.mp (congrArg Document.edges loads.document)
  have noEdges' : (g.pushNode node).edgeList = [] := noEdges
  refine ⟨loads.consistent.pushNode allowed, ?_, loads.numbers, loads.next, ?_⟩
  · rw [Graph.document, noEdges', List.map_nil, ← listed]
    congr 1
    simp [pushNode]
  · have built := loads.built
    rw [noEdges, List.map_nil, List.append_nil] at built
    have pushed : (g.pushNode node).nodes.toList = g.nodes.toList ++ [node] := Array.toList_push
    rw [noEdges', List.map_nil, List.append_nil, pushed, List.map_append, applyAll_append, ← built]
    have applied := (Edit.apply_addNode_eq_ok_iff _).mpr
      ⟨refusal?_eq_none_iff.mp allowed, rfl, rfl⟩
    exact (congrArg Prod.snd applied).symm

/-! ## One edge -/

theorem addEdgeRecord_eq_ok_iff {r : EdgeRecord} :
    g.addEdgeRecord r = .ok after ↔
      ∃ s t id, g.find? r.source = some s ∧ g.find? r.target = some t ∧
        g.addEdge ⟨s, t, r.metadata⟩ = .ok (id, after) := by
  constructor
  · intro success
    obtain ⟨s, sourceFound, success⟩ := bind_eq_ok_iff.mp success
    obtain ⟨t, targetFound, success⟩ := bind_eq_ok_iff.mp success
    obtain ⟨⟨id, between⟩, added, success⟩ := bind_eq_ok_iff.mp success
    cases success
    exact ⟨s, t, id, find_eq_ok_iff.mp sourceFound, find_eq_ok_iff.mp targetFound, added⟩
  · intro ⟨s, t, id, sourceFound, targetFound, added⟩
    refine bind_eq_ok_iff.mpr ⟨s, find_eq_ok_iff.mpr sourceFound, ?_⟩
    refine bind_eq_ok_iff.mpr ⟨t, find_eq_ok_iff.mpr targetFound, ?_⟩
    exact bind_eq_ok_iff.mpr ⟨_, added, rfl⟩

/-- An edge record is refused for its fault: nodes that are found can be joined. -/
theorem Loads.addEdgeRecord_eq_error_iff (loads : g.Loads d) {r : EdgeRecord} {fault : Error} :
    g.addEdgeRecord r = .error fault ↔ r.Fault d.nodes fault := by
  constructor
  · intro failure
    rcases bind_eq_error_iff.mp failure with failure | ⟨s, sourceFound, failure⟩
    · obtain ⟨absent, rfl⟩ := find_eq_error_iff.mp failure
      exact .source (loads.find?_eq_none_iff.mp absent)
    have sourceFound := find_eq_ok_iff.mp sourceFound
    rcases bind_eq_error_iff.mp failure with failure | ⟨t, targetFound, failure⟩
    · obtain ⟨absent, rfl⟩ := find_eq_error_iff.mp failure
      exact .target (loads.exists_find?_iff.mp ⟨s, sourceFound⟩)
        (loads.find?_eq_none_iff.mp absent)
    have targetFound := find_eq_ok_iff.mp targetFound
    have sourceInside := loads.consistent.index_lt_of_find? sourceFound
    have targetInside := loads.consistent.index_lt_of_find? targetFound
    rw [addEdge_eq_ok_iff.mpr ⟨⟨sourceInside, targetInside⟩, rfl, rfl⟩] at failure
    cases failure
  · intro faulty
    cases faulty with
    | source unknown =>
        apply bind_eq_error_iff.mpr
        exact .inl (find_eq_error_iff.mpr ⟨loads.find?_eq_none_iff.mpr unknown, rfl⟩)
    | target known unknown =>
        obtain ⟨s, sourceFound⟩ := loads.exists_find?_iff.mpr known
        apply bind_eq_error_iff.mpr
        refine .inr ⟨s, find_eq_ok_iff.mpr sourceFound, bind_eq_error_iff.mpr (.inl ?_)⟩
        exact find_eq_error_iff.mpr ⟨loads.find?_eq_none_iff.mpr unknown, rfl⟩

theorem Loads.addEdgeRecord (loads : g.Loads d) {r : EdgeRecord}
    (success : g.addEdgeRecord r = .ok after) : after.Loads ⟨d.nodes, d.edges ++ [r]⟩ := by
  obtain ⟨s, t, id, sourceFound, targetFound, added⟩ := addEdgeRecord_eq_ok_iff.mp success
  have kept : after.Consistent := loads.consistent.addEdge added
  have applied : ((Edit.addEdge ⟨s, t, r.metadata⟩).apply g).2 = after := by
    rw [Edit.apply_addEdge, added]
    rfl
  obtain ⟨-, rfl, rfl⟩ := addEdge_eq_ok_iff.mp added
  have sourceName := loads.consistent.nameOf_of_find? sourceFound
  have targetName := loads.consistent.nameOf_of_find? targetFound
  have listed : g.nodes.toList.map Node.record = d.nodes := congrArg Document.nodes loads.document
  have joined : g.edgeList.map g.edgeRecord = d.edges := congrArg Document.edges loads.document
  have listing : (g.edgeList ++ [(⟨s, t, r.metadata⟩ : Edge)]).map g.edgeRecord =
      d.edges ++ [r] := by
    rw [List.map_append, joined, List.map_singleton, edgeRecord, sourceName, targetName]
  have pushed : (g.edges.push (⟨g.nextEdge⟩, ⟨s, t, r.metadata⟩)).toList =
      g.edges.toList ++ [(⟨g.nextEdge⟩, ⟨s, t, r.metadata⟩)] := Array.toList_push
  refine ⟨kept, ?_, ?_, ?_, ?_⟩
  · rw [← listed, ← listing, Graph.document, edgeList, pushed, List.map_append]
    rfl
  · rw [pushed, List.map_append, loads.numbers, List.length_append, List.length_singleton,
      List.range_succ, ← loads.next]
    rfl
  · rw [List.length_append, ← loads.next]
    rfl
  · rw [edgeList, pushed, List.map_append, List.map_append, ← List.append_assoc, applyAll_append]
    have built := loads.built
    rw [edgeList] at built
    rw [← built]
    exact applied.symm

/-! ## All records -/

theorem loads_empty : Loads {} ⟨[], []⟩ := ⟨consistent_empty, rfl, rfl, rfl, rfl⟩

theorem loads_of_nodes (success : nodes.foldlM addNodeRecord {} = .ok g) : g.Loads ⟨nodes, []⟩ := by
  have loads := foldlM_ok_done (fun done s => Loads s ⟨done, []⟩)
    (fun done r s next loads => loads.addNodeRecord) loads_empty success
  rw [List.nil_append] at loads
  exact loads

theorem nodes_eq_error_iff {fault : Error} :
    nodes.foldlM addNodeRecord {} = .error fault ↔
      FirstFault NodeRecord.Fault [] nodes fault := by
  apply foldlM_eq_error_iff (fun done s => Loads s ⟨done, []⟩)
  · exact fun done r s fault loads => loads.addNodeRecord_eq_error_iff
  · exact fun done r s next loads => loads.addNodeRecord
  · exact loads_empty

theorem Loads.of_edges {edges : List EdgeRecord} (loads : g.Loads ⟨nodes, []⟩)
    (success : edges.foldlM Graph.addEdgeRecord g = .ok after) : after.Loads ⟨nodes, edges⟩ := by
  have final := foldlM_ok_done (fun done s => Loads s ⟨nodes, done⟩)
    (fun done r s next loads => loads.addEdgeRecord) loads success
  rw [List.nil_append] at final
  exact final

theorem Loads.edges_eq_error_iff {edges : List EdgeRecord} (loads : g.Loads ⟨nodes, []⟩)
    {fault : Error} :
    edges.foldlM Graph.addEdgeRecord g = .error fault ↔
      FirstFault (fun _ => EdgeRecord.Fault nodes) [] edges fault := by
  apply foldlM_eq_error_iff (fun done s => Loads s ⟨nodes, done⟩)
  · exact fun done r s fault loads => loads.addEdgeRecord_eq_error_iff
  · exact fun done r s next loads => loads.addEdgeRecord
  · exact loads

theorem loads_of_document (success : ofDocument d = .ok g) : g.Loads d := by
  obtain ⟨nodesOnly, nodesAdded, edgesAdded⟩ := bind_eq_ok_iff.mp success
  exact (loads_of_nodes nodesAdded).of_edges edgesAdded

/-- A document is refused for the first record at fault. -/
theorem ofDocument_eq_error_iff {fault : Error} : ofDocument d = .error fault ↔ d.Fault fault := by
  constructor
  · intro failure
    rcases bind_eq_error_iff.mp failure with failure | ⟨nodesOnly, nodesAdded, failure⟩
    · exact .node (nodes_eq_error_iff.mp failure)
    · refine .edge (fun other first => ?_)
        ((loads_of_nodes nodesAdded).edges_eq_error_iff.mp failure)
      rw [nodes_eq_error_iff.mpr first] at nodesAdded
      cases nodesAdded
  · intro faulty
    apply bind_eq_error_iff.mpr
    cases faulty with
    | node first => exact .inl (nodes_eq_error_iff.mpr first)
    | edge sound first =>
        cases nodesAdded : d.nodes.foldlM addNodeRecord {} with
        | error other => exact absurd (nodes_eq_error_iff.mp nodesAdded) (sound other)
        | ok nodesOnly =>
            exact .inr ⟨nodesOnly, rfl, (loads_of_nodes nodesAdded).edges_eq_error_iff.mpr first⟩

/-! ## Well-formed documents -/

/-- What tells any two nodes apart tells their records apart. -/
theorem Loads.pairwise (loads : g.Loads d) {Apart : NodeRecord → NodeRecord → Prop}
    (apart : ∀ m n node other, m ≠ n → g.node? m = some node → g.node? n = some other →
      Apart node.record other.record) : d.nodes.Pairwise Apart := by
  rw [← loads.document]
  apply List.pairwise_map.mpr
  apply List.pairwise_iff_getElem.mpr
  intro i j iBound jBound before
  have distinct : (⟨i⟩ : NodeId) ≠ ⟨j⟩ := fun same =>
    Nat.ne_of_lt before (congrArg NodeId.index same)
  apply apart ⟨i⟩ ⟨j⟩ _ _ distinct
  · exact Array.getElem?_eq_getElem iBound
  · exact Array.getElem?_eq_getElem jBound

theorem Loads.wellFormed (loads : g.Loads d) : d.WellFormed := by
  refine ⟨fun r member => ?_, ?_, ?_, fun r member => ?_⟩
  · rw [← loads.document] at member
    obtain ⟨node, -, rfl⟩ := List.mem_map.mp member
    exact ⟨node.kind, rfl⟩
  · apply List.pairwise_map.mpr
    apply loads.pairwise
    intro m n node other distinct here there same
    exact distinct (loads.consistent.eq_of_id_eq here there same)
  · apply loads.pairwise
    intro m n node other distinct here there bothPresent
    have firstKind : g.kind? m = some .present := by
      rw [kind?, here, ← NodeKind.tag_eq_iff.mp bothPresent.1]
      rfl
    have secondKind : g.kind? n = some .present := by
      rw [kind?, there, ← NodeKind.tag_eq_iff.mp bothPresent.2]
      rfl
    exact distinct (loads.consistent.eq_of_present firstKind secondKind)
  · have known (n : NodeId) (inside : n.index < g.nodes.size) :
        ∃ s ∈ d.nodes, s.id = g.nameOf n := by
      have here : g.node? n = some g.nodes[n.index] := Array.getElem?_eq_getElem inside
      apply loads.exists_record_iff.mpr
      refine ⟨n, _, here, ?_⟩
      rw [nameOf, here]
      rfl
    rw [← loads.document] at member
    obtain ⟨e, listed, rfl⟩ := List.mem_map.mp member
    obtain ⟨p, stored, rfl⟩ := List.mem_map.mp listed
    have ends := loads.consistent.ends p (Array.mem_toList_iff.mp stored)
    exact ⟨known _ ends.1, known _ ends.2⟩

end Graph

namespace Document

variable {d : Document} {fault : Error}

theorem WellFormed.nodes_sound (wellFormed : d.WellFormed) :
    ¬ FirstFault NodeRecord.Fault [] d.nodes fault := by
  intro first
  obtain ⟨before, r, after, split, faulty⟩ := first.exists_split
  have earlier {Apart : NodeRecord → NodeRecord → Prop} (pairwise : d.nodes.Pairwise Apart)
      {s : NodeRecord} (member : s ∈ before) : Apart s r := by
    rw [split] at pairwise
    exact (List.pairwise_append.mp pairwise).2.2 s member r List.mem_cons_self
  cases faulty with
  | tag unknown =>
      have listed : r ∈ d.nodes := by
        rw [split]
        exact List.mem_append_right before List.mem_cons_self
      obtain ⟨kind, known⟩ := wellFormed.tags r listed
      exact unknown kind known
  | identifier known taken =>
      obtain ⟨s, member, same⟩ := taken
      exact earlier (List.pairwise_map.mp wellFormed.identifiers) member same
  | present isPresent new second =>
      obtain ⟨s, member, alsoPresent⟩ := second
      exact earlier wellFormed.present member ⟨alsoPresent, isPresent⟩

theorem WellFormed.edges_sound (wellFormed : d.WellFormed) :
    ¬ FirstFault (fun _ => EdgeRecord.Fault d.nodes) [] d.edges fault := by
  intro first
  obtain ⟨before, r, after, split, faulty⟩ := first.exists_split
  have listed : r ∈ d.edges := by
    rw [split]
    exact List.mem_append_right before List.mem_cons_self
  obtain ⟨⟨s, sourceMember, source⟩, t, targetMember, target⟩ := wellFormed.ends r listed
  cases faulty with
  | source unknown => exact unknown s sourceMember source
  | target known unknown => exact unknown t targetMember target

theorem WellFormed.sound (wellFormed : d.WellFormed) : ¬ d.Fault fault := by
  intro faulty
  cases faulty with
  | node first => exact wellFormed.nodes_sound first
  | edge sound first => exact wellFormed.edges_sound first

end Document

theorem Graph.exists_ofDocument_iff {d : Document} :
    (∃ g, Graph.ofDocument d = .ok g) ↔ d.WellFormed := by
  constructor
  · intro ⟨g, success⟩
    exact (Graph.loads_of_document success).wellFormed
  · intro wellFormed
    cases result : Graph.ofDocument d with
    | error fault => exact absurd (Graph.ofDocument_eq_error_iff.mp result) wellFormed.sound
    | ok g => exact ⟨g, rfl⟩

/-- A text from which a document can be read is loaded as that document. -/
theorem Graph.ofSource_of_read {source : String} {d : Document}
    (read : Document.ofSource source = .ok d) : Graph.ofSource source = Graph.ofDocument d := by
  rw [ofSource, read]
  rfl

/-- A document is loaded exactly if it is well-formed.  The graph then lists the records of the
document in order, its edges numbered from 0, and is the one that the same nodes and edges make
when they are added one by one.  Otherwise the error is that of the first record at fault.  A
text is loaded as the document that is read from it. -/
theorem loading_equals_building (d : Document) :
    ((∃ g, Graph.ofDocument d = .ok g) ↔ d.WellFormed) ∧
    (∀ g, Graph.ofDocument d = .ok g →
      g.Consistent ∧ g.document = d ∧
      (g.edges.toList.map fun p => p.1.number) = List.range d.edges.length ∧
      g.nextEdge = d.edges.length ∧
      g = Graph.applyAll {} (g.nodes.toList.map .addNode ++ g.edgeList.map .addEdge)) ∧
    (∀ fault, Graph.ofDocument d = .error fault ↔ d.Fault fault) ∧
    ∀ source, Document.ofSource source = .ok d →
      Graph.ofSource source = Graph.ofDocument d := by
  refine ⟨Graph.exists_ofDocument_iff, fun g success => ?_, fun fault =>
    Graph.ofDocument_eq_error_iff, fun source => Graph.ofSource_of_read⟩
  have loads := Graph.loads_of_document success
  exact ⟨loads.consistent, loads.document, loads.numbers, loads.next, loads.built⟩

/-- A constant that is presented, with the edge in front of the nodes. -/
def relaySource : String :=
  "\x7b\"edges\":[\x7b\"source\":\"a\",\"target\":\"out\"\x7d],\"nodes\":[" ++
    "\x7b\"id\":\"a\",\"type\":\"float\",\"metadata\":\x7b\"value\":\"2\"\x7d\x7d," ++
    "\x7b\"id\":\"out\",\"type\":\"present\"\x7d]\x7d"

def relayDocument : Document :=
  ⟨[⟨"a", "float", .ofList [("value", "2")]⟩, ⟨"out", "present", {}⟩], [⟨"a", "out", {}⟩]⟩

/-- An edge from nowhere, and a second present node that has the identifier of the first. -/
def faultySource : String :=
  "\x7b\"edges\":[\x7b\"source\":\"b\",\"target\":\"out\"\x7d],\"nodes\":[" ++
    "\x7b\"id\":\"out\",\"type\":\"present\"\x7d,\x7b\"id\":\"out\",\"type\":\"present\"\x7d]\x7d"

def faultyDocument : Document :=
  ⟨[⟨"out", "present", {}⟩, ⟨"out", "present", {}⟩], [⟨"b", "out", {}⟩]⟩

theorem read_relaySource : Document.ofSource relaySource = .ok relayDocument := by
  decide +kernel

theorem read_faultySource : Document.ofSource faultySource = .ok faultyDocument := by
  decide +kernel

theorem wellFormed_relayDocument : relayDocument.WellFormed where
  tags r member := by
    rcases List.mem_cons.mp member with rfl | member
    · exact ⟨.float, rfl⟩
    · rw [List.mem_singleton.mp member]
      exact ⟨.present, rfl⟩
  identifiers := by decide
  present := by decide
  ends := by decide

theorem fault_faultyDocument : faultyDocument.Fault (.duplicateNode "out") := by
  apply Document.Fault.node
  apply FirstFault.later
  · intro other faulty
    cases faulty with
    | tag unknown => exact unknown .present rfl
    | identifier known taken =>
        obtain ⟨s, member, -⟩ := taken
        cases member
    | present isPresent new second =>
        obtain ⟨s, member, -⟩ := second
        cases member
  · apply FirstFault.here
    exact .identifier ⟨.present, rfl⟩ ⟨_, List.mem_cons_self, rfl⟩

theorem loading_of_read_texts :
    (∃ g, Graph.ofSource relaySource = .ok g ∧ g.document = relayDocument) ∧
    Graph.ofSource faultySource = .error (.duplicateNode "out") := by
  constructor
  · obtain ⟨loadedIff, listed, -, sameGraph⟩ := loading_equals_building relayDocument
    obtain ⟨g, loaded⟩ := loadedIff.mpr wellFormed_relayDocument
    exact ⟨g, (sameGraph _ read_relaySource).trans loaded, (listed g loaded).2.1⟩
  · obtain ⟨-, -, refused, sameGraph⟩ := loading_equals_building faultyDocument
    exact (sameGraph _ read_faultySource).trans ((refused _).mpr fault_faultyDocument)

end FrameGraph
