import FrameGraph.Proofs.Evaluation.Simulation

/-!
# Completed frames

A completed frame solves the dataflow equations of its graph.  Producers come before
their consumers and no slot has two owners, so that what a node has read is still there
at the end of the frame, and what it has written as well.
-/

namespace FrameGraph

variable {ω : Type}

/-! ## Producers stand before their consumers -/

/-- What comes earlier than a node is neither this node nor one behind it. -/
theorem notMem_of_idxOf_lt {initial rest : List NodeId} {n p : NodeId}
    (nodup : (initial ++ n :: rest).Nodup)
    (earlier : (initial ++ n :: rest).idxOf p < (initial ++ n :: rest).idxOf n) :
    p ∉ n :: rest := by
  intro member
  obtain ⟨-, -, apart⟩ := List.nodup_append.mp nodup
  have pNotInitial : p ∉ initial := fun inside => apart p inside p member rfl
  have nNotInitial : n ∉ initial := fun inside => apart n inside n List.mem_cons_self rfl
  rw [List.idxOf_append_of_notMem pNotInitial, List.idxOf_append_of_notMem nNotInitial,
    List.idxOf_cons_self] at earlier
  omega

/-- The source of an edge into a scheduled node is scheduled before it. -/
theorem Schedule.Covers.source_before {s : Schedule} {g : Graph} {sink n : NodeId}
    (covers : s.Covers g sink) (member : n ∈ s.evaluationOrder) {e : Edge}
    (incoming : e ∈ g.incoming n) :
    e.source ∈ s.evaluationOrder ∧
      s.evaluationOrder.idxOf e.source < s.evaluationOrder.idxOf n := by
  obtain ⟨edge, targetEq⟩ := List.mem_filter.mp incoming
  have targetEq : e.target = n := of_decide_eq_true targetEq
  have reaches := covers.mem_evaluationOrder.mp member
  have sourceReaches : Reaches g.edgeList e.source sink :=
    .head ⟨e, edge, rfl, targetEq⟩ reaches
  refine ⟨covers.mem_evaluationOrder.mpr sourceReaches, ?_⟩
  have before := covers.before e edge ((covers.mem_iff _).mpr sourceReaches)
    (targetEq ▸ (covers.mem_iff _).mpr reaches)
  rwa [targetEq] at before

/-- In front of a scheduled node stand the sources of the edges into it and the sources of the
edges into these. -/
theorem Schedule.Covers.sources_done {s : Schedule} {g : Graph} {sink n : NodeId}
    {done rest : List NodeId} (covers : s.Covers g sink)
    (orderEq : s.evaluationOrder = done ++ n :: rest) {e : Edge} (incoming : e ∈ g.incoming n) :
    e.source ∈ done ∧ ∀ hop ∈ g.incoming e.source, hop.source ∈ done := by
  have nodup : (done ++ n :: rest).Nodup := orderEq ▸ covers.nodup_evaluationOrder
  have earlier {p : NodeId} (member : p ∈ s.evaluationOrder)
      (before : s.evaluationOrder.idxOf p < s.evaluationOrder.idxOf n) : p ∈ done := by
    rw [orderEq] at member before
    exact (List.mem_append.mp member).resolve_right (notMem_of_idxOf_lt nodup before)
  have scheduled : n ∈ s.evaluationOrder := by simp [orderEq]
  obtain ⟨sourceMember, sourceBefore⟩ := covers.source_before scheduled incoming
  refine ⟨earlier sourceMember sourceBefore, fun hop hopIncoming => ?_⟩
  obtain ⟨hopMember, hopBefore⟩ := covers.source_before sourceMember hopIncoming
  exact earlier hopMember (hopBefore.trans sourceBefore)

namespace Evaluator

variable {v : Evaluator ω} {memory after : Memory ω} {n : NodeId}

/-! ## Reading from kept slots -/

/-- The node in whose slots an edge is looked up is the source of the edge or, behind a
texture, the source of the edge into the texture. -/
def Producer (v : Evaluator ω) (e : Edge) (p : NodeId) : Prop :=
  p = e.source ∨ ∃ hop ∈ v.graph.incoming e.source, p = hop.source

theorem output?_of_kept {e : Edge}
    (kept : ∀ slot, v.symbols.Owns e.source slot → after.values[slot]? = memory.values[slot]?) :
    v.output? after e = v.output? memory e := by
  unfold output?
  cases e.sourcePort.toOption with
  | none => rfl
  | some port =>
      cases slotEq : (v.symbols.slotsOf e.source).value? port with
      | none => simp [slotEq]
      | some slot =>
          obtain ⟨rfl, inside⟩ := Slots.value?_eq_some_iff.mp slotEq
          simpa [slotEq] using kept _ ⟨Nat.le_add_right _ _, inside⟩

theorem read?_of_kept {e : Edge}
    (kept : ∀ p slot, v.Producer e p → v.symbols.Owns p slot →
      after.values[slot]? = memory.values[slot]?) :
    v.read? after e = v.read? memory e := by
  unfold read?
  by_cases isTexture : v.graph.kind? e.source = some .texture
  · rw [if_pos isTexture, if_pos isTexture]
    rcases incomingEq : v.graph.incoming e.source with _ | ⟨hop, _ | ⟨other, rest⟩⟩
    · rfl
    · have behind : v.Producer e hop.source := by
        refine Or.inr ⟨hop, ?_, rfl⟩
        rw [incomingEq]
        exact List.mem_cons_self
      exact output?_of_kept fun slot => kept hop.source slot behind
    · rfl
  · rw [if_neg isTexture, if_neg isTexture]
    exact output?_of_kept fun slot => kept e.source slot (Or.inl rfl)

/-- A node reads the same cells from a memory in which the slots of its producers are
kept. -/
theorem inputs?_of_kept {cells : List Cell} (inputsEq : v.inputs? memory n = some cells)
    (kept : ∀ e ∈ v.graph.incoming n, ∀ p slot, v.Producer e p → v.symbols.Owns p slot →
      after.values[slot]? = memory.values[slot]?) :
    v.inputs? after n = some cells := by
  obtain ⟨edges, edgesEq, readEq⟩ := Option.bind_eq_some_iff.mp inputsEq
  have incoming : ∀ e ∈ edges, e ∈ v.graph.incoming n := by
    intro e member
    have found : some e ∈ (List.range (v.graph.incoming n).length).map
        (v.graph.inputEdge? n) := by
      rw [mapM_eq_some_iff.mp edgesEq]
      exact List.mem_map_of_mem member
    obtain ⟨port, -, portEq⟩ := List.mem_map.mp found
    exact List.mem_of_find?_eq_some portEq
  refine Option.bind_eq_some_iff.mpr ⟨edges, edgesEq, ?_⟩
  rw [mapM_eq_some_iff] at readEq ⊢
  rw [← readEq]
  apply List.map_congr_left
  intro e member
  exact read?_of_kept (kept e (incoming e member))

/-! ## The moment of a node -/

variable {schedule : Schedule} {sink : NodeId} {e : Evaluation ω}

/-- An evaluation that completes along a schedule. -/
structure Completes (v : Evaluator ω) (schedule : Schedule) (sink : NodeId)
    (memory : Memory ω) (e : Evaluation ω) : Prop where
  symbols : v.symbols.Sound
  values : memory.values.size = v.symbols.valueCount
  covers : schedule.Covers v.graph sink
  provides : ∀ n ∈ schedule.evaluationOrder, v.Provides n
  ran : v.run memory schedule.evaluationOrder = some e
  completed : e.verdict = .completed

theorem Completes.producer_before (completes : v.Completes schedule sink memory e)
    (member : n ∈ schedule.evaluationOrder) {edge : Edge}
    (incoming : edge ∈ v.graph.incoming n) {p : NodeId} (producer : v.Producer edge p) :
    schedule.evaluationOrder.idxOf p < schedule.evaluationOrder.idxOf n := by
  obtain ⟨sourceMember, sourceBefore⟩ := completes.covers.source_before member incoming
  rcases producer with rfl | ⟨hop, hopIncoming, rfl⟩
  · exact sourceBefore
  · obtain ⟨-, hopBefore⟩ := completes.covers.source_before sourceMember hopIncoming
    exact Nat.lt_trans hopBefore sourceBefore

/-- A completed evaluation visits a scheduled node once.  What the node has read then it
would read at the end again, what it has written is still there, and no other visit
calls its operation. -/
theorem Completes.moment (completes : v.Completes schedule sink memory e)
    (member : n ∈ schedule.evaluationOrder) :
    ∃ before here, v.visit before n = some here ∧ here.verdict = .completed ∧
      before.values.size = memory.values.size ∧
      (∀ cells, v.inputs? before n = some cells → v.inputs? e.memory n = some cells) ∧
      (∀ slot, v.symbols.Owns n slot →
        e.memory.values[slot]? = here.memory.values[slot]?) ∧
      ∃ earlier later, e.calls = earlier ++ (here.calls ++ later) ∧
        ∀ call ∈ earlier ++ later, (v.symbols.slotsOf n).operation ≠ some call.operation := by
  obtain ⟨initial, rest, before, here, last, orderEq, initialRan, visited, hereCompleted,
    restRan, memoryEq, callsEq⟩ := run_split completes.ran completes.completed member
  have nodup : (initial ++ n :: rest).Nodup := orderEq ▸ completes.covers.nodup_evaluationOrder
  have provides : ∀ m ∈ initial ++ n :: rest, v.Provides m := orderEq ▸ completes.provides
  obtain ⟨-, restNodup, apart⟩ := List.nodup_append.mp nodup
  have notInitial : n ∉ initial := fun inside => apart n inside n List.mem_cons_self rfl
  have notRest : n ∉ rest := (List.nodup_cons.mp restNodup).1
  -- A slot has one owner, so only the visit of its owner writes it.
  have keptByRest {p : NodeId} {slot : Nat} (owns : v.symbols.Owns p slot)
      (absent : p ∉ rest) :
      e.memory.values[slot]? = here.memory.values[slot]? := by
    rw [memoryEq]
    refine getElem?_of_run (fun m inside => provides m (by simp [inside])) ?_ restRan
    intro m inside mOwns
    rw [completes.symbols.owner_unique mOwns owns] at inside
    exact absent inside
  have keptByNode {p : NodeId} {slot : Nat} (owns : v.symbols.Owns p slot)
      (different : p ≠ n) :
      here.memory.values[slot]? = before.memory.values[slot]? := by
    refine getElem?_of_visit (provides n (by simp)) ?_ visited
    intro nOwns
    exact different (completes.symbols.owner_unique owns nOwns)
  refine ⟨before.memory, here, visited, hereCompleted, size_of_run initialRan, ?_, ?_,
    before.calls, last.calls, callsEq, ?_⟩
  · intro cells inputsEq
    refine inputs?_of_kept inputsEq ?_
    intro edge incoming p slot producer owns
    have earlier := completes.producer_before member incoming producer
    rw [orderEq] at earlier
    have behind := notMem_of_idxOf_lt nodup earlier
    rw [List.mem_cons, not_or] at behind
    exact (keptByRest owns behind.2).trans (keptByNode owns behind.1)
  · intro slot owns
    exact keptByRest owns notRest
  · intro call callMember sameOperation
    rcases List.mem_append.mp callMember with early | late
    · obtain ⟨m, mMember, -, operationEq⟩ := operation_of_run initialRan early
      rw [completes.symbols.operations_apart m n _ operationEq sameOperation] at mMember
      exact notInitial mMember
    · obtain ⟨m, mMember, -, operationEq⟩ := operation_of_run restRan late
      rw [completes.symbols.operations_apart m n _ operationEq sameOperation] at mMember
      exact notRest mMember

/-! ## The equations -/

/-- The dataflow equations of a graph, between the memory from which an evaluation starts
and the memory and the calls that it leaves behind. -/
structure Solves (v : Evaluator ω) (sink : NodeId) (memory : Memory ω) (e : Evaluation ω) :
    Prop where
  operators : ∀ n op, Reaches v.graph.edgeList n sink →
    v.graph.kind? n = some (.operator op) →
      ∃ operands c, v.inputs? e.memory n = some operands ∧
        op.eval? (v.mode n) operands = some c ∧
        e.memory.values[(v.symbols.slotsOf n).start]? = some c
  passes : ∀ n, Reaches v.graph.edgeList n sink → v.graph.kind? n = some .pass →
    ∃ inputs call, v.inputs? e.memory n = some inputs ∧
      (v.symbols.slotsOf n).operation = some call.operation ∧
      e.calls.filter (fun other => other.operation = call.operation) = [call] ∧
      call.inputs = inputs.reverse ∧ call.goesOn = true ∧
      call.outputs.length = v.graph.neededPorts n ∧
      ∀ port < call.outputs.length,
        e.memory.values[(v.symbols.slotsOf n).start + port]? = call.outputs[port]?
  uncalled : ∀ n, ¬ Reaches v.graph.edgeList n sink → ∀ call ∈ e.calls,
    (v.symbols.slotsOf n).operation ≠ some call.operation
  unchanged : ∀ n slot, v.graph.kind? n = some .float ∨ ¬ Reaches v.graph.edgeList n sink →
    v.symbols.Owns n slot → e.memory.values[slot]? = memory.values[slot]?

/-- Outputs that fit the slots of a node can be read back port by port. -/
theorem getElem?_write_add (sound : v.symbols.Sound)
    (sizeEq : memory.values.size = v.symbols.valueCount) (outputs : List Cell)
    (room : outputs.length ≤ (v.symbols.slotsOf n).count) (port : Nat)
    (inside : port < outputs.length) :
    v.symbols.Owns n ((v.symbols.slotsOf n).start + port) ∧
      (v.write memory n outputs).values[(v.symbols.slotsOf n).start + port]? =
        outputs[port]? := by
  have countEq : (v.symbols.slotsOf n).count =
    (v.symbols.slotsOf n).stop - (v.symbols.slotsOf n).start := rfl
  have below := sound.values n
  refine ⟨⟨Nat.le_add_right _ _, by omega⟩, ?_⟩
  exact getElem?_writeSlots_add inside (by omega)

theorem Completes.operator (completes : v.Completes schedule sink memory e)
    {op : Operator} (member : n ∈ schedule.evaluationOrder)
    (kind : v.graph.kind? n = some (.operator op)) :
    ∃ operands c, v.inputs? e.memory n = some operands ∧
      op.eval? (v.mode n) operands = some c ∧
      e.memory.values[(v.symbols.slotsOf n).start]? = some c := by
  obtain ⟨before, here, visited, hereCompleted, sizeEq, readsAgain, keeps, -⟩ :=
    completes.moment member
  have provides := completes.provides n member
  simp only [Provides, kind] at provides
  simp only [visit, kind] at visited
  obtain ⟨operands, inputsEq, ⟨c, evalEq, rfl⟩ | ⟨-, rfl⟩⟩ := visitOperator_eq_some visited
  · obtain ⟨owns, written⟩ := getElem?_write_add completes.symbols
      (sizeEq.trans completes.values) [c] provides.2 0 Nat.zero_lt_one
    refine ⟨operands, c, readsAgain operands inputsEq, evalEq, ?_⟩
    exact (keeps _ owns).trans written
  · cases hereCompleted

theorem Completes.pass (completes : v.Completes schedule sink memory e)
    (member : n ∈ schedule.evaluationOrder) (kind : v.graph.kind? n = some .pass) :
    ∃ inputs call, v.inputs? e.memory n = some inputs ∧
      (v.symbols.slotsOf n).operation = some call.operation ∧
      e.calls.filter (fun other => other.operation = call.operation) = [call] ∧
      call.inputs = inputs.reverse ∧ call.goesOn = true ∧
      call.outputs.length = v.graph.neededPorts n ∧
      ∀ port < call.outputs.length,
        e.memory.values[(v.symbols.slotsOf n).start + port]? = call.outputs[port]? := by
  obtain ⟨before, here, visited, hereCompleted, sizeEq, readsAgain, keeps, earlier, later,
    callsEq, others⟩ := completes.moment member
  have provides := completes.provides n member
  simp only [Provides, kind] at provides
  simp only [visit, kind] at visited
  obtain ⟨inputs, call, world, inputsEq, operationEq, callInputs, outcome⟩ :=
    visitPass_eq_some visited
  rcases outcome with ⟨-, rfl⟩ | ⟨-, -, rfl⟩ | ⟨goesOn, countsEq, rfl⟩
  · cases hereCompleted
  · cases hereCompleted
  · refine ⟨inputs, call, readsAgain inputs inputsEq, operationEq, ?_, callInputs, goesOn,
      countsEq, ?_⟩
    · have unrelated : ∀ part, part ⊆ earlier ++ later →
          part.filter (fun other => other.operation = call.operation) = [] := by
        intro part subset
        refine List.filter_eq_nil_iff.mpr fun other otherMember sameOperation => ?_
        have same : other.operation = call.operation := of_decide_eq_true sameOperation
        exact others other (subset otherMember) (same ▸ operationEq)
      rw [callsEq, List.filter_append, List.filter_append,
        unrelated earlier (List.subset_append_left _ _),
        unrelated later (List.subset_append_right _ _)]
      simp
    · intro port inside
      obtain ⟨owns, written⟩ := getElem?_write_add completes.symbols
        (sizeEq.trans completes.values) call.outputs
        (Nat.le_of_eq (countsEq.trans provides.symm)) port inside
      exact (keeps _ owns).trans written

/-- Evaluation writes no slot of a constant and none of a node that is not scheduled. -/
theorem Completes.unchanged (completes : v.Completes schedule sink memory e) {slot : Nat}
    (idle : v.graph.kind? n = some .float ∨ n ∉ schedule.evaluationOrder)
    (owns : v.symbols.Owns n slot) : e.memory.values[slot]? = memory.values[slot]? := by
  refine relation_of_run
    (R := fun before after => after.values[slot]? = before.values[slot]?)
    (fun _ => rfl) (fun first second => second.trans first) ?_ completes.ran
  intro m mMember before last visited
  by_cases same : m = n
  · subst same
    rcases idle with isFloat | absent
    · simp only [visit, isFloat] at visited
      cases visited
      rfl
    · exact absurd mMember absent
  · refine getElem?_of_visit (completes.provides m mMember) ?_ visited
    intro mOwns
    exact same (completes.symbols.owner_unique mOwns owns)

theorem Completes.solves (completes : v.Completes schedule sink memory e) :
    v.Solves sink memory e := by
  have covers := completes.covers
  constructor
  · intro n op reaches kind
    exact completes.operator (covers.mem_evaluationOrder.mpr reaches) kind
  · intro n reaches kind
    exact completes.pass (covers.mem_evaluationOrder.mpr reaches) kind
  · intro n unreached call callMember operationEq
    obtain ⟨m, mMember, -, mOperation⟩ := operation_of_run completes.ran callMember
    rw [completes.symbols.operations_apart m n _ mOperation operationEq] at mMember
    exact unreached (covers.mem_evaluationOrder.mp mMember)
  · intro n slot idle owns
    refine completes.unchanged ?_ owns
    exact idle.imp_right fun unreached member =>
      unreached (covers.mem_evaluationOrder.mp member)

end Evaluator

/-- A frame that completes, from whatever cells and with whatever operations, solves the
dataflow equations of the compiled graph. -/
theorem completed_frame_solves {registry : Registry ω} {config : Config} {g : Graph}
    {compiled i : Instance ω} {before after : ω} (word : g.neededValues < 2 ^ 64)
    (success : Build.Succeeds (compile registry config g) before compiled after)
    (shape : i.SameShape compiled) (world : ω)
    (completed : (i.execute world).exit = .halted) :
    ∃ sink, g.presentNode = .ok sink ∧
      (i.evaluator config g).Solves sink ⟨i.values, world⟩
        ⟨.completed, i.calls world, (i.execute world).memory⟩ := by
  obtain ⟨sink, schedule, present, -, covers, linked⟩ := shape.linked word success
  obtain ⟨e, pointer, evaluated, -, -, outcome⟩ :=
    linked.execute_eq covers.nodup_evaluationOrder world
  refine ⟨sink, present, ?_⟩
  rcases outcome with ⟨exitEq, memoryEq, callsEq⟩ | ⟨-, offset, exitEq⟩
  · rw [completed] at exitEq
    have verdictEq : e.verdict = .completed := by
      cases verdict : e.verdict with
      | completed => rfl
      | aborted _ _ | miscounted _ _ _ _ | undefined _ =>
          rw [verdict] at exitEq
          cases exitEq
    have completes : (i.evaluator config g).Completes schedule sink ⟨i.values, world⟩ e :=
      ⟨linked.symbols, linked.values, covers, linked.provides world, evaluated, verdictEq⟩
    rw [memoryEq, callsEq, ← verdictEq]
    exact completes.solves
  · rw [completed] at exitEq
    cases exitEq

/-- The first frame of the sample. -/
theorem completed_frame_of_sample :
    (Sample.compiled.execute ()).exit = .halted ∧
      ∃ sink, Sample.graph.presentNode = .ok sink ∧
        (Sample.compiled.evaluator Sample.config Sample.graph).Solves sink
          ⟨Sample.compiled.values, ()⟩
          ⟨.completed, Sample.compiled.calls (), (Sample.compiled.execute ()).memory⟩ := by
  have completed : (Sample.compiled.execute ()).exit = .halted := by
    decide +kernel
  exact ⟨completed, completed_frame_solves Sample.neededValues_lt Sample.succeeds_compile
    (.refl _) () completed⟩

end FrameGraph
