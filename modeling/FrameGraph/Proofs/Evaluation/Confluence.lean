import FrameGraph.Proofs.Compiler.EdgeOrder
import FrameGraph.Proofs.Evaluation.Frames

/-!
# Evaluation in any order

Two schedules of one graph evaluate the same nodes, each after its producers.  If every
operation depends on its inputs and on a part of the world of its own, both evaluations
hand the same inputs to the same operations.  So one completes when the other does, with
the same value memory, although stops and traps may come at different nodes.
-/

namespace FrameGraph

variable {ω : Type}

namespace Tables

variable {σ : Nat → Type} {tables : Tables ω} {part : ∀ index, ω → σ index}

/-- Every operation is a function of its inputs and of a part of the world that no other
operation changes. -/
structure Independent (tables : Tables ω) (part : ∀ index, ω → σ index) : Prop where
  separates : tables.Separates part
  outcome : ∀ index task, tables.tasks[index]? = some task → ∀ world other inputs,
    part index world = part index other →
      (task.outcome world inputs).outputs = (task.outcome other inputs).outputs ∧
        (task.outcome world inputs).answer.1 = (task.outcome other inputs).answer.1

/-- The same operation on the same inputs, with its part of the world as it was, gives the
same call. -/
theorem Independent.call_eq (independent : tables.Independent part) {first second : ω}
    {call other : Call} (given : tables.Gives first call) (otherGiven : tables.Gives second other)
    (operationEq : call.operation = other.operation) (inputsEq : call.inputs = other.inputs)
    (partEq : part call.operation first = part call.operation second) :
    call.outputs = other.outputs ∧ call.goesOn = other.goesOn := by
  obtain ⟨task, taskEq, outputs, goesOn⟩ := given
  obtain ⟨otherTask, otherTaskEq, otherOutputs, otherGoesOn⟩ := otherGiven
  obtain rfl : task = otherTask :=
    Option.some.inj (taskEq.symm.trans (operationEq ▸ otherTaskEq))
  obtain ⟨outputsEq, answerEq⟩ :=
    independent.outcome call.operation task taskEq first second call.inputs partEq
  rw [outputs, otherOutputs, goesOn, otherGoesOn, ← inputsEq, outputsEq, answerEq]
  exact ⟨rfl, rfl⟩

end Tables

namespace Evaluator

variable {v : Evaluator ω} {memory before : Memory ω} {n : NodeId} {e last : Evaluation ω}
  {first second : Schedule} {sink : NodeId} {σ : Nat → Type} {part : ∀ index, ω → σ index}

/-! ## Completed evaluations in two orders -/

/-- A memory has the cells of another one in the slots of constants and of nodes that are
done. -/
def Recalls (v : Evaluator ω) (done : List NodeId) (final memory : Memory ω) : Prop :=
  ∀ p slot, v.graph.kind? p = some .float ∨ p ∈ done → v.symbols.Owns p slot →
    memory.values[slot]? = final.values[slot]?

/-- The producers of a scheduled node are done before it. -/
theorem producer_done (covers : second.Covers v.graph sink) {done rest : List NodeId}
    (orderEq : second.evaluationOrder = done ++ n :: rest) {edge : Edge}
    (incoming : edge ∈ v.graph.incoming n) {p : NodeId} (producer : v.Producer edge p) :
    p ∈ done := by
  obtain ⟨sourceDone, hopsDone⟩ := covers.sources_done orderEq incoming
  rcases producer with rfl | ⟨hop, hopIncoming, rfl⟩
  · exact sourceDone
  · exact hopsDone hop hopIncoming

/-- A visit that restores the slots of its node keeps the cells of all nodes before it. -/
theorem Recalls.of_visit {done : List NodeId} {final : Memory ω} (sound : v.symbols.Sound)
    (provides : v.Provides n) (recalls : v.Recalls done final before)
    (visited : v.visit before n = some last)
    (restored : ∀ slot, v.symbols.Owns n slot →
      last.memory.values[slot]? = final.values[slot]?) :
    v.Recalls (done ++ [n]) final last.memory := by
  intro p slot own owns
  by_cases same : p = n
  · exact restored slot (same ▸ owns)
  · have kept : last.memory.values[slot]? = before.values[slot]? := by
      refine getElem?_of_visit provides (fun nOwns => same ?_) visited
      exact sound.owner_unique owns nOwns
    rw [kept]
    apply recalls p slot ?_ owns
    exact own.imp_right fun isDone => (List.mem_append.mp isDone).resolve_right fun here =>
      same (List.mem_singleton.mp here)

section Again

variable (completes : v.Completes first sink memory e)
  (frugal : v.symbols.Frugal v.graph) (covers : second.Covers v.graph sink)

include completes frugal covers

/-- One more node of another order recalls what the completed evaluation has left. -/
theorem Completes.recalls_of_visit {done rest : List NodeId}
    (orderEq : second.evaluationOrder = done ++ n :: rest)
    (recalls : v.Recalls done e.memory before)
    (sizeEq : before.values.size = v.symbols.valueCount)
    (visited : v.visit before n = some last)
    (callsSame : ∀ call ∈ last.calls, ∀ other ∈ e.calls, call.operation = other.operation →
      call.inputs = other.inputs →
        call.outputs = other.outputs ∧ call.goesOn = other.goesOn) :
    last.verdict = .completed ∧ v.Recalls (done ++ [n]) e.memory last.memory := by
  have scheduled : n ∈ second.evaluationOrder := by simp [orderEq]
  have member : n ∈ first.evaluationOrder :=
    completes.covers.mem_evaluationOrder.mpr (covers.mem_evaluationOrder.mp scheduled)
  have keeps := recalls.of_visit completes.symbols (completes.provides n member) visited
  by_cases isFloat : v.graph.kind? n = some .float
  · -- A constant computes nothing, and its slot is recalled from the start.
    simp only [visit, isFloat] at visited
    cases visited
    exact ⟨rfl, keeps fun slot owns => recalls n slot (Or.inl isFloat) owns⟩
  · have readsSame cells (inputsEq : v.inputs? e.memory n = some cells) :
        v.inputs? before n = some cells := by
      refine inputs?_of_kept inputsEq fun edge incoming p slot producer owns => ?_
      exact recalls p slot (Or.inr (producer_done covers orderEq incoming producer)) owns
    obtain ⟨restored, completed⟩ := completes.revisit member sizeEq readsSame frugal isFloat
      visited fun call callMember other otherMember operationEq inputsEq =>
        (callsSame call callMember other otherMember operationEq inputsEq).1
    have doneAgain := completed fun call callMember other otherMember operationEq inputsEq =>
      (callsSame call callMember other otherMember operationEq inputsEq).2
    exact ⟨doneAgain, keeps (restored doneAgain)⟩

/-- An evaluation in another order that makes the same calls completes as well, and leaves
the same cells in the slots of all its nodes. -/
theorem Completes.recalls_of_run {done rest : List NodeId}
    (orderEq : second.evaluationOrder = done ++ rest)
    (recalls : v.Recalls done e.memory before)
    (sizeEq : before.values.size = v.symbols.valueCount)
    (ran : v.run before rest = some last)
    (callsSame : ∀ call ∈ last.calls, ∀ other ∈ e.calls, call.operation = other.operation →
      call.inputs = other.inputs →
        call.outputs = other.outputs ∧ call.goesOn = other.goesOn) :
    last.verdict = .completed ∧ v.Recalls second.evaluationOrder e.memory last.memory := by
  induction rest generalizing done before last with
  | nil =>
      cases ran
      rw [orderEq, List.append_nil]
      exact ⟨rfl, recalls⟩
  | cons n rest inductionHypothesis =>
      obtain ⟨here, visited, outcome⟩ := run_cons_eq_some ran
      have laterEq : second.evaluationOrder = (done ++ [n]) ++ rest := by simp [orderEq]
      rcases outcome with ⟨-, others, restRan, rfl⟩ | ⟨stopped, rfl⟩
      · obtain ⟨-, recallsHere⟩ := completes.recalls_of_visit frugal covers orderEq recalls
          sizeEq visited fun call member => callsSame call (List.mem_append_left _ member)
        have later := inductionHypothesis laterEq recallsHere
          ((size_of_visit visited).trans sizeEq) restRan
          fun call member => callsSame call (List.mem_append_right _ member)
        exact later
      · obtain ⟨completed, -⟩ := completes.recalls_of_visit frugal covers orderEq recalls
          sizeEq visited callsSame
        exact absurd completed stopped

omit frugal in
/-- An operation that is called with the same inputs in both orders gives the same, since it
finds its part of the world as it was at the start. -/
theorem Completes.calls_agree (independent : v.tables.Independent part)
    (partsEq : ∀ index, part index before.world = part index memory.world)
    (ran : v.run before second.evaluationOrder = some last) {call other : Call}
    (member : call ∈ last.calls) (otherMember : other ∈ e.calls)
    (operationEq : call.operation = other.operation) (inputsEq : call.inputs = other.inputs) :
    call.outputs = other.outputs ∧ call.goesOn = other.goesOn := by
  obtain ⟨world, given, partEq⟩ := gives_of_run independent.separates completes.symbols
    covers.nodup_evaluationOrder ran member
  obtain ⟨otherWorld, otherGiven, otherPartEq⟩ := gives_of_run independent.separates
    completes.symbols completes.covers.nodup_evaluationOrder completes.ran otherMember
  apply independent.call_eq given otherGiven operationEq inputsEq
  rw [partEq, partsEq, operationEq, otherPartEq]

/-- Evaluations in two orders, from the same values and with operations that find their
parts of the world as they were, complete together and leave the same values. -/
theorem Completes.confluent (independent : v.tables.Independent part)
    (valuesEq : before.values = memory.values)
    (partsEq : ∀ index, part index before.world = part index memory.world)
    (ran : v.run before second.evaluationOrder = some last) :
    last.verdict = .completed ∧ last.memory.values = e.memory.values := by
  have sizeEq : before.values.size = v.symbols.valueCount := by
    rw [valuesEq, completes.values]
  have constants : v.Recalls [] e.memory before := by
    rintro p slot (isFloat | absent) owns
    · rw [valuesEq]
      exact (completes.unchanged (Or.inl isFloat) owns).symm
    · exact absurd absent List.not_mem_nil
  obtain ⟨completed, recalls⟩ := completes.recalls_of_run frugal covers
    (List.nil_append _).symm constants sizeEq ran fun call member other otherMember =>
      completes.calls_agree covers independent partsEq ran member otherMember
  have scheduledBoth (n : NodeId) :
      n ∈ second.evaluationOrder ↔ n ∈ first.evaluationOrder := by
    rw [covers.mem_evaluationOrder, completes.covers.mem_evaluationOrder]
  refine ⟨completed, ?_⟩
  apply Array.ext_getElem?
  intro slot
  by_cases owned : ∃ p ∈ second.evaluationOrder, v.symbols.Owns p slot
  · obtain ⟨p, member, owns⟩ := owned
    exact recalls p slot (Or.inr member) owns
  · -- No visit of either evaluation writes a slot without a scheduled owner.
    have foreign : ∀ n ∈ second.evaluationOrder, ¬ v.symbols.Owns n slot :=
      fun n member owns => owned ⟨n, member, owns⟩
    have kept := getElem?_of_run
      (fun n member => completes.provides n ((scheduledBoth n).mp member)) foreign ran
    have keptFirst := getElem?_of_run completes.provides
      (fun n member => foreign n ((scheduledBoth n).mpr member)) completes.ran
    rw [kept, keptFirst, valuesEq]

end Again

/-! ## Evaluators over rearranged graphs -/

section Rearranged

variable {g h : Graph} {symbols : Symbols} {defaultMode : NumericMode} {tables : Tables ω}
  (rearranged : h.Rearranges g)

include rearranged

theorem read?_of_rearranged (memory : Memory ω) {edge other : Edge}
    (same : edge.wiring = other.wiring) :
    read? ⟨h, symbols, defaultMode, tables⟩ memory edge =
      read? ⟨g, symbols, defaultMode, tables⟩ memory other := by
  have outputSame {hop otherHop : Edge} (sameHop : hop.wiring = otherHop.wiring) :
      output? ⟨h, symbols, defaultMode, tables⟩ memory hop =
        output? ⟨g, symbols, defaultMode, tables⟩ memory otherHop := by
    simp only [output?, Edge.source_eq_of_wiring sameHop, Edge.sourcePort_eq_of_wiring sameHop]
  simp only [read?, rearranged.kind?, Edge.source_eq_of_wiring same, outputSame same]
  rcases rearranged.incoming_cases other.source with
    ⟨here, there⟩ | ⟨hop, otherHop, here, there, sameHop⟩ | ⟨_, _, _, _, _, _, here, there⟩
  · simp only [here, there]
  · simp only [here, there, outputSame sameHop]
  · simp only [here, there]

theorem mapM_read?_of_rearranged (memory : Memory ω) {edges others : List Edge}
    (same : edges.map Edge.wiring = others.map Edge.wiring) :
    edges.mapM (read? ⟨h, symbols, defaultMode, tables⟩ memory) =
      others.mapM (read? ⟨g, symbols, defaultMode, tables⟩ memory) := by
  induction edges generalizing others with
  | nil =>
      obtain rfl := List.map_eq_nil_iff.mp same.symm
      rfl
  | cons edge rest inductionHypothesis =>
      obtain ⟨other, otherRest, rfl, sameHere, sameRest⟩ := List.map_eq_cons_iff.mp same.symm
      rw [List.mapM_cons, List.mapM_cons, read?_of_rearranged rearranged memory sameHere.symm,
        inductionHypothesis sameRest.symm]

/-- A node that has code is evaluated in the same way. -/
theorem visit_of_rearranged {code : List Instruction}
    (success : Emitter.nodeCode ⟨g, symbols, defaultMode⟩ n = .ok code) (memory : Memory ω) :
    visit ⟨h, symbols, defaultMode, tables⟩ memory n =
      visit ⟨g, symbols, defaultMode, tables⟩ memory n := by
  have inputsSame {edges : List Edge} (edgesEq : g.inputs n = .ok edges) :
      inputs? ⟨h, symbols, defaultMode, tables⟩ memory n =
        inputs? ⟨g, symbols, defaultMode, tables⟩ memory n := by
    obtain ⟨others, othersEq, same⟩ := Graph.inputs_of_perm (rearranged.incoming n) edgesEq
    unfold inputs?
    rw [Graph.inputEdges?_of_inputs edgesEq, Graph.inputEdges?_of_inputs othersEq]
    exact mapM_read?_of_rearranged rearranged memory same
  unfold Emitter.nodeCode at success
  unfold visit
  rw [rearranged.kind?]
  cases kindEq : g.kind? n with
  | none => rfl
  | some kind =>
      simp only [kindEq] at success ⊢
      cases kind with
      | float | texture | present => rfl
      | operator op =>
          obtain ⟨edges, edgesEq, -⟩ := bind_eq_ok_iff.mp success
          simp only [visitOperator, inputsSame edgesEq, Evaluator.mode, rearranged.metadata?]
          rfl
      | pass =>
          obtain ⟨edges, edgesEq, -⟩ := bind_eq_ok_iff.mp success
          simp only [visitPass, inputsSame edgesEq, rearranged.neededPorts]
          rfl

theorem run_of_rearranged {order : List NodeId} {code : List Instruction}
    (success : Emitter.code ⟨g, symbols, defaultMode⟩ order = .ok code) (memory : Memory ω) :
    run ⟨h, symbols, defaultMode, tables⟩ memory order =
      run ⟨g, symbols, defaultMode, tables⟩ memory order := by
  induction order generalizing memory code with
  | nil => rfl
  | cons n rest inductionHypothesis =>
      obtain ⟨first, firstEmitted, success⟩ := bind_eq_ok_iff.mp success
      obtain ⟨others, othersEmitted, -⟩ := bind_eq_ok_iff.mp success
      simp only [run, visit_of_rearranged rearranged firstEmitted,
        inductionHypothesis othersEmitted]

end Rearranged

end Evaluator

/-! ## Frames of rearranged graphs -/

namespace Instance

variable {config : Config} {g h : Graph} {first second : Schedule} {sink : NodeId}
  {i j : Instance ω} {σ : Nat → Type} {part : ∀ index, ω → σ index}

/-- When a frame completes, a frame of an instance of the rearranged graph that starts with
the same values, the same tables and the same parts of the world completes as well, with
the same values at its end. -/
theorem Linked.confluent (linked : i.Linked config g first) (covers : first.Covers g sink)
    (otherLinked : j.Linked config h second) (otherCovers : second.Covers h sink)
    (rearranged : h.Rearranges g) (frugal : i.symbols.Frugal g)
    (sameSymbols : j.symbols = i.symbols) (sameValues : j.values = i.values)
    (sameTables : j.tables = i.tables) (independent : i.tables.Independent part)
    {world other : ω} (sameParts : ∀ index, part index other = part index world)
    (halted : (i.execute world).exit = .halted) :
    (j.execute other).exit = .halted ∧
      (j.execute other).after.values = (i.execute world).after.values := by
  obtain ⟨e, completes, memoryEq⟩ := linked.exists_completes covers halted
  have bothCover : second.Covers g sink := rearranged.symm.covers otherCovers
  have sameDemand (n : NodeId) : h.demand n = g.demand n := by
    simp only [Graph.demand, rearranged.kind?, rearranged.neededPorts,
      rearranged.length_incoming]
  -- The completed frame has had room for every node, and the demand of a node does not
  -- depend on the order of its edges.
  have room : ∀ n ∈ second.evaluationOrder, h.demand n ≤ config.stackLimit := by
    intro n member
    rw [sameDemand]
    exact linked.demand_le_of_halted covers.nodup_evaluationOrder halted n
      (covers.mem_evaluationOrder.mpr (bothCover.mem_evaluationOrder.mp member))
  obtain ⟨last, ran, exitEq, lastMemory⟩ :=
    otherLinked.exists_evaluation otherCovers.nodup_evaluationOrder room other
  obtain ⟨code, coded, -⟩ := otherLinked.code
  have sameRun : (i.evaluator config g).run ⟨j.values, other⟩ second.evaluationOrder =
      some last := by
    rw [← ran]
    unfold evaluator
    rw [← sameSymbols, ← sameTables]
    exact Evaluator.run_of_rearranged rearranged.symm coded _
  obtain ⟨completed, valuesEq⟩ :=
    completes.confluent frugal bothCover independent sameValues sameParts sameRun
  refine ⟨by rw [exitEq, completed]; rfl, ?_⟩
  have lastValues : (j.execute other).after.values = last.memory.values :=
    congrArg Memory.values lastMemory
  have firstValues : (i.execute world).after.values = e.memory.values :=
    congrArg Memory.values memoryEq
  rw [lastValues, firstValues, valuesEq]

/-- Frames of two compilations of one graph, with its edges in different orders, complete
together and leave the same values. -/
theorem frames_confluent {registry : Registry ω} {compiled other : Instance ω}
    {start after otherAfter first second : ω} (rearranged : h.Rearranges g)
    (word : g.neededValues < 2 ^ 64)
    (success : Build.Succeeds (compile registry config g) start compiled after)
    (otherSuccess : Build.Succeeds (compile registry config h) start other otherAfter)
    (symbolsEq : other.symbols = compiled.symbols)
    (iShape : i.SameShape compiled) (jShape : j.SameShape other)
    (sameValues : j.values = i.values) (sameTables : j.tables = i.tables)
    (independent : i.tables.Independent part)
    (sameParts : ∀ index, part index second = part index first) :
    ((i.execute first).exit = .halted ↔ (j.execute second).exit = .halted) ∧
      ((i.execute first).exit = .halted →
        (j.execute second).after.values = (i.execute first).after.values) := by
  obtain ⟨-, -, -, -, -, -, frugal, -⟩ := code_of_compile success
  obtain ⟨-, -, -, -, -, -, otherFrugal, -⟩ := code_of_compile otherSuccess
  obtain ⟨sink, schedule, present, -, covers, linked⟩ := iShape.linked word success
  obtain ⟨otherSink, otherSchedule, otherPresent, -, otherCovers, otherLinked⟩ :=
    jShape.linked (rearranged.neededValues ▸ word) otherSuccess
  obtain rfl : otherSink = sink := by
    rw [rearranged.presentNode, present] at otherPresent
    exact (Except.ok.inj otherPresent).symm
  have sameSymbols : j.symbols = i.symbols := by
    rw [jShape.symbols, symbolsEq, iShape.symbols]
  have iFrugal : i.symbols.Frugal g := iShape.symbols ▸ frugal
  have jFrugal : j.symbols.Frugal h := jShape.symbols ▸ otherFrugal
  have forward (halted : (i.execute first).exit = .halted) :=
    linked.confluent covers otherLinked otherCovers rearranged iFrugal sameSymbols
      sameValues sameTables independent sameParts halted
  have backward (halted : (j.execute second).exit = .halted) :=
    otherLinked.confluent otherCovers linked covers rearranged.symm jFrugal
      sameSymbols.symm sameValues.symm sameTables.symm (sameTables ▸ independent)
      (fun index => (sameParts index).symm) halted
  refine ⟨⟨?_, ?_⟩, ?_⟩
  · exact fun halted => (forward halted).1
  · exact fun halted => (backward halted).1
  · exact fun halted => (forward halted).2

end Instance

/-- The order in which edges were added does not change what a graph computes.  With any
order the graph is compiled or not, every node has the same slots, and the passes are the
same.  If the value slots fit a word, then frames that start with the same values, the
same tables and the same parts of the world for their operations complete together and
leave the same values. -/
theorem edge_order_is_irrelevant {g h : Graph} (rearranged : h.Rearranges g)
    (registry : Registry ω) (config : Config) (world : ω) :
    ((∃ compiled after, Build.Succeeds (compile registry config g) world compiled after) ↔
      ∃ compiled after, Build.Succeeds (compile registry config h) world compiled after) ∧
    ∀ compiled other after otherAfter,
      Build.Succeeds (compile registry config g) world compiled after →
      Build.Succeeds (compile registry config h) world other otherAfter →
        other.symbols = compiled.symbols ∧ other.values = compiled.values ∧
        other.tables = compiled.tables ∧ otherAfter = after ∧
        (g.neededValues < 2 ^ 64 → ∀ i j : Instance ω, i.SameShape compiled →
          j.SameShape other → j.values = i.values → j.tables = i.tables →
            ∀ (σ : Nat → Type) (part : ∀ index, ω → σ index), i.tables.Independent part →
              ∀ first second, (∀ index, part index second = part index first) →
                ((i.execute first).exit = .halted ↔ (j.execute second).exit = .halted) ∧
                ((i.execute first).exit = .halted →
                  (j.execute second).after.values = (i.execute first).after.values)) := by
  refine ⟨⟨?_, ?_⟩, ?_⟩
  · rintro ⟨compiled, after, success⟩
    obtain ⟨other, otherSuccess, -⟩ := rearranged.succeeds_compile success
    exact ⟨other, after, otherSuccess⟩
  · rintro ⟨compiled, after, success⟩
    obtain ⟨other, otherSuccess, -⟩ := rearranged.symm.succeeds_compile success
    exact ⟨other, after, otherSuccess⟩
  · intro compiled other after otherAfter success otherSuccess
    obtain ⟨again, againSuccess, symbolsEq, valuesEq, texturesEq, passesEq, -⟩ :=
      rearranged.succeeds_compile success
    have unique := againSuccess.symm.trans otherSuccess
    obtain ⟨sameInstance, sameWorld⟩ := Prod.mk.inj unique
    cases sameInstance
    cases sameWorld
    refine ⟨symbolsEq, valuesEq, ?_, rfl, ?_⟩
    · unfold Instance.tables
      rw [texturesEq, passesEq]
    · intro word i j iShape jShape sameValues sameTables σ part independent first second
        sameParts
      exact Instance.frames_confluent rearranged word success otherSuccess symbolsEq iShape
        jShape sameValues sameTables independent sameParts

namespace Sample

/-! ## Two counters -/

/-- Gives the first number of the world and counts it up. -/
def leftCounter : Operation (Nat × Nat) where
  execute _ world := .push (.ofNat world.1) (.done (true, (world.1 + 1, world.2)))

/-- Gives the second number of the world and counts it up. -/
def rightCounter : Operation (Nat × Nat) where
  execute _ world := .push (.ofNat world.2) (.done (true, (world.1, world.2 + 1)))

def counters : Registry (Nat × Nat) :=
  ⟨[("left", fun world => (leftCounter, world)), ("right", fun world => (rightCounter, world))]⟩

/-- Two passes that do not depend on each other, and their sum. -/
def fork : Graph where
  nodes := #[.pass "l" "left", .pass "r" "right", .operator "sum" (.numeric .add),
    .present "out"]
  edges := #[(⟨0⟩, .withPorts ⟨0⟩ 0 ⟨2⟩ 0), (⟨1⟩, .withPorts ⟨1⟩ 0 ⟨2⟩ 1),
    (⟨2⟩, .withPorts ⟨2⟩ 0 ⟨3⟩ 0)]

/-- The same graph with its edges added the other way around. -/
def crossed : Graph where
  nodes := fork.nodes
  edges := #[(⟨0⟩, .withPorts ⟨2⟩ 0 ⟨3⟩ 0), (⟨1⟩, .withPorts ⟨1⟩ 0 ⟨2⟩ 1),
    (⟨2⟩, .withPorts ⟨0⟩ 0 ⟨2⟩ 0)]

def counting : Config := { framebuffer := .internal, stackLimit := 2, defaultMode := .uint }

def forkCompiled : Instance (Nat × Nat) where
  program := ⟨#[80, 0, 0, 2, 0, 1, 80, 0, 1, 2, 0, 2, 1, 0, 1, 1, 0, 2, 16, 0, 2, 0, 0, 255],
    by decide⟩
  values := #[.zero, .zero, .zero]
  textures := #[]
  passes := #[⟨"l", ⟨leftCounter, ⟨0, 1⟩, {}⟩, none⟩, ⟨"r", ⟨rightCounter, ⟨0, 1⟩, {}⟩, none⟩]
  framebuffers := #[]
  defaultFramebuffer := .unbound
  symbols :=
    ⟨#["l", "r", "sum", "out"],
      #[⟨1, 2, none, some 0⟩, ⟨2, 3, none, some 1⟩, ⟨0, 1, none, none⟩, {}], 3, 0, 2⟩
  machine := { stackLimit := 2 }

/-- The right pass is called first. -/
def crossedCompiled : Instance (Nat × Nat) :=
  { forkCompiled with
    program := ⟨#[80, 0, 1, 2, 0, 2, 80, 0, 0, 2, 0, 1, 1, 0, 1, 1, 0, 2, 16, 0, 2, 0, 0, 255],
      by decide⟩ }

theorem succeeds_compile_fork (world : Nat × Nat) :
    Build.Succeeds (compile counters counting fork) world forkCompiled world :=
  Compiler.succeeds_compile_of_plan ⟨[⟨3⟩, ⟨2⟩, ⟨1⟩, ⟨0⟩], ⟨2⟩⟩ #[(⟨0⟩, 1), (⟨1⟩, 1)]
    (by decide +kernel) (by with_unfolding_all exact rfl) rfl rfl rfl rfl rfl

theorem succeeds_compile_crossed (world : Nat × Nat) :
    Build.Succeeds (compile counters counting crossed) world crossedCompiled world :=
  Compiler.succeeds_compile_of_plan ⟨[⟨3⟩, ⟨2⟩, ⟨0⟩, ⟨1⟩], ⟨2⟩⟩ #[(⟨0⟩, 1), (⟨1⟩, 1)]
    (by decide +kernel) (by with_unfolding_all exact rfl) rfl rfl rfl rfl rfl

theorem rearranges_crossed : crossed.Rearranges fork := .of_perm rfl (by decide)

/-- The number that a counter counts. -/
def counted (index : Nat) (world : Nat × Nat) : Nat :=
  match index with
  | 0 => world.1
  | 1 => world.2
  | _ => 0

theorem independent_counters : forkCompiled.tables.Independent counted := by
  have listed {index : Nat} {task : Task (Nat × Nat)}
      (found : forkCompiled.tables.tasks[index]? = some task) :
      index = 0 ∧ task = ⟨leftCounter, ⟨0, 1⟩, {}⟩ ∨
        index = 1 ∧ task = ⟨rightCounter, ⟨0, 1⟩, {}⟩ := by
    have tasksEq : forkCompiled.tables.tasks.toList =
        [⟨leftCounter, ⟨0, 1⟩, {}⟩, ⟨rightCounter, ⟨0, 1⟩, {}⟩] := by
      simp [forkCompiled, Instance.tables]
    rw [← Array.getElem?_toList, tasksEq] at found
    rcases index with _ | _ | k
    · exact Or.inl ⟨rfl, (Option.some.inj found).symm⟩
    · exact Or.inr ⟨rfl, (Option.some.inj found).symm⟩
    · cases found
  constructor
  · intro index task found world inputs other different
    rcases listed found with ⟨rfl, rfl⟩ | ⟨rfl, rfl⟩
    · rcases other with _ | _ | k
      · exact absurd rfl different
      · rfl
      · rfl
    · rcases other with _ | _ | k
      · rfl
      · exact absurd rfl different
      · rfl
  · intro index task found world other inputs same
    rcases listed found with ⟨rfl, rfl⟩ | ⟨rfl, rfl⟩
    · exact ⟨congrArg (fun count => [Cell.ofNat count]) same, rfl⟩
    · exact ⟨congrArg (fun count => [Cell.ofNat count]) same, rfl⟩

end Sample

theorem edge_order_is_irrelevant_for_fork :
    ((∃ compiled after, Build.Succeeds (compile Sample.counters Sample.counting Sample.fork)
        (0, 0) compiled after) ↔
      ∃ compiled after, Build.Succeeds (compile Sample.counters Sample.counting Sample.crossed)
        (0, 0) compiled after) ∧
    Sample.crossedCompiled.symbols = Sample.forkCompiled.symbols ∧
    ∀ first second, (∀ index, Sample.counted index second = Sample.counted index first) →
      ((Sample.forkCompiled.execute first).exit = .halted ↔
          (Sample.crossedCompiled.execute second).exit = .halted) ∧
        ((Sample.forkCompiled.execute first).exit = .halted →
          (Sample.crossedCompiled.execute second).after.values =
            (Sample.forkCompiled.execute first).after.values) := by
  obtain ⟨together, instances⟩ := edge_order_is_irrelevant Sample.rearranges_crossed
    Sample.counters Sample.counting (0, 0)
  obtain ⟨symbolsEq, -, -, -, frames⟩ := instances _ _ _ _ (Sample.succeeds_compile_fork (0, 0))
    (Sample.succeeds_compile_crossed (0, 0))
  exact ⟨together, symbolsEq, frames (by decide) _ _ (.refl _) (.refl _) rfl rfl _ Sample.counted
    Sample.independent_counters⟩

end FrameGraph
