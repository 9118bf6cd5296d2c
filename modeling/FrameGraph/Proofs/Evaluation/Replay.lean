import FrameGraph.Proofs.Evaluation.Freshness
import FrameGraph.Proofs.Evaluation.Room
import FrameGraph.Proofs.Instance.Reachable

/-!
# Evaluating again

A completed evaluation is compared with another one over the same slots.  A node that
reads the cells that the completed evaluation has left for it, and whose operation gives
what it gave then, writes the same cells again.  So a frame that follows a completed one
changes nothing when the outputs of operations depend on their inputs only.
-/

namespace FrameGraph

variable {ω : Type}

/-! ## Calls and what they depend on -/

/-- What a task does with inputs in a world. -/
def Task.outcome (t : Task ω) (world : ω) (inputs : List Cell) : Work.Outcome (Bool × ω) :=
  (t.operation.execute t.target world).run inputs []

namespace Tables

variable {σ : Nat → Type}

/-- In this world the operations give this call. -/
def Gives (tables : Tables ω) (world : ω) (call : Call) : Prop :=
  ∃ task, tables.tasks[call.operation]? = some task ∧
    call.outputs = (task.outcome world call.inputs).outputs.reverse ∧
    call.goesOn = (task.outcome world call.inputs).answer.1

/-- The outputs of every operation depend on its inputs only. -/
def OutputsByInputs (tables : Tables ω) : Prop :=
  ∀ task ∈ tables.tasks, ∀ world other inputs,
    (task.outcome world inputs).outputs = (task.outcome other inputs).outputs

/-- Every operation has a part of the world that no other operation changes. -/
def Separates (tables : Tables ω) (part : ∀ index, ω → σ index) : Prop :=
  ∀ index task, tables.tasks[index]? = some task → ∀ world inputs other, other ≠ index →
    part other (task.outcome world inputs).answer.2 = part other world

theorem Gives.outputs_eq {tables : Tables ω} {world otherWorld : ω} {call other : Call}
    (given : tables.Gives world call) (otherGiven : tables.Gives otherWorld other)
    (byInputs : tables.OutputsByInputs) (operationEq : call.operation = other.operation)
    (inputsEq : call.inputs = other.inputs) : call.outputs = other.outputs := by
  obtain ⟨task, taskEq, outputs, -⟩ := given
  obtain ⟨otherTask, otherTaskEq, otherOutputs, -⟩ := otherGiven
  obtain rfl : task = otherTask :=
    Option.some.inj (taskEq.symm.trans (operationEq ▸ otherTaskEq))
  rw [outputs, otherOutputs, inputsEq,
    byInputs task (Array.mem_of_getElem? taskEq) world otherWorld]

end Tables

namespace Evaluator

variable {v : Evaluator ω} {memory before : Memory ω} {n : NodeId} {e next : Evaluation ω}
  {schedule : Schedule} {sink : NodeId} {σ : Nat → Type} {part : ∀ index, ω → σ index}

/-! ## Visits of passes -/

/-- How the evaluation of a pass ends with a call, in the memory behind the call. -/
def conclude (v : Evaluator ω) (n : NodeId) (call : Call) (memory : Memory ω) :
    Evaluation ω :=
  if !call.goesOn then ⟨.aborted n call.operation, [call], memory⟩
  else if call.outputs.length ≠ v.graph.neededPorts n then
    ⟨.miscounted n call.operation (v.graph.neededPorts n) call.outputs.length, [call],
      memory⟩
  else ⟨.completed, [call], v.write memory n call.outputs⟩

theorem conclude_of_fits {call : Call} (goesOn : call.goesOn = true)
    (countsEq : call.outputs.length = v.graph.neededPorts n) :
    v.conclude n call memory = ⟨.completed, [call], v.write memory n call.outputs⟩ := by
  unfold conclude
  rw [goesOn, if_neg (by simp), if_neg (not_not_intro countsEq)]

theorem values_conclude {call : Call}
    (stops : (v.conclude n call memory).verdict ≠ .completed) :
    (v.conclude n call memory).memory.values = memory.values := by
  unfold conclude at stops ⊢
  split
  · rfl
  · split
    · rfl
    · simp_all

theorem world_conclude (call : Call) :
    (v.conclude n call memory).memory.world = memory.world := by
  unfold conclude
  split
  · rfl
  · split <;> rfl

theorem calls_conclude (call : Call) : (v.conclude n call memory).calls = [call] := by
  unfold conclude
  split
  · rfl
  · split <;> rfl

/-- A pass calls its operation on the inputs that it reads, in the world that it finds. -/
theorem exists_task_of_visitPass (visited : v.visitPass memory n = some e) :
    ∃ inputs task call, v.inputs? memory n = some inputs ∧
      (v.symbols.slotsOf n).operation = some call.operation ∧
      v.tables.tasks[call.operation]? = some task ∧ call.inputs = inputs.reverse ∧
      v.tables.Gives memory.world call ∧
      e = v.conclude n call
        { memory with world := (task.outcome memory.world call.inputs).answer.2 } := by
  unfold visitPass at visited
  obtain ⟨operation, operationEq, visited⟩ := Option.bind_eq_some_iff.mp visited
  obtain ⟨task, taskEq, visited⟩ := Option.bind_eq_some_iff.mp visited
  obtain ⟨inputs, inputsEq, visited⟩ := Option.bind_eq_some_iff.mp visited
  let outcome := task.outcome memory.world inputs.reverse
  let call : Call := ⟨operation, inputs.reverse, outcome.outputs.reverse, outcome.answer.1⟩
  have concluded : some (v.conclude n call { memory with world := outcome.answer.2 }) =
      some e := by
    unfold conclude
    rw [apply_ite some, apply_ite some]
    exact visited
  exact ⟨inputs, task, call, inputsEq, operationEq, taskEq, rfl, ⟨task, taskEq, rfl, rfl⟩,
    (Option.some.inj concluded).symm⟩

/-- Every call of a visit is given in the world that the visit finds. -/
theorem gives_of_visit (visited : v.visit memory n = some e) {call : Call}
    (member : call ∈ e.calls) : v.tables.Gives memory.world call := by
  unfold visit at visited
  split at visited
  · obtain ⟨operands, -, ⟨c, -, rfl⟩ | ⟨-, rfl⟩⟩ := visitOperator_eq_some visited
    · cases member
    · cases member
  · obtain ⟨inputs, task, own, -, -, -, -, given, rfl⟩ := exists_task_of_visitPass visited
    rw [calls_conclude, List.mem_singleton] at member
    exact member ▸ given
  all_goals
    cases visited
    cases member

/-- A visit changes the world only in the part of its own operation. -/
theorem part_of_visit (separates : v.tables.Separates part)
    (visited : v.visit memory n = some e) {index : Nat}
    (foreign : (v.symbols.slotsOf n).operation ≠ some index) :
    part index e.memory.world = part index memory.world := by
  unfold visit at visited
  split at visited
  · obtain ⟨operands, -, ⟨c, -, rfl⟩ | ⟨-, rfl⟩⟩ := visitOperator_eq_some visited
    · rfl
    · rfl
  · obtain ⟨inputs, task, call, -, operationEq, taskEq, -, -, rfl⟩ :=
      exists_task_of_visitPass visited
    rw [world_conclude]
    refine separates call.operation task taskEq memory.world call.inputs index ?_
    rintro rfl
    exact foreign operationEq
  all_goals
    cases visited
    rfl

/-- Every call is given in a world in which the operation still finds its own part as it
was at the start, since every operation is called once at most. -/
theorem gives_of_run {order : List NodeId} (separates : v.tables.Separates part)
    (sound : v.symbols.Sound) (nodup : order.Nodup) (ran : v.run memory order = some e)
    {call : Call} (member : call ∈ e.calls) :
    ∃ world, v.tables.Gives world call ∧
      part call.operation world = part call.operation memory.world := by
  induction order generalizing memory e with
  | nil =>
      cases ran
      cases member
  | cons n rest inductionHypothesis =>
      obtain ⟨notLater, restNodup⟩ := List.nodup_cons.mp nodup
      obtain ⟨first, visited, outcome⟩ := run_cons_eq_some ran
      rcases outcome with ⟨-, others, restRan, rfl⟩ | ⟨-, rfl⟩
      · rcases List.mem_append.mp member with here | later
        · exact ⟨memory.world, gives_of_visit visited here, rfl⟩
        · obtain ⟨world, given, partEq⟩ := inductionHypothesis restNodup restRan later
          obtain ⟨m, mMember, -, mOperation⟩ := operation_of_run restRan later
          refine ⟨world, given, partEq.trans (part_of_visit separates visited ?_)⟩
          intro nOperation
          rw [sound.operations_apart m n _ mOperation nOperation] at mMember
          exact notLater mMember
      · exact ⟨memory.world, gives_of_visit visited member, rfl⟩

/-! ## Visiting a node again -/

/-- A visit that does not complete writes nothing. -/
theorem values_of_stopped (visited : v.visit memory n = some e)
    (stops : e.verdict ≠ .completed) : e.memory.values = memory.values := by
  unfold visit at visited
  split at visited
  · obtain ⟨operands, -, ⟨c, -, rfl⟩ | ⟨-, rfl⟩⟩ := visitOperator_eq_some visited
    · exact absurd rfl stops
    · rfl
  · obtain ⟨inputs, task, call, -, -, -, -, -, rfl⟩ := exists_task_of_visitPass visited
    rw [values_conclude stops]
  all_goals
    cases visited
    rfl

section Revisit

variable (completes : v.Completes schedule sink memory e)
  (member : n ∈ schedule.evaluationOrder)
  (sizeEq : before.values.size = v.symbols.valueCount)
  (readsSame : ∀ cells, v.inputs? e.memory n = some cells → v.inputs? before n = some cells)

include completes member sizeEq readsSame

theorem Completes.revisit_operator {op : Operator}
    (kind : v.graph.kind? n = some (.operator op)) (frugal : v.symbols.Frugal v.graph)
    (visited : v.visitOperator before n op = some next) :
    next.verdict = .completed ∧ ∀ slot, v.symbols.Owns n slot →
      next.memory.values[slot]? = e.memory.values[slot]? := by
  have provides := completes.provides n member
  simp only [Provides, kind] at provides
  obtain ⟨operands, c, inputsEq, evalEq, slotEq⟩ := completes.operator member kind
  obtain ⟨otherOperands, otherInputsEq, outcome⟩ := visitOperator_eq_some visited
  obtain rfl : otherOperands = operands :=
    Option.some.inj (otherInputsEq.symm.trans (readsSame operands inputsEq))
  rw [evalEq] at outcome
  rcases outcome with ⟨d, valueEq, rfl⟩ | ⟨undefined, -⟩
  · cases valueEq
    refine ⟨rfl, fun slot owns => ?_⟩
    obtain ⟨-, written⟩ :=
      getElem?_write_add completes.symbols sizeEq [c] provides.2 0 Nat.zero_lt_one
    have isStart : slot = (v.symbols.slotsOf n).start :=
      frugal.eq_start_of_owns (by simp [kind]) (Graph.outputCount_of_operator kind) owns
    rw [isStart, slotEq]
    exact written
  · cases undefined

/-- A pass is called again on the same inputs.  When it gives the same outputs, it only
depends on its answer whether the visit completes. -/
theorem Completes.revisit_pass (kind : v.graph.kind? n = some .pass)
    (visited : v.visitPass before n = some next) :
    ∃ again call, next.calls = [again] ∧ call ∈ e.calls ∧
      again.operation = call.operation ∧ again.inputs = call.inputs ∧ call.goesOn = true ∧
      (again.outputs = call.outputs →
        (again.goesOn = true → next.verdict = .completed) ∧
        (next.verdict = .completed → ∀ slot, v.symbols.Owns n slot →
          next.memory.values[slot]? = e.memory.values[slot]?)) := by
  have provides := completes.provides n member
  simp only [Provides, kind] at provides
  obtain ⟨inputs, call, inputsEq, operationEq, filterEq, callInputs, goesOn, countsEq,
    slotsEq⟩ := completes.pass member kind
  obtain ⟨otherInputs, task, again, otherInputsEq, againOperation, -, againInputs, -, rfl⟩ :=
    exists_task_of_visitPass visited
  obtain rfl : otherInputs = inputs :=
    Option.some.inj (otherInputsEq.symm.trans (readsSame inputs inputsEq))
  have callMember : call ∈ e.calls := by
    have inFilter : call ∈ [call] := List.mem_singleton_self call
    rw [← filterEq] at inFilter
    exact (List.mem_filter.mp inFilter).1
  have sameOperation : again.operation = call.operation :=
    Option.some.inj (againOperation.symm.trans operationEq)
  refine ⟨again, call, calls_conclude again, callMember, sameOperation,
    againInputs.trans callInputs.symm, goesOn, fun sameOutputs => ⟨fun againGoesOn => ?_, ?_⟩⟩
  · rw [conclude_of_fits againGoesOn (sameOutputs ▸ countsEq)]
  · intro completed slot owns
    have againGoesOn : again.goesOn = true := by
      cases answer : again.goesOn with
      | true => rfl
      | false => simp [conclude, answer] at completed
    rw [conclude_of_fits againGoesOn (sameOutputs ▸ countsEq)]
    obtain ⟨port, inside, rfl⟩ := owns.exists_port
    rw [provides, ← countsEq] at inside
    let after : Memory ω :=
      { before with world := (task.outcome before.world again.inputs).answer.2 }
    have afterSize : after.values.size = v.symbols.valueCount := sizeEq
    obtain ⟨-, written⟩ := getElem?_write_add completes.symbols afterSize call.outputs
      (Nat.le_of_eq (countsEq.trans provides.symm)) port inside
    rw [sameOutputs, slotsEq port inside]
    exact written

/-- A node that reads what it has read in a completed evaluation and whose operation gives
what it has given there leaves in its slots what it has left there. -/
theorem Completes.revisit (frugal : v.symbols.Frugal v.graph)
    (computed : v.graph.kind? n ≠ some .float)
    (visited : v.visit before n = some next)
    (outputsSame : ∀ call ∈ next.calls, ∀ other ∈ e.calls,
      call.operation = other.operation → call.inputs = other.inputs →
        call.outputs = other.outputs) :
    (next.verdict = .completed → ∀ slot, v.symbols.Owns n slot →
      next.memory.values[slot]? = e.memory.values[slot]?) ∧
    ((∀ call ∈ next.calls, ∀ other ∈ e.calls, call.operation = other.operation →
      call.inputs = other.inputs → call.goesOn = other.goesOn) →
        next.verdict = .completed) := by
  unfold visit at visited
  split at visited
  · next op kind =>
      obtain ⟨completed, restored⟩ :=
        completes.revisit_operator member sizeEq readsSame kind frugal visited
      exact ⟨fun _ => restored, fun _ => completed⟩
  · next kind =>
      obtain ⟨again, call, callsEq, callMember, sameOperation, sameInputs, goesOn, repeats⟩ :=
        completes.revisit_pass member sizeEq readsSame kind visited
      have againMember : again ∈ next.calls := by
        rw [callsEq]
        exact List.mem_singleton_self again
      obtain ⟨completed, restored⟩ :=
        repeats (outputsSame again againMember call callMember sameOperation sameInputs)
      refine ⟨restored, fun answersSame => completed ?_⟩
      exact (answersSame again againMember call callMember sameOperation sameInputs).trans goesOn
  · next kind => exact absurd kind computed
  -- All other nodes own nothing that they could overwrite.
  all_goals
    next kind =>
      have noOutput : v.graph.outputCount n = 0 := by simp [Graph.outputCount, kind]
      cases visited
      refine ⟨fun _ slot owns => ?_, fun _ => rfl⟩
      exact absurd owns (frugal.not_owns (by simp [kind]) noOutput slot)

end Revisit

/-- Evaluation from the values that a completed evaluation has left keeps them, however it
ends, when the outputs of operations depend on their inputs only. -/
theorem Completes.values_of_run (completes : v.Completes schedule sink memory e)
    (frugal : v.symbols.Frugal v.graph) (byInputs : v.tables.OutputsByInputs)
    (valuesEq : before.values = e.memory.values)
    (ran : v.run before schedule.evaluationOrder = some next) :
    next.memory.values = e.memory.values := by
  have noPart : v.tables.Separates fun _ _ => () := fun _ _ _ _ _ _ _ => rfl
  refine relation_of_run
    (R := fun before after : Memory ω =>
      before.values = e.memory.values → after.values = e.memory.values)
    (fun _ same => same) (fun first second same => second (first same)) ?_ ran valuesEq
  intro n member now last visited same
  by_cases completed : last.verdict = .completed
  · have sizeEq : now.values.size = v.symbols.valueCount := by
      rw [same, size_of_run completes.ran, completes.values]
    have readsSame cells (inputsEq : v.inputs? e.memory n = some cells) :
        v.inputs? now n = some cells :=
      inputs?_of_kept inputsEq fun _ _ _ _ _ _ => by rw [same]
    apply Array.ext_getElem?
    intro slot
    -- The visit rewrites its own slots with what they hold and leaves all others alone.
    by_cases rewritten : v.symbols.Owns n slot ∧ v.graph.kind? n ≠ some .float
    · refine (completes.revisit member sizeEq readsSame frugal rewritten.2 visited ?_).1
        completed slot rewritten.1
      intro call callMember other otherMember
      obtain ⟨world, otherGiven, -⟩ := gives_of_run noPart completes.symbols
        completes.covers.nodup_evaluationOrder completes.ran otherMember
      exact (gives_of_visit visited callMember).outputs_eq otherGiven byInputs
    · rw [← same]
      by_cases isFloat : v.graph.kind? n = some .float
      · simp only [visit, isFloat] at visited
        cases visited
        rfl
      · refine getElem?_of_visit (completes.provides n member) ?_ visited
        exact fun owns => rewritten ⟨owns, isFloat⟩
  · rw [values_of_stopped visited completed, same]

end Evaluator

end FrameGraph
