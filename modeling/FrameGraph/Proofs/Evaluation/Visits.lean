import FrameGraph.Proofs.Evaluation.Basic

/-!
# Visits

What evaluating a node reads, writes and calls, and what the evaluation of nodes in
order keeps from this: the number of value slots, the slots that belong to other nodes,
and who made which call.
-/

namespace FrameGraph

variable {ω : Type}

/-- A value slot belongs to a node. -/
def Symbols.Owns (s : Symbols) (n : NodeId) (slot : Nat) : Prop :=
  (s.slotsOf n).start ≤ slot ∧ slot < (s.slotsOf n).stop

/-- No slot has two owners. -/
theorem Symbols.Sound.owner_unique {s : Symbols} (sound : s.Sound) {n other : NodeId}
    {slot : Nat} (owns : s.Owns n slot) (otherOwns : s.Owns other slot) : n = other :=
  sound.values_apart n other slot owns.1 owns.2 otherOwns.1 otherOwns.2

theorem Symbols.Owns.exists_port {s : Symbols} {n : NodeId} {slot : Nat}
    (owns : s.Owns n slot) :
    ∃ port, port < (s.slotsOf n).count ∧ slot = (s.slotsOf n).start + port := by
  obtain ⟨low, high⟩ := owns
  refine ⟨slot - (s.slotsOf n).start, ?_, by omega⟩
  rw [Slots.count]
  omega

namespace Evaluator

variable {v : Evaluator ω} {memory : Memory ω} {n : NodeId} {e : Evaluation ω}

/-- A node has the inputs and the slots that its kind needs. -/
def Provides (v : Evaluator ω) (n : NodeId) : Prop :=
  match v.graph.kind? n with
  | some (.operator op) =>
    (v.graph.incoming n).length = op.arity ∧ 0 < (v.symbols.slotsOf n).count
  | some .pass => (v.symbols.slotsOf n).count = v.graph.neededPorts n
  | some .float | some .texture | some .present | none => True

/-! ## Inputs -/

theorem length_of_inputs? {cells : List Cell} (inputsEq : v.inputs? memory n = some cells) :
    cells.length = (v.graph.incoming n).length := by
  obtain ⟨edges, edgesEq, readEq⟩ := Option.bind_eq_some_iff.mp inputsEq
  have edgesLength := congrArg List.length (mapM_eq_some_iff.mp edgesEq)
  have cellsLength := congrArg List.length (mapM_eq_some_iff.mp readEq)
  simp only [List.length_map, List.length_range] at edgesLength cellsLength
  exact cellsLength.symm.trans edgesLength.symm

/-! ## Operators and passes -/

theorem visitOperator_eq_some {op : Operator}
    (visited : v.visitOperator memory n op = some e) :
    ∃ operands, v.inputs? memory n = some operands ∧
      ((∃ c, op.eval? (v.mode n) operands = some c ∧
          e = ⟨.completed, [], v.write memory n [c]⟩) ∨
        op.eval? (v.mode n) operands = none ∧ e = ⟨.undefined n, [], memory⟩) := by
  unfold visitOperator at visited
  obtain ⟨operands, inputsEq, visited⟩ := Option.bind_eq_some_iff.mp visited
  cases visited
  refine ⟨operands, inputsEq, ?_⟩
  cases op.eval? (v.mode n) operands with
  | none => exact Or.inr ⟨rfl, rfl⟩
  | some c => exact Or.inl ⟨c, rfl, rfl⟩

theorem visitPass_eq_some (visited : v.visitPass memory n = some e) :
    ∃ inputs call world, v.inputs? memory n = some inputs ∧
      (v.symbols.slotsOf n).operation = some call.operation ∧
      call.inputs = inputs.reverse ∧
      (call.goesOn = false ∧
          e = ⟨.aborted n call.operation, [call], { memory with world := world }⟩ ∨
        call.goesOn = true ∧ call.outputs.length ≠ v.graph.neededPorts n ∧
          e = ⟨.miscounted n call.operation (v.graph.neededPorts n) call.outputs.length,
            [call], { memory with world := world }⟩ ∨
        call.goesOn = true ∧ call.outputs.length = v.graph.neededPorts n ∧
          e = ⟨.completed, [call], v.write { memory with world := world } n
            call.outputs⟩) := by
  unfold visitPass at visited
  obtain ⟨operation, operationEq, visited⟩ := Option.bind_eq_some_iff.mp visited
  obtain ⟨task, taskEq, visited⟩ := Option.bind_eq_some_iff.mp visited
  obtain ⟨inputs, inputsEq, visited⟩ := Option.bind_eq_some_iff.mp visited
  obtain ⟨⟨⟨goesOn, world⟩, unread, outputs⟩, resultEq⟩ : ∃ result,
    (task.operation.execute task.target memory.world).run inputs.reverse [] = result :=
      ⟨_, rfl⟩
  simp only [resultEq] at visited
  refine ⟨inputs, ⟨operation, inputs.reverse, outputs.reverse, goesOn⟩, world, inputsEq,
    operationEq, rfl, ?_⟩
  cases goesOn with
  | false =>
      cases visited
      exact Or.inl ⟨rfl, rfl⟩
  | true =>
      simp only [Bool.not_true, Bool.false_eq_true, if_false] at visited
      by_cases countsEq : outputs.reverse.length = v.graph.neededPorts n
      · rw [if_neg (not_not_intro countsEq)] at visited
        cases visited
        exact Or.inr (Or.inr ⟨rfl, countsEq, rfl⟩)
      · rw [if_pos countsEq] at visited
        cases visited
        exact Or.inr (Or.inl ⟨rfl, countsEq, rfl⟩)

/-! ## One node -/

@[simp]
theorem size_write (memory : Memory ω) (n : NodeId) (outputs : List Cell) :
    (v.write memory n outputs).values.size = memory.values.size :=
  size_writeSlots _ _ _

/-- Evaluating a node neither adds nor removes value slots. -/
theorem size_of_visit (visited : v.visit memory n = some e) :
    e.memory.values.size = memory.values.size := by
  unfold visit at visited
  split at visited
  · obtain ⟨operands, -, ⟨c, -, rfl⟩ | ⟨-, rfl⟩⟩ := visitOperator_eq_some visited
    · exact size_write memory n [c]
    · rfl
  · obtain ⟨inputs, call, world, -, -, -, ⟨-, rfl⟩ | ⟨-, -, rfl⟩ | ⟨-, -, rfl⟩⟩ :=
      visitPass_eq_some visited
    · rfl
    · rfl
    · exact size_write _ n call.outputs
  all_goals
    cases visited
    rfl

/-- Outputs that fit the slots of a node change no other slot. -/
theorem getElem?_write {outputs : List Cell} {slot : Nat}
    (room : outputs.length ≤ (v.symbols.slotsOf n).count)
    (foreign : ¬ v.symbols.Owns n slot) :
    (v.write memory n outputs).values[slot]? = memory.values[slot]? := by
  have countEq : (v.symbols.slotsOf n).count =
    (v.symbols.slotsOf n).stop - (v.symbols.slotsOf n).start := rfl
  by_cases before : slot < (v.symbols.slotsOf n).start
  · exact getElem?_writeSlots_of_lt before
  · have behind : (v.symbols.slotsOf n).stop ≤ slot := by
      by_contra inside
      exact foreign ⟨Nat.le_of_not_lt before, Nat.lt_of_not_le inside⟩
    exact getElem?_writeSlots_of_le (by omega)

/-- Evaluating a node changes no slot of another one. -/
theorem getElem?_of_visit {slot : Nat} (provides : v.Provides n)
    (foreign : ¬ v.symbols.Owns n slot) (visited : v.visit memory n = some e) :
    e.memory.values[slot]? = memory.values[slot]? := by
  unfold visit at visited
  unfold Provides at provides
  split at visited
  · next op kindEq =>
      simp only [kindEq] at provides
      obtain ⟨operands, -, ⟨c, -, rfl⟩ | ⟨-, rfl⟩⟩ := visitOperator_eq_some visited
      · exact getElem?_write provides.2 foreign
      · rfl
  · next kindEq =>
      simp only [kindEq] at provides
      obtain ⟨inputs, call, world, -, -, -, ⟨-, rfl⟩ | ⟨-, -, rfl⟩ | ⟨-, countsEq, rfl⟩⟩ :=
        visitPass_eq_some visited
      · rfl
      · rfl
      · have room := Nat.le_of_eq (countsEq.trans provides.symm)
        exact getElem?_write room foreign
  all_goals
    cases visited
    rfl

/-- A call is made by a pass with its own operation. -/
theorem operation_of_visit (visited : v.visit memory n = some e) {call : Call}
    (member : call ∈ e.calls) :
    v.graph.kind? n = some .pass ∧
      (v.symbols.slotsOf n).operation = some call.operation := by
  unfold visit at visited
  split at visited
  · obtain ⟨operands, -, ⟨c, -, rfl⟩ | ⟨-, rfl⟩⟩ := visitOperator_eq_some visited
    · cases member
    · cases member
  · next kindEq =>
      obtain ⟨inputs, own, world, -, operationEq, -, outcome⟩ := visitPass_eq_some visited
      have only : e.calls = [own] := by
        rcases outcome with ⟨-, rfl⟩ | ⟨-, -, rfl⟩ | ⟨-, -, rfl⟩ <;> rfl
      rw [only, List.mem_singleton] at member
      rw [member]
      exact ⟨kindEq, operationEq⟩
  all_goals
    cases visited
    cases member

/-! ## Nodes in order -/

theorem run_cons_eq_some {rest : List NodeId} (ran : v.run memory (n :: rest) = some e) :
    ∃ first, v.visit memory n = some first ∧
      (first.verdict = .completed ∧ (∃ others, v.run first.memory rest = some others ∧
          e = { others with calls := first.calls ++ others.calls }) ∨
        first.verdict ≠ .completed ∧ e = first) := by
  obtain ⟨first, visited, ran⟩ := Option.bind_eq_some_iff.mp ran
  refine ⟨first, visited, ?_⟩
  by_cases completed : first.verdict = .completed
  · rw [if_pos completed] at ran
    obtain ⟨others, restRan, ran⟩ := Option.bind_eq_some_iff.mp ran
    cases ran
    exact Or.inl ⟨completed, others, restRan, rfl⟩
  · rw [if_neg completed] at ran
    cases ran
    exact Or.inr ⟨completed, rfl⟩

/-- What every visit keeps, evaluation in order keeps: if memories are related by all
visits, they are related by the whole run. -/
theorem relation_of_run {R : Memory ω → Memory ω → Prop} (refl : ∀ memory, R memory memory)
    (trans : ∀ {first second third}, R first second → R second third → R first third)
    {order : List NodeId}
    (step : ∀ n ∈ order, ∀ {memory e}, v.visit memory n = some e → R memory e.memory)
    (ran : v.run memory order = some e) : R memory e.memory := by
  induction order generalizing memory e with
  | nil =>
      cases ran
      exact refl memory
  | cons n rest inductionHypothesis =>
      obtain ⟨first, visited, outcome⟩ := run_cons_eq_some ran
      have here := step n List.mem_cons_self visited
      rcases outcome with ⟨-, others, restRan, rfl⟩ | ⟨-, rfl⟩
      · have later := inductionHypothesis
          (fun m member => step m (List.mem_cons_of_mem n member)) restRan
        exact trans here later
      · exact here

theorem size_of_run {order : List NodeId} (ran : v.run memory order = some e) :
    e.memory.values.size = memory.values.size :=
  relation_of_run (R := fun before after => after.values.size = before.values.size)
    (fun _ => rfl) (fun here later => later.trans here) (fun _ _ _ _ => size_of_visit) ran

/-- Evaluating nodes changes no slot of other nodes. -/
theorem getElem?_of_run {order : List NodeId} {slot : Nat}
    (provides : ∀ n ∈ order, v.Provides n)
    (foreign : ∀ n ∈ order, ¬ v.symbols.Owns n slot)
    (ran : v.run memory order = some e) :
    e.memory.values[slot]? = memory.values[slot]? :=
  relation_of_run (R := fun before after => after.values[slot]? = before.values[slot]?)
    (fun _ => rfl) (fun here later => later.trans here)
    (fun n member _ _ => getElem?_of_visit (provides n member) (foreign n member)) ran

/-- Every call is made by a pass in the order, with its own operation. -/
theorem operation_of_run {order : List NodeId} (ran : v.run memory order = some e)
    {call : Call} (member : call ∈ e.calls) :
    ∃ n ∈ order, v.graph.kind? n = some .pass ∧
      (v.symbols.slotsOf n).operation = some call.operation := by
  induction order generalizing memory e with
  | nil =>
      cases ran
      cases member
  | cons n rest inductionHypothesis =>
      obtain ⟨first, visited, outcome⟩ := run_cons_eq_some ran
      rcases outcome with ⟨-, others, restRan, rfl⟩ | ⟨-, rfl⟩
      · rcases List.mem_append.mp member with here | later
        · exact ⟨n, List.mem_cons_self, operation_of_visit visited here⟩
        · obtain ⟨m, mMember, made⟩ := inductionHypothesis restRan later
          exact ⟨m, List.mem_cons_of_mem n mMember, made⟩
      · exact ⟨n, List.mem_cons_self, operation_of_visit visited member⟩

/-- A completed run passes through every node of its order. -/
theorem run_split {order : List NodeId} (ran : v.run memory order = some e)
    (completed : e.verdict = .completed) (member : n ∈ order) :
    ∃ initial rest before here after, order = initial ++ n :: rest ∧
      v.run memory initial = some before ∧ v.visit before.memory n = some here ∧
      here.verdict = .completed ∧ v.run here.memory rest = some after ∧
      e.memory = after.memory ∧ e.calls = before.calls ++ (here.calls ++ after.calls) := by
  induction order generalizing memory e with
  | nil => cases member
  | cons m others inductionHypothesis =>
      obtain ⟨first, visited, outcome⟩ := run_cons_eq_some ran
      rcases outcome with ⟨firstCompleted, last, restRan, rfl⟩ | ⟨stopped, rfl⟩
      · rcases List.mem_cons.mp member with rfl | later
        · exact ⟨[], others, ⟨.completed, [], memory⟩, first, last, rfl, rfl, visited,
            firstCompleted, restRan, rfl, rfl⟩
        · obtain ⟨initial, rest, before, here, after, rfl, initialRan, hereVisited,
            hereCompleted, afterRan, memoryEq, callsEq⟩ :=
              inductionHypothesis restRan completed later
          refine ⟨m :: initial, rest, { before with calls := first.calls ++ before.calls },
            here, after, rfl, ?_, hereVisited, hereCompleted, afterRan, memoryEq, ?_⟩
          · simp [run, visited, firstCompleted, initialRan]
          · simp [callsEq]
      · exact absurd completed stopped

/-! ## Why an evaluation ends -/

/-- What an evaluation shows at its end for a verdict to be right. -/
def Justifies (v : Evaluator ω) (order : List NodeId) (e : Evaluation ω) : Verdict → Prop
  | .completed => True
  | .aborted n operation =>
    n ∈ order ∧ ∃ call, e.calls.getLast? = some call ∧ call.operation = operation ∧
      call.goesOn = false
  | .miscounted n operation expected found =>
    n ∈ order ∧ v.graph.kind? n = some .pass ∧ expected = v.graph.neededPorts n ∧
      found ≠ expected ∧ (v.symbols.slotsOf n).operation = some operation ∧
      ∃ call, e.calls.getLast? = some call ∧ call.operation = operation ∧
        call.goesOn = true ∧ call.outputs.length = found
  | .undefined n =>
    n ∈ order ∧ ∃ op operands, v.graph.kind? n = some (.operator op) ∧
      v.inputs? e.memory n = some operands ∧ op.eval? (v.mode n) operands = none

/-- A later end of the same evaluation justifies the verdict as well. -/
theorem Justifies.mono {order longer : List NodeId} {e last : Evaluation ω}
    {verdict : Verdict} (justifies : v.Justifies order e verdict) (subset : order ⊆ longer)
    (callsEq : ∀ call, e.calls.getLast? = some call → last.calls.getLast? = some call)
    (memoryEq : last.memory = e.memory) : v.Justifies longer last verdict := by
  cases verdict with
  | completed => trivial
  | aborted n operation =>
      obtain ⟨member, call, lastCall, reason⟩ := justifies
      exact ⟨subset member, call, callsEq call lastCall, reason⟩
  | miscounted n operation expected found =>
      obtain ⟨member, kind, expectedEq, differs, operationEq, call, lastCall, reason⟩ :=
        justifies
      exact ⟨subset member, kind, expectedEq, differs, operationEq, call,
        callsEq call lastCall, reason⟩
  | undefined n =>
      obtain ⟨member, reason⟩ := justifies
      exact ⟨subset member, memoryEq ▸ reason⟩

theorem justifies_of_visit (visited : v.visit memory n = some e) :
    v.Justifies [n] e e.verdict := by
  have member : n ∈ [n] := List.mem_singleton.mpr rfl
  unfold visit at visited
  split at visited
  · next op kindEq =>
      obtain ⟨operands, inputsEq, ⟨c, -, rfl⟩ | ⟨undefined, rfl⟩⟩ :=
        visitOperator_eq_some visited
      · trivial
      · exact ⟨member, op, operands, kindEq, inputsEq, undefined⟩
  · next kindEq =>
      obtain ⟨inputs, call, world, -, operationEq, -, outcome⟩ := visitPass_eq_some visited
      rcases outcome with ⟨stops, rfl⟩ | ⟨goesOn, differs, rfl⟩ | ⟨-, -, rfl⟩
      · exact ⟨member, call, rfl, rfl, stops⟩
      · exact ⟨member, kindEq, rfl, differs, operationEq, call, rfl, rfl, goesOn, rfl⟩
      · trivial
  all_goals
    cases visited
    trivial

theorem justifies_of_run {order : List NodeId} (ran : v.run memory order = some e) :
    v.Justifies order e e.verdict := by
  induction order generalizing memory e with
  | nil =>
      cases ran
      trivial
  | cons n rest inductionHypothesis =>
      obtain ⟨first, visited, outcome⟩ := run_cons_eq_some ran
      rcases outcome with ⟨-, others, restRan, rfl⟩ | ⟨-, rfl⟩
      · have later := inductionHypothesis restRan
        refine later.mono (List.subset_cons_self n rest) ?_ rfl
        intro call lastCall
        simp [List.getLast?_append, lastCall]
      · have here := justifies_of_visit visited
        refine here.mono ?_ (fun _ lastCall => lastCall) rfl
        simp

end Evaluator

end FrameGraph
