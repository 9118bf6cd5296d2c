import FrameGraph.Proofs.Compiler.Emission
import FrameGraph.Proofs.Evaluation.Basic
import FrameGraph.Proofs.Machine.Runs

/-!
# The code of one node

The code of a node, performed on an empty stack, does what evaluating the node does.
It pushes the cells that the node reads, computes or calls on them, and pops what comes
out into the slots of the node.  Only a stack limit below the demand of the node can
end it before.
-/

namespace FrameGraph

open Instruction

variable {ω : Type}

/-! ## Room on the stack -/

/-- The number of cells that the code of a node has on the stack at most. -/
def Graph.demand (g : Graph) (n : NodeId) : Nat :=
  match g.kind? n with
  | some (.operator _) => max (g.incoming n).length 1
  | some .pass => max (g.incoming n).length (g.neededPorts n)
  | some .float | some .texture | some .present | none => 0

/-- The passage ends with a stack overflow. -/
def Passage.Overflows {κ : Type} (p : Passage κ) (limit : Nat) : Prop :=
  ∃ offset state, p.effect = .exit (.trapped (.stackOverflow offset limit)) state

theorem Passage.Overflows.andThen {κ : Type} {p : Passage κ} {limit : Nat}
    (overflows : p.Overflows limit) (next : Stack → κ → Passage κ) :
    (p.andThen next).Overflows limit := by
  obtain ⟨calls, effect⟩ := p
  obtain ⟨offset, state, rfl⟩ := overflows
  exact ⟨offset, state, rfl⟩

theorem Passage.Overflows.of_proceed {κ : Type} {calls : List Call} {stack : Stack}
    {state : κ} {limit : Nat} {next : Stack → κ → Passage κ}
    (overflows : (next stack state).Overflows limit) :
    (Passage.andThen ⟨calls, .proceed stack state⟩ next).Overflows limit :=
  overflows

/-! ## Verdicts as exits -/

/-- How a run ends when the evaluation of nodes does, where `stop` gives the offset at
which the code of a node computes or calls. -/
def Verdict.exit (stop : NodeId → Nat) : Verdict → Exit
  | completed => .halted
  | aborted n operation => .aborted operation (stop n)
  | miscounted n operation expected found =>
    .trapped (.outputCountMismatch (stop n) operation expected found)
  | undefined n => .trapped (.divisionByZero (stop n))

/-- What the code of a node leads to when its evaluation is known. -/
def Evaluation.effect (e : Evaluation ω) (stop : NodeId → Nat) : Effect (Memory ω) :=
  if e.verdict = .completed then .proceed .empty e.memory
  else .exit (e.verdict.exit stop) e.memory

namespace Evaluator

variable {v : Evaluator ω} {memory : Memory ω} {n consumer : NodeId}

/-- The emitter for the graph of an evaluator. -/
def emitter (v : Evaluator ω) : Emitter := ⟨v.graph, v.symbols, v.defaultMode⟩

@[simp]
theorem graph_emitter (v : Evaluator ω) : v.emitter.graph = v.graph := rfl

@[simp]
theorem symbols_emitter (v : Evaluator ω) : v.emitter.symbols = v.symbols := rfl

/-- Every slot exists, and the operation of a pass has the stack effect of its node. -/
structure Fits (v : Evaluator ω) (memory : Memory ω) : Prop where
  symbols : v.symbols.Sound
  values : memory.values.size = v.symbols.valueCount
  textures : v.tables.textures.size = v.symbols.textureCount
  passes : ∀ n index, (v.symbols.slotsOf n).operation = some index →
    (v.symbols.slotsOf n).count = v.graph.neededPorts n ∧
      (v.tables.tasks[index]?).map Task.signature =
        some ⟨(v.graph.incoming n).length, v.graph.neededPorts n⟩

/-- Only the number of value slots matters. -/
theorem Fits.of_size_eq {after : Memory ω} (fits : v.Fits memory)
    (sizeEq : after.values.size = memory.values.size) : v.Fits after where
  symbols := fits.symbols
  values := sizeEq.trans fits.values
  textures := fits.textures
  passes := fits.passes

/-! ## Addresses -/

/-- The slot of an output port exists in value memory. -/
theorem Fits.index_lt {port : Nat} {a : Address} (fits : v.Fits memory)
    (success : v.emitter.valueAddress n port = .ok a) : a.index < memory.values.size := by
  obtain ⟨-, found⟩ := Emitter.valueAddress_eq_ok success
  have bound := (Slots.value?_eq_some_iff.mp found).2
  rw [fits.values]
  exact Nat.lt_of_lt_of_le bound (fits.symbols.values n)

theorem output?_of_resolveProducer {port : Nat} {e : Edge} {a : Address}
    (fits : v.Fits memory) (success : v.emitter.resolveProducer consumer port e = .ok a) :
    a.isTexture = false ∧
      ∃ c, memory.values[a.index]? = some c ∧ v.output? memory e = some c := by
  obtain ⟨output, outputEq, resolved⟩ := Emitter.resolveProducer_eq_ok success
  obtain ⟨isValue, found⟩ := Emitter.valueAddress_eq_ok resolved
  have inside := fits.index_lt resolved
  rw [symbols_emitter] at found
  refine ⟨isValue, memory.values[a.index], Array.getElem?_eq_getElem inside, ?_⟩
  simp [Evaluator.output?, outputEq, Except.toOption, found, inside]

/-- The push of a resolved input pushes the cell that the evaluator reads. -/
theorem perform_push_of_resolve {port : Nat} {e : Edge} {a : Address}
    (fits : v.Fits memory) (success : v.emitter.resolve consumer port e = .ok a) :
    ∃ c, v.read? memory e = some c ∧
      ∀ limit offset stack, (Instruction.push a).perform v.tables.context limit offset stack
        memory = pushCell limit offset c stack memory := by
  have produced {e : Edge} (resolved : v.emitter.resolveProducer consumer port e = .ok a) :
      ∃ c, v.output? memory e = some c ∧
        ∀ limit offset stack, (Instruction.push a).perform v.tables.context limit offset
          stack memory = pushCell limit offset c stack memory := by
    obtain ⟨isValue, c, here, output⟩ := output?_of_resolveProducer fits resolved
    refine ⟨c, output, fun limit offset stack => ?_⟩
    simp [perform, isValue, Tables.context, here]
  unfold Evaluator.read?
  rcases Emitter.resolve_eq_ok success with ⟨notTexture, direct⟩ |
    ⟨kind, hop, incomingEq, behind⟩ | ⟨kind, incomingEq, isTexture, slotEq⟩
  · rw [graph_emitter] at notTexture
    rw [if_neg notTexture]
    exact produced direct
  · rw [graph_emitter] at kind incomingEq
    rw [if_pos kind, incomingEq]
    exact produced behind
  · rw [graph_emitter] at kind incomingEq
    rw [symbols_emitter] at slotEq
    have inside : a.index < v.tables.textures.size := by
      rw [fits.textures]
      exact fits.symbols.textures _ _ slotEq
    rw [if_pos kind, incomingEq]
    refine ⟨v.tables.textures[a.index], by simp [slotEq, inside], ?_⟩
    intro limit offset stack
    simp [perform, isTexture, Tables.context, inside]

/-! ## Inputs -/

/-- The pushes put the cells that the edges bring on the stack, the last one on top. -/
theorem passAll_pushes {port : Nat} {edges : List Edge} {code : List Instruction}
    (fits : v.Fits memory) (success : v.emitter.pushes consumer port edges = .ok code)
    (limit offset : Nat) (stack : Stack) :
    ∃ cells, edges.mapM (v.read? memory) = some cells ∧ cells.length = edges.length ∧
      (passAll v.tables.context limit offset code stack memory =
          ⟨[], .proceed (stack.pushAll cells.reverse) memory⟩ ∨
        limit < stack.depth + edges.length ∧
          (passAll v.tables.context limit offset code stack memory).Overflows limit) := by
  induction edges generalizing port code offset stack with
  | nil =>
      cases success
      have stackEq : stack.pushAll [] = stack := Stack.ext rfl
      exact ⟨[], rfl, rfl, Or.inl (by simp [passAll, stackEq])⟩
  | cons e rest inductionHypothesis =>
      obtain ⟨a, resolved, success⟩ := bind_eq_ok_iff.mp success
      obtain ⟨others, emitted, success⟩ := bind_eq_ok_iff.mp success
      cases success
      obtain ⟨c, readEq, performed⟩ := perform_push_of_resolve fits resolved
      obtain ⟨cells, restEq, lengthEq, outcome⟩ :=
        inductionHypothesis emitted (offset + (Instruction.push a).encodedLength)
          (stack.push c)
      refine ⟨c :: cells, by simp [readEq, restEq], by simp [lengthEq], ?_⟩
      rw [passAll, Instruction.pass, performed, pushCell]
      by_cases room : stack.depth < limit
      · rw [if_pos room]
        rcases outcome with through | ⟨tooDeep, overflows⟩
        · left
          have stackEq : (stack.push c).pushAll cells.reverse =
              stack.pushAll (c :: cells).reverse := by
            apply Stack.ext
            simp
          simp [call?, through, stackEq]
        · right
          refine ⟨?_, .of_proceed overflows⟩
          simp only [Stack.push] at tooDeep
          simp only [List.length_cons]
          omega
      · right
        rw [if_neg room]
        refine ⟨?_, offset, memory, rfl⟩
        simp only [List.length_cons]
        omega

/-- Behind its pushes the code of a node finds the inputs of the node on the stack. -/
theorem passAll_inputs {edges : List Edge} {pushCode : List Instruction}
    (fits : v.Fits memory) (edgesEq : v.graph.inputs n = .ok edges)
    (pushed : v.emitter.pushes n 0 edges = .ok pushCode) (limit offset : Nat)
    (rest : List Instruction) :
    ∃ cells, v.inputs? memory n = some cells ∧
      cells.length = (v.graph.incoming n).length ∧
      (passAll v.tables.context limit offset (pushCode ++ rest) .empty memory =
          passAll v.tables.context limit (offset + 3 * (v.graph.incoming n).length) rest
            (.ofList cells.reverse) memory ∨
        limit < (v.graph.incoming n).length ∧
          (passAll v.tables.context limit offset (pushCode ++ rest) .empty
            memory).Overflows limit) := by
  have edgesLength := (Graph.inputs_eq_ok edgesEq).1.length_eq
  obtain ⟨cells, readEq, cellsLength, outcome⟩ :=
    passAll_pushes fits pushed limit offset .empty
  have inputsEq : v.inputs? memory n = some cells := by
    simp [Evaluator.inputs?, Graph.inputEdges?_of_inputs edgesEq, readEq]
  refine ⟨cells, inputsEq, cellsLength.trans edgesLength, ?_⟩
  rw [passAll_append, Emitter.codeLength_pushes pushed, edgesLength]
  rcases outcome with through | ⟨tooDeep, overflows⟩
  · left
    have stackEq : Stack.empty.pushAll cells.reverse = .ofList cells.reverse := by
      apply Stack.ext
      simp
    rw [through, stackEq]
    rfl
  · right
    have emptyDepth : Stack.empty.depth = 0 := rfl
    exact ⟨by omega, overflows.andThen _⟩

/-! ## Outputs -/

/-- A pop into an output port writes its slot. -/
theorem perform_pop_of_valueAddress {port : Nat} {a : Address} (fits : v.Fits memory)
    (success : v.emitter.valueAddress n port = .ok a) (limit offset : Nat) (c : Cell)
    (stack : Stack) :
    (Instruction.pop a).perform v.tables.context limit offset (stack.push c) memory =
      .proceed stack { memory with
        values := memory.values.setIfInBounds ((v.symbols.slotsOf n).start + port) c } := by
  obtain ⟨isValue, found⟩ := Emitter.valueAddress_eq_ok success
  have inside := fits.index_lt success
  have indexEq := (Slots.value?_eq_some_iff.mp found).1
  rw [symbols_emitter] at indexEq
  simp [perform, isValue, Tables.context, inside, ← indexEq]

/-- The pops write the outputs to the slots of their ports. -/
theorem passAll_pops {count : Nat} {code : List Instruction} {outputs : List Cell}
    (fits : v.Fits memory) (success : v.emitter.pops n count = .ok code)
    (lengthEq : outputs.length = count) (limit offset : Nat) :
    passAll v.tables.context limit offset code (.ofList outputs.reverse) memory =
      ⟨[], .proceed .empty (v.write memory n outputs)⟩ := by
  -- The pops start at the last port, so the outputs are taken apart from their end.
  induction count generalizing memory code outputs offset with
  | zero =>
      cases success
      rw [List.length_eq_zero_iff.mp lengthEq]
      simp [passAll, write, Stack.empty]
  | succ port inductionHypothesis =>
      obtain ⟨a, addressed, success⟩ := bind_eq_ok_iff.mp success
      obtain ⟨others, emitted, success⟩ := bind_eq_ok_iff.mp success
      cases success
      rcases List.eq_nil_or_concat' outputs with rfl | ⟨earlier, c, rfl⟩
      · cases lengthEq
      · have earlierLength : earlier.length = port := by simpa using lengthEq
        have stackEq : Stack.ofList (earlier ++ [c]).reverse =
            (Stack.ofList earlier.reverse).push c := by
          apply Stack.ext
          simp
        let stored : Memory ω := { memory with
          values := memory.values.setIfInBounds ((v.symbols.slotsOf n).start + port) c }
        have storedFits : v.Fits stored := fits.of_size_eq (Array.size_setIfInBounds ..)
        have written : v.write memory n (earlier ++ [c]) = v.write stored n earlier := by
          simp only [write, writeSlots_append_singleton, earlierLength, stored]
        rw [passAll, Instruction.pass, stackEq, perform_pop_of_valueAddress fits addressed,
          written]
        simp only [call?, Option.toList_none, Passage.andThen_proceed, List.nil_append]
        exact inductionHypothesis storedFits emitted earlierLength _

/-! ## Operators -/

theorem mode_of_emitter {mode : NumericMode} (success : v.emitter.mode n = .ok mode) :
    v.mode n = mode := by
  unfold Emitter.mode at success
  unfold Evaluator.mode
  cases found : v.graph.metadata? n modeKey with
  | none =>
      simp only [graph_emitter, found] at success
      cases success
      rfl
  | some raw =>
      simp only [graph_emitter, found] at success
      cases named : NumericMode.ofName? raw with
      | none => simp [named] at success
      | some other =>
          simp only [named] at success
          cases success
          simp [named]

/-- An operator takes all cells from the stack and puts its value there. -/
theorem perform_instruction {κ : Type} (context : Context κ) (op : Operator)
    (mode : NumericMode) {cells : List Cell} (lengthEq : cells.length = op.arity)
    (limit offset : Nat) (state : κ) :
    (op.instruction mode).perform context limit offset (.ofList cells.reverse) state =
      match op.eval? mode cells with
      | none => .exit (.trapped (.divisionByZero offset)) state
      | some c => pushCell limit offset c .empty state := by
  have operates : (op.instruction mode).perform context limit offset
      (.ofList cells.reverse) state =
        operate limit offset op.arity (op.eval? mode) (.ofList cells.reverse) state := by
    cases op <;> rfl
  have allCells : op.arity = cells.reverse.length := by
    rw [List.length_reverse, lengthEq]
  have taken : ((Stack.ofList cells.reverse).top op.arity).reverse = cells := by
    rw [Stack.top, Stack.cells_ofList, allCells, List.take_length, List.reverse_reverse]
  have left : (Stack.ofList cells.reverse).drop op.arity = .empty := by
    apply Stack.ext
    simp [allCells]
  have enough : ¬ (Stack.ofList cells.reverse).depth < op.arity := by
    simp [Stack.ofList, lengthEq]
  cases evalEq : op.eval? mode cells with
  | none => simp only [operates, operate, if_neg enough, taken, evalEq]
  | some c => simp only [operates, operate, if_neg enough, taken, left, evalEq]

theorem call?_instruction {κ : Type} (context : Context κ) (op : Operator)
    (mode : NumericMode) (stack : Stack) (state : κ) :
    (op.instruction mode).call? context stack state = none := by
  cases op <;> rfl

/-- The code of an operator writes its value, unless there is none or no room. -/
theorem passAll_operatorCode {op : Operator} {code : List Instruction}
    (fits : v.Fits memory) (success : v.emitter.operatorCode n op = .ok code)
    (limit offset : Nat) {stop : NodeId → Nat}
    (stopEq : stop n = offset + 3 * (v.graph.incoming n).length) :
    ∃ e, v.visitOperator memory n op = some e ∧
      (passAll v.tables.context limit offset code .empty memory =
          ⟨e.calls, e.effect stop⟩ ∨
        limit < max (v.graph.incoming n).length 1 ∧
          (passAll v.tables.context limit offset code .empty memory).Overflows limit) := by
  obtain ⟨edges, mode, pushCode, output, edgesEq, arityEq, modeEq, pushed, addressed, rfl⟩ :=
    Emitter.operatorCode_eq_ok success
  rw [graph_emitter] at edgesEq
  have edgesLength := (Graph.inputs_eq_ok edgesEq).1.length_eq
  have oneOutput : v.emitter.pops n 1 = .ok [.pop output] := by
    rw [Emitter.pops, addressed]
    rfl
  obtain ⟨cells, inputsEq, cellsLength, outcome⟩ :=
    passAll_inputs fits edgesEq pushed limit offset [op.instruction mode, .pop output]
  have visited : v.visitOperator memory n op =
      some (v.settle memory n (op.eval? mode cells)) := by
    rw [visitOperator, inputsEq, mode_of_emitter modeEq]
    rfl
  refine ⟨_, visited, ?_⟩
  rcases outcome with through | ⟨tooDeep, overflows⟩
  · have computed := perform_instruction v.tables.context op mode
      (cellsLength.trans (edgesLength.symm.trans arityEq)) limit (stop n) memory
    rw [through, ← stopEq, passAll, Instruction.pass, computed, call?_instruction]
    cases op.eval? mode cells with
    | none => exact Or.inl rfl
    | some c =>
        have written := passAll_pops fits oneOutput (List.length_singleton (a := c))
          limit (stop n + (op.instruction mode).encodedLength)
        by_cases room : Stack.empty.depth < limit
        · left
          simp only [pushCell, if_pos room]
          exact written
        · right
          simp only [pushCell, if_neg room]
          have emptyDepth : Stack.empty.depth = 0 := rfl
          exact ⟨by omega, stop n, memory, rfl⟩
  · right
    exact ⟨by omega, overflows⟩

/-! ## Passes -/

/-- The call of an operation on the stack of its inputs. -/
theorem pass_call {tables : Tables ω} {index ports : Nat} {task : Task ω}
    {cells : List Cell} {outcome : Work.Outcome (Bool × ω)}
    (bound : index < 2 ^ 16) (taskEq : tables.tasks[index]? = some task)
    (signatureEq : task.signature = ⟨cells.length, ports⟩)
    (outcomeEq : (task.operation.execute task.target memory.world).run cells.reverse [] =
      outcome) (limit offset : Nat) :
    (Instruction.call (UInt16.ofNat index)).pass tables.context limit offset
        (.ofList cells.reverse) memory =
      ⟨[⟨index, cells.reverse, outcome.outputs.reverse, outcome.answer.1⟩],
        let after := { memory with world := outcome.answer.2 }
        if !outcome.answer.1 then .exit (.aborted index offset) after
        else if outcome.outputs.length ≠ ports then
          .exit (.trapped (.outputCountMismatch offset index ports
            outcome.outputs.length)) after
        else if limit < outcome.outputs.length then
          .exit (.trapped (.stackOverflow offset limit)) after
        else .proceed (.ofList outcome.outputs) after⟩ := by
  have indexEq : (UInt16.ofNat index).toNat = index := by
    rw [UInt16.toNat_ofNat']
    omega
  have signatureHere : tables.context.signature memory index =
      some ⟨cells.length, ports⟩ := by
    simp [Tables.context, taskEq, signatureEq]
  have called : (tables.context.call memory index).run cells.reverse [] =
      ⟨(outcome.answer.1, { memory with world := outcome.answer.2 }), outcome.inputs,
        outcome.outputs⟩ := by
    simp only [Tables.context, taskEq, Work.run_bind, outcomeEq]
    rfl
  have allCells : (Stack.ofList cells.reverse).top cells.length = cells.reverse := by
    rw [Stack.top, Stack.cells_ofList, ← List.length_reverse, List.take_length]
  have stackEq : ((Stack.ofList cells.reverse).drop cells.length).pushAll outcome.outputs =
      .ofList outcome.outputs := by
    apply Stack.ext
    simp
  have enough : ¬ (Stack.ofList cells.reverse).depth < cells.length := by
    simp [Stack.ofList]
  have depthEq : (Stack.ofList outcome.outputs).depth = outcome.outputs.length := rfl
  simp only [Instruction.pass, call?, perform, callOperation, indexEq, signatureHere,
    if_neg enough, allCells, called, stackEq, depthEq, Option.toList_some]

/-- The code of a pass calls its operation and writes the outputs, unless the operation
ends the run or there is no room. -/
theorem passAll_passCode {code : List Instruction} (fits : v.Fits memory)
    (success : v.emitter.passCode n = .ok code) (limit offset : Nat)
    {stop : NodeId → Nat} (stopEq : stop n = offset + 3 * (v.graph.incoming n).length) :
    ∃ e, v.visitPass memory n = some e ∧
      (passAll v.tables.context limit offset code .empty memory =
          ⟨e.calls, e.effect stop⟩ ∨
        limit < max (v.graph.incoming n).length (v.graph.neededPorts n) ∧
          (passAll v.tables.context limit offset code .empty memory).Overflows limit) := by
  obtain ⟨edges, pushCode, index, popCode, edgesEq, pushed, operationEq, popped, rfl⟩ :=
    Emitter.passCode_eq_ok success
  rw [graph_emitter] at edgesEq
  rw [symbols_emitter] at operationEq popped
  obtain ⟨countEq, signatureEq⟩ := fits.passes n index operationEq
  obtain ⟨task, taskEq, signatureEq⟩ := Option.map_eq_some_iff.mp signatureEq
  have bound : index < 2 ^ 16 := Nat.lt_of_lt_of_le
    (fits.symbols.operations n index operationEq) fits.symbols.operations_bound
  obtain ⟨cells, inputsEq, cellsLength, outcome⟩ :=
    passAll_inputs fits edgesEq pushed limit offset (.call (UInt16.ofNat index) :: popCode)
  obtain ⟨⟨⟨goesOn, world⟩, unread, outputs⟩, resultEq⟩ : ∃ result,
    (task.operation.execute task.target memory.world).run cells.reverse [] = result :=
      ⟨_, rfl⟩
  let after : Memory ω := { memory with world := world }
  have afterFits : v.Fits after := fits.of_size_eq rfl
  let call : Call := ⟨index, cells.reverse, outputs.reverse, goesOn⟩
  have visited : v.visitPass memory n = some
      (if !goesOn then ⟨.aborted n index, [call], after⟩
      else if outputs.length ≠ v.graph.neededPorts n then
        ⟨.miscounted n index (v.graph.neededPorts n) outputs.length, [call], after⟩
      else ⟨.completed, [call], v.write after n outputs.reverse⟩) := by
    simp only [visitPass, operationEq, inputsEq, taskEq, resultEq, Option.bind_eq_bind,
      Option.bind_some, Option.pure_def, List.length_reverse, apply_ite some, call, after]
  refine ⟨_, visited, ?_⟩
  rcases outcome with through | ⟨tooDeep, overflows⟩
  · have called := pass_call bound taskEq (cellsLength ▸ signatureEq) resultEq limit
      (stop n)
    rw [through, ← stopEq, passAll, called]
    cases goesOn with
    | false => exact Or.inl rfl
    | true =>
        simp only [Bool.not_true, Bool.false_eq_true, if_false, ne_eq]
        by_cases countsEq : outputs.length = v.graph.neededPorts n
        · rw [if_neg (not_not_intro countsEq), if_neg (not_not_intro countsEq)]
          by_cases noRoom : limit < outputs.length
          · right
            rw [if_pos noRoom]
            exact ⟨by omega, stop n, after, rfl⟩
          · left
            have written := passAll_pops afterFits popped (List.length_reverse.trans
              (countsEq.trans countEq.symm)) limit
              (stop n + (Instruction.call (UInt16.ofNat index)).encodedLength)
            rw [List.reverse_reverse] at written
            rw [if_neg noRoom, Passage.andThen_proceed, written]
            rfl
        · rw [if_pos countsEq, if_pos countsEq]
          exact Or.inl rfl
  · right
    exact ⟨by omega, overflows⟩

/-! ## Nodes -/

/-- The code of a node does what evaluating the node does, unless there is no room. -/
theorem passAll_nodeCode {code : List Instruction} (fits : v.Fits memory)
    (success : v.emitter.nodeCode n = .ok code) (limit offset : Nat) {stop : NodeId → Nat}
    (stopEq : stop n = offset + 3 * (v.graph.incoming n).length) :
    ∃ e, v.visit memory n = some e ∧
      (passAll v.tables.context limit offset code .empty memory =
          ⟨e.calls, e.effect stop⟩ ∨
        limit < v.graph.demand n ∧
          (passAll v.tables.context limit offset code .empty memory).Overflows limit) := by
  unfold Emitter.nodeCode at success
  unfold Evaluator.visit Graph.demand
  rw [graph_emitter] at success
  cases kindEq : v.graph.kind? n with
  | none =>
      simp only [kindEq] at success
      cases success
      exact ⟨_, rfl, Or.inl rfl⟩
  | some kind =>
      cases kind with
      | operator op =>
          simp only [kindEq] at success
          exact passAll_operatorCode fits success limit offset stopEq
      | pass =>
          simp only [kindEq] at success
          exact passAll_passCode fits success limit offset stopEq
      | float | texture | present =>
          simp only [kindEq] at success
          cases success
          exact ⟨_, rfl, Or.inl rfl⟩

end Evaluator

end FrameGraph
