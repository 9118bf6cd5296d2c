import FrameGraph.Proofs.Evaluation.Simulation
import FrameGraph.Proofs.Machine.Containment

/-!
# Room on the stack

No instruction leaves more cells on the stack than the limit allows.  A frame that comes
to its halt has therefore had room for every scheduled node, whatever its operations did,
and no later frame over the same nodes can overflow.
-/

namespace FrameGraph

open Instruction

variable {κ ω : Type}

namespace Instruction

theorem within_passAll (context : Context κ) {limit : Nat} (offset : Nat)
    (code : List Instruction) {stack : Stack} (state : κ) (room : stack.depth ≤ limit) :
    (passAll context limit offset code stack state).effect.Within limit := by
  induction code generalizing offset stack state with
  | nil => exact room
  | cons i rest inductionHypothesis =>
      have here := within_perform context offset i state room
      rw [passAll, Instruction.pass]
      cases performed : i.perform context limit offset stack state with
      | proceed next after =>
          rw [performed] at here
          exact inductionHypothesis _ after here
      | jump target next after =>
          rw [performed] at here
          exact here
      | exit exit after => trivial

/-- Code that goes on to its end goes on through its first part. -/
theorem exists_proceed_of_append {context : Context κ} {limit offset : Nat}
    {first second : List Instruction} {stack last : Stack} {state final : κ}
    (proceeds : (passAll context limit offset (first ++ second) stack state).effect =
      .proceed last final) :
    ∃ next after,
      (passAll context limit offset first stack state).effect = .proceed next after ∧
      (passAll context limit (offset + codeLength first) second next after).effect =
        .proceed last final := by
  rw [passAll_append] at proceeds
  cases effectEq : (passAll context limit offset first stack state).effect with
  | proceed next after =>
      simp only [Passage.andThen, effectEq] at proceeds
      exact ⟨next, after, rfl, proceeds⟩
  | jump target next after => simp [Passage.andThen, effectEq] at proceeds
  | exit exit after => simp [Passage.andThen, effectEq] at proceeds

end Instruction

/-! ## Nodes that have had room -/

namespace Evaluator

variable {v : Evaluator ω} {memory : Memory ω} {n consumer : NodeId}

/-- Pushes that succeed have had room for the inputs, and leave them on the stack. -/
theorem room_of_pushes {port limit offset : Nat} {edges : List Edge}
    {code : List Instruction} {next : Stack} {after : Memory ω} (fits : v.Fits memory)
    (success : v.emitter.pushes consumer port edges = .ok code)
    (proceeds : (passAll v.tables.context limit offset code .empty memory).effect =
      .proceed next after) :
    edges.length ≤ limit ∧ after = memory ∧
      ∃ cells : List Cell, cells.length = edges.length ∧ next = .ofList cells.reverse := by
  have emptyRoom : Stack.empty.depth ≤ limit := Nat.zero_le limit
  have within := within_passAll v.tables.context offset code memory emptyRoom
  rw [proceeds] at within
  obtain ⟨cells, -, lengthEq, through | ⟨-, other, final, overflows⟩⟩ :=
    passAll_pushes fits success limit offset .empty
  · have stackEq : Stack.empty.pushAll cells.reverse = .ofList cells.reverse := by
      apply Stack.ext
      simp
    rw [through, stackEq] at proceeds
    cases proceeds
    have depthEq : (Stack.ofList cells.reverse).depth = edges.length := by
      rw [Stack.depth_eq, Stack.cells_ofList, List.length_reverse, lengthEq]
    have room : (Stack.ofList cells.reverse).depth ≤ limit := within
    exact ⟨depthEq ▸ room, rfl, cells, lengthEq, rfl⟩
  · rw [overflows] at proceeds
    cases proceeds

theorem room_of_operatorCode {op : Operator} {code : List Instruction} {limit offset : Nat}
    {last : Stack} {final : Memory ω} (fits : v.Fits memory)
    (success : v.emitter.operatorCode n op = .ok code)
    (proceeds : (passAll v.tables.context limit offset code .empty memory).effect =
      .proceed last final) : max (v.graph.incoming n).length 1 ≤ limit := by
  obtain ⟨edges, mode, pushCode, output, edgesEq, arityEq, -, pushed, -, rfl⟩ :=
    Emitter.operatorCode_eq_ok success
  have edgesLength := (Graph.inputs_eq_ok edgesEq).1.length_eq
  obtain ⟨next, after, pushesProceed, restProceeds⟩ := exists_proceed_of_append proceeds
  obtain ⟨inputsRoom, -, cells, lengthEq, rfl⟩ := room_of_pushes fits pushed pushesProceed
  have computed := perform_instruction v.tables.context op mode (lengthEq.trans arityEq)
    limit (offset + codeLength pushCode) after
  -- An operator without inputs still needs room for its value.
  have valueRoom : 0 < limit := by
    by_contra noRoom
    rw [passAll, Instruction.pass, computed] at restProceeds
    cases evalEq : op.eval? mode cells with
    | none => simp [evalEq, Passage.andThen] at restProceeds
    | some c =>
        have full : ¬ Stack.empty.depth < limit := by
          have emptyDepth : Stack.empty.depth = 0 := rfl
          omega
        simp [evalEq, pushCell, full, Passage.andThen] at restProceeds
  rw [graph_emitter] at edgesLength
  omega

theorem room_of_passCode {code : List Instruction} {limit offset : Nat}
    {last : Stack} {final : Memory ω} (fits : v.Fits memory)
    (success : v.emitter.passCode n = .ok code)
    (proceeds : (passAll v.tables.context limit offset code .empty memory).effect =
      .proceed last final) :
    max (v.graph.incoming n).length (v.graph.neededPorts n) ≤ limit := by
  obtain ⟨edges, pushCode, index, popCode, edgesEq, pushed, operationEq, -, rfl⟩ :=
    Emitter.passCode_eq_ok success
  rw [graph_emitter] at edgesEq
  rw [symbols_emitter] at operationEq
  have edgesLength := (Graph.inputs_eq_ok edgesEq).1.length_eq
  obtain ⟨-, signatureEq⟩ := fits.passes n index operationEq
  obtain ⟨task, taskEq, signatureEq⟩ := Option.map_eq_some_iff.mp signatureEq
  have bound : index < 2 ^ 16 := Nat.lt_of_lt_of_le
    (fits.symbols.operations n index operationEq) fits.symbols.operations_bound
  obtain ⟨next, after, pushesProceed, restProceeds⟩ := exists_proceed_of_append proceeds
  obtain ⟨inputsRoom, rfl, cells, lengthEq, rfl⟩ := room_of_pushes fits pushed pushesProceed
  obtain ⟨outcome, outcomeEq⟩ : ∃ outcome,
    (task.operation.execute task.target after.world).run cells.reverse [] = outcome :=
      ⟨_, rfl⟩
  have called := pass_call bound taskEq
    ((lengthEq.trans edgesLength).symm ▸ signatureEq) outcomeEq limit
    (offset + codeLength pushCode)
  have outputsRoom : v.graph.neededPorts n ≤ limit := by
    rw [passAll, called] at restProceeds
    dsimp only at restProceeds
    split at restProceeds
    · simp [Passage.andThen] at restProceeds
    · split at restProceeds
      · simp [Passage.andThen] at restProceeds
      · next countsEq =>
          split at restProceeds
          · simp [Passage.andThen] at restProceeds
          · next room =>
              have countsEq := not_not.mp countsEq
              omega
  omega

/-- The code of a node goes on only if there has been room for the node. -/
theorem demand_le_of_proceed {code : List Instruction} {limit offset : Nat}
    {last : Stack} {final : Memory ω} (fits : v.Fits memory)
    (success : v.emitter.nodeCode n = .ok code)
    (proceeds : (passAll v.tables.context limit offset code .empty memory).effect =
      .proceed last final) : v.graph.demand n ≤ limit := by
  unfold Emitter.nodeCode at success
  unfold Graph.demand
  rw [graph_emitter] at success
  cases kindEq : v.graph.kind? n with
  | none => exact Nat.zero_le limit
  | some kind =>
      cases kind with
      | operator op =>
          simp only [kindEq] at success
          exact room_of_operatorCode fits success proceeds
      | pass =>
          simp only [kindEq] at success
          exact room_of_passCode fits success proceeds
      | float | texture | present => exact Nat.zero_le limit

/-- Code that comes to its halt has had room for all its nodes. -/
theorem demand_le_of_halted {order : List NodeId} {code : List Instruction}
    {limit offset : Nat} {final : Memory ω} (fits : v.Fits memory)
    (success : v.emitter.code order = .ok code)
    (halted : (passAll v.tables.context limit offset code .empty memory).effect =
      .exit .halted final) : ∀ n ∈ order, v.graph.demand n ≤ limit := by
  induction order generalizing memory code offset with
  | nil =>
      intro n member
      cases member
  | cons n rest inductionHypothesis =>
      obtain ⟨first, firstEmitted, success⟩ := bind_eq_ok_iff.mp success
      obtain ⟨others, othersEmitted, success⟩ := bind_eq_ok_iff.mp success
      cases success
      obtain ⟨stop, stopEq⟩ : ∃ stop : NodeId → Nat,
        stop n = offset + 3 * (v.graph.incoming n).length := ⟨fun _ => _, rfl⟩
      obtain ⟨here, visited, outcome⟩ :=
        passAll_nodeCode fits firstEmitted limit offset stopEq
      rw [passAll_append] at halted
      rcases outcome with same | ⟨-, overflows⟩
      · by_cases completed : here.verdict = .completed
        · rw [Evaluation.effect, if_pos completed] at same
          have roomHere := demand_le_of_proceed fits firstEmitted (congrArg _ same)
          rw [same, Passage.andThen_proceed] at halted
          have laterFits : v.Fits here.memory := fits.of_size_eq (size_of_visit visited)
          have roomLater := inductionHypothesis laterFits othersEmitted halted
          exact List.forall_mem_cons.mpr ⟨roomHere, roomLater⟩
        · rw [same, Evaluation.effect, if_neg completed, Passage.andThen_exit] at halted
          -- A visit that does not complete ends the frame with another exit than the halt.
          cases verdictEq : here.verdict with
          | completed => exact absurd verdictEq completed
          | aborted _ _ | miscounted _ _ _ _ | undefined _ =>
              simp [verdictEq, Verdict.exit] at halted
      · obtain ⟨stop, state, overflows⟩ :=
          overflows.andThen (passAll v.tables.context limit (offset + codeLength first) others)
        rw [halted] at overflows
        cases overflows

end Evaluator

/-! ## Frames -/

namespace Instance

variable {config : Config} {g : Graph} {schedule : Schedule} {i : Instance ω}

/-- A frame that comes to its halt has had room for every scheduled node. -/
theorem Linked.demand_le_of_halted (linked : i.Linked config g schedule)
    (nodup : schedule.evaluationOrder.Nodup) {world : ω}
    (halted : (i.execute world).exit = .halted) :
    ∀ n ∈ schedule.evaluationOrder, g.demand n ≤ config.stackLimit := by
  obtain ⟨code, emitted, assembled⟩ := linked.code
  have stands := Program.standsAt_of_assemble assembled
  have shorter : code.length ≤ i.program.size := by
    rw [Program.size_of_assemble assembled]
    exact length_le_codeLength code
  obtain ⟨extra, sizeEq⟩ := Nat.exists_eq_add_of_le shorter
  have fits := linked.fits world
  obtain ⟨e, -, outcome⟩ := Evaluator.passAll_code nodup fits emitted config.stackLimit 0
    (i.stopOffset config g schedule) (fun _ _ => rfl)
  have exits : ∃ exit final, (passAll i.tables.context config.stackLimit 0 code .empty
      ⟨i.values, world⟩).effect = .exit exit final := by
    rcases outcome with same | ⟨-, offset, final, overflows⟩
    · exact ⟨_, _, congrArg Passage.effect same⟩
    · exact ⟨_, _, overflows⟩
  obtain ⟨exit, final, exitEq⟩ := exits
  have passage : passAll i.tables.context i.machine.start.stackLimit i.machine.start.pointer
      code i.machine.start.stack ⟨i.values, world⟩ =
        ⟨(passAll i.tables.context config.stackLimit 0 code .empty ⟨i.values, world⟩).calls,
          .exit exit final⟩ := by
    rw [← exitEq, ← linked.limit]
    rfl
  obtain ⟨⟨pointer, resumed⟩, -⟩ := Machine.resume_of_passAll extra stands passage
  unfold execute Machine.run at halted
  rw [sizeEq, resumed] at halted
  rw [show exit = .halted from halted] at exitEq
  exact Evaluator.demand_le_of_halted fits emitted exitEq

end Instance

end FrameGraph
