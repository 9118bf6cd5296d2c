import FrameGraph.Proofs.Evaluation.Simulation
import FrameGraph.Proofs.Instance.Reachable
import FrameGraph.Proofs.Operator.Totality
import FrameGraph.Resource.Headless

/-!
# Safety of compiled code

An execution of a reachable instance ends, performs every instruction at most once and
never breaks a rule of the machine.  Besides a completed frame and an operation that
stops, only a wrong number of outputs, an integer division by zero and a stack limit
below the demand of a node can end it.
-/

namespace FrameGraph

variable {ω : Type}

/-- What an execution shows when it ends in a given way.  No other way is permitted: no
trap of decoding or addressing, no underflow and no unbalanced stack. -/
def Instance.Permits (i : Instance ω) (config : Config) (g : Graph) (sink : NodeId)
    (world : ω) : Exit → Prop
  | .halted => True
  | .aborted operation _ =>
    ∃ call, (i.calls world).getLast? = some call ∧ call.operation = operation ∧
      call.goesOn = false
  | .trapped (.outputCountMismatch _ operation expected found) =>
    ∃ n, Reaches g.edgeList n sink ∧ g.kind? n = some .pass ∧
      expected = g.neededPorts n ∧ found ≠ expected ∧
      (i.symbols.slotsOf n).operation = some operation ∧
      ∃ call, (i.calls world).getLast? = some call ∧ call.operation = operation ∧
        call.goesOn = true ∧ call.outputs.length = found
  | .trapped (.divisionByZero _) =>
    ∃ n dividend, Reaches g.edgeList n sink ∧
      g.kind? n = some (.operator (.numeric .div)) ∧
      (i.evaluator config g).mode n ≠ .float ∧
      (i.evaluator config g).inputs? (i.execute world).memory n = some [dividend, .zero]
  | .trapped (.stackOverflow _ limit) =>
    limit = config.stackLimit ∧
      ∃ n, Reaches g.edgeList n sink ∧ config.stackLimit < g.demand n
  | .trapped _ | .outOfSteps => False

namespace Instance

variable {config : Config} {g : Graph} {schedule : Schedule} {sink : NodeId}
  {i : Instance ω}

/-- An execution of a linked instance ends in a permitted way. -/
theorem Linked.permits (linked : i.Linked config g schedule)
    (covers : schedule.Covers g sink) (world : ω) :
    i.Permits config g sink world (i.execute world).exit := by
  obtain ⟨e, pointer, evaluated, -, -, outcome⟩ :=
    linked.execute_eq covers.nodup_evaluationOrder world
  have reaches {n : NodeId} (member : n ∈ schedule.evaluationOrder) :
      Reaches g.edgeList n sink := covers.mem_evaluationOrder.mp member
  rcases outcome with ⟨exitEq, memoryEq, callsEq⟩ | ⟨⟨n, member, tooDeep⟩, offset, exitEq⟩
  · have justified := Evaluator.justifies_of_run evaluated
    rw [exitEq, Permits.eq_def, memoryEq, callsEq]
    cases verdictEq : e.verdict with
    | completed => trivial
    | aborted n operation =>
        rw [verdictEq] at justified
        exact justified.2
    | miscounted n operation expected found =>
        rw [verdictEq] at justified
        exact ⟨n, reaches justified.1, justified.2⟩
    | undefined n =>
        rw [verdictEq] at justified
        obtain ⟨member, op, operands, kind, inputsEq, undefined⟩ := justified
        have provides := linked.provides world n member
        simp only [Evaluator.Provides, kind] at provides
        have lengthEq : operands.length = op.arity :=
          (Evaluator.length_of_inputs? inputsEq).trans provides.1
        obtain ⟨rfl, integer, dividend, rfl⟩ :=
          Operator.eq_div_of_eval? lengthEq undefined
        exact ⟨n, dividend, reaches member, kind, integer, inputsEq⟩
  · rw [exitEq]
    exact ⟨rfl, n, reaches member, tooDeep⟩

/-- An execution of a linked instance passes through instructions of its program in order,
so that it performs none of them twice. -/
theorem Linked.nodup_visited (linked : i.Linked config g schedule)
    (covers : schedule.Covers g sink) (world : ω) :
    i.visited world <+: i.program.instructionOffsets ∧ (i.visited world).Nodup := by
  obtain ⟨e, pointer, -, -, visitedEq, -⟩ :=
    linked.execute_eq covers.nodup_evaluationOrder world
  obtain ⟨code, -, assembled⟩ := linked.code
  have increasing : i.program.instructionOffsets.Pairwise (· < ·) := by
    rw [Program.instructionOffsets_of_assemble assembled]
    exact Instruction.pairwise_offsets 0 code
  refine ⟨visitedEq, ?_⟩
  have visitedIncreasing := increasing.sublist visitedEq.sublist
  exact visitedIncreasing.imp Nat.ne_of_lt

end Instance

/-- Whatever its host has done to a compiled instance, an execution ends in a permitted
way after performing every instruction at most once; allowing it more steps changes
nothing. -/
theorem execute_of_reachable {registry : Registry ω} {config : Config} {g : Graph}
    {compiled i : Instance ω} {before after : ω} (word : g.neededValues < 2 ^ 64)
    (success : Build.Succeeds (compile registry config g) before compiled after)
    (reachable : compiled.Reachable i) (world : ω) :
    ∃ sink, g.presentNode = .ok sink ∧
      i.Permits config g sink world (i.execute world).exit ∧
      (∀ extra, i.machine.run i.tables.context i.program (i.program.size + extra)
          ⟨i.values, world⟩ =
        i.machine.run i.tables.context i.program i.program.size ⟨i.values, world⟩) ∧
      i.visited world <+: i.program.instructionOffsets ∧ (i.visited world).Nodup := by
  obtain ⟨sink, schedule, present, -, covers, linked⟩ :=
    reachable.sameShape.linked word success
  have permits := linked.permits covers world
  refine ⟨sink, present, permits, ?_, linked.nodup_visited covers world⟩
  intro extra
  apply Machine.resume_add
  intro outOfSteps
  have exitEq : (i.execute world).exit = .outOfSteps := outOfSteps
  rw [exitEq] at permits
  exact permits

namespace Sample

/-- The sample after a frame, a write and a resize. -/
def later : Instance Unit :=
  (((compiled.execute ()).after.setConstant 1 ⟨7⟩).toOption.getD compiled).resize
    ({} : HeadlessDevice) () 4 4 |>.1.owner

theorem reachable_later : compiled.Reachable later := by
  have written : (compiled.execute ()).after.setConstant 1 ⟨7⟩ =
      .ok { (compiled.execute ()).after with
        values := (compiled.execute ()).after.values.setIfInBounds 1 ⟨7⟩ } := by
    with_unfolding_all rfl
  unfold later
  rw [written]
  exact .resize (.setConstant (.execute .compiled ()) written) _ _ _ _

end Sample

theorem second_frame_of_sample :
    ∃ sink, Sample.graph.presentNode = .ok sink ∧
      Sample.later.Permits Sample.config Sample.graph sink ()
        (Sample.later.execute ()).exit ∧
      (∀ extra, Sample.later.machine.run Sample.later.tables.context Sample.later.program
          (Sample.later.program.size + extra) ⟨Sample.later.values, ()⟩ =
        Sample.later.machine.run Sample.later.tables.context Sample.later.program
          Sample.later.program.size ⟨Sample.later.values, ()⟩) ∧
      Sample.later.visited () <+: Sample.later.program.instructionOffsets ∧
      (Sample.later.visited ()).Nodup :=
  execute_of_reachable Sample.neededValues_lt Sample.succeeds_compile
    Sample.reachable_later ()

end FrameGraph
