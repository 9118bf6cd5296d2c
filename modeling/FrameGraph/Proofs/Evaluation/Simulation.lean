import FrameGraph.Proofs.Compiler.Linked
import FrameGraph.Proofs.Compiler.Passes
import FrameGraph.Proofs.Evaluation.NodeCode
import FrameGraph.Proofs.Evaluation.Visits
import FrameGraph.Proofs.Graph.Scheduling

/-!
# Executions simulate evaluations

The code of scheduled nodes does what evaluating the nodes in order does, and an
execution performs this code.  So the result of an execution, the value memory that it
leaves behind and the calls that it makes can be read off the graph.
-/

namespace FrameGraph

open Instruction

variable {ω : Type}

/-! ## Code of nodes in order -/

/-- The offset at which the code of a node computes or calls, behind its pushes, in the
code of nodes in order that starts at a given offset. -/
def Emitter.stopIn (m : Emitter) : Nat → List NodeId → NodeId → Nat
  | offset, [], _ => offset
  | offset, n :: rest, target =>
    if n = target then offset + 3 * (m.graph.incoming n).length
    else
      let code := (m.nodeCode n).toOption.getD []
      m.stopIn (offset + codeLength code) rest target

namespace Evaluator

variable {v : Evaluator ω} {memory : Memory ω} {n : NodeId}

/-- A node that has code has what its kind needs. -/
theorem provides_of_nodeCode {code : List Instruction} (fits : v.Fits memory)
    (success : v.emitter.nodeCode n = .ok code) : v.Provides n := by
  unfold Emitter.nodeCode at success
  unfold Provides
  rw [graph_emitter] at success
  cases kindEq : v.graph.kind? n with
  | none => trivial
  | some kind =>
      simp only [kindEq] at success
      cases kind with
      | operator op =>
          obtain ⟨edges, mode, pushCode, output, edgesEq, arityEq, -, -, addressed, -⟩ :=
            Emitter.operatorCode_eq_ok success
          have edgesLength := (Graph.inputs_eq_ok edgesEq).1.length_eq
          obtain ⟨slotEq, inside⟩ :=
            Slots.value?_eq_some_iff.mp (Emitter.valueAddress_eq_ok addressed).2
          rw [symbols_emitter] at slotEq inside
          have countEq : (v.symbols.slotsOf n).count =
            (v.symbols.slotsOf n).stop - (v.symbols.slotsOf n).start := rfl
          exact ⟨edgesLength.symm.trans arityEq, by omega⟩
      | pass =>
          obtain ⟨-, -, index, -, -, -, operationEq, -, -⟩ := Emitter.passCode_eq_ok success
          exact (fits.passes n index operationEq).1
      | float | texture | present => trivial

theorem provides_of_code {order : List NodeId} {code : List Instruction}
    (fits : v.Fits memory) (success : v.emitter.code order = .ok code) :
    ∀ n ∈ order, v.Provides n := by
  induction order generalizing code with
  | nil =>
      intro n member
      cases member
  | cons m rest inductionHypothesis =>
      obtain ⟨first, firstEmitted, success⟩ := bind_eq_ok_iff.mp success
      obtain ⟨others, othersEmitted, -⟩ := bind_eq_ok_iff.mp success
      intro n member
      rcases List.mem_cons.mp member with rfl | later
      · exact provides_of_nodeCode fits firstEmitted
      · exact inductionHypothesis othersEmitted n later

/-- The code of nodes in order ends as their evaluation does, unless there is no room
for one of them. -/
theorem passAll_code {order : List NodeId} {code : List Instruction}
    (nodup : order.Nodup) (fits : v.Fits memory)
    (success : v.emitter.code order = .ok code) (limit offset : Nat)
    (stop : NodeId → Nat) (stopEq : ∀ n ∈ order, stop n = v.emitter.stopIn offset order n) :
    ∃ e, v.run memory order = some e ∧
      (passAll v.tables.context limit offset code .empty memory =
          ⟨e.calls, .exit (e.verdict.exit stop) e.memory⟩ ∨
        (∃ n ∈ order, limit < v.graph.demand n) ∧
          (passAll v.tables.context limit offset code .empty memory).Overflows limit) := by
  -- The stack is empty again behind the code of each node, so that the next one starts on
  -- it as the first one did.
  induction order generalizing memory code offset with
  | nil =>
      cases success
      exact ⟨⟨.completed, [], memory⟩, rfl, Or.inl rfl⟩
  | cons n rest inductionHypothesis =>
      obtain ⟨notLater, restNodup⟩ := List.nodup_cons.mp nodup
      obtain ⟨first, firstEmitted, success⟩ := bind_eq_ok_iff.mp success
      obtain ⟨others, othersEmitted, success⟩ := bind_eq_ok_iff.mp success
      cases success
      have stopHere : stop n = offset + 3 * (v.graph.incoming n).length := by
        rw [stopEq n List.mem_cons_self, Emitter.stopIn, if_pos rfl, graph_emitter]
      have stopLater : ∀ m ∈ rest,
          stop m = v.emitter.stopIn (offset + codeLength first) rest m := by
        intro m member
        have different : n ≠ m := by
          rintro rfl
          exact notLater member
        rw [stopEq m (List.mem_cons_of_mem n member), Emitter.stopIn, if_neg different,
          firstEmitted]
        rfl
      obtain ⟨here, visited, hereOutcome⟩ :=
        passAll_nodeCode fits firstEmitted limit offset stopHere
      have laterFits : v.Fits here.memory := fits.of_size_eq (size_of_visit visited)
      obtain ⟨later, laterRan, laterOutcome⟩ :=
        inductionHypothesis restNodup laterFits othersEmitted (offset + codeLength first)
          stopLater
      rw [passAll_append]
      by_cases completed : here.verdict = .completed
      · refine ⟨{ later with calls := here.calls ++ later.calls }, ?_, ?_⟩
        · simp [run, visited, completed, laterRan]
        · rcases hereOutcome with same | ⟨tooDeep, overflows⟩
          · rw [same, Evaluation.effect, if_pos completed, Passage.andThen_proceed]
            rcases laterOutcome with laterSame | ⟨⟨m, member, tooDeep⟩, overflows⟩
            · left
              rw [laterSame]
            · right
              exact ⟨⟨m, List.mem_cons_of_mem n member, tooDeep⟩, overflows⟩
          · right
            exact ⟨⟨n, List.mem_cons_self, tooDeep⟩, overflows.andThen _⟩
      · refine ⟨here, ?_, ?_⟩
        · simp [run, visited, completed]
        · rcases hereOutcome with same | ⟨tooDeep, overflows⟩
          · left
            rw [same, Evaluation.effect, if_neg completed, Passage.andThen_exit]
          · right
            exact ⟨⟨n, List.mem_cons_self, tooDeep⟩, overflows.andThen _⟩

end Evaluator

/-! ## Executions of linked instances -/

namespace Instance

variable {config : Config} {g : Graph} {schedule : Schedule} {i : Instance ω}

theorem Linked.fits (linked : i.Linked config g schedule) (world : ω) :
    (i.evaluator config g).Fits ⟨i.values, world⟩ where
  symbols := linked.symbols
  values := linked.values
  textures := by
    have sizeEq : (i.textures.map Texture.cell).size = i.textures.size := Array.size_map
    exact sizeEq.trans linked.textures
  passes n index found := by
    obtain ⟨-, countEq, signatureEq⟩ := linked.passes n index found
    refine ⟨countEq, ?_⟩
    simpa [evaluator, tables, Function.comp_def] using signatureEq

theorem Linked.provides (linked : i.Linked config g schedule) (world : ω) :
    ∀ n ∈ schedule.evaluationOrder, (i.evaluator config g).Provides n := by
  obtain ⟨code, emitted, -⟩ := linked.code
  exact Evaluator.provides_of_code (linked.fits world) emitted

/-- The offset at which the code of a node computes or calls. -/
def stopOffset (i : Instance ω) (config : Config) (g : Graph) (schedule : Schedule) :
    NodeId → Nat :=
  (i.evaluator config g).emitter.stopIn 0 schedule.evaluationOrder

/-- An execution ends as the evaluation of the schedule does, unless a node has no room on
the stack.  Either way it passes through the instructions of the program in order and
leaves an idle machine behind. -/
theorem Linked.execute_eq (linked : i.Linked config g schedule)
    (nodup : schedule.evaluationOrder.Nodup) (world : ω) :
    ∃ e pointer,
      (i.evaluator config g).run ⟨i.values, world⟩ schedule.evaluationOrder = some e ∧
      (i.execute world).after.machine = i.machine.start.ended pointer ∧
      i.visited world <+: i.program.instructionOffsets ∧
      ((i.execute world).exit = e.verdict.exit (i.stopOffset config g schedule) ∧
          (i.execute world).memory = e.memory ∧ i.calls world = e.calls ∨
        (∃ n ∈ schedule.evaluationOrder, config.stackLimit < g.demand n) ∧
          ∃ offset, (i.execute world).exit =
            .trapped (.stackOverflow offset config.stackLimit)) := by
  obtain ⟨code, emitted, assembled⟩ := linked.code
  have stands := Program.standsAt_of_assemble assembled
  have shorter : code.length ≤ i.program.size := by
    rw [Program.size_of_assemble assembled]
    exact length_le_codeLength code
  obtain ⟨extra, sizeEq⟩ := Nat.exists_eq_add_of_le shorter
  obtain ⟨e, ran, outcome⟩ := Evaluator.passAll_code nodup (linked.fits world) emitted
    config.stackLimit 0 (i.stopOffset config g schedule) (fun _ _ => rfl)
  -- The run follows the passage through the code, wherever the passage ends.
  have through {calls : List Call} {exit : Exit} {final : Memory ω}
      (passage : passAll i.tables.context config.stackLimit 0 code .empty
        ⟨i.values, world⟩ = ⟨calls, .exit exit final⟩) :=
    Machine.resume_of_passAll (m := i.machine.start) extra stands
      (by rw [← passage, ← linked.limit]; rfl)
  unfold visited Instance.calls execute Machine.run
  rw [Program.instructionOffsets_of_assemble assembled, sizeEq]
  rcases outcome with same | ⟨tooDeep, offset, final, overflows⟩
  · obtain ⟨⟨pointer, resumed⟩, callsEq, visitedEq⟩ := through same
    rw [resumed]
    exact ⟨e, pointer, ran, rfl, visitedEq, Or.inl ⟨rfl, rfl, callsEq⟩⟩
  · obtain ⟨⟨pointer, resumed⟩, -, visitedEq⟩ :=
      through (congrArg (Passage.mk _) overflows)
    rw [resumed]
    exact ⟨e, pointer, ran, rfl, visitedEq, Or.inr ⟨tooDeep, offset, rfl⟩⟩

/-- Compilation schedules the present node, and every instance of the compiled shape is
linked to that schedule. -/
theorem SameShape.linked {registry : Registry ω} {compiled : Instance ω}
    {before after : ω} (shape : i.SameShape compiled) (word : g.neededValues < 2 ^ 64)
    (success : Build.Succeeds (compile registry config g) before compiled after) :
    ∃ sink schedule, g.presentNode = .ok sink ∧ g.schedule sink = .ok schedule ∧
      schedule.Covers g sink ∧ i.Linked config g schedule := by
  obtain ⟨sink, schedule, present, scheduled, linked⟩ := linked_of_compile word success
  exact ⟨sink, schedule, present, scheduled, Schedule.covers_of_schedule scheduled,
    linked.of_sameShape shape⟩

end Instance

/-- With room on the stack for every node that reaches the present node, an execution of
an instance, whatever its cells, textures and operations are by now, does exactly what
evaluating the schedule does. -/
theorem execute_simulates_evaluation {registry : Registry ω} {config : Config} {g : Graph}
    {compiled i : Instance ω} {before after : ω} (word : g.neededValues < 2 ^ 64)
    (success : Build.Succeeds (compile registry config g) before compiled after)
    (shape : i.SameShape compiled)
    (room : ∀ sink n, g.presentNode = .ok sink → Reaches g.edgeList n sink →
      g.demand n ≤ config.stackLimit) (world : ω) :
    ∃ sink schedule e pointer, g.presentNode = .ok sink ∧ g.schedule sink = .ok schedule ∧
      (i.evaluator config g).run ⟨i.values, world⟩ schedule.evaluationOrder = some e ∧
      (i.execute world).exit = e.verdict.exit (i.stopOffset config g schedule) ∧
      (i.execute world).after = { i with
        values := e.memory.values
        machine := i.machine.start.ended pointer } ∧
      (i.execute world).world = e.memory.world ∧
      i.calls world = e.calls := by
  obtain ⟨sink, schedule, present, scheduled, covers, linked⟩ := shape.linked word success
  obtain ⟨e, pointer, evaluated, machineEq, -, outcome⟩ :=
    linked.execute_eq covers.nodup_evaluationOrder world
  refine ⟨sink, schedule, e, pointer, present, scheduled, evaluated, ?_⟩
  rcases outcome with ⟨exitEq, memoryEq, callsEq⟩ | ⟨⟨n, member, tooDeep⟩, -⟩
  · rw [← memoryEq, ← machineEq]
    exact ⟨exitEq, rfl, rfl, callsEq⟩
  · have enough := room sink n present (covers.mem_evaluationOrder.mp member)
    omega

/-! ## A small pipeline -/

namespace Sample

/-- A pass renders a texture, and what the texture stands for is negated and shown. -/
def graph : Graph where
  nodes := #[.pass "p" "fill", .texture "t" "RGBA8", .operator "n" (.numeric .neg),
    .present "out"]
  edges := #[(⟨0⟩, ⟨⟨0⟩, ⟨1⟩, {}⟩), (⟨1⟩, ⟨⟨1⟩, ⟨2⟩, {}⟩), (⟨2⟩, ⟨⟨2⟩, ⟨3⟩, {}⟩)]

/-- Gives one output. -/
def fill : Operation Unit where
  execute _ world := .push ⟨1⟩ (.done (true, world))

def registry : Registry Unit := ⟨[("fill", fun world => (fill, world))]⟩

def config : Config := { framebuffer := .internal, stackLimit := 1, defaultMode := .int }

def compiled : Instance Unit where
  program := ⟨#[80, 0, 0, 2, 0, 1, 1, 0, 1, 20, 1, 2, 0, 0, 255], by decide⟩
  values := #[.zero, .zero]
  textures := #[{ format := .rgba8 }]
  passes := #[⟨"p", ⟨fill, ⟨0, 1⟩, {}⟩, some 0⟩]
  framebuffers := #[{ textures := [0] }]
  defaultFramebuffer := .unbound
  symbols :=
    ⟨#["p", "t", "n", "out"],
      #[⟨1, 2, none, some 0⟩, ⟨0, 0, some 0, none⟩, ⟨0, 1, none, none⟩, {}], 2, 1, 1⟩
  machine := { stackLimit := 1 }

theorem succeeds_compile : Build.Succeeds (compile registry config graph) () compiled () :=
  Compiler.succeeds_compile_of_plan ⟨[⟨3⟩, ⟨2⟩, ⟨1⟩, ⟨0⟩], ⟨2⟩⟩ #[(⟨0⟩, 1)]
    (by decide +kernel) (by with_unfolding_all exact rfl) rfl rfl rfl rfl rfl

theorem neededValues_lt : graph.neededValues < 2 ^ 64 := by
  decide

theorem demand_le (n : NodeId) : graph.demand n ≤ 1 := by
  match n with
  | ⟨0⟩ | ⟨1⟩ | ⟨2⟩ | ⟨3⟩ => decide
  | ⟨k + 4⟩ =>
      have absent : graph.kind? ⟨k + 4⟩ = none := rfl
      simp [Graph.demand, absent]

end Sample

theorem sample_simulates_evaluation :
    ∃ sink schedule e pointer, Sample.graph.presentNode = .ok sink ∧
      Sample.graph.schedule sink = .ok schedule ∧
      (Sample.compiled.evaluator Sample.config Sample.graph).run ⟨Sample.compiled.values, ()⟩
        schedule.evaluationOrder = some e ∧
      (Sample.compiled.execute ()).exit =
        e.verdict.exit (Sample.compiled.stopOffset Sample.config Sample.graph schedule) ∧
      (Sample.compiled.execute ()).after = { Sample.compiled with
        values := e.memory.values
        machine := Sample.compiled.machine.start.ended pointer } ∧
      (Sample.compiled.execute ()).world = e.memory.world ∧
      Sample.compiled.calls () = e.calls :=
  execute_simulates_evaluation Sample.neededValues_lt Sample.succeeds_compile (.refl _)
    (fun _ n _ _ => Sample.demand_le n) ()

end FrameGraph
