import FrameGraph.Proofs.Evaluation.Replay

/-!
# Frames one after the other

An execution depends on the constants, the tables and the world of the host, and not on
what earlier frames have left in the slots of operators and passes.
-/

namespace FrameGraph

open Instruction

variable {ω : Type}

namespace Instance

variable {config : Config} {g : Graph} {schedule : Schedule} {sink : NodeId}
  {i j compiled : Instance ω}

/-! ## Frames as evaluations -/

/-- With room for every scheduled node an execution is an evaluation of the schedule. -/
theorem Linked.exists_evaluation (linked : i.Linked config g schedule)
    (nodup : schedule.evaluationOrder.Nodup)
    (room : ∀ n ∈ schedule.evaluationOrder, g.demand n ≤ config.stackLimit) (world : ω) :
    ∃ e, (i.evaluator config g).run ⟨i.values, world⟩ schedule.evaluationOrder = some e ∧
      (i.execute world).exit = e.verdict.exit (i.stopOffset config g schedule) ∧
      (i.execute world).memory = e.memory := by
  obtain ⟨e, pointer, ran, -, -, outcome⟩ := linked.execute_eq nodup world
  rcases outcome with ⟨exitEq, memoryEq, -⟩ | ⟨⟨n, member, tooDeep⟩, -⟩
  · exact ⟨e, ran, exitEq, memoryEq⟩
  · have enough := room n member
    omega

theorem completed_of_exit_eq_halted {verdict : Verdict} {stop : NodeId → Nat}
    (halted : verdict.exit stop = .halted) : verdict = .completed := by
  cases verdict with
  | completed => rfl
  | aborted _ _ | miscounted _ _ _ _ | undefined _ => cases halted

/-- A frame that comes to its halt is a completed evaluation. -/
theorem Linked.exists_completes (linked : i.Linked config g schedule)
    (covers : schedule.Covers g sink) {world : ω}
    (halted : (i.execute world).exit = .halted) :
    ∃ e, (i.evaluator config g).Completes schedule sink ⟨i.values, world⟩ e ∧
      (i.execute world).memory = e.memory := by
  have nodup := covers.nodup_evaluationOrder
  obtain ⟨e, ran, exitEq, memoryEq⟩ :=
    linked.exists_evaluation nodup (linked.demand_le_of_halted nodup halted) world
  have completed := completed_of_exit_eq_halted (exitEq.symm.trans halted)
  exact ⟨e, ⟨linked.symbols, linked.values, covers, linked.provides world, ran, completed⟩,
    memoryEq⟩

/-- A frame that follows a completed one, in whatever world and however it ends, leaves
the same value memory behind. -/
theorem Linked.values_of_second_frame (linked : i.Linked config g schedule)
    (covers : schedule.Covers g sink) (frugal : i.symbols.Frugal g)
    (byInputs : i.tables.OutputsByInputs) {world : ω}
    (halted : (i.execute world).exit = .halted) (next : ω) :
    ((i.execute world).after.execute next).after.values = (i.execute world).after.values := by
  have nodup := covers.nodup_evaluationOrder
  obtain ⟨e, completes, memoryEq⟩ := linked.exists_completes covers halted
  have again : (i.execute world).after.Linked config g schedule :=
    linked.of_sameShape (sameShape_execute i world)
  obtain ⟨last, ran, -, lastMemory⟩ :=
    again.exists_evaluation nodup (linked.demand_le_of_halted nodup halted) next
  have valuesEq : (i.execute world).after.values = e.memory.values :=
    congrArg Memory.values memoryEq
  have start : (⟨(i.execute world).after.values, next⟩ : Memory ω).values = e.memory.values :=
    valuesEq
  have kept := completes.values_of_run frugal byInputs start ran
  exact (congrArg Memory.values lastMemory).trans (kept.trans valuesEq.symm)

/-! ## Frames from other values -/

/-- The offset behind the code of a node. -/
def endOffset (i : Instance ω) (config : Config) (g : Graph) (schedule : Schedule) :
    NodeId → Nat :=
  Emitter.endIn ⟨g, i.symbols, config.defaultMode⟩ 0 schedule.evaluationOrder

/-- Instances of one shape whose tables and constants are equal run in the same way. -/
theorem runsAgree_of_sameConstants {code : List Instruction}
    (covers : schedule.Covers g sink) (frugal : compiled.symbols.Frugal g)
    (coded : Emitter.code ⟨g, compiled.symbols, config.defaultMode⟩
      schedule.evaluationOrder = .ok code)
    (assembled : Program.assemble code = .ok compiled.program)
    (iShape : i.SameShape compiled) (jShape : j.SameShape compiled)
    (sameConstants : ∀ n slot, g.kind? n = some .float → compiled.symbols.Owns n slot →
      i.values[slot]? = j.values[slot]?) (world : ω) :
    Machine.RunsAgree i.tables.context i.program i.program.size i.machine.start
      ⟨i.values, world⟩ ⟨j.values, world⟩
      (Machine.WrittenBy (Emitter.Filled ⟨g, compiled.symbols, config.defaultMode⟩ []) 0
        code) := by
  have stands : StandsAt i.program.bytes i.machine.start.pointer code := by
    rw [iShape.program]
    exact Program.standsAt_of_assemble assembled
  have agrees : Memory.AgreesOn
      (Emitter.Filled ⟨g, compiled.symbols, config.defaultMode⟩ [])
      (⟨i.values, world⟩ : Memory ω) ⟨j.values, world⟩ := by
    refine ⟨rfl, iShape.values.trans jShape.values.symm, ?_⟩
    rintro slot ⟨n, owns, isFloat | absent⟩
    · exact sameConstants n slot isFloat owns
    · exact absurd absent List.not_mem_nil
  have reads := Emitter.readsWithin_code covers frugal (List.nil_append _).symm coded
  exact Machine.runsAgree_of_readsWithin i.program.size stands (Emitter.getLast?_code coded)
    reads agrees

end Instance

/-- No value of an earlier frame is ever read.  Two states of an instance that differ at
most in the slots of operators and passes execute in the same way: they end alike, make
the same calls, leave the same world and agree on all slots of the nodes whose code they
have gone through.  If the value slots fit a word and the outputs of operations depend on
their inputs only, then a frame that follows a completed one changes no value. -/
theorem no_stale_value_is_read {registry : Registry ω} {config : Config} {g : Graph}
    {compiled i j : Instance ω} {before after : ω}
    (success : Build.Succeeds (compile registry config g) before compiled after)
    (iShape : i.SameShape compiled) (jShape : j.SameShape compiled)
    (sameTables : i.tables = j.tables)
    (sameConstants : ∀ n slot, g.kind? n = some .float → compiled.symbols.Owns n slot →
      i.values[slot]? = j.values[slot]?) (world : ω) :
    ∃ sink schedule, g.presentNode = .ok sink ∧ g.schedule sink = .ok schedule ∧
      (i.execute world).exit = (j.execute world).exit ∧
      i.calls world = j.calls world ∧ i.visited world = j.visited world ∧
      (i.execute world).world = (j.execute world).world ∧
      (∀ n ∈ schedule.evaluationOrder,
        compiled.endOffset config g schedule n ∈ i.visited world →
          ∀ slot, compiled.symbols.Owns n slot →
            (i.execute world).after.values[slot]? = (j.execute world).after.values[slot]?) ∧
      (g.neededValues < 2 ^ 64 → i.tables.OutputsByInputs →
        (i.execute world).exit = .halted → ∀ next,
          ((i.execute world).after.execute next).after.values =
            (i.execute world).after.values) := by
  obtain ⟨sink, schedule, code, present, scheduled, covers, frugal, coded, assembled⟩ :=
    Instance.code_of_compile success
  have startEq : i.machine.start = j.machine.start := by
    unfold Machine.start
    rw [iShape.limit, jShape.limit]
  have programEq : i.program = j.program := iShape.program.trans jShape.program.symm
  have agree := Instance.runsAgree_of_sameConstants covers frugal coded assembled iShape jShape
    sameConstants world
  have secondRun : Machine.resume i.tables.context i.program i.program.size i.machine.start
      ⟨j.values, world⟩ =
        j.machine.run j.tables.context j.program j.program.size ⟨j.values, world⟩ := by
    rw [Machine.run, sameTables, programEq, startEq]
  refine ⟨sink, schedule, present, scheduled, ?_, ?_, ?_, ?_, ?_, ?_⟩
  · exact agree.exit.trans (congrArg Machine.Run.exit secondRun)
  · unfold Instance.calls
    rw [← sameTables, ← programEq, ← startEq]
    exact agree.calls
  · unfold Instance.visited
    rw [← sameTables, ← programEq, ← startEq]
    exact agree.visited
  · exact agree.memory.world.trans (congrArg (fun run => run.state.world) secondRun)
  · intro n member passed slot owns
    have readSecond := congrArg (fun run => run.state.values[slot]?) secondRun
    refine (agree.memory.values slot ?_).trans readSecond
    -- Constants agree from the start, all other slots once their node has popped them.
    by_cases isFloat : g.kind? n = some .float
    · exact Or.inl ⟨n, owns, Or.inl isFloat⟩
    · obtain ⟨piece, later, split, endEq, popped⟩ :=
        Emitter.exists_piece_of_endIn 0 frugal coded member isFloat
      exact Or.inr ⟨piece, later, split, endEq ▸ passed, popped slot owns⟩
  · intro word byInputs halted next
    obtain ⟨_, _, -, -, otherCovers, linked⟩ := iShape.linked word success
    exact linked.values_of_second_frame otherCovers (iShape.symbols ▸ frugal) byInputs
      halted next

namespace Sample

/-- A constant is handed to a pass, and what the pass gives is negated and shown. -/
def relay : Graph where
  nodes := #[.float "x" ⟨0⟩, .pass "p" "fill", .operator "n" (.numeric .neg),
    .present "out"]
  edges := #[(⟨0⟩, ⟨⟨0⟩, ⟨1⟩, {}⟩), (⟨1⟩, ⟨⟨1⟩, ⟨2⟩, {}⟩), (⟨2⟩, ⟨⟨2⟩, ⟨3⟩, {}⟩)]

def relayed : Instance Unit where
  program := ⟨#[1, 0, 0, 80, 0, 0, 2, 0, 2, 1, 0, 2, 20, 1, 2, 0, 1, 255], by decide⟩
  values := #[.zero, .zero, .zero]
  textures := #[]
  passes := #[⟨"p", ⟨fill, ⟨1, 1⟩, {}⟩, none⟩]
  framebuffers := #[]
  defaultFramebuffer := .unbound
  symbols :=
    ⟨#["x", "p", "n", "out"],
      #[⟨0, 1, none, none⟩, ⟨2, 3, none, some 0⟩, ⟨1, 2, none, none⟩, {}], 3, 0, 1⟩
  machine := { stackLimit := 1 }

theorem succeeds_compile_relay :
    Build.Succeeds (compile registry config relay) () relayed () :=
  Compiler.succeeds_compile_of_plan ⟨[⟨3⟩, ⟨2⟩, ⟨1⟩, ⟨0⟩], ⟨2⟩⟩ #[(⟨1⟩, 1)]
    (by decide +kernel) (by with_unfolding_all exact rfl) rfl rfl rfl rfl rfl

/-- The relay with values of an earlier frame in the slots of its operator and its pass. -/
def stale : Instance Unit := { relayed with values := #[.zero, ⟨7⟩, ⟨9⟩] }

theorem kind?_relay {n : NodeId} (isFloat : relay.kind? n = some .float) : n = ⟨0⟩ := by
  match n with
  | ⟨0⟩ => rfl
  | ⟨1⟩ | ⟨2⟩ | ⟨3⟩ => cases isFloat
  | ⟨k + 4⟩ => cases isFloat

theorem outputsByInputs_relayed : relayed.tables.OutputsByInputs := by
  intro task member world other inputs
  rfl

end Sample

theorem no_stale_value_in_relay :
    ∃ sink schedule, Sample.relay.presentNode = .ok sink ∧
      Sample.relay.schedule sink = .ok schedule ∧
      (Sample.relayed.execute ()).exit = (Sample.stale.execute ()).exit ∧
      Sample.relayed.calls () = Sample.stale.calls () ∧
      Sample.relayed.visited () = Sample.stale.visited () ∧
      (∀ n ∈ schedule.evaluationOrder,
        Sample.relayed.endOffset Sample.config Sample.relay schedule n ∈
          Sample.relayed.visited () →
            ∀ slot, Sample.relayed.symbols.Owns n slot →
              (Sample.relayed.execute ()).after.values[slot]? =
                (Sample.stale.execute ()).after.values[slot]?) ∧
      ∀ next, ((Sample.relayed.execute ()).after.execute next).after.values =
        (Sample.relayed.execute ()).after.values := by
  have sameConstants (n : NodeId) (slot : Nat) (isFloat : Sample.relay.kind? n = some .float)
      (owns : Sample.relayed.symbols.Owns n slot) :
      Sample.relayed.values[slot]? = Sample.stale.values[slot]? := by
    obtain rfl := Sample.kind?_relay isFloat
    obtain rfl : slot = 0 := Nat.lt_one_iff.mp owns.2
    rfl
  have halted : (Sample.relayed.execute ()).exit = .halted := by
    decide +kernel
  obtain ⟨sink, schedule, present, scheduled, exits, calls, visited, -, values, later⟩ :=
    no_stale_value_is_read Sample.succeeds_compile_relay (.refl _)
      (show Sample.stale.SameShape Sample.relayed from ⟨rfl, rfl, rfl, rfl, rfl, rfl⟩) rfl
      sameConstants ()
  exact ⟨sink, schedule, present, scheduled, exits, calls, visited, values,
    later (by decide) Sample.outputsByInputs_relayed halted⟩

end FrameGraph
