import FrameGraph.Proofs.Machine.Passage
import FrameGraph.Proofs.Machine.Runs

/-!
# Containment

Bytes that no compiler has made are run as well.  Wherever they jump, also into the middle of
an instruction, the stack stays within its limit, the tables keep their sizes, and a value
slot changes only where the run comes to an instruction that writes it.  A run that ends
leaves nothing on the stack, and it halts at a halt only.
-/

namespace FrameGraph

open Instruction

variable {κ ω : Type}

/-! ## The depth of the stack -/

/-- The stack with which a program goes on is within a limit. -/
def Effect.Within (limit : Nat) : Effect κ → Prop
  | .proceed stack _ | .jump _ stack _ => stack.depth ≤ limit
  | .exit _ _ => True

namespace Instruction

theorem within_pushCell (limit offset : Nat) (c : Cell) (stack : Stack) (state : κ) :
    (pushCell limit offset c stack state).Within limit := by
  unfold pushCell
  by_cases room : stack.depth < limit
  · rw [if_pos room]
    exact room
  · rw [if_neg room]
    trivial

theorem within_operate (limit offset arity : Nat) (value? : List Cell → Option Cell)
    (stack : Stack) (state : κ) :
    (operate limit offset arity value? stack state).Within limit := by
  unfold operate
  split
  · trivial
  · split
    · trivial
    · exact within_pushCell _ _ _ _ _

theorem within_callOperation (context : Context κ) (limit offset index : Nat)
    (stack : Stack) (state : κ) :
    (callOperation context limit offset index stack state).Within limit := by
  unfold callOperation
  split
  · trivial
  · split
    · trivial
    · dsimp only
      split
      · trivial
      · split
        · trivial
        · split
          · trivial
          · next room => exact Nat.le_of_not_lt room

theorem depth_of_pop? {stack rest : Stack} {c : Cell} (popped : stack.pop? = some (c, rest)) :
    rest.depth < stack.depth := by
  have cellsEq := (Stack.pop?_eq_some_iff stack c rest).mp popped
  rw [stack.depth_eq, rest.depth_eq, cellsEq]
  exact Nat.lt_succ_self _

/-- Whatever an instruction does, the stack stays within the limit. -/
theorem within_perform (context : Context κ) {limit : Nat} (offset : Nat) (i : Instruction)
    {stack : Stack} (state : κ) (room : stack.depth ≤ limit) :
    (i.perform context limit offset stack state).Within limit := by
  cases i with
  | nop | jump target => exact room
  | push a =>
      rw [perform]
      split
      · split
        · trivial
        · exact within_pushCell _ _ _ _ _
      · split
        · trivial
        · exact within_pushCell _ _ _ _ _
  | pop a =>
      rw [perform]
      split
      · trivial
      · split
        · trivial
        · next popped =>
            split
            · trivial
            · exact Nat.le_trans (Nat.le_of_lt (depth_of_pop? popped)) room
  | numeric op mode | logical op => exact within_operate _ _ _ _ _ _
  | jumpIf expected target =>
      rw [perform]
      split
      · trivial
      · next popped =>
          have less := Nat.le_trans (Nat.le_of_lt (depth_of_pop? popped)) room
          split
          · exact less
          · exact less
  | call index => exact within_callOperation _ _ _ _ _ _
  | halt =>
      rw [perform]
      split <;> trivial

/-! ## Jumps and halts -/

end Instruction

/-- The offset to which an instruction may jump. -/
def Instruction.target? : Instruction → Option Nat
  | .jump target | .jumpIf _ target => some target.toNat
  | .nop | .push _ | .pop _ | .numeric _ _ | .logical _ | .call _ | .halt => none

/-- Only a jump leads to another place, which is its target, only a halt that finds the stack
empty halts the program, and no instruction uses up the allowed steps. -/
def Effect.AllowedFor (i : Instruction) (stack : Stack) : Effect κ → Prop
  | .proceed _ _ => True
  | .jump target _ _ => i.target? = some target
  | .exit how _ => how ≠ .outOfSteps ∧ (how = .halted → i = .halt ∧ stack = .empty)

namespace Instruction

/-- A trap is allowed for every instruction. -/
theorem allowed_trap (i : Instruction) (stack : Stack) (trap : Trap) (state : κ) :
    (Effect.exit (.trapped trap) state).AllowedFor i stack :=
  ⟨Exit.noConfusion, Exit.noConfusion⟩

theorem allowed_pushCell (i : Instruction) (before : Stack) (limit offset : Nat) (c : Cell)
    (stack : Stack) (state : κ) :
    (pushCell limit offset c stack state).AllowedFor i before := by
  unfold pushCell
  split
  · trivial
  · exact allowed_trap _ _ _ _

theorem allowed_operate (i : Instruction) (before : Stack) (limit offset arity : Nat)
    (value? : List Cell → Option Cell) (stack : Stack) (state : κ) :
    (operate limit offset arity value? stack state).AllowedFor i before := by
  unfold operate
  split
  · exact allowed_trap _ _ _ _
  · split
    · exact allowed_trap _ _ _ _
    · exact allowed_pushCell _ _ _ _ _ _ _

theorem allowed_callOperation (i : Instruction) (before : Stack) (context : Context κ)
    (limit offset index : Nat) (stack : Stack) (state : κ) :
    (callOperation context limit offset index stack state).AllowedFor i before := by
  unfold callOperation
  split
  · exact allowed_trap _ _ _ _
  · split
    · exact allowed_trap _ _ _ _
    · dsimp only
      split
      · exact ⟨Exit.noConfusion, Exit.noConfusion⟩
      · split
        · exact allowed_trap _ _ _ _
        · split
          · exact allowed_trap _ _ _ _
          · trivial

theorem allowed_perform (context : Context κ) (limit offset : Nat) (i : Instruction)
    (stack : Stack) (state : κ) :
    (i.perform context limit offset stack state).AllowedFor i stack := by
  cases i with
  | nop => trivial
  | jump target => exact rfl
  | push a =>
      rw [perform]
      split
      · split
        · exact allowed_trap _ _ _ _
        · exact allowed_pushCell _ _ _ _ _ _ _
      · split
        · exact allowed_trap _ _ _ _
        · exact allowed_pushCell _ _ _ _ _ _ _
  | pop a =>
      rw [perform]
      split
      · exact allowed_trap _ _ _ _
      · split
        · exact allowed_trap _ _ _ _
        · split
          · exact allowed_trap _ _ _ _
          · trivial
  | numeric op mode | logical op => exact allowed_operate _ _ _ _ _ _ _ _
  | jumpIf expected target =>
      rw [perform]
      split
      · exact allowed_trap _ _ _ _
      · split
        · exact rfl
        · trivial
  | call index => exact allowed_callOperation _ _ _ _ _ _ _ _
  | halt =>
      rw [perform]
      split
      · next noCells =>
          exact ⟨Exit.noConfusion, fun _ => ⟨rfl, Stack.ext (List.isEmpty_iff.mp noCells)⟩⟩
      · exact allowed_trap _ _ _ _

/-- An instruction halts the program only if it is a halt and finds the stack empty. -/
theorem eq_halt_of_halted {context : Context κ} {limit offset : Nat} {i : Instruction}
    {stack : Stack} {state final : κ}
    (halted : i.perform context limit offset stack state = .exit .halted final) :
    i = .halt ∧ stack = .empty := by
  have allowed := allowed_perform context limit offset i stack state
  rw [halted] at allowed
  exact allowed.2 rfl

end Instruction

namespace Machine

/-! ## One step -/

/-- The machine that a step leads to. -/
def Step.machine : Step κ → Machine
  | running m _ | ended _ m _ => m

/-- The state that a step leads to. -/
def Step.state : Step κ → κ
  | running _ state | ended _ _ state => state

variable {τ : Type} {context : Context κ} {program : Program} {values textures : κ → Array Cell}

/-- A machine whose next instruction writes a value slot. -/
def Writes (program : Program) (m : Machine) (slot : Nat) : Prop :=
  ∃ i c, decode program.bytes m.pointer = .ok i ∧ i.Stores m.stack slot c

/-- All that a step can lead to. -/
inductive Stepped (context : Context κ) (program : Program) (m : Machine) (state : κ) :
    Step κ → Prop where
  | undecodable {trap : Trap} (failed : decode program.bytes m.pointer = .error trap) :
      Stepped context program m state (.ended (.trapped trap) (m.ended m.pointer) state)
  | proceeds {i : Instruction} {stack : Stack} {after : κ}
      (decoded : decode program.bytes m.pointer = .ok i)
      (performed : i.perform context m.stackLimit m.pointer m.stack state =
        .proceed stack after) :
      Stepped context program m state
        (.running { m with pointer := m.pointer + i.encodedLength, stack := stack } after)
  | jumps {i : Instruction} {target : Nat} {stack : Stack} {after : κ}
      (decoded : decode program.bytes m.pointer = .ok i)
      (performed : i.perform context m.stackLimit m.pointer m.stack state =
        .jump target stack after) :
      Stepped context program m state
        (.running { m with pointer := target, stack := stack } after)
  | exits {i : Instruction} {exit : Exit} {after : κ}
      (decoded : decode program.bytes m.pointer = .ok i)
      (performed : i.perform context m.stackLimit m.pointer m.stack state =
        .exit exit after) :
      Stepped context program m state
        (.ended exit (m.ended (m.pointer + i.encodedLength)) after)

theorem stepped_step (context : Context κ) (program : Program) (m : Machine) (state : κ) :
    Stepped context program m state (m.step context program state) := by
  unfold step
  split
  · next failed => exact .undecodable failed
  · next decoded =>
      dsimp only
      split
      · next performed => exact .proceeds decoded performed
      · next performed => exact .jumps decoded performed
      · next performed => exact .exits decoded performed

namespace Stepped

variable {m last : Machine} {state final : κ} {exit : Exit} {result : Step κ}

theorem stackLimit_eq (stepped : Stepped context program m state result) :
    result.machine.stackLimit = m.stackLimit := by
  cases stepped <;> rfl

theorem depth_le (stepped : Stepped context program m state result)
    (room : m.stack.depth ≤ m.stackLimit) :
    result.machine.stack.depth ≤ m.stackLimit := by
  cases stepped with
  | undecodable failed | exits decoded performed => exact Nat.zero_le _
  | @proceeds i _ _ decoded performed | @jumps i _ _ _ decoded performed =>
      have within := within_perform context m.pointer i state room
      rw [performed] at within
      exact within

/-- What every call keeps is kept by a step that does not write over it. -/
theorem view_eq (stepped : Stepped context program m state result) (view : κ → τ)
    (calls : ∀ index inputs,
      view ((context.call state index).run inputs []).answer.2 = view state)
    (writes : ∀ slot c after, m.Writes program slot →
      context.store state slot c = some after → view after = view state) :
    view result.state = view state := by
  cases stepped with
  | undecodable failed => rfl
  | proceeds decoded performed | jumps decoded performed | exits decoded performed =>
      have kept := view_perform_of_stores calls _ m.stackLimit m.pointer m.stack
        fun slot c after stores stored => writes slot c after ⟨_, c, decoded, stores⟩ stored
      rw [performed] at kept
      exact kept

/-- A step that ends a run takes everything off the stack. -/
theorem stack_eq_empty (stepped : Stepped context program m state (.ended exit last final)) :
    last.stack = .empty ∧ last.running = false := by
  cases stepped with
  | undecodable failed => exact ⟨rfl, rfl⟩
  | exits decoded performed => exact ⟨rfl, rfl⟩

theorem exit_ne_outOfSteps (stepped : Stepped context program m state (.ended exit last final)) :
    exit ≠ .outOfSteps := by
  cases stepped with
  | undecodable failed => exact Exit.noConfusion
  | @exits i _ _ decoded performed =>
      have allowed := allowed_perform context m.stackLimit m.pointer i m.stack state
      rw [performed] at allowed
      exact allowed.1

theorem decode_eq_halt
    (stepped : Stepped context program m state (.ended .halted last final)) :
    decode program.bytes m.pointer = .ok .halt ∧ m.stack = .empty := by
  cases stepped with
  | exits decoded performed =>
      obtain ⟨rfl, noCells⟩ := eq_halt_of_halted performed
      exact ⟨decoded, noCells⟩

end Stepped

/-! ## A whole run -/

/-- What every step preserves, given the configurations passed through before it, holds in
each configuration of a run and where the run comes to. -/
theorem trace_invariant {Holds : List (Machine × κ) → Machine → κ → Prop}
    (preserved : ∀ past m state result, Stepped context program m state result →
      Holds past m state → Holds (past ++ [(m, state)]) result.machine result.state)
    {past : List (Machine × κ)} {m : Machine} {state : κ} (first : Holds past m state)
    (steps : Nat) :
    (∀ k now after, (m.trace context program steps state)[k]? = some (now, after) →
      Holds (past ++ (m.trace context program steps state).take k) now after) ∧
    Holds (past ++ m.trace context program steps state)
      (resume context program steps m state).machine
      (resume context program steps m state).state := by
  induction steps generalizing past m state with
  | zero =>
      constructor
      · intro k now after here
        cases here
      · rw [trace, List.append_nil]
        exact first
  | succ steps inductionHypothesis =>
      have next := preserved past m state _ (stepped_step context program m state) first
      rw [trace, resume]
      cases stepEq : m.step context program state with
      | running later after =>
          rw [stepEq] at next
          obtain ⟨within, final⟩ := inductionHypothesis next
          rw [List.append_assoc] at final
          constructor
          · intro k now after here
            cases k with
            | zero =>
                cases here
                rw [List.take_zero, List.append_nil]
                exact first
            | succ k =>
                have there := within k now after here
                rw [List.append_assoc] at there
                exact there
          · exact final
      | ended exit later after =>
          rw [stepEq] at next
          constructor
          · intro k now after here
            cases k with
            | zero =>
                cases here
                rw [List.take_zero, List.append_nil]
                exact first
            | succ k => cases here
          · exact next

/-- A run that ends does so in its last configuration. -/
theorem ends_of_resume {steps : Nat} {m : Machine} {state : κ}
    (ended : (resume context program steps m state).exit ≠ .outOfSteps) :
    ∃ last after, (m.trace context program steps state).getLast? = some (last, after) ∧
      Stepped context program last after
        (.ended (resume context program steps m state).exit
          (resume context program steps m state).machine
          (resume context program steps m state).state) := by
  induction steps generalizing m state with
  | zero => exact absurd rfl ended
  | succ steps inductionHypothesis =>
      rw [resume] at ended ⊢
      rw [trace]
      have stepped := stepped_step context program m state
      cases stepEq : m.step context program state with
      | ended exit later after =>
          rw [stepEq] at stepped
          exact ⟨m, state, rfl, stepped⟩
      | running later after =>
          rw [stepEq] at ended
          obtain ⟨last, final, lastEq, ends⟩ := inductionHypothesis ended
          refine ⟨last, final, ?_, ends⟩
          rw [List.getLast?_cons, lastEq]
          rfl

/-! ## Containment -/

/-- The bounds on a run from a state, after the configurations of `past`. -/
structure Contained (program : Program) (values textures : κ → Array Cell) (limit : Nat)
    (initial : κ) (past : List (Machine × κ)) (m : Machine) (state : κ) : Prop where
  stackLimit : m.stackLimit = limit
  depth : m.stack.depth ≤ limit
  size : (values state).size = (values initial).size
  textures : textures state = textures initial
  slots : ∀ slot, (values state)[slot]? ≠ (values initial)[slot]? →
    ∃ config ∈ past, config.1.Writes program slot

variable {initial : κ} {limit : Nat} {past : List (Machine × κ)} {m : Machine} {state : κ}

theorem Contained.step {result : Step κ} (tabled : context.Tabled values textures)
    (stepped : Stepped context program m state result)
    (contained : Contained program values textures limit initial past m state) :
    Contained program values textures limit initial (past ++ [(m, state)]) result.machine
      result.state where
  stackLimit := stepped.stackLimit_eq.trans contained.stackLimit
  depth := by
    have limitEq := contained.stackLimit
    subst limitEq
    exact stepped.depth_le contained.depth
  size := by
    rw [← contained.size]
    apply stepped.view_eq fun state => (values state).size
    · intro index inputs
      exact tabled.keeps_size.call state index inputs []
    · intro slot c after _ stored
      exact tabled.keeps_size.store state slot c after stored
  textures := by
    rw [← contained.textures]
    apply stepped.view_eq textures
    · intro index inputs
      exact (tabled.call state index inputs []).2
    · intro slot c after _ stored
      exact (tabled.store state slot c after stored).2
  slots slot changed := by
    by_cases here : m.Writes program slot
    · exact ⟨(m, state), List.mem_append_right past (List.mem_singleton.mpr rfl), here⟩
    · have kept : (values result.state)[slot]? = (values state)[slot]? := by
        apply stepped.view_eq fun state => (values state)[slot]?
        · intro index inputs
          exact congrArg (·[slot]?) (tabled.call state index inputs []).1
        · intro other c after writes stored
          have different : other ≠ slot := by
            intro same
            exact here (same ▸ writes)
          rw [(tabled.store state other c after stored).1]
          exact Array.getElem?_setIfInBounds_ne different
      rw [kept] at changed
      obtain ⟨config, member, writes⟩ := contained.slots slot changed
      exact ⟨config, List.mem_append_left _ member, writes⟩

/-- Every configuration of a run is contained, and so is the one in which it stops. -/
theorem contained_run (tabled : context.Tabled values textures) (program : Program)
    (m : Machine) (state : κ) (steps : Nat) :
    (∀ k now after, (m.start.trace context program steps state)[k]? = some (now, after) →
      Contained program values textures m.stackLimit state
        ((m.start.trace context program steps state).take k) now after) ∧
    Contained program values textures m.stackLimit state
      (m.start.trace context program steps state)
      (m.run context program steps state).machine
      (m.run context program steps state).state := by
  have first : Contained program values textures m.stackLimit state [] m.start state :=
    ⟨rfl, Nat.zero_le _, rfl, rfl, fun _ changed => absurd rfl changed⟩
  have preserved past now after result (stepped : Stepped context program now after result)
      (contained : Contained program values textures m.stackLimit state past now after) :
      Contained program values textures m.stackLimit state (past ++ [(now, after)])
        result.machine result.state :=
    contained.step tabled stepped
  exact trace_invariant preserved first steps

end Machine

/-! ## Any program -/

/-- A run of any bytes stays within the stack limit, keeps the size of the value table and
all of the texture table, and changes a value slot only by an instruction that writes it.
When it ends, nothing is left on the stack and the machine does not run any more, and it has
halted only in a halt that found the stack empty. -/
theorem runs_are_contained {context : Context κ} {values textures : κ → Array Cell}
    (tabled : context.Tabled values textures) (program : Program) (m : Machine) (state : κ)
    (steps : Nat) :
    let configs := m.start.trace context program steps state
    let run := m.run context program steps state
    (∀ k now after, configs[k]? = some (now, after) →
      Machine.Contained program values textures m.stackLimit state (configs.take k) now
        after) ∧
    Machine.Contained program values textures m.stackLimit state configs run.machine
      run.state ∧
    (run.exit ≠ .outOfSteps → run.machine.stack = .empty ∧ run.machine.running = false) ∧
    (run.exit = .halted → ∃ last after, configs.getLast? = some (last, after) ∧
      decode program.bytes last.pointer = .ok .halt ∧ last.stack = .empty) := by
  intro configs run
  obtain ⟨within, final⟩ := Machine.contained_run tabled program m state steps
  refine ⟨within, final, ?_, ?_⟩
  · intro ended
    obtain ⟨last, after, -, ends⟩ := Machine.ends_of_resume ended
    exact ends.stack_eq_empty
  · intro halted
    have ended : run.exit ≠ .outOfSteps := by
      rw [halted]
      exact Exit.noConfusion
    obtain ⟨last, after, lastEq, ends⟩ := Machine.ends_of_resume ended
    refine ⟨last, after, lastEq, ?_⟩
    rw [show (Machine.resume context program steps m.start state).exit = .halted from halted]
      at ends
    exact ends.decode_eq_halt

namespace Sample

/-- Bytes with a jump into the middle of what linear reading takes for one instruction:
there a write to slot 1 is found, and a halt behind it. -/
def midwayProgram : Program :=
  ⟨#[0x01, 0x00, 0x00, 0x40, 0x00, 0x07, 0x01, 0x02, 0x00, 0x01, 0xff], by decide⟩

def bareTables : Tables Unit := ⟨#[], #[]⟩

def twoSlots : Memory Unit := ⟨#[⟨7⟩, ⟨0⟩], ()⟩

end Sample

theorem midwayProgram_is_contained :
    let run := (Machine.mk 1 0 .empty false).run Sample.bareTables.context
      Sample.midwayProgram 4 Sample.twoSlots
    run.exit = .halted ∧ run.state.values = #[⟨7⟩, ⟨7⟩] ∧ run.machine.stack = .empty ∧
      ∃ config ∈ (Machine.mk 1 0 .empty false).start.trace Sample.bareTables.context
        Sample.midwayProgram 4 Sample.twoSlots, config.1.Writes Sample.midwayProgram 1 := by
  intro run
  obtain ⟨-, final, atEnd, -⟩ := runs_are_contained Sample.bareTables.tabled
    Sample.midwayProgram ⟨1, 0, .empty, false⟩ Sample.twoSlots 4
  have halted : run.exit = .halted := by rfl
  have written : run.state.values = #[⟨7⟩, ⟨7⟩] := by rfl
  have ended : run.exit ≠ .outOfSteps := by
    rw [halted]
    exact Exit.noConfusion
  have changed : run.state.values[1]? ≠ Sample.twoSlots.values[1]? := by
    rw [written]
    decide
  exact ⟨halted, written, (atEnd ended).1, final.slots 1 changed⟩

end FrameGraph
