import FrameGraph.Proofs.Machine.Containment

/-!
# Forward programs

A program may jump into the middle of an instruction, past its end, or back to where it has
been.  If no jump leads back, wherever in the bytes one can be read, each step moves the
pointer forward.  The bytes behind the pointer then bound what is left of a run, and the run
ends by itself.
-/

namespace FrameGraph

open Instruction

variable {κ : Type}

/-- Wherever a jump can be read, also inside of another instruction, it leads forward. -/
def Program.Forward (p : Program) : Prop :=
  ∀ offset i target, decode p.bytes offset = .ok i → i.target? = some target → offset < target

theorem Instruction.inside_of_decode {bytes : Array UInt8} {offset : Nat} {i : Instruction}
    (decoded : decode bytes offset = .ok i) : offset < bytes.size := by
  by_contra outside
  have noByte : bytes[offset]? = none := Array.getElem?_eq_none (Nat.le_of_not_lt outside)
  simp [decode, noByte] at decoded

instance (p : Program) : Decidable p.Forward :=
  decidable_of_iff (∀ offset < p.size, ∀ i ∈ (decode p.bytes offset).toOption,
      ∀ target ∈ i.target?, offset < target) <| by
    constructor
    · intro bounded offset i target decoded leads
      refine bounded offset (inside_of_decode decoded) i ?_ target leads
      rw [decoded]
      rfl
    · intro forward offset _ i member target leads
      cases decoded : decode p.bytes offset with
      | error trap => simp [decoded, Except.toOption] at member
      | ok j =>
          rw [decoded] at member
          cases member
          exact forward offset i target decoded leads

namespace Machine

variable {context : Context κ} {program : Program} {m next : Machine} {state after : κ}

/-- The instructions that a run of at most the given number of steps performs, in order.  A
step that finds no instruction performs none. -/
def executed (context : Context κ) (program : Program) (steps : Nat) (m : Machine)
    (state : κ) : List Instruction :=
  (m.trace context program steps state).filterMap fun config =>
    (decode program.bytes config.1.pointer).toOption

theorem executed_succ (context : Context κ) (program : Program) (steps : Nat) (m : Machine)
    (state : κ) :
    m.executed context program (steps + 1) state =
      (decode program.bytes m.pointer).toOption.toList ++
        match m.step context program state with
        | .running next after => next.executed context program steps after
        | .ended _ _ _ => [] := by
  rw [executed, trace, List.filterMap_cons]
  cases m.step context program state <;>
    cases (decode program.bytes m.pointer).toOption <;> rfl

/-- A step that goes on moves the pointer forward, from an offset inside of the program. -/
theorem Stepped.pointer_lt (forward : program.Forward)
    (stepped : Stepped context program m state (.running next after)) :
    m.pointer < program.size ∧ m.pointer < next.pointer := by
  cases stepped with
  | @proceeds i _ _ decoded performed =>
      exact ⟨inside_of_decode decoded, Nat.lt_add_of_pos_right i.encodedLength_pos⟩
  | @jumps i target _ _ decoded performed =>
      have allowed := allowed_perform context m.stackLimit m.pointer i m.stack state
      rw [performed] at allowed
      exact ⟨inside_of_decode decoded, forward m.pointer i target decoded allowed⟩

/-- A run of a forward program performs at most as many instructions as bytes are left. -/
theorem length_executed_le (forward : program.Forward) (steps : Nat) (m : Machine)
    (state : κ) :
    (m.executed context program steps state).length ≤ program.size - m.pointer := by
  induction steps generalizing m state with
  | zero => exact Nat.zero_le _
  | succ steps inductionHypothesis =>
      rw [executed_succ]
      cases decoded : decode program.bytes m.pointer with
      | error trap => simp [step, decoded, Except.toOption]
      | ok i =>
          have inside : m.pointer < program.size := inside_of_decode decoded
          have stepped := stepped_step context program m state
          cases stepEq : m.step context program state with
          | running next after =>
              rw [stepEq] at stepped
              have moved := stepped.pointer_lt forward
              have later := inductionHypothesis next after
              simp only [Except.toOption, Option.toList_some, List.singleton_append,
                List.length_cons]
              omega
          | ended exit last final =>
              simp only [Except.toOption, Option.toList_some, List.singleton_append,
                List.length_cons, List.length_nil]
              omega

/-- A run of a forward program ends once it may take more steps than bytes are left. -/
theorem resume_ends (forward : program.Forward) {steps : Nat} {m : Machine} {state : κ}
    (enough : program.size - m.pointer < steps) :
    (resume context program steps m state).exit ≠ .outOfSteps := by
  induction steps generalizing m state with
  | zero => exact absurd enough (Nat.not_lt_zero _)
  | succ steps inductionHypothesis =>
      have stepped := stepped_step context program m state
      rw [resume]
      cases stepEq : m.step context program state with
      | running next after =>
          rw [stepEq] at stepped
          have moved := stepped.pointer_lt forward
          apply inductionHypothesis
          omega
      | ended exit last final =>
          rw [stepEq] at stepped
          exact stepped.exit_ne_outOfSteps

end Machine

/-- A program in which no jump leads back ends by itself in a halt, a stop or a trap, in any
context and under any stack limit.  One step more than the program has bytes is enough for the
whole run, and at most as many instructions as it has bytes are performed. -/
theorem forward_programs_end {program : Program} (forward : program.Forward)
    (context : Context κ) (m : Machine) (state : κ) :
    let run := m.run context program (program.size + 1) state
    run.exit ≠ .outOfSteps ∧
      (∀ steps, program.size < steps → m.run context program steps state = run) ∧
      ∀ steps, (m.start.executed context program steps state).length ≤ program.size := by
  intro run
  have ended : run.exit ≠ .outOfSteps :=
    Machine.resume_ends forward (Nat.lt_succ_of_le (Nat.sub_le _ _))
  refine ⟨ended, ?_, ?_⟩
  · intro steps enough
    obtain ⟨extra, stepsEq⟩ := Nat.exists_eq_add_of_lt enough
    have budget : steps = program.size + 1 + extra := by omega
    rw [budget]
    exact Machine.resume_add ended extra
  · intro steps
    exact Machine.length_executed_le forward steps m.start state

namespace Sample

/-- Jumps into the middle of a push, where a comparison is read, and then past the end. -/
def leapingProgram : Program :=
  ⟨#[0x01, 0x00, 0x00, 0x01, 0x00, 0x00, 0x40, 0x00, 0x0a, 0x01, 0x20, 0x00, 0x41, 0x00, 0x20,
    0xff], by decide⟩

end Sample

theorem leapingProgram_ends :
    Sample.leapingProgram.Forward ∧
      (∀ steps, 16 < steps → ((Machine.mk 4 0 .empty false).run Sample.bareTables.context
        Sample.leapingProgram steps Sample.twoSlots).exit = .trapped (.pointerOutOfRange 32)) ∧
      ∀ steps, ((Machine.mk 4 0 .empty false).start.executed Sample.bareTables.context
        Sample.leapingProgram steps Sample.twoSlots).length ≤ 16 := by
  have forward : Sample.leapingProgram.Forward := by decide
  obtain ⟨-, same, performed⟩ := forward_programs_end forward Sample.bareTables.context
    ⟨4, 0, .empty, false⟩ Sample.twoSlots
  refine ⟨forward, ?_, performed⟩
  intro steps enough
  rw [same steps enough]
  rfl

end FrameGraph
