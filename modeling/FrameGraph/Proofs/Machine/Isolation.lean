import FrameGraph.Machine.Buffered
import FrameGraph.Proofs.Machine.Runs

/-!
# Runs of a machine that has run before

A machine takes the same way through a program as a machine that has not run yet.  The
pointer, the stack and the running flag are set at the start of a run; the buffer still holds
what the last call has not taken, but every call clears it before an operation sees it.
-/

namespace FrameGraph

open Instruction

variable {κ : Type}

/-! ## What is left in the buffer -/

/-- An operation finds its own inputs in the buffer and nothing that was left there. -/
@[simp]
theorem InputBuffer.cells_fill (b : InputBuffer) (stack : Stack) (inputs : Nat) :
    (b.fill stack inputs).cells = stack.top inputs := List.append_nil (stack.top inputs)

namespace Instruction

theorem callThrough_fst (context : Context κ) (limit offset index : Nat)
    (buffer : InputBuffer) (stack : Stack) (state : κ) :
    (callThrough context limit offset index buffer stack state).1 =
      callOperation context limit offset index stack state := by
  unfold callThrough callOperation
  cases context.signature state index with
  | none => rfl
  | some signature =>
      dsimp only
      by_cases short : stack.depth < signature.inputs
      · rw [if_pos short, if_pos short]
      · rw [if_neg short, if_neg short, InputBuffer.cells_fill]

/-- What an instruction does is independent of the buffer. -/
theorem performThrough_fst (context : Context κ) (limit offset : Nat) (i : Instruction)
    (buffer : InputBuffer) (stack : Stack) (state : κ) :
    (i.performThrough context limit offset buffer stack state).1 =
      i.perform context limit offset stack state := by
  cases i with
  | call index => exact callThrough_fst _ _ _ _ _ _ _
  | nop | push a | pop a | numeric op mode | logical op | jump target
  | jumpIf expected target | halt => rfl

end Instruction

/-! ## Accesses -/

/-- One use of a context. -/
inductive Access where
  | load (index : Nat)
  | store (index : Nat) (c : Cell)
  | texture (index : Nat)
  | signature (index : Nat)
  /-- A call with the inputs that are handed over, the next one to be taken first. -/
  | call (index : Nat) (inputs : List Cell)
  deriving DecidableEq, Repr

/-- The uses that an instruction makes of a context, in order. -/
def Instruction.accesses (context : Context κ) (i : Instruction) (buffer : InputBuffer)
    (stack : Stack) (state : κ) : List Access :=
  match i with
  | .push a => [if a.isTexture then .texture a.index else .load a.index]
  | .pop a =>
    if a.isTexture then []
    else
      match stack.pop? with
      | none => []
      | some (c, _) => [.store a.index c]
  | .call index =>
    .signature index.toNat ::
      match context.signature state index.toNat with
      | none => []
      | some signature =>
        if stack.depth < signature.inputs then []
        else
          [.call index.toNat (buffer.fill stack signature.inputs).cells]
  | _ => []

theorem Instruction.accesses_eq (context : Context κ) (i : Instruction)
    (buffer other : InputBuffer) (stack : Stack) (state : κ) :
    i.accesses context buffer stack state = i.accesses context other stack state := by
  cases i with
  | call index => simp only [accesses, InputBuffer.cells_fill]
  | nop | push a | pop a | numeric op mode | logical op | jump target
  | jumpIf expected target | halt => rfl

namespace BufferedMachine

variable {context : Context κ} {program : Program}

/-- The uses of a context in the next step. -/
def stepAccesses (context : Context κ) (program : Program) (m : BufferedMachine)
    (state : κ) : List Access :=
  match decode program.bytes m.pointer with
  | .ok i => i.accesses context m.buffer m.stack state
  | .error _ => []

/-- The uses of a context that at most the given number of steps make, in order. -/
def accesses (context : Context κ) (program : Program) :
    Nat → BufferedMachine → κ → List Access
  | 0, _, _ => []
  | steps + 1, m, state =>
    m.stepAccesses context program state ++
      match m.step context program state with
      | (.running next state, buffer) => accesses context program steps ⟨next, buffer⟩ state
      | (.ended _ _ _, _) => []

/-! ## Steps and runs without the buffer -/

theorem step_fst (context : Context κ) (program : Program) (m : BufferedMachine)
    (state : κ) :
    (m.step context program state).1 = m.toMachine.step context program state := by
  unfold step Machine.step
  cases decode program.bytes m.pointer with
  | error trap => rfl
  | ok i =>
      have same := performThrough_fst context m.stackLimit m.pointer i m.buffer m.stack state
      dsimp only
      rw [← same]
      obtain ⟨effect, buffer⟩ :=
        i.performThrough context m.stackLimit m.pointer m.buffer m.stack state
      cases effect with
      | proceed stack after | jump target stack after | exit exit after => rfl

/-- A run with the buffer left out. -/
def Run.plain (run : Run κ) : Machine.Run κ :=
  ⟨run.exit, run.machine.toMachine, run.state⟩

/-- A run is a run of the machine without its buffer. -/
theorem plain_resume (context : Context κ) (program : Program) (steps : Nat)
    (m : BufferedMachine) (state : κ) :
    (resume context program steps m state).plain =
      Machine.resume context program steps m.toMachine state := by
  induction steps generalizing m state with
  | zero => rfl
  | succ steps inductionHypothesis =>
      rw [resume, Machine.resume, ← step_fst]
      obtain ⟨next, buffer⟩ := m.step context program state
      cases next with
      | running next after => exact inductionHypothesis ⟨next, buffer⟩ after
      | ended exit next after => rfl

theorem plain_run (context : Context κ) (program : Program) (steps : Nat)
    (m : BufferedMachine) (state : κ) :
    (m.run context program steps state).plain =
      m.toMachine.run context program steps state :=
  plain_resume context program steps m.start state

/-- Machines that differ in the buffer only use the context in the same way. -/
theorem accesses_congr (context : Context κ) (program : Program) (steps : Nat)
    {m other : BufferedMachine} (state : κ) (same : m.toMachine = other.toMachine) :
    m.accesses context program steps state = other.accesses context program steps state := by
  induction steps generalizing m other state with
  | zero => rfl
  | succ steps inductionHypothesis =>
      have stepSame : (m.step context program state).1 =
          (other.step context program state).1 := by
        rw [step_fst, step_fst, same]
      have here : m.stepAccesses context program state =
          other.stepAccesses context program state := by
        unfold stepAccesses
        rw [same]
        cases decode program.bytes other.pointer with
        | error trap => rfl
        | ok i => exact i.accesses_eq context m.buffer other.buffer other.stack state
      rw [accesses, accesses, here]
      generalize m.step context program state = result at stepSame ⊢
      generalize other.step context program state = otherResult at stepSame ⊢
      obtain ⟨next, buffer⟩ := result
      obtain ⟨_, otherBuffer⟩ := otherResult
      cases stepSame
      cases next with
      | running next after => exact congrArg _ (inductionHypothesis after rfl)
      | ended exit next after => rfl

/-! ## Earlier runs -/

/-- A machine with a stack limit after any number of runs of any programs in any contexts,
each ended in any way. -/
inductive LeftBy (limit : Nat) : BufferedMachine → Prop where
  | new : LeftBy limit (new limit)
  | run {κ : Type} {m : BufferedMachine} (left : LeftBy limit m) (context : Context κ)
      (program : Program) (steps : Nat) (state : κ) :
      LeftBy limit (m.run context program steps state).machine

theorem LeftBy.stackLimit_eq {limit : Nat} {m : BufferedMachine} (left : m.LeftBy limit) :
    m.stackLimit = limit := by
  induction left with
  | new => rfl
  | @run _ m left context program steps state inductionHypothesis =>
      have same := congrArg (·.machine.stackLimit) (plain_run context program steps m state)
      have kept := Machine.stackLimit_run context program steps m.toMachine state
      exact same.trans (kept.trans inductionHypothesis)

end BufferedMachine

/-! ## Nothing is carried over -/

/-- After any earlier runs a machine ends a run as a new machine with its stack limit does:
with the same exit, the same uses of the context in the same order, the same state, and the
same pointer, stack and running flag. -/
theorem earlier_runs_are_forgotten {limit : Nat} {m : BufferedMachine}
    (left : m.LeftBy limit) (context : Context κ) (program : Program) (steps : Nat)
    (state : κ) :
    let run := m.run context program steps state
    let fresh := (BufferedMachine.new limit).run context program steps state
    run.exit = fresh.exit ∧
      m.start.accesses context program steps state =
        (BufferedMachine.new limit).start.accesses context program steps state ∧
      run.state = fresh.state ∧ run.machine.toMachine = fresh.machine.toMachine := by
  intro run fresh
  have sameStart : m.start.toMachine = (BufferedMachine.new limit).start.toMachine := by
    have limitEq := left.stackLimit_eq
    subst limitEq
    rfl
  have same : run.plain = fresh.plain := by
    apply (BufferedMachine.plain_resume context program steps m.start state).trans
    rw [sameStart]
    exact (BufferedMachine.plain_run context program steps (.new limit) state).symm
  obtain ⟨exitEq, machineEq, stateEq⟩ := Machine.Run.mk.inj same
  exact ⟨exitEq, BufferedMachine.accesses_congr context program steps state sameStart, stateEq,
    machineEq⟩

namespace Sample

/-- An operation that takes none of its two inputs and stops the program, and one that gives
the number of inputs left to it. -/
def idleTables : Tables Unit where
  textures := #[]
  tasks := #[
    ⟨{ execute := fun _ world => .done (false, world) }, ⟨2, 0⟩, {}⟩,
    ⟨{ execute := fun _ world =>
        .remaining fun left => .push (.ofNat left) (.done (true, world)) }, ⟨1, 1⟩, {}⟩]

/-- Pushes slot 0 twice and calls operation 0. -/
def stoppedProgram : Program :=
  ⟨#[0x01, 0x00, 0x00, 0x01, 0x00, 0x00, 0x50, 0x00, 0x00, 0xff], by decide⟩

/-- Pushes slot 0, calls operation 1 and writes its output to slot 1. -/
def countingProgram : Program :=
  ⟨#[0x01, 0x00, 0x00, 0x50, 0x00, 0x01, 0x02, 0x00, 0x01, 0xff], by decide⟩

def oneValue : Memory Unit := ⟨#[⟨7⟩, ⟨0⟩], ()⟩

/-- A machine whose last run was stopped in a call that left both inputs in the buffer. -/
def stoppedMachine : BufferedMachine :=
  ((BufferedMachine.new 4).run idleTables.context stoppedProgram 4 oneValue).machine

end Sample

theorem stoppedMachine_counts_its_inputs :
    Sample.stoppedMachine.buffer.cells = [⟨7⟩, ⟨7⟩] ∧
      (Sample.stoppedMachine.run Sample.idleTables.context Sample.countingProgram 4
        Sample.oneValue).state.values = #[⟨7⟩, ⟨1⟩] ∧
      Sample.stoppedMachine.start.accesses Sample.idleTables.context Sample.countingProgram 4
        Sample.oneValue = [.load 0, .signature 1, .call 1 [⟨7⟩], .store 1 ⟨1⟩] := by
  have left : Sample.stoppedMachine.LeftBy 4 := .run .new _ _ _ _
  obtain ⟨-, accesses, state, -⟩ := earlier_runs_are_forgotten left Sample.idleTables.context
    Sample.countingProgram 4 Sample.oneValue
  rw [accesses, state]
  refine ⟨?_, ?_, ?_⟩ <;> rfl

end FrameGraph
