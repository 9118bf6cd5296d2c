import FrameGraph.Machine

/-!
# Machines with an input buffer

A machine hands the inputs of a call over in a buffer that it keeps from call to call and
from run to run.  What an operation does not take stays in the buffer until the next call
clears it, also when the call has stopped the program or ends in a trap.
-/

namespace FrameGraph

/-! ## Input buffers -/

structure InputBuffer where
  /-- The next input to be taken comes first. -/
  cells : List Cell := []
  deriving DecidableEq, Repr

namespace InputBuffer

def clear (_ : InputBuffer) : InputBuffer := ⟨[]⟩

/-- Puts cells in front of those that are there: they are taken first, in the given order. -/
def extend (b : InputBuffer) (cells : List Cell) : InputBuffer := ⟨cells ++ b.cells⟩

/-- The buffer that an operation finds: cleared, and then filled from the top of the stack. -/
def fill (b : InputBuffer) (stack : Stack) (inputs : Nat) : InputBuffer :=
  b.clear.extend (stack.top inputs)

end InputBuffer

/-! ## One instruction -/

namespace Instruction

variable {κ : Type}

/-- Calls an operation on the cells of the buffer, which gets the inputs from the stack and
keeps what the operation does not take. -/
def callThrough (context : Context κ) (limit offset index : Nat) (buffer : InputBuffer)
    (stack : Stack) (state : κ) : Effect κ × InputBuffer :=
  match context.signature state index with
  | none => (.exit (.trapped (.unknownOperation offset index)) state, buffer)
  | some signature =>
    if stack.depth < signature.inputs then
      (.exit (.trapped (.stackUnderflow offset)) state, buffer)
    else
      let buffer := buffer.fill stack signature.inputs
      let outcome := (context.call state index).run buffer.cells []
      let (goesOn, state) := outcome.answer
      let stack := (stack.drop signature.inputs).pushAll outcome.outputs
      let effect : Effect κ :=
        if !goesOn then .exit (.aborted index offset) state
        else if outcome.outputs.length ≠ signature.outputs then
          .exit (.trapped (.outputCountMismatch offset index signature.outputs
            outcome.outputs.length)) state
        else if limit < stack.depth then
          .exit (.trapped (.stackOverflow offset limit)) state
        else .proceed stack state
      (effect, ⟨outcome.inputs⟩)

/-- Performs the instruction at `offset`; only a call uses the buffer. -/
def performThrough (context : Context κ) (limit offset : Nat) (i : Instruction)
    (buffer : InputBuffer) (stack : Stack) (state : κ) : Effect κ × InputBuffer :=
  match i with
  | .call index => callThrough context limit offset index.toNat buffer stack state
  | i => (i.perform context limit offset stack state, buffer)

end Instruction

/-! ## Machines -/

structure BufferedMachine extends Machine where
  buffer : InputBuffer := {}
  deriving DecidableEq, Repr

namespace BufferedMachine

variable {κ : Type}

def new (limit : Nat) : BufferedMachine := { stackLimit := limit }

/-- Decodes and performs one instruction. -/
def step (context : Context κ) (program : Program) (m : BufferedMachine) (state : κ) :
    Machine.Step κ × InputBuffer :=
  match Instruction.decode program.bytes m.pointer with
  | .error trap =>
    (.ended (.trapped trap) { m.toMachine with stack := .empty, running := false } state,
      m.buffer)
  | .ok i =>
    let next := m.pointer + i.encodedLength
    match i.performThrough context m.stackLimit m.pointer m.buffer m.stack state with
    | (.proceed stack state, buffer) =>
      (.running { m.toMachine with pointer := next, stack := stack } state, buffer)
    | (.jump target stack state, buffer) =>
      (.running { m.toMachine with pointer := target, stack := stack } state, buffer)
    | (.exit exit state, buffer) =>
      (.ended exit { m.toMachine with pointer := next, stack := .empty, running := false }
        state, buffer)

structure Run (κ : Type) where
  exit : Exit
  machine : BufferedMachine
  state : κ

/-- Takes at most the given number of steps. -/
def resume (context : Context κ) (program : Program) : Nat → BufferedMachine → κ → Run κ
  | 0, m, state => ⟨.outOfSteps, m, state⟩
  | steps + 1, m, state =>
    match m.step context program state with
    | (.running next state, buffer) => resume context program steps ⟨next, buffer⟩ state
    | (.ended exit next state, buffer) => ⟨exit, ⟨next, buffer⟩, state⟩

/-- The buffer stays as the last call has left it. -/
def start (m : BufferedMachine) : BufferedMachine := ⟨m.toMachine.start, m.buffer⟩

/-- Runs a program from its first byte for at most the given number of steps. -/
def run (context : Context κ) (program : Program) (steps : Nat) (m : BufferedMachine)
    (state : κ) : Run κ :=
  resume context program steps m.start state

end BufferedMachine

end FrameGraph
