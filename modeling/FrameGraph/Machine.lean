import FrameGraph.Program
import FrameGraph.Stack
import FrameGraph.Work

/-!
# The stack machine

A machine has an instruction pointer and an operand stack.  Value memory, textures
and operations are reached through a context, so that the machine can run over any
tables.  One step decodes and performs one instruction; a run takes steps until the
program halts, an operation stops it, a trap ends it, or the allowed number of steps
is used up.
-/

namespace FrameGraph

/-! ## Contexts -/

/-- The declared stack effect of an operation. -/
structure Signature where
  inputs : Nat
  outputs : Nat
  deriving DecidableEq, Repr

/-- The tables that a machine reads and writes, over a state of type `κ`. -/
structure Context (κ : Type) where
  load : κ → Nat → Option Cell
  /-- The state after writing a value slot, if the slot exists. -/
  store : κ → Nat → Cell → Option κ
  texture : κ → Nat → Option Cell
  signature : κ → Nat → Option Signature
  /-- The work of an operation; it answers whether the program goes on. -/
  call : κ → Nat → Work (Bool × κ)

/-! ## One instruction -/

inductive Exit where
  /-- A halt was reached with an empty stack. -/
  | halted
  /-- The operation called at `offset` stopped the program. -/
  | aborted (operation offset : Nat)
  | trapped (trap : Trap)
  /-- The allowed number of steps was used up. -/
  | outOfSteps
  deriving DecidableEq, Repr

/-- What performing one instruction leads to. -/
inductive Effect (κ : Type) where
  | proceed (stack : Stack) (state : κ)
  | jump (target : Nat) (stack : Stack) (state : κ)
  | exit (exit : Exit) (state : κ)

namespace Instruction

variable {κ : Type}

/-- Pushes a cell on a stack that is not full. -/
def pushCell (limit offset : Nat) (c : Cell) (stack : Stack) (state : κ) : Effect κ :=
  if stack.depth < limit then .proceed (stack.push c) state
  else .exit (.trapped (.stackOverflow offset limit)) state

/-- Replaces the operands of an operator by its value.  The last operand is on top. -/
def operate (limit offset arity : Nat) (value? : List Cell → Option Cell)
    (stack : Stack) (state : κ) : Effect κ :=
  if stack.depth < arity then .exit (.trapped (.stackUnderflow offset)) state
  else
    match value? (stack.top arity).reverse with
    | none => .exit (.trapped (.divisionByZero offset)) state
    | some c => pushCell limit offset c (stack.drop arity) state

/-- Calls an operation: its inputs leave the stack, it works on them, and its outputs
go on what was below them. -/
def callOperation (context : Context κ) (limit offset index : Nat) (stack : Stack)
    (state : κ) : Effect κ :=
  match context.signature state index with
  | none => .exit (.trapped (.unknownOperation offset index)) state
  | some signature =>
    if stack.depth < signature.inputs then
      .exit (.trapped (.stackUnderflow offset)) state
    else
      let outcome :=
        (context.call state index).run (stack.top signature.inputs) []
      let (goesOn, state) := outcome.answer
      let stack := (stack.drop signature.inputs).pushAll outcome.outputs
      if !goesOn then .exit (.aborted index offset) state
      else if outcome.outputs.length ≠ signature.outputs then
        .exit (.trapped (.outputCountMismatch offset index signature.outputs
          outcome.outputs.length)) state
      else if limit < stack.depth then
        .exit (.trapped (.stackOverflow offset limit)) state
      else .proceed stack state

/-- Performs the instruction at `offset` on a stack of at most `limit` cells. -/
def perform (context : Context κ) (limit offset : Nat) (i : Instruction)
    (stack : Stack) (state : κ) : Effect κ :=
  match i with
  | .nop => .proceed stack state
  | .push a =>
    if a.isTexture then
      match context.texture state a.index with
      | none => .exit (.trapped (.textureAddressOutOfRange offset a.index)) state
      | some c => pushCell limit offset c stack state
    else
      match context.load state a.index with
      | none => .exit (.trapped (.valueAddressOutOfRange offset a.index)) state
      | some c => pushCell limit offset c stack state
  | .pop a =>
    if a.isTexture then .exit (.trapped (.texturePop offset)) state
    else
      match stack.pop? with
      | none => .exit (.trapped (.stackUnderflow offset)) state
      | some (c, rest) =>
        match context.store state a.index c with
        | none => .exit (.trapped (.valueAddressOutOfRange offset a.index)) state
        | some state => .proceed rest state
  | .numeric op mode => operate limit offset op.arity (op.eval? mode) stack state
  | .logical op => operate limit offset op.arity op.eval? stack state
  | .jump target => .jump target.toNat stack state
  | .jumpIf expected target =>
    match stack.pop? with
    | none => .exit (.trapped (.stackUnderflow offset)) state
    | some (c, rest) =>
      if c.toBool = expected then .jump target.toNat rest state
      else .proceed rest state
  | .call index => callOperation context limit offset index.toNat stack state
  | .halt =>
    if stack.isEmpty then .exit .halted state
    else .exit (.trapped (.unbalancedStack offset stack.depth)) state

end Instruction

/-! ## Machines -/

structure Machine where
  stackLimit : Nat
  pointer : Nat := 0
  stack : Stack := .empty
  running : Bool := false
  deriving DecidableEq, Repr

namespace Machine

variable {κ : Type}

inductive Step (κ : Type) where
  | running (machine : Machine) (state : κ)
  | ended (exit : Exit) (machine : Machine) (state : κ)

/-- Decodes and performs one instruction.  The pointer moves past the instruction
before it is performed, and an ended machine has an empty stack. -/
def step (context : Context κ) (program : Program) (m : Machine) (state : κ) : Step κ :=
  match Instruction.decode program.bytes m.pointer with
  | .error trap =>
    .ended (.trapped trap) { m with stack := .empty, running := false } state
  | .ok i =>
    let next := m.pointer + i.encodedLength
    match i.perform context m.stackLimit m.pointer m.stack state with
    | .proceed stack state => .running { m with pointer := next, stack := stack } state
    | .jump target stack state =>
      .running { m with pointer := target, stack := stack } state
    | .exit exit state =>
      .ended exit { m with pointer := next, stack := .empty, running := false } state

structure Run (κ : Type) where
  exit : Exit
  machine : Machine
  state : κ

/-- Takes at most the given number of steps. -/
def resume (context : Context κ) (program : Program) : Nat → Machine → κ → Run κ
  | 0, m, state => ⟨.outOfSteps, m, state⟩
  | steps + 1, m, state =>
    match m.step context program state with
    | .running m state => resume context program steps m state
    | .ended exit m state => ⟨exit, m, state⟩

def start (m : Machine) : Machine :=
  { m with pointer := 0, stack := .empty, running := true }

/-- Runs a program from its first byte for at most the given number of steps. -/
def run (context : Context κ) (program : Program) (steps : Nat) (m : Machine)
    (state : κ) : Run κ :=
  resume context program steps m.start state

end Machine

end FrameGraph
