import FrameGraph.Proofs.Machine.Containment
import FrameGraph.Proofs.Machine.Isolation

/-!
# Calls and the stack of the caller

An operation works on the machine's own buffer and on its own stack.  The inputs of the call
have been moved into the buffer, from which they are taken, and the outputs go on what was
below the inputs.  Whatever the order of its requests is, an operation gets back none of its
outputs, and it can neither see nor change the stack below its inputs.
-/

namespace FrameGraph

open Instruction

/-! ## Parameters -/

/-- The buffer and the stack of a machine as an operation uses them during one call. -/
structure Parameters where
  buffer : InputBuffer
  stack : Stack
  /-- The number of outputs put on the stack. -/
  pushed : Nat := 0
  deriving DecidableEq, Repr

namespace Parameters

/-- Takes the next input, if one is left. -/
def pop (p : Parameters) : Option Cell × Parameters :=
  match p.buffer.cells with
  | [] => (none, p)
  | c :: rest => (some c, { p with buffer := ⟨rest⟩ })

def push (p : Parameters) (c : Cell) : Parameters :=
  { p with stack := p.stack.push c, pushed := p.pushed + 1 }

def remaining (p : Parameters) : Nat := p.buffer.cells.length

end Parameters

/-- One use of the parameters, with the answer that it gets. -/
inductive Request where
  | pop (answer : Option Cell)
  | push (output : Cell)
  | remaining (answer : Nat)
  deriving DecidableEq, Repr

namespace Request

def popped? : Request → Option (Option Cell)
  | pop answer => some answer
  | push _ | remaining _ => none

def pushed? : Request → Option Cell
  | push output => some output
  | pop _ | remaining _ => none

/-- The answers to the pops, in order. -/
def popped (requests : List Request) : List (Option Cell) := requests.filterMap popped?

/-- The outputs, in the order in which they are pushed. -/
def pushed (requests : List Request) : List Cell := requests.filterMap pushed?

end Request

/-- What came of a work on parameters. -/
structure Service (α : Type) where
  answer : α
  /-- The requests of the work, in order. -/
  requests : List Request
  /-- The parameters as the work has left them. -/
  parameters : Parameters

/-- A work with one request more, made before all others. -/
def Service.behind {α : Type} (r : Request) (s : Service α) : Service α :=
  { s with requests := r :: s.requests }

namespace Work

variable {α : Type}

/-- Does a work on parameters, request by request. -/
def serve : Work α → Parameters → Service α
  | done a, p => ⟨a, [], p⟩
  | pop next, p => ((next p.pop.1).serve p.pop.2).behind (.pop p.pop.1)
  | push c next, p => (next.serve (p.push c)).behind (.push c)
  | remaining next, p => ((next p.remaining).serve p).behind (.remaining p.remaining)

end Work

/-! ## What a request changes -/

namespace Parameters

theorem pop_fst (p : Parameters) : p.pop.1 = p.buffer.cells.head? := by
  unfold pop
  cases p.buffer.cells <;> rfl

@[simp]
theorem cells_pop_snd (p : Parameters) : p.pop.2.buffer.cells = p.buffer.cells.tail := by
  unfold pop
  cases cellsEq : p.buffer.cells with
  | nil => exact cellsEq
  | cons c rest => rfl

@[simp]
theorem stack_pop_snd (p : Parameters) : p.pop.2.stack = p.stack := by
  unfold pop
  cases p.buffer.cells <;> rfl

@[simp]
theorem pushed_pop_snd (p : Parameters) : p.pop.2.pushed = p.pushed := by
  unfold pop
  cases p.buffer.cells <;> rfl

end Parameters

/-! ## What all requests come to -/

namespace Work

variable {α : Type}

open Request

/-- The outputs lie on what was on the stack before, the last one on top. -/
theorem stack_serve (w : Work α) (p : Parameters) :
    (w.serve p).parameters.stack.cells =
      (pushed (w.serve p).requests).reverse ++ p.stack.cells := by
  induction w generalizing p with
  | done a => rfl
  | pop next inductionHypothesis =>
      have later := inductionHypothesis p.pop.1 p.pop.2
      rw [Parameters.stack_pop_snd] at later
      exact later
  | push c next inductionHypothesis =>
      have later := inductionHypothesis (p.push c)
      simpa [serve, Service.behind, pushed, pushed?, Parameters.push] using later
  | remaining next inductionHypothesis => exact inductionHypothesis p.remaining p

theorem pushed_serve (w : Work α) (p : Parameters) :
    (w.serve p).parameters.pushed = p.pushed + (pushed (w.serve p).requests).length := by
  induction w generalizing p with
  | done a => rfl
  | pop next inductionHypothesis =>
      have later := inductionHypothesis p.pop.1 p.pop.2
      rw [Parameters.pushed_pop_snd] at later
      exact later
  | push c next inductionHypothesis =>
      have later := inductionHypothesis (p.push c)
      have count : (p.push c).pushed = p.pushed + 1 := rfl
      change (next.serve (p.push c)).parameters.pushed =
        p.pushed + ((pushed (next.serve (p.push c)).requests).length + 1)
      omega
  | remaining next inductionHypothesis => exact inductionHypothesis p.remaining p

/-- The pops are answered by the inputs in order, and by none behind the last of them. -/
theorem popped_serve (w : Work α) (p : Parameters) {k : Nat} {answer : Option Cell}
    (here : (popped (w.serve p).requests)[k]? = some answer) :
    answer = p.buffer.cells[k]? := by
  induction w generalizing p k with
  | done a => cases here
  | pop next inductionHypothesis =>
      cases k with
      | zero =>
          cases here
          rw [Parameters.pop_fst, List.head?_eq_getElem?]
      | succ k =>
          have later := inductionHypothesis p.pop.1 p.pop.2 here
          rw [Parameters.cells_pop_snd, List.getElem?_tail] at later
          exact later
  | push c next inductionHypothesis => exact inductionHypothesis (p.push c) here
  | remaining next inductionHypothesis => exact inductionHypothesis p.remaining p here

/-- The number of inputs left is that of all inputs less the pops made so far. -/
theorem remaining_serve (w : Work α) (p : Parameters) {before after : List Request} {left : Nat}
    (split : (w.serve p).requests = before ++ .remaining left :: after) :
    left = p.buffer.cells.length - (popped before).length := by
  induction w generalizing p before with
  | done a => simp [serve] at split
  | pop next inductionHypothesis =>
      cases before with
      | nil => cases split
      | cons r rest =>
          obtain ⟨rfl, restEq⟩ := List.cons.inj split
          have later := inductionHypothesis p.pop.1 p.pop.2 restEq
          simp only [Parameters.cells_pop_snd, List.length_tail] at later
          simp only [popped, List.filterMap_cons, popped?, List.length_cons] at later ⊢
          omega
  | push c next inductionHypothesis =>
      cases before with
      | nil => cases split
      | cons r rest =>
          obtain ⟨rfl, restEq⟩ := List.cons.inj split
          exact @inductionHypothesis (p.push c) rest restEq
  | remaining next inductionHypothesis =>
      cases before with
      | nil =>
          cases split
          rfl
      | cons r rest =>
          obtain ⟨rfl, restEq⟩ := List.cons.inj split
          exact @inductionHypothesis p.remaining p rest restEq

theorem run_pop (next : Option Cell → Work α) (inputs outputs : List Cell) :
    (Work.pop next).run inputs outputs = (next inputs.head?).run inputs.tail outputs := by
  cases inputs <;> rfl

/-- Done on inputs alone, a work gives the same answer, leaves the same inputs and gives the
same outputs. -/
theorem run_eq_serve (w : Work α) (p : Parameters) (outputs : List Cell) :
    w.run p.buffer.cells outputs =
      ⟨(w.serve p).answer, (w.serve p).parameters.buffer.cells,
        (pushed (w.serve p).requests).reverse ++ outputs⟩ := by
  induction w generalizing p outputs with
  | done a => rfl
  | pop next inductionHypothesis =>
      rw [run_pop, ← p.pop_fst, ← p.cells_pop_snd]
      exact inductionHypothesis p.pop.1 p.pop.2 outputs
  | push c next inductionHypothesis =>
      have later := inductionHypothesis (p.push c) (c :: outputs)
      have order : (pushed ((push c next).serve p).requests).reverse ++ outputs =
          (pushed (next.serve (p.push c)).requests).reverse ++ c :: outputs := by
        simp [serve, Service.behind, pushed, pushed?]
      rw [order]
      exact later
  | remaining next inductionHypothesis => exact inductionHypothesis p.remaining p outputs

end Work

/-! ## One call -/

theorem InputBuffer.length_cells_fill (b : InputBuffer) {stack : Stack} {inputs : Nat}
    (enough : inputs ≤ stack.depth) : (b.fill stack inputs).cells.length = inputs := by
  rw [cells_fill, Stack.top, List.length_take, ← stack.depth_eq]
  exact Nat.min_eq_left enough

/-- What a call that has been served leads to. -/
def Service.effect {κ : Type} (s : Service (Bool × κ)) (limit offset index outputs : Nat) :
    Effect κ :=
  if !s.answer.1 then .exit (.aborted index offset) s.answer.2
  else if s.parameters.pushed ≠ outputs then
    .exit (.trapped (.outputCountMismatch offset index outputs s.parameters.pushed)) s.answer.2
  else if limit < s.parameters.stack.depth then
    .exit (.trapped (.stackOverflow offset limit)) s.answer.2
  else .proceed s.parameters.stack s.answer.2

theorem Service.effect_eq_proceed {κ : Type} {s : Service (Bool × κ)} {limit outputs : Nat}
    (goesOn : s.answer.1 = true) (declared : s.parameters.pushed = outputs)
    (fits : s.parameters.stack.depth ≤ limit) (offset index : Nat) :
    s.effect limit offset index outputs = .proceed s.parameters.stack s.answer.2 := by
  rw [effect, goesOn, if_neg (by decide), if_neg (not_not.mpr declared),
    if_neg (Nat.not_lt.mpr fits)]

theorem Service.state_effect {κ : Type} (s : Service (Bool × κ))
    (limit offset index outputs : Nat) :
    (s.effect limit offset index outputs).state = s.answer.2 := by
  unfold effect
  split_ifs <;> rfl

variable {κ : Type} {context : Context κ}

/-- The parameters of a call: the inputs stand in the buffer, and the rest on the stack. -/
def Parameters.ofCall (buffer : InputBuffer) (stack : Stack) (inputs : Nat) : Parameters :=
  ⟨buffer.fill stack inputs, stack.drop inputs, 0⟩

/-- A call is served on the machine's own buffer and stack. -/
theorem Instruction.callThrough_eq_serve {index : Nat} {state : κ} {signature : Signature}
    (known : context.signature state index = some signature) (limit offset : Nat)
    (buffer : InputBuffer) {stack : Stack} (enough : signature.inputs ≤ stack.depth) :
    let service := (context.call state index).serve
      (.ofCall buffer stack signature.inputs)
    callThrough context limit offset index buffer stack state =
      (service.effect limit offset index signature.outputs, service.parameters.buffer) := by
  intro service
  have ran : (context.call state index).run (buffer.fill stack signature.inputs).cells [] =
      ⟨service.answer, service.parameters.buffer.cells,
        (Request.pushed service.requests).reverse ++ []⟩ :=
    Work.run_eq_serve _ (.ofCall buffer stack signature.inputs) []
  have stackEq : (stack.drop signature.inputs).pushAll
      (Request.pushed service.requests).reverse = service.parameters.stack :=
    Stack.ext (Work.stack_serve _ _).symm
  have pushedEq : service.parameters.pushed = (Request.pushed service.requests).length :=
    (Work.pushed_serve _ _).trans (Nat.zero_add _)
  rw [callThrough, known]
  dsimp only
  rw [if_neg (Nat.not_lt.mpr enough), ran, List.append_nil, stackEq, List.length_reverse,
    ← pushedEq]
  rfl

/-- A call finds its inputs on the stack or traps before the operation is called.  The
operation takes the inputs from the top of the stack down, then none, however many outputs it
gives in between, and is told how many are left.  However the call ends, the state is what the
operation makes of it.  If it goes on with the declared number of outputs and they fit, these
lie on what was below the inputs, the last one on top. -/
theorem calls_respect_the_stack {program : Program} {m : BufferedMachine} {state : κ}
    {index : UInt16} {signature : Signature}
    (decoded : decode program.bytes m.pointer = .ok (.call index))
    (known : context.signature state index.toNat = some signature) :
    (m.stack.depth < signature.inputs →
      m.step context program state =
        (.ended (.trapped (.stackUnderflow m.pointer)) (m.toMachine.ended (m.pointer + 3)) state,
          m.buffer) ∧
      ∀ inputs, .call index.toNat inputs ∉ m.stepAccesses context program state) ∧
    (signature.inputs ≤ m.stack.depth →
      let inputs := m.stack.top signature.inputs
      let service := (context.call state index.toNat).serve
        (.ofCall m.buffer m.stack signature.inputs)
      let outputs := Request.pushed service.requests
      .call index.toNat inputs ∈ m.stepAccesses context program state ∧
      (m.step context program state).1.state = service.answer.2 ∧
      (∀ (k : Nat) answer, (Request.popped service.requests)[k]? = some answer →
        answer = inputs[k]?) ∧
      (∀ before left after, service.requests = before ++ .remaining left :: after →
        left = signature.inputs - (Request.popped before).length) ∧
      (service.answer.1 = true → outputs.length = signature.outputs →
        m.stack.depth - signature.inputs + signature.outputs ≤ m.stackLimit →
        ∃ stack, stack.cells = outputs.reverse ++ m.stack.cells.drop signature.inputs ∧
          m.step context program state =
            (.running { m.toMachine with pointer := m.pointer + 3, stack := stack }
              service.answer.2, service.parameters.buffer))) := by
  constructor
  · intro short
    constructor
    · simp only [BufferedMachine.step, decoded, performThrough, callThrough, known,
        if_pos short]
      rfl
    · intro inputs
      simp [BufferedMachine.stepAccesses, decoded, accesses, known, short]
  · intro enough inputs service outputs
    have served : callThrough context m.stackLimit m.pointer index.toNat m.buffer m.stack state =
        (service.effect m.stackLimit m.pointer index.toNat signature.outputs,
          service.parameters.buffer) :=
      callThrough_eq_serve known m.stackLimit m.pointer m.buffer enough
    refine ⟨?_, ?_, ?_, ?_, ?_⟩
    · have notShort := Nat.not_lt.mpr enough
      simp [BufferedMachine.stepAccesses, decoded, accesses, known, notShort, inputs]
    · rw [← service.state_effect m.stackLimit m.pointer index.toNat signature.outputs]
      simp only [BufferedMachine.step, decoded, performThrough, served]
      cases service.effect m.stackLimit m.pointer index.toNat signature.outputs with
      | proceed stack after | jump target stack after | exit exit after => rfl
    · intro k answer here
      rw [Work.popped_serve _ _ here]
      exact congrArg (·[k]?) (InputBuffer.cells_fill m.buffer m.stack signature.inputs)
    · intro before left after split
      rw [Work.remaining_serve _ _ split]
      exact congrArg (· - (Request.popped before).length) (m.buffer.length_cells_fill enough)
    · intro goesOn declared fits
      have cellsEq : service.parameters.stack.cells =
          outputs.reverse ++ m.stack.cells.drop signature.inputs :=
        Work.stack_serve _ _
      have pushedEq : service.parameters.pushed = signature.outputs :=
        ((Work.pushed_serve _ _).trans (Nat.zero_add _)).trans declared
      have depthFits : service.parameters.stack.depth ≤ m.stackLimit := by
        rw [Stack.depth_eq, cellsEq, List.length_append, List.length_reverse, declared,
          List.length_drop, ← m.stack.depth_eq]
        omega
      refine ⟨service.parameters.stack, cellsEq, ?_⟩
      rw [Service.effect_eq_proceed goesOn pushedEq depthFits] at served
      simp only [BufferedMachine.step, decoded, performThrough, served]
      rfl

namespace Sample

/-- An operation with two inputs and two outputs that takes and gives by turns: it gives the
number of inputs, then its first input, and tries to take a third one. -/
def turnTables : Tables Unit where
  textures := #[]
  tasks := #[
    ⟨{ execute := fun _ world =>
        .remaining fun left => .pop fun first => .push (.ofNat left) <| .pop fun _ =>
          .push (first.getD .zero) <| .pop fun _ => .done (true, world) }, ⟨2, 2⟩, {}⟩]

def callProgram : Program := ⟨#[0x50, 0x00, 0x00], by decide⟩

/-- A machine before its first instruction, with cells left in the buffer by an earlier run. -/
def machineAtCall (cells : List Cell) : BufferedMachine :=
  ⟨⟨4, 0, .ofList cells, true⟩, ⟨[⟨5⟩]⟩⟩

def noValues : Memory Unit := ⟨#[], ()⟩

end Sample

theorem turnTables_respect_the_stack :
    ((Sample.machineAtCall [⟨9⟩, ⟨8⟩, ⟨7⟩]).step Sample.turnTables.context Sample.callProgram
        Sample.noValues).1 =
      .running ⟨4, 3, .ofList [⟨9⟩, ⟨2⟩, ⟨7⟩], true⟩ Sample.noValues ∧
    ((Sample.machineAtCall [⟨9⟩]).step Sample.turnTables.context Sample.callProgram
        Sample.noValues).1 =
      .ended (.trapped (.stackUnderflow 0)) ⟨4, 3, .empty, false⟩ Sample.noValues := by
  have decoded : decode Sample.callProgram.bytes 0 = .ok (.call 0) := by decide
  have known : Sample.turnTables.context.signature Sample.noValues (0 : UInt16).toNat =
      some ⟨2, 2⟩ := rfl
  constructor
  · have calls := calls_respect_the_stack (m := Sample.machineAtCall [⟨9⟩, ⟨8⟩, ⟨7⟩]) decoded known
    obtain ⟨-, -, -, -, goesOn⟩ := calls.2 (by decide)
    obtain ⟨stack, cellsEq, stepEq⟩ := goesOn rfl rfl (by decide)
    have stackEq : stack = .ofList [⟨9⟩, ⟨2⟩, ⟨7⟩] := Stack.ext cellsEq
    rw [stepEq, stackEq]
    rfl
  · have calls := calls_respect_the_stack (m := Sample.machineAtCall [⟨9⟩]) decoded known
    rw [(calls.1 (by decide)).1]
    rfl

end FrameGraph
