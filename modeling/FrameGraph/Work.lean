import FrameGraph.Cell

/-!
# Work on an operand stack

What an operation does with the operand stack during one call, as a tree of requests:
take the next input, give an output, ask how many inputs are left.  An operation has
no other way to the stack, so the inputs beyond its own and the outputs it has given
are out of its reach by construction.
-/

namespace FrameGraph

/-- A computation of an `α` that takes inputs and gives outputs. -/
inductive Work (α : Type) where
  | done (answer : α)
  /-- Takes the next input, if one is left. -/
  | pop (next : Option Cell → Work α)
  | push (output : Cell) (next : Work α)
  /-- Asks for the number of inputs that are left. -/
  | remaining (next : Nat → Work α)

namespace Work

variable {α β : Type}

def bind : Work α → (α → Work β) → Work β
  | done a, f => f a
  | pop next, f => pop fun c => (next c).bind f
  | push c next, f => push c (next.bind f)
  | remaining next, f => remaining fun n => (next n).bind f

instance : Monad Work where
  pure := done
  bind := bind

structure Outcome (α : Type) where
  answer : α
  /-- The inputs not taken, the next one first. -/
  inputs : List Cell
  /-- The outputs given, the latest first. -/
  outputs : List Cell

/-- Runs a work on inputs, the next one first, above outputs already given. -/
def run : Work α → List Cell → List Cell → Outcome α
  | done a, inputs, outputs => ⟨a, inputs, outputs⟩
  | pop next, [], outputs => (next none).run [] outputs
  | pop next, c :: inputs, outputs => (next (some c)).run inputs outputs
  | push c next, inputs, outputs => next.run inputs (c :: outputs)
  | remaining next, inputs, outputs => (next inputs.length).run inputs outputs

end Work

end FrameGraph
