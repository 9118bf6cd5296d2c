import FrameGraph.Compiler.Config
import FrameGraph.Proofs.Compiler.Inputs
import FrameGraph.Proofs.Compiler.Layout
import FrameGraph.Proofs.Machine.Passage

/-!
# Evaluation of graphs

What a graph computes, said without a program and without a stack.  Nodes are visited in
a given order.  An operator reads its operands by target port and writes its slot; a
pass hands its inputs to its operation and writes the outputs to its ports; every other
node does nothing.  The first pass that stops, the first pass whose outputs do not fit
its ports and the first operator without a value end the evaluation.
-/

namespace FrameGraph

variable {ω : Type}

/-! ## Verdicts -/

/-- How the evaluation of nodes ends. -/
inductive Verdict where
  | completed
  /-- The operation of a pass answered false. -/
  | aborted (n : NodeId) (operation : Nat)
  /-- The operation of a pass gave another number of outputs than the pass has ports. -/
  | miscounted (n : NodeId) (operation expected found : Nat)
  /-- An operator has no value on its operands. -/
  | undefined (n : NodeId)
  deriving DecidableEq, Repr

/-- What the evaluation of nodes leaves behind, with the calls that it made. -/
structure Evaluation (ω : Type) where
  verdict : Verdict
  calls : List Call
  memory : Memory ω

/-- Value memory with cells written to consecutive slots. -/
def writeSlots (values : Array Cell) (start : Nat) (cells : List Cell) : Array Cell :=
  values.mapIdx fun slot old =>
    if start ≤ slot then (cells[slot - start]?).getD old else old

/-! ## Evaluators -/

/-- A graph with the slots of its nodes and the tables that they index. -/
structure Evaluator (ω : Type) where
  graph : Graph
  symbols : Symbols
  defaultMode : NumericMode
  tables : Tables ω

namespace Evaluator

/-- The cell at the output port from which an edge leads. -/
def output? (v : Evaluator ω) (memory : Memory ω) (e : Edge) : Option Cell := do
  let port ← e.sourcePort.toOption
  let slot ← (v.symbols.slotsOf e.source).value? port
  memory.values[slot]?

/-- The cell that an edge brings to its target: the output at its other end, through one
texture at most, or the handle of a texture that nothing produces. -/
def read? (v : Evaluator ω) (memory : Memory ω) (e : Edge) : Option Cell :=
  if v.graph.kind? e.source = some .texture then
    match v.graph.incoming e.source with
    | [] => do
      let slot ← (v.symbols.slotsOf e.source).texture
      v.tables.textures[slot]?
    | [hop] => v.output? memory hop
    | _ => none
  else v.output? memory e

/-- The cells that a node reads, in the order of its target ports. -/
def inputs? (v : Evaluator ω) (memory : Memory ω) (n : NodeId) : Option (List Cell) := do
  (← v.graph.inputEdges? n).mapM (v.read? memory)

/-- The mode that an operator names, or else the default one. -/
def mode (v : Evaluator ω) (n : NodeId) : NumericMode :=
  ((v.graph.metadata? n modeKey).bind NumericMode.ofName?).getD v.defaultMode

/-- Writes the outputs of a node to its slots, the first one to port 0. -/
def write (v : Evaluator ω) (memory : Memory ω) (n : NodeId) (outputs : List Cell) :
    Memory ω :=
  { memory with
    values := writeSlots memory.values (v.symbols.slotsOf n).start outputs }

/-- Writes the value of an operator node, if there is one. -/
def settle (v : Evaluator ω) (memory : Memory ω) (n : NodeId) : Option Cell → Evaluation ω
  | some c => ⟨.completed, [], v.write memory n [c]⟩
  | none => ⟨.undefined n, [], memory⟩

/-- Evaluates an operator node. -/
def visitOperator (v : Evaluator ω) (memory : Memory ω) (n : NodeId) (op : Operator) :
    Option (Evaluation ω) := do
  return v.settle memory n (op.eval? (v.mode n) (← v.inputs? memory n))

/-- Evaluates a pass node.  The operation takes the input of the last port first. -/
def visitPass (v : Evaluator ω) (memory : Memory ω) (n : NodeId) :
    Option (Evaluation ω) := do
  let operation ← (v.symbols.slotsOf n).operation
  let task ← v.tables.tasks[operation]?
  let inputs := (← v.inputs? memory n).reverse
  let outcome := (task.operation.execute task.target memory.world).run inputs []
  let (goesOn, world) := outcome.answer
  let outputs := outcome.outputs.reverse
  let call : Call := ⟨operation, inputs, outputs, goesOn⟩
  let memory := { memory with world := world }
  let ports := v.graph.neededPorts n
  if !goesOn then return ⟨.aborted n operation, [call], memory⟩
  else if outputs.length ≠ ports then
    return ⟨.miscounted n operation ports outputs.length, [call], memory⟩
  else return ⟨.completed, [call], v.write memory n outputs⟩

/-- Evaluates a node; constants, textures and the sink do nothing. -/
def visit (v : Evaluator ω) (memory : Memory ω) (n : NodeId) : Option (Evaluation ω) :=
  match v.graph.kind? n with
  | some (.operator op) => v.visitOperator memory n op
  | some .pass => v.visitPass memory n
  | some .float | some .texture | some .present | none => some ⟨.completed, [], memory⟩

/-- Evaluates nodes in order, up to the first that does not complete. -/
def run (v : Evaluator ω) (memory : Memory ω) : List NodeId → Option (Evaluation ω)
  | [] => some ⟨.completed, [], memory⟩
  | n :: rest => do
    let first ← v.visit memory n
    if first.verdict = .completed then
      let others ← v.run first.memory rest
      return { others with calls := first.calls ++ others.calls }
    else return first

end Evaluator

/-- The evaluator over the tables of an instance. -/
def Instance.evaluator (i : Instance ω) (config : Config) (g : Graph) : Evaluator ω :=
  ⟨g, i.symbols, config.defaultMode, i.tables⟩

/-! ## Writing slots -/

@[simp]
theorem size_writeSlots (values : Array Cell) (start : Nat) (cells : List Cell) :
    (writeSlots values start cells).size = values.size := by
  simp [writeSlots]

theorem getElem?_writeSlots_of_lt {values : Array Cell} {start slot : Nat}
    {cells : List Cell} (before : slot < start) :
    (writeSlots values start cells)[slot]? = values[slot]? := by
  simp [writeSlots, Array.getElem?_mapIdx, Nat.not_le_of_lt before]

theorem getElem?_writeSlots_of_le {values : Array Cell} {start slot : Nat}
    {cells : List Cell} (behind : start + cells.length ≤ slot) :
    (writeSlots values start cells)[slot]? = values[slot]? := by
  have none : cells[slot - start]? = none := List.getElem?_eq_none (by omega)
  simp [writeSlots, Array.getElem?_mapIdx, none]

theorem getElem?_writeSlots_add {values : Array Cell} {start k : Nat} {cells : List Cell}
    (inside : k < cells.length) (exists_slot : start + k < values.size) :
    (writeSlots values start cells)[start + k]? = cells[k]? := by
  simp [writeSlots, inside, exists_slot]

@[simp]
theorem writeSlots_nil (values : Array Cell) (start : Nat) :
    writeSlots values start [] = values := by
  apply Array.ext_getElem?
  intro slot
  by_cases before : slot < start
  · exact getElem?_writeSlots_of_lt before
  · exact getElem?_writeSlots_of_le (Nat.le_of_not_lt before)

/-- Writing the last cell first makes no difference. -/
theorem writeSlots_append_singleton (values : Array Cell) (start : Nat)
    (cells : List Cell) (c : Cell) :
    writeSlots values start (cells ++ [c]) =
      writeSlots (values.setIfInBounds (start + cells.length) c) start cells := by
  apply Array.ext_getElem?
  intro slot
  by_cases exists_slot : slot < values.size
  · by_cases before : slot < start
    · rw [getElem?_writeSlots_of_lt before, getElem?_writeSlots_of_lt before,
        Array.getElem?_setIfInBounds_ne (by omega)]
    · obtain ⟨k, rfl⟩ := Nat.exists_eq_add_of_le (Nat.le_of_not_lt before)
      rcases Nat.lt_trichotomy k cells.length with inside | rfl | behind
      · rw [getElem?_writeSlots_add (by simp; omega) exists_slot,
          getElem?_writeSlots_add inside (by simpa using exists_slot),
          List.getElem?_append_left inside]
      · rw [getElem?_writeSlots_add (by simp) exists_slot,
          getElem?_writeSlots_of_le (Nat.le_refl _)]
        simp [exists_slot]
      · rw [getElem?_writeSlots_of_le (by simp; omega),
          getElem?_writeSlots_of_le (by omega),
          Array.getElem?_setIfInBounds_ne (by omega)]
  · rw [Array.getElem?_eq_none (by simp; omega), Array.getElem?_eq_none (by simp; omega)]

end FrameGraph
