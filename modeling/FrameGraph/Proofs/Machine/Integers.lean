import FrameGraph.Proofs.Machine.Containment
import FrameGraph.Proofs.Operator.Residues

/-!
# Integer instructions

An instruction finds its operands on the stack, the last one on top, and puts its result in
their place.  In the integer modes the result is exact modulo `2 ^ 32`, and the only instruction
that can fail on its operands is a division by zero.
-/

namespace FrameGraph

open Instruction

variable {κ : Type} {context : Context κ} {program : Program} {m : Machine} {state : κ}

/-- A numeric instruction replaces its operands by its value, or traps without one. -/
theorem Machine.step_numeric {op : NumericOperator} {mode : NumericMode} {operands : List Cell}
    {rest : Stack} (decoded : decode program.bytes m.pointer = .ok (.numeric op mode))
    (stacked : m.stack = rest.pushAll operands.reverse) (applied : operands.length = op.arity)
    (room : m.stack.depth ≤ m.stackLimit) :
    m.step context program state =
      match op.eval? mode operands with
      | some c =>
        .running { m with pointer := m.pointer + 2, stack := rest.push c } state
      | none =>
        .ended (.trapped (.divisionByZero m.pointer)) (m.ended (m.pointer + 2)) state := by
  have depthEq : m.stack.depth = op.arity + rest.depth := by
    rw [stacked, ← applied, ← operands.length_reverse]
    rfl
  have enough : ¬ m.stack.depth < op.arity := by omega
  have topEq : (m.stack.top op.arity).reverse = operands := by
    rw [stacked, ← applied, ← operands.length_reverse, Stack.top, Stack.cells_pushAll,
      List.take_left, List.reverse_reverse]
  have dropEq : m.stack.drop op.arity = rest := by
    apply Stack.ext
    rw [stacked, ← applied, ← operands.length_reverse, Stack.cells_drop, Stack.cells_pushAll,
      List.drop_left]
  have free : rest.depth < m.stackLimit := by
    have someOperand : 0 < op.arity := by cases op <;> decide
    omega
  rw [step, decoded]
  dsimp only
  rw [perform, operate, if_neg enough, topEq, dropEq]
  cases op.eval? mode operands with
  | none => rfl
  | some c =>
      dsimp only
      rw [pushCell, if_pos free]
      rfl

/-- On a stack within its limit, which no run exceeds, an integer division by the zero cell
traps.  Every other integer instruction goes on, and the cell that it leaves is the one that the
numbers of its operands ask for.  Sums, differences, products and negatives are the same step in
both integer modes, an unsigned magnitude leaves its operand, and the quotient that no signed
number can hold is the smallest one again. -/
theorem integer_instructions_are_exact {op : NumericOperator} {mode : NumericMode}
    {number : Cell → Int} {operands : List Cell} {rest : Stack}
    (integral : mode.integer? = some number)
    (decoded : decode program.bytes m.pointer = .ok (.numeric op mode))
    (stacked : m.stack = rest.pushAll operands.reverse) (applied : operands.length = op.arity)
    (room : m.stack.depth ≤ m.stackLimit) :
    let step := m.step context program state
    let result : Cell → Machine.Step κ := fun c =>
      .running { m with pointer := m.pointer + 2, stack := rest.push c } state
    let dividesByZero := op = .div ∧ ∃ dividend, operands = [dividend, .zero]
    (dividesByZero → step =
      .ended (.trapped (.divisionByZero m.pointer)) (m.ended (m.pointer + 2)) state) ∧
    (¬ dividesByZero → ∃ c, step = result c ∧ ∀ d, op.Leaves number operands d ↔ d = c) ∧
    (op ∈ NumericOperator.polynomials → ∀ other another otherProgram,
      NumericMode.integer? other = some another →
        decode otherProgram.bytes m.pointer = .ok (.numeric op other) →
          m.step context otherProgram state = step) ∧
    (op = .abs → mode = .uint → step = .running { m with pointer := m.pointer + 2 } state) ∧
    (op = .div → mode = .int → operands = [⟨0x80000000⟩, ⟨0xffffffff⟩] →
      step = result ⟨0x80000000⟩) := by
  intro step result dividesByZero
  have stepEq : step = _ := Machine.step_numeric decoded stacked applied room
  have leaves (notByZero : ¬ dividesByZero) :
      ∃ c, step = result c ∧ ∀ d, op.Leaves number operands d ↔ d = c := by
    obtain ⟨c, value, only⟩ := NumericOperator.exists_leaves_iff integral applied notByZero
    rw [value] at stepEq
    exact ⟨c, stepEq, only⟩
  refine ⟨?_, leaves, ?_, ?_, ?_⟩
  · rintro ⟨rfl, dividend, rfl⟩
    rw [stepEq, NumericOperator.eval?_div_zero integral]
  · intro polynomial other another otherProgram otherIntegral otherDecoded
    rw [stepEq, Machine.step_numeric otherDecoded stacked applied room,
      NumericOperator.eval?_eq_of_polynomial polynomial otherIntegral integral]
  · rintro rfl rfl
    obtain ⟨a, rfl⟩ := List.length_eq_one_iff.mp applied
    obtain ⟨c, goesOn, only⟩ := leaves (fun byZero => by cases byZero.1)
    cases integral
    have unchanged : m.stack = rest.push a := stacked.trans (Stack.ext rfl)
    rw [goesOn, ← (only a).mp (NumericOperator.leaves_unsigned_abs a)]
    dsimp only [result]
    rw [← unchanged]
  · rintro rfl rfl rfl
    have nonzero : ¬ dividesByZero := by
      rintro ⟨-, dividend, same⟩
      have divisorEq : (⟨0xffffffff⟩ : Cell) = .zero := (List.cons.inj (List.cons.inj same).2).1
      exact absurd divisorEq (by decide)
    obtain ⟨c, goesOn, only⟩ := leaves nonzero
    cases integral
    rw [goesOn, (only _).mp NumericOperator.leaves_smallest_div]

namespace Sample

/-- One signed quotient. -/
def quotientProgram : Program := ⟨#[0x13, 0x01], by decide⟩

/-- A machine before its first instruction, with the cells of its stack, the top one first. -/
def machineOver (cells : List Cell) : Machine := ⟨4, 0, .ofList cells, true⟩

end Sample

theorem quotientProgram_is_exact :
    (Sample.machineOver [⟨0xffffffff⟩, ⟨0x80000000⟩, ⟨7⟩]).step Sample.bareTables.context
        Sample.quotientProgram Sample.twoSlots =
      .running ⟨4, 2, .ofList [⟨0x80000000⟩, ⟨7⟩], true⟩ Sample.twoSlots ∧
    (Sample.machineOver [⟨2⟩, ⟨0xfffffff9⟩, ⟨7⟩]).step Sample.bareTables.context
        Sample.quotientProgram Sample.twoSlots =
      .running ⟨4, 2, .ofList [⟨0xfffffffd⟩, ⟨7⟩], true⟩ Sample.twoSlots ∧
    (Sample.machineOver [⟨0⟩, ⟨9⟩, ⟨7⟩]).step Sample.bareTables.context
        Sample.quotientProgram Sample.twoSlots =
      .ended (.trapped (.divisionByZero 0)) ⟨4, 2, .empty, false⟩ Sample.twoSlots := by
  have decoded : decode Sample.quotientProgram.bytes 0 = .ok (.numeric .div .int) := by decide
  have exact (dividend divisor : Cell) :=
    @integer_instructions_are_exact _ Sample.bareTables.context Sample.quotientProgram
      (Sample.machineOver [divisor, dividend, ⟨7⟩]) Sample.twoSlots .div .int Cell.signed
      [dividend, divisor] (.ofList [⟨7⟩]) rfl decoded rfl rfl (Nat.le_succ 3)
  refine ⟨?_, ?_, ?_⟩
  · exact (exact ⟨0x80000000⟩ ⟨0xffffffff⟩).2.2.2.2 rfl rfl rfl
  · have nonzero : ¬ (NumericOperator.div = .div ∧
        ∃ dividend, [(⟨0xfffffff9⟩ : Cell), ⟨2⟩] = [dividend, .zero]) := by
      rintro ⟨-, dividend, same⟩
      cases same
    obtain ⟨c, goesOn, only⟩ := (exact ⟨0xfffffff9⟩ ⟨2⟩).2.1 nonzero
    -- Minus seven over two is minus three, as a cell `0xfffffffd`.
    have quotient : NumericOperator.div.Leaves Cell.signed [⟨0xfffffff9⟩, ⟨2⟩] ⟨0xfffffffd⟩ := by
      refine ⟨by decide, -3, ?_, ?_⟩
      · unfold CutQuotient
        decide
      · decide
    rw [goesOn, ← (only _).mp quotient]
    rfl
  · exact (exact ⟨9⟩ ⟨0⟩).1 ⟨rfl, ⟨9⟩, rfl⟩

end FrameGraph
