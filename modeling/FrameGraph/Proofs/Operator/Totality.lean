import FrameGraph.Operator

/-!
# Operators without a value

On as many operands as its arity an operator has a value, with one exception: an integer
division by zero.
-/

namespace FrameGraph

theorem Cell.eq_zero_of_unsigned {c : Cell} (isZero : c.unsigned = 0) : c = .zero := by
  obtain ⟨bits⟩ := c
  have bitsEq : bits.toNat = 0 := by simpa [unsigned] using isZero
  rw [zero, UInt32.toNat_inj.mp (bitsEq.trans UInt32.toNat_zero.symm)]

theorem Cell.eq_zero_of_signed {c : Cell} (isZero : c.signed = 0) : c = .zero := by
  apply eq_zero_of_unsigned
  have bound := c.bits.toNat_lt
  unfold signed at isZero
  unfold unsigned
  split at isZero <;> omega

namespace NumericOperator

theorem eq_div_of_onIntegers {op : NumericOperator} {operands : List Int}
    (lengthEq : operands.length = op.arity) (undefined : op.onIntegers operands = none) :
    op = .div ∧ ∃ dividend, operands = [dividend, 0] := by
  match operands, lengthEq with
  | [a], lengthEq => cases op <;> simp [onIntegers, arity] at undefined lengthEq
  | [a, b], lengthEq =>
      cases op with
      | div =>
          by_cases isZero : b = 0
          · exact ⟨rfl, a, by rw [isZero]⟩
          · simp [onIntegers, isZero] at undefined
      | _ => simp [onIntegers, arity] at undefined lengthEq
  | [a, b, c], lengthEq => cases op <;> simp [onIntegers, arity] at undefined lengthEq
  | [], lengthEq => cases op <;> simp [arity] at lengthEq
  | a :: b :: c :: d :: rest, lengthEq => cases op <;> simp [arity] at lengthEq

theorem onFloats_ne_none {op : NumericOperator} {operands : List Binary32}
    (lengthEq : operands.length = op.arity) : op.onFloats operands ≠ none := by
  match operands, lengthEq with
  | [a], lengthEq => cases op <;> simp [onFloats, arity] at lengthEq ⊢
  | [a, b], lengthEq => cases op <;> simp [onFloats, arity] at lengthEq ⊢
  | [a, b, c], lengthEq => cases op <;> simp [onFloats, arity] at lengthEq ⊢
  | [], lengthEq => cases op <;> simp [arity] at lengthEq
  | a :: b :: c :: d :: rest, lengthEq => cases op <;> simp [arity] at lengthEq

end NumericOperator

/-- Only an integer division by the zero cell has no value. -/
theorem Operator.eq_div_of_eval? {op : Operator} {mode : NumericMode}
    {operands : List Cell} (lengthEq : operands.length = op.arity)
    (undefined : op.eval? mode operands = none) :
    op = .numeric .div ∧ mode ≠ .float ∧ ∃ dividend, operands = [dividend, .zero] := by
  cases op with
  | logical op =>
      match operands, lengthEq with
      | [], lengthEq => cases op <;> simp [arity, LogicalOperator.arity] at lengthEq
      | [a], lengthEq =>
          cases op <;> simp [arity, LogicalOperator.arity] at lengthEq
          simp [eval?, LogicalOperator.eval?] at undefined
      | [a, b], lengthEq =>
          cases op <;> simp [arity, LogicalOperator.arity] at lengthEq <;>
            simp [eval?, LogicalOperator.eval?] at undefined
      | a :: b :: c :: rest, lengthEq =>
          cases op <;> simp [arity, LogicalOperator.arity] at lengthEq
  | numeric op =>
      have divides {read : Cell → Int} (zeroOnly : ∀ c, read c = 0 → c = .zero)
          (undefined : op.onIntegers (operands.map read) = none) :
          op = .div ∧ ∃ dividend, operands = [dividend, .zero] := by
        obtain ⟨isDiv, value, mapped⟩ := NumericOperator.eq_div_of_onIntegers
          ((List.length_map read).trans lengthEq) undefined
        obtain ⟨dividend, rest, rfl, -, mapped⟩ := List.map_eq_cons_iff.mp mapped
        obtain ⟨divisor, nothing, rfl, isZero, mapped⟩ := List.map_eq_cons_iff.mp mapped
        rw [List.map_eq_nil_iff.mp mapped, zeroOnly divisor isZero]
        exact ⟨isDiv, dividend, rfl⟩
      cases mode with
      | uint =>
          obtain ⟨rfl, shape⟩ := divides (fun _ => Cell.eq_zero_of_unsigned) undefined
          exact ⟨rfl, by decide, shape⟩
      | int =>
          obtain ⟨rfl, shape⟩ := divides (fun _ => Cell.eq_zero_of_signed) undefined
          exact ⟨rfl, by decide, shape⟩
      | float =>
          have defined := NumericOperator.onFloats_ne_none
            ((List.length_map Cell.toFloat).trans lengthEq)
          exact absurd undefined defined

end FrameGraph
