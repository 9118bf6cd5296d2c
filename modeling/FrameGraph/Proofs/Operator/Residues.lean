import FrameGraph.Proofs.Operator.Totality
import Mathlib.Data.Int.ModEq

/-!
# Integer operators on residues

A cell is a residue modulo `2 ^ 32`, and both integer modes read a number of that residue out of
it.  Sums, differences, products and negatives therefore depend on the residues alone.  A
quotient, a magnitude and a comparison depend on the numbers, so that the two modes may disagree
about them.
-/

namespace FrameGraph

/-! ## Cells as residues -/

namespace Cell

theorem unsigned_lt (c : Cell) : c.unsigned < 2 ^ 32 := by
  have bound := c.bits.toNat_lt
  unfold unsigned
  omega

theorem unsigned_nonneg (c : Cell) : 0 ≤ c.unsigned := Int.natCast_nonneg _

/-- A cell is the only one of its residue. -/
theorem eq_of_modEq {c d : Cell} (same : c.unsigned ≡ d.unsigned [ZMOD 2 ^ 32]) : c = d := by
  have numbersEq : c.unsigned = d.unsigned := by
    rw [← Int.emod_eq_of_lt c.unsigned_nonneg c.unsigned_lt, same.eq,
      Int.emod_eq_of_lt d.unsigned_nonneg d.unsigned_lt]
  exact congrArg Cell.mk (UInt32.toNat_inj.mp (Int.ofNat.inj numbersEq))

theorem signed_modEq_unsigned (c : Cell) : c.signed ≡ c.unsigned [ZMOD 2 ^ 32] := by
  unfold signed unsigned
  split
  · exact Int.ModEq.refl _
  · exact Int.sub_modulus_modEq_iff.mpr (Int.ModEq.refl _)

/-- The cell of a number has the residue of that number. -/
theorem unsigned_ofInt_modEq (n : Int) : (ofInt n).unsigned ≡ n [ZMOD 2 ^ 32] := by
  have nonneg : 0 ≤ n % 2 ^ 32 := Int.emod_nonneg n (by decide)
  have small : n % 2 ^ 32 < 2 ^ 32 := Int.emod_lt_of_pos n (by decide)
  have bitsEq : (UInt32.ofNat (n % 2 ^ 32).toNat).toNat = (n % 2 ^ 32).toNat :=
    UInt32.toNat_ofNat_of_lt' ((Int.toNat_lt nonneg).mpr small)
  unfold ofInt unsigned
  rw [bitsEq, Int.toNat_of_nonneg nonneg]
  exact Int.mod_modEq n (2 ^ 32)

theorem ofInt_eq_of_modEq {n k : Int} (same : n ≡ k [ZMOD 2 ^ 32]) : ofInt n = ofInt k := by
  unfold ofInt
  rw [same.eq]

end Cell

/-! ## The numbers of a mode -/

/-- The number that a cell denotes in an integer mode. -/
def NumericMode.integer? : NumericMode → Option (Cell → Int)
  | .uint => some Cell.unsigned
  | .int => some Cell.signed
  | .float => none

namespace NumericMode

variable {mode other : NumericMode} {number another : Cell → Int}

theorem integer_modEq_unsigned (integral : mode.integer? = some number) (c : Cell) :
    number c ≡ c.unsigned [ZMOD 2 ^ 32] := by
  cases mode with
  | uint =>
      cases integral
      exact Int.ModEq.refl _
  | int =>
      cases integral
      exact c.signed_modEq_unsigned
  | float => cases integral

/-- Both integer modes read the same residue. -/
theorem integer_modEq_integer (integral : mode.integer? = some number)
    (otherIntegral : other.integer? = some another) (c : Cell) :
    number c ≡ another c [ZMOD 2 ^ 32] :=
  (integer_modEq_unsigned integral c).trans (integer_modEq_unsigned otherIntegral c).symm

theorem integer_ofInt_modEq (integral : mode.integer? = some number) (n : Int) :
    number (.ofInt n) ≡ n [ZMOD 2 ^ 32] :=
  (integer_modEq_unsigned integral _).trans (Cell.unsigned_ofInt_modEq n)

/-- A cell is determined by the residue that a mode reads. -/
theorem eq_of_integer_modEq (integral : mode.integer? = some number) {c d : Cell}
    (same : number c ≡ number d [ZMOD 2 ^ 32]) : c = d :=
  Cell.eq_of_modEq <| (integer_modEq_unsigned integral c).symm.trans <|
    same.trans (integer_modEq_unsigned integral d)

theorem integer_eq_zero_iff (integral : mode.integer? = some number) {c : Cell} :
    number c = 0 ↔ c = .zero := by
  cases mode with
  | uint =>
      cases integral
      exact ⟨Cell.eq_zero_of_unsigned, fun isZero => by rw [isZero]; rfl⟩
  | int =>
      cases integral
      exact ⟨Cell.eq_zero_of_signed, fun isZero => by rw [isZero]; rfl⟩
  | float => cases integral

end NumericMode

/-! ## Results -/

/-- A quotient cut towards zero: its magnitude is that of the exact quotient rounded down, and
it does not have the opposite sign. -/
def CutQuotient (dividend divisor quotient : Int) : Prop :=
  quotient.natAbs = dividend.natAbs / divisor.natAbs ∧ 0 ≤ quotient * (dividend * divisor)

theorem cutQuotient_iff {dividend divisor quotient : Int} :
    CutQuotient dividend divisor quotient ↔ quotient = dividend.tdiv divisor := by
  have magnitude : (dividend.tdiv divisor).natAbs = dividend.natAbs / divisor.natAbs :=
    Int.natAbs_tdiv dividend divisor
  have sign : 0 ≤ dividend.tdiv divisor * (dividend * divisor) := by
    rcases Int.le_total 0 dividend with positive | negative <;>
      rcases Int.le_total 0 divisor with positiveDivisor | negativeDivisor
    · exact Int.mul_nonneg (Int.tdiv_nonneg positive positiveDivisor)
        (Int.mul_nonneg positive positiveDivisor)
    · exact Int.mul_nonneg_of_nonpos_of_nonpos
        (Int.tdiv_nonpos_of_nonneg_of_nonpos positive negativeDivisor)
        (Int.mul_nonpos_of_nonneg_of_nonpos positive negativeDivisor)
    · have opposite := Int.tdiv_nonneg (Int.neg_nonneg_of_nonpos negative) positiveDivisor
      rw [Int.neg_tdiv] at opposite
      exact Int.mul_nonneg_of_nonpos_of_nonpos (Int.nonpos_of_neg_nonneg opposite)
        (Int.mul_nonpos_of_nonpos_of_nonneg negative positiveDivisor)
    · exact Int.mul_nonneg (Int.tdiv_nonneg_of_nonpos_of_nonpos negative negativeDivisor)
        (Int.mul_nonneg_of_nonpos_of_nonpos negative negativeDivisor)
  constructor
  · rintro ⟨magnitudeEq, sameSign⟩
    rcases Int.natAbs_eq_natAbs_iff.mp (magnitudeEq.trans magnitude.symm) with same | opposite
    · exact same
    · -- Both signs are allowed only if the quotient is zero.
      rw [opposite, Int.neg_mul] at sameSign
      have product : dividend.tdiv divisor * (dividend * divisor) = 0 := by omega
      rcases Int.mul_eq_zero.mp product with zero | zero
      · rw [opposite, zero, Int.neg_zero]
      · rcases Int.mul_eq_zero.mp zero with rfl | rfl
        · rw [opposite, Int.zero_tdiv, Int.neg_zero]
        · rw [opposite, Int.tdiv_zero, Int.neg_zero]
  · rintro rfl
    exact ⟨magnitude, sign⟩

namespace NumericOperator

/-- What an operator is to leave for operands in port order, where `number` tells the number of
a cell: a cell of the exact result modulo `2 ^ 32`, or the truth value of the comparison. -/
def Leaves (number : Cell → Int) : NumericOperator → List Cell → Cell → Prop
  | .add, [a, b], result => number result ≡ number a + number b [ZMOD 2 ^ 32]
  | .sub, [a, b], result => number result ≡ number a - number b [ZMOD 2 ^ 32]
  | .mul, [a, b], result => number result ≡ number a * number b [ZMOD 2 ^ 32]
  | .div, [a, b], result => b ≠ .zero ∧
      ∃ quotient, CutQuotient (number a) (number b) quotient ∧
        number result ≡ quotient [ZMOD 2 ^ 32]
  | .neg, [a], result => number result ≡ -number a [ZMOD 2 ^ 32]
  | .abs, [a], result => number result ≡ |number a| [ZMOD 2 ^ 32]
  | .fma, [a, b, c], result => number result ≡ number a + number b * number c [ZMOD 2 ^ 32]
  | .eq, [a, b], result => result = if number a = number b then ⟨1⟩ else ⟨0⟩
  | .neq, [a, b], result => result = if number a ≠ number b then ⟨1⟩ else ⟨0⟩
  | .gt, [a, b], result => result = if number a > number b then ⟨1⟩ else ⟨0⟩
  | .gte, [a, b], result => result = if number a ≥ number b then ⟨1⟩ else ⟨0⟩
  | .lt, [a, b], result => result = if number a < number b then ⟨1⟩ else ⟨0⟩
  | .lte, [a, b], result => result = if number a ≤ number b then ⟨1⟩ else ⟨0⟩
  | _, _, _ => False

/-- The operators whose result is a polynomial in the operands. -/
def polynomials : List NumericOperator := [.add, .sub, .mul, .neg, .fma]

variable {op : NumericOperator} {mode other : NumericMode} {number another : Cell → Int}
  {operands : List Cell} {c d : Cell}

theorem eval?_of_integer (integral : mode.integer? = some number) :
    op.eval? mode operands = op.onIntegers (operands.map number) := by
  cases mode with
  | uint | int =>
      cases integral
      rfl
  | float => cases integral

/-- The value of an operator on integers is what it is to leave. -/
theorem leaves_of_onIntegers (integral : mode.integer? = some number)
    (defined : op.onIntegers (operands.map number) = some c) : op.Leaves number operands c := by
  have written := NumericMode.integer_ofInt_modEq integral
  match operands, defined with
  | [], defined => cases op <;> cases defined
  | [a], defined =>
      cases op with
      | neg =>
          cases defined
          exact written _
      | abs =>
          cases defined
          rw [Leaves, Int.abs_eq_natAbs]
          exact written _
      | _ => cases defined
  | [a, b], defined =>
      cases op with
      | add | sub | mul =>
          cases defined
          exact written _
      | div =>
          rw [List.map_cons, List.map_cons, List.map_nil, onIntegers] at defined
          split at defined
          · cases defined
          · next nonzero =>
              cases defined
              refine ⟨fun isZero => ?_, _, cutQuotient_iff.mpr rfl, written _⟩
              exact nonzero ((NumericMode.integer_eq_zero_iff integral).mpr isZero)
      | eq | neq | gt | gte | lt | lte =>
          cases defined
          simp only [Leaves, Cell.ofBool, decide_eq_true_eq, ne_eq, gt_iff_lt, ge_iff_le]
      | _ => cases defined
  | [a, b, third], defined =>
      cases op with
      | fma =>
          cases defined
          exact written _
      | _ => cases defined
  | a :: b :: third :: fourth :: rest, defined => cases op <;> cases defined

/-- The cell that an operator leaves is determined by its operands. -/
theorem Leaves.unique (integral : mode.integer? = some number)
    (first : op.Leaves number operands c) (second : op.Leaves number operands d) : c = d := by
  match operands, first, second with
  | [], first, second => cases op <;> cases first
  | [a], first, second =>
      cases op with
      | neg | abs => exact NumericMode.eq_of_integer_modEq integral (first.trans second.symm)
      | _ => cases first
  | [a, b], first, second =>
      cases op with
      | add | sub | mul =>
          exact NumericMode.eq_of_integer_modEq integral (first.trans second.symm)
      | div =>
          obtain ⟨-, quotient, cut, firstEq⟩ := first
          obtain ⟨-, again, cutAgain, secondEq⟩ := second
          obtain rfl : quotient = again :=
            (cutQuotient_iff.mp cut).trans (cutQuotient_iff.mp cutAgain).symm
          exact NumericMode.eq_of_integer_modEq integral (firstEq.trans secondEq.symm)
      | eq | neq | gt | gte | lt | lte => exact Eq.trans first (Eq.symm second)
      | _ => cases first
  | [a, b, third], first, second =>
      cases op with
      | fma => exact NumericMode.eq_of_integer_modEq integral (first.trans second.symm)
      | _ => cases first
  | a :: b :: third :: fourth :: rest, first, second => cases op <;> cases first

/-- An integer division by zero has no value. -/
theorem eval?_div_zero (integral : mode.integer? = some number) (dividend : Cell) :
    NumericOperator.div.eval? mode [dividend, .zero] = none := by
  have zeroEq : number .zero = 0 := (NumericMode.integer_eq_zero_iff integral).mpr rfl
  rw [eval?_of_integer integral, List.map_cons, List.map_cons, zeroEq]
  rfl

/-- Every other application has a value, the only one that it is to leave. -/
theorem exists_leaves_iff (integral : mode.integer? = some number)
    (applied : operands.length = op.arity)
    (notByZero : ¬ (op = .div ∧ ∃ dividend, operands = [dividend, .zero])) :
    ∃ c, op.eval? mode operands = some c ∧ ∀ d, op.Leaves number operands d ↔ d = c := by
  cases value : op.eval? mode operands with
  | none =>
      have undefined : (Operator.numeric op).eval? mode operands = none := value
      obtain ⟨isDiv, -, byZero⟩ := Operator.eq_div_of_eval? applied undefined
      exact absurd ⟨Operator.numeric.inj isDiv, byZero⟩ notByZero
  | some c =>
      have left : op.Leaves number operands c :=
        leaves_of_onIntegers integral ((eval?_of_integer integral).symm.trans value)
      exact ⟨c, rfl, fun d => ⟨fun other => other.unique integral left, fun same => same ▸ left⟩⟩

theorem leaves_unsigned_abs (a : Cell) : NumericOperator.abs.Leaves Cell.unsigned [a] a := by
  rw [Leaves, abs_of_nonneg a.unsigned_nonneg]

/-- The smallest number over minus one is one more than the largest, and has its residue. -/
theorem leaves_smallest_div :
    NumericOperator.div.Leaves Cell.signed [⟨0x80000000⟩, ⟨0xffffffff⟩] ⟨0x80000000⟩ := by
  refine ⟨by decide, 2 ^ 31, ?_, ?_⟩
  · unfold CutQuotient
    decide
  · decide

/-- A polynomial in the operands does not depend on the mode. -/
theorem eval?_eq_of_polynomial (polynomial : op ∈ polynomials)
    (integral : mode.integer? = some number) (otherIntegral : other.integer? = some another) :
    op.eval? mode operands = op.eval? other operands := by
  have same := NumericMode.integer_modEq_integer integral otherIntegral
  rw [eval?_of_integer integral, eval?_of_integer otherIntegral]
  match operands with
  | [] => cases op <;> rfl
  | [a] =>
      cases op with
      | neg => exact congrArg some (Cell.ofInt_eq_of_modEq (same a).neg)
      | abs => simp [polynomials] at polynomial
      | _ => rfl
  | [a, b] =>
      cases op with
      | add => exact congrArg some (Cell.ofInt_eq_of_modEq ((same a).add (same b)))
      | sub => exact congrArg some (Cell.ofInt_eq_of_modEq ((same a).sub (same b)))
      | mul => exact congrArg some (Cell.ofInt_eq_of_modEq ((same a).mul (same b)))
      | neg | abs | fma => rfl
      | _ => simp [polynomials] at polynomial
  | [a, b, third] =>
      cases op with
      | fma =>
          have sum := (same a).add ((same b).mul (same third))
          exact congrArg some (Cell.ofInt_eq_of_modEq sum)
      | _ => rfl
  | a :: b :: third :: fourth :: rest => cases op <;> rfl

end NumericOperator

end FrameGraph
