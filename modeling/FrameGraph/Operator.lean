import FrameGraph.Cell

/-!
# Operators

The sixteen scalar operators, shared by graphs and by the instruction set, and what
each of them computes.  Numeric operators read their operands in one of three
numeric modes; logical operators read them as truth values.
-/

namespace FrameGraph

/-! ## Numeric modes -/

/-- How a numeric operator reads its operands. -/
inductive NumericMode where
  | uint
  | int
  | float
  deriving DecidableEq, Repr

namespace NumericMode

def all : List NumericMode := [.uint, .int, .float]

def byte : NumericMode → UInt8
  | .uint => 0
  | .int => 1
  | .float => 2

def ofByte? (b : UInt8) : Option NumericMode := all.find? fun m => m.byte = b

def name : NumericMode → String
  | .uint => "uint"
  | .int => "int"
  | .float => "float"

def suffix : NumericMode → String
  | .uint => "u"
  | .int => "i"
  | .float => "f"

/-- The mode that a metadata value names; the integer modes have two names each. -/
def ofName? (s : String) : Option NumericMode :=
  if s = "uint" ∨ s = "unsigned" then some .uint
  else if s = "int" ∨ s = "signed" then some .int
  else if s = "float" then some .float
  else none

end NumericMode

/-! ## Numeric operators -/

/-- An operator that reads its operands in a numeric mode. -/
inductive NumericOperator where
  | add
  | sub
  | mul
  | div
  | neg
  | abs
  | fma
  | eq
  | neq
  | gt
  | gte
  | lt
  | lte
  deriving DecidableEq, Repr

namespace NumericOperator

def all : List NumericOperator :=
  [.add, .sub, .mul, .div, .neg, .abs, .fma, .eq, .neq, .gt, .gte, .lt, .lte]

def arity : NumericOperator → Nat
  | .neg | .abs => 1
  | .fma => 3
  | _ => 2

/-- The value on integer operands, in port order: the exact result modulo `2 ^ 32`,
or the truth value of a comparison.  A quotient is cut towards zero, and there is
none by zero. -/
def onIntegers : NumericOperator → List Int → Option Cell
  | .add, [a, b] => some (.ofInt (a + b))
  | .sub, [a, b] => some (.ofInt (a - b))
  | .mul, [a, b] => some (.ofInt (a * b))
  | .div, [a, b] => if b = 0 then none else some (.ofInt (a.tdiv b))
  | .neg, [a] => some (.ofInt (-a))
  | .abs, [a] => some (.ofInt a.natAbs)
  | .fma, [a, b, c] => some (.ofInt (a + b * c))
  | .eq, [a, b] => some (.ofBool (a = b))
  | .neq, [a, b] => some (.ofBool (a ≠ b))
  | .gt, [a, b] => some (.ofBool (b < a))
  | .gte, [a, b] => some (.ofBool (b ≤ a))
  | .lt, [a, b] => some (.ofBool (a < b))
  | .lte, [a, b] => some (.ofBool (a ≤ b))
  | _, _ => none

/-- The value on binary32 operands, in port order.  Only inequality holds of an
operand that is not a number. -/
def onFloats : NumericOperator → List Binary32 → Option Cell
  | .add, [a, b] => some (.ofFloat (a.add b))
  | .sub, [a, b] => some (.ofFloat (a.sub b))
  | .mul, [a, b] => some (.ofFloat (a.mul b))
  | .div, [a, b] => some (.ofFloat (a.div b))
  | .neg, [a] => some (.ofFloat a.neg)
  | .abs, [a] => some (.ofFloat a.abs)
  | .fma, [a, b, c] => some (.ofFloat (b.mulAdd c a))
  | .eq, [a, b] => some (.ofBool (Binary32.compareBy (fun x y => x = y) a b))
  | .neq, [a, b] => some (.ofBool !(Binary32.compareBy (fun x y => x = y) a b))
  | .gt, [a, b] => some (.ofBool (Binary32.compareBy (fun x y => y < x) a b))
  | .gte, [a, b] => some (.ofBool (Binary32.compareBy (fun x y => y ≤ x) a b))
  | .lt, [a, b] => some (.ofBool (Binary32.compareBy (fun x y => x < y) a b))
  | .lte, [a, b] => some (.ofBool (Binary32.compareBy (fun x y => x ≤ y) a b))
  | _, _ => none

/-- The value on operands in port order.  As many operands as the arity always have
one, except for an integer quotient by zero. -/
def eval? (op : NumericOperator) (mode : NumericMode) (operands : List Cell) :
    Option Cell :=
  match mode with
  | .uint => op.onIntegers (operands.map Cell.unsigned)
  | .int => op.onIntegers (operands.map Cell.signed)
  | .float => op.onFloats (operands.map Cell.toFloat)

end NumericOperator

/-! ## Logical operators -/

inductive LogicalOperator where
  | not
  | and
  | or
  deriving DecidableEq, Repr

namespace LogicalOperator

def all : List LogicalOperator := [.not, .and, .or]

def arity : LogicalOperator → Nat
  | .not => 1
  | _ => 2

/-- The value on operands in port order, for as many operands as the arity. -/
def eval? : LogicalOperator → List Cell → Option Cell
  | .not, [a] => some (.ofBool !a.toBool)
  | .and, [a, b] => some (.ofBool (a.toBool && b.toBool))
  | .or, [a, b] => some (.ofBool (a.toBool || b.toBool))
  | _, _ => none

end LogicalOperator

/-! ## Operators of a graph -/

inductive Operator where
  | numeric (op : NumericOperator)
  | logical (op : LogicalOperator)
  deriving DecidableEq, Repr

namespace Operator

def all : List Operator :=
  NumericOperator.all.map .numeric ++ LogicalOperator.all.map .logical

/-- The name of the operator as a node type. -/
def tag : Operator → String
  | .numeric .add => "addition"
  | .numeric .sub => "subtraction"
  | .numeric .mul => "multiplication"
  | .numeric .div => "division"
  | .numeric .neg => "negation"
  | .numeric .abs => "absolute"
  | .numeric .fma => "multiply-add"
  | .numeric .eq => "equal"
  | .numeric .neq => "not-equal"
  | .numeric .gt => "greater"
  | .numeric .gte => "greater-or-equal"
  | .numeric .lt => "less"
  | .numeric .lte => "less-or-equal"
  | .logical .not => "not"
  | .logical .and => "and"
  | .logical .or => "or"

def ofTag? (s : String) : Option Operator := all.find? fun op => op.tag = s

def arity : Operator → Nat
  | .numeric op => op.arity
  | .logical op => op.arity

/-- Logical operators carry no numeric mode. -/
def isLogical : Operator → Bool
  | .numeric _ => false
  | .logical _ => true

/-- The value on operands in port order; the mode matters to numeric operators
only. -/
def eval? (op : Operator) (mode : NumericMode) (operands : List Cell) : Option Cell :=
  match op with
  | .numeric op => op.eval? mode operands
  | .logical op => op.eval? operands

end Operator

end FrameGraph
