import FrameGraph.Binary32.Basic

/-!
# Binary32 arithmetic

Every operation is the exact result rounded once, ties to even.  An exact result
of zero has the sign that both operands share and is positive otherwise.
-/

namespace FrameGraph.Binary32

/-! ## Sign bits -/

/-- Flips the sign bit, also of what is not a number. -/
def neg (x : Binary32) : Binary32 := ofMagnitude (!x.isNegative) x.magnitude

/-- Clears the sign bit. -/
def abs (x : Binary32) : Binary32 := ofMagnitude false x.magnitude

/-! ## Exact values -/

/-- The signed number of units of a finite word. -/
def signedUnits (x : Binary32) : Int :=
  if x.isNegative then -(units x.magnitude : Int) else units x.magnitude

/-- The word nearest to `num / den` units, where `zeroNegative` is the sign of an
exact zero. -/
def round (zeroNegative : Bool) (num : Int) (den : Nat) : Binary32 :=
  if num = 0 then ofMagnitude zeroNegative 0
  else ofMagnitude (num < 0) (roundUnits num.natAbs den)

/-! ## Operations -/

def add (x y : Binary32) : Binary32 :=
  if x.isNaN || y.isNaN then nan
  else if x.isInfinite then
    if y.isInfinite && x.isNegative != y.isNegative then nan else x
  else if y.isInfinite then y
  else round (x.isNegative && y.isNegative) (x.signedUnits + y.signedUnits) 1

/-- The difference is the sum with the sign of the second operand flipped. -/
def sub (x y : Binary32) : Binary32 := x.add y.neg

def mul (x y : Binary32) : Binary32 :=
  let negative := x.isNegative != y.isNegative
  if x.isNaN || y.isNaN then nan
  else if x.isInfinite || y.isInfinite then
    if x.magnitude = 0 || y.magnitude = 0 then nan
    else ofMagnitude negative infinity
  else round negative (x.signedUnits * y.signedUnits) (2 ^ 149)

/-- The quotient.  A non-zero number over zero is an infinity. -/
def div (x y : Binary32) : Binary32 :=
  let negative := x.isNegative != y.isNegative
  if x.isNaN || y.isNaN then nan
  else if x.isInfinite then
    if y.isInfinite then nan else ofMagnitude negative infinity
  else if y.isInfinite then ofMagnitude negative 0
  else if y.magnitude = 0 then
    if x.magnitude = 0 then nan else ofMagnitude negative infinity
  else
    ofMagnitude negative (roundUnits (units x.magnitude * 2 ^ 149) (units y.magnitude))

/-- The sum `z + x * y`, rounded once. -/
def mulAdd (x y z : Binary32) : Binary32 :=
  let negative := x.isNegative != y.isNegative
  if x.isNaN || y.isNaN || z.isNaN then nan
  else if x.isInfinite || y.isInfinite then
    if x.magnitude = 0 || y.magnitude = 0 then nan
    else if z.isInfinite && z.isNegative != negative then nan
    else ofMagnitude negative infinity
  else if z.isInfinite then z
  else
    round (negative && z.isNegative)
      (x.signedUnits * y.signedUnits + z.signedUnits * 2 ^ 149) (2 ^ 149)

/-! ## Order -/

/-- The place of a word in the numeric order; both zeros have place 0, and what is
not a number has none. -/
def rank? (x : Binary32) : Option Int :=
  if x.isNaN then none
  else some (if x.isNegative then -(x.magnitude : Int) else x.magnitude)

/-- A comparison of ranks; it fails when one operand is not a number. -/
def compareBy (test : Int → Int → Bool) (x y : Binary32) : Bool :=
  match x.rank?, y.rank? with
  | some a, some b => test a b
  | _, _ => false

end FrameGraph.Binary32
