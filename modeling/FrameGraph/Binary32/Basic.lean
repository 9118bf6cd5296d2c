import FrameGraph.Rounding

/-!
# Binary32 words

A binary32 word is a sign bit over a 31-bit magnitude.  Magnitudes are ordered as
natural numbers, infinity is the magnitude `0x7f800000`, and what lies above it is
not a number.  Every finite magnitude denotes a whole number of *units* of
`2 ^ (-149)`, the smallest positive number of the format.  Sums are therefore
integer sums, and every other operation is one rounded quotient of units.
-/

namespace FrameGraph

/-- A binary32 number, given by its 32 bits. -/
structure Binary32 where
  bits : UInt32
  deriving DecidableEq, Repr

namespace Binary32

/-! ## Sign and magnitude -/

/-- The magnitude of infinity. -/
def infinity : Nat := 0x7f800000

/-- The magnitude of the one result that stands for every undefined operation. -/
def undefined : Nat := 0x7fc00000

def magnitude (x : Binary32) : Nat := x.bits.toNat % 2 ^ 31

def isNegative (x : Binary32) : Bool := decide (2 ^ 31 ≤ x.bits.toNat)

def ofMagnitude (negative : Bool) (m : Nat) : Binary32 :=
  ⟨UInt32.ofNat (m + if negative then 2 ^ 31 else 0)⟩

def nan : Binary32 := ofMagnitude false undefined

def isNaN (x : Binary32) : Bool := decide (infinity < x.magnitude)

def isInfinite (x : Binary32) : Bool := x.magnitude == infinity

/-! ## Units -/

/-- How many units of `2 ^ (-149)` a finite magnitude denotes.  Below `2 ^ 23` the
magnitude is the number itself; above, its low 23 bits with the hidden bit are
scaled by the exponent field. -/
def units (m : Nat) : Nat :=
  if m < 2 ^ 23 then m else (m % 2 ^ 23 + 2 ^ 23) * 2 ^ (m / 2 ^ 23 - 1)

/-- The magnitude nearest to `num / den` units, a tie to the even magnitude.  The
quotient is shifted until 24 bits are left; a carry out of them runs into the
exponent field, where it belongs. -/
def roundUnits (num den : Nat) : Nat :=
  let shift := (num / den).log2 - 23
  min (shift * 2 ^ 23 + roundHalfEven num (den * 2 ^ shift)) infinity

end Binary32

end FrameGraph
