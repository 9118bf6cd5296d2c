import FrameGraph.Powers

/-!
# Rounding

Quotients and natural numbers rounded to the nearest representable number, a tie to
the even one.
-/

namespace FrameGraph

/-- The quotient rounded to the nearest natural number, a half to the even one. -/
def roundHalfEven (num den : Nat) : Nat :=
  let q := num / den
  let twice := 2 * (num % den)
  if den < twice ∨ (twice = den ∧ q % 2 = 1) then q + 1 else q

/-- The natural number nearest to `n` that has at most `bits + 1` significant bits. -/
def roundToBits (bits n : Nat) : Nat :=
  let shift := n.log2 - bits
  roundHalfEven n (2 ^ shift) * 2 ^ shift

end FrameGraph
