import FrameGraph.Binary32.Basic
import FrameGraph.Text.Numeral

/-!
# Decimal text of binary32 numbers

Writing is positional and never uses an exponent: it gives the shortest decimal that
reads back, which is the decimal on the coarsest power-of-ten grid that meets the
rounding interval of the number.  Reading takes any decimal, with or without an
exponent, and rounds it once.

All decimals that are written are whole numbers of `10 ^ (-45)`, because that grid
is finer than the spacing of the smallest numbers.
-/

namespace FrameGraph.Binary32

open FrameGraph.Text

/-! ## The shortest decimal -/

/-- Whether `c` tenth-powers `10 ^ (-45)` round to the magnitude `m`: they lie
between the midpoints to the two neighbours of `m`, the midpoints themselves being
allowed when `m` is even. -/
def readsBack (m c : Nat) : Bool :=
  let low := (units (m - 1) + units m) * 10 ^ 45
  let high := (units m + units (m + 1)) * 10 ^ 45
  let value := c * 2 ^ 150
  (decide (low < value) && decide (value < high)) ||
    (m % 2 == 0 && (decide (low = value) || decide (value = high)))

/-- Of the two neighbours of the magnitude `m` on the grid of `10 ^ k`, the one that
reads back; if both do, the nearer, and the upper one at an exact tie. -/
def gridPoint? (m k : Nat) : Option Nat :=
  let below := units m * 10 ^ 45 / 2 ^ 149 / 10 ^ k * 10 ^ k
  let above := below + 10 ^ k
  if readsBack m below then
    if readsBack m above && (below + above) * 2 ^ 149 ≤ 2 * (units m * 10 ^ 45) then
      some above
    else some below
  else if readsBack m above then some above
  else none

/-- The grid point that reads back on the coarsest of the grids `10 ^ k`, …, `1`. -/
def coarsest (m : Nat) : Nat → Nat
  | 0 => (gridPoint? m 0).getD 0
  | k + 1 => (gridPoint? m (k + 1)).getD (coarsest m k)

/-- The shortest decimal of a finite magnitude, as a number of `10 ^ (-45)`. -/
def shortest (m : Nat) : Nat := if m = 0 then 0 else coarsest m 84

/-! ## Writing -/

/-- The digits behind the point, without the zeros at their end. -/
def fractionDigits (c : Nat) : List Char :=
  ((paddedDigits 10 45 (c % 10 ^ 45)).reverse.dropWhile (· == '0')).reverse

/-- The positional text of `c * 10 ^ (-45)`; a whole number has no point. -/
def positional (c : Nat) : List Char :=
  Nat.toDigits 10 (c / 10 ^ 45) ++
    if c % 10 ^ 45 = 0 then [] else '.' :: fractionDigits c

def characters (x : Binary32) : List Char :=
  if x.isNaN then ['N', 'a', 'N']
  else
    (if x.isNegative then ['-'] else []) ++
      if x.isInfinite then ['i', 'n', 'f'] else positional (shortest x.magnitude)

def text (x : Binary32) : String := String.ofList x.characters

/-! ## Reading -/

/-- An optional sign and the rest. -/
def splitSign : List Char → Bool × List Char
  | '-' :: s => (true, s)
  | '+' :: s => (false, s)
  | s => (false, s)

/-- The exponent part of a decimal: nothing, or the letter `e` in either case, an
optional sign and digits. -/
def readExponent? : List Char → Option Int
  | [] => some 0
  | c :: s =>
    if c = 'e' ∨ c = 'E' then
      let (negative, digits) := splitSign s
      (readDigits? digits).map fun n => if negative then -(n : Int) else n
    else none

/-- The magnitude nearest to `digits * 10 ^ exponent`, where `digits` are at most
`length` many.  An exponent that no such digits can offset is first cut down to one
that already gives infinity or zero. -/
def roundDecimal (digits length : Nat) (fraction : Nat) (exponent : Int) : Nat :=
  let bound : Int := length + 60
  let e := max (-bound) (min bound exponent) - fraction
  if 0 ≤ e then roundUnits (digits * 10 ^ e.toNat * 2 ^ 149) 1
  else roundUnits (digits * 2 ^ 149) (10 ^ (-e).toNat)

/-- Reads an unsigned decimal: digits with an optional point before, among or after
them, and an optional exponent. -/
def readDecimal? (s : List Char) : Option Nat :=
  let whole := s.takeWhile Char.isDigit
  let rest := s.dropWhile Char.isDigit
  let (fraction, rest) := match rest with
    | '.' :: r => (r.takeWhile Char.isDigit, r.dropWhile Char.isDigit)
    | _ => ([], rest)
  if whole.isEmpty && fraction.isEmpty then none
  else
    (readExponent? rest).map fun exponent =>
      let digits := whole ++ fraction
      roundDecimal (digitsValue digits) digits.length fraction.length exponent

/-- Reads a magnitude: a decimal, or one of the words for infinity and for what is
not a number, in any case. -/
def readMagnitude? (s : List Char) : Option Nat :=
  let word := String.ofList (s.map Char.toLower)
  if word = "inf" ∨ word = "infinity" then some infinity
  else if word = "nan" then some undefined
  else readDecimal? s

/-- Reads a number with an optional sign. -/
def ofCharacters? (s : List Char) : Option Binary32 :=
  let (negative, rest) := splitSign s
  (readMagnitude? rest).map (ofMagnitude negative)

end FrameGraph.Binary32
