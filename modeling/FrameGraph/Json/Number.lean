import FrameGraph.Json.Reader
import FrameGraph.Rounding
import FrameGraph.Text.Numeral

/-!
# JSON numbers

A number is taken in as a word of 64 bits if it is written as one, and otherwise only
its size matters: a wanted number must be one that binary64 can hold.
-/

namespace FrameGraph.Json

/-- A number as it is first taken in: the leading digits that fit a 64-bit word, times a
power of ten. -/
structure Number where
  negative : Bool
  significand : Nat
  scale : Int
  /-- Whether the number is written as digits only and all of them are kept. -/
  isWord : Bool

/-- Appends digits to a number for as long as it fits a 64-bit word, and counts the
digits that are left out. -/
def appendDigits : Nat → List Char → Nat × Nat
  | n, [] => (n, 0)
  | n, c :: rest =>
    let next := 10 * n + (c.toNat - '0'.toNat)
    if next < 2 ^ 64 then appendDigits next rest else (n, rest.length + 1)

/-- The smallest number that rounds to the infinity of binary64. -/
def overflowThreshold : Nat := 2 ^ 1024 - 2 ^ 970

/-- Whether the number is too large for binary64, where significand and power of ten
are rounded to 53 bits each before they are multiplied. -/
def Number.overflows (n : Number) : Bool :=
  if 308 < n.scale then n.significand != 0
  else if 0 ≤ n.scale then
    overflowThreshold ≤ roundToBits 52 n.significand * roundToBits 52 (10 ^ n.scale.toNat)
  else false

/-- The number as a natural number of 64 bits, if it is written as one. -/
def Number.word64? (n : Number) : Option Nat :=
  if n.isWord && !n.negative then some n.significand else none

def digits (mode : Mode) : Reader (List Char) := do
  let s ← get
  let taken := s.takeWhile Char.isDigit
  let rest := s.dropWhile Char.isDigit
  if taken.isEmpty then
    match mode, rest with
    | .strict _, [] => fail .unfinished
    | _, _ => fail .malformed
  else
    set rest
    return taken

/-- Takes the digits in front of the point; a zero stands alone. -/
def wholeDigits (mode : Mode) : Reader (List Char) := do
  let taken ← digits mode
  if 1 < taken.length && taken.head? = some '0' then fail .malformed
  else return taken

/-- Takes the digits behind the point, if there is one. -/
def fractionDigits (mode : Mode) : Reader (Option (List Char)) := do
  match ← get with
  | '.' :: s => do
    set s
    some <$> digits mode
  | _ => return none

/-- Takes an exponent, if there is one. -/
def exponentPart (mode : Mode) : Reader (Option Int) := do
  match ← get with
  | c :: s =>
    if c = 'e' ∨ c = 'E' then do
      let (negative, s) := match s with
        | '-' :: s => (true, s)
        | '+' :: s => (false, s)
        | s => (false, s)
      set s
      let n := Text.digitsValue (← digits mode)
      return some (if negative then -(n : Int) else n)
    else return none
  | [] => return none

def number (mode : Mode) : Reader Number := do
  let negative := (← get).head? = some '-'
  if negative then advance
  let whole ← wholeDigits mode
  let fraction ← fractionDigits mode
  let exponent ← exponentPart mode
  let places := fraction.getD []
  let (significand, dropped) := appendDigits 0 whole
  let (significand, cut) := appendDigits significand places
  let n : Number := {
    negative := negative
    significand := significand
    scale := dropped - (places.length - cut : Nat) + exponent.getD 0
    isWord := dropped = 0 && fraction.isNone && exponent.isNone }
  match mode with
  | .strict _ => if n.overflows then fail .malformed else return n
  | .lenient => return n

end FrameGraph.Json
