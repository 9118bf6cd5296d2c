import FrameGraph.Powers

/-!
# Numerals

Decimal and hexadecimal numerals of natural numbers, with and without leading
zeros, and the number that a run of decimal digits denotes.
-/

namespace FrameGraph.Text

/-- The digits of `n` in the given base, with zeros in front up to `width`. -/
def paddedDigits (base width n : Nat) : List Char :=
  let digits := Nat.toDigits base n
  List.replicate (width - digits.length) '0' ++ digits

def fourDigits (n : Nat) : String :=
  String.ofList (paddedDigits 10 4 n)

/-- The number that decimal digits denote, most significant first. -/
def digitsValue (digits : List Char) : Nat :=
  digits.foldl (fun n c => 10 * n + (c.toNat - '0'.toNat)) 0

/-- Reads one or more decimal digits and nothing else. -/
def readDigits? (s : List Char) : Option Nat :=
  if s.isEmpty then none
  else if s.all Char.isDigit then some (digitsValue s)
  else none

/-- Reads a decimal number of 64-bit words: an optional plus sign and one or more
digits whose value is below `2 ^ 64`. -/
def readWord64? (s : List Char) : Option Nat :=
  let digits := match s with
    | '+' :: r => r
    | _ => s
  (readDigits? digits).filter (· < 2 ^ 64)

end FrameGraph.Text
