import FrameGraph.Error

/-!
# Readers of JSON

Readers that take a value of a wanted shape from the front of a text and report the
first thing that is wrong on the way from left to right, be it the text or the shape.
Values that nobody asked for are skipped.  Skipping is lenient: it checks the grammar
only, so a number may have any size and an escape may name half of a surrogate pair.

Loops take a number of rounds.  A character is met in two rounds at most, once by a
container and once by the value that begins there, and the end of the text in two.
-/

namespace FrameGraph.Json

/-- Takes an `α` from the front of a text. -/
abbrev Reader := StateT (List Char) (Except SourceFault)

def fail {α : Type} (fault : SourceFault) : Reader α := throw fault

/-! ## Characters -/

/-- The four characters that may stand between tokens. -/
def isSpace (c : Char) : Bool := c = ' ' || c = '\n' || c = '\t' || c = '\r'

/-- Drops spaces and shows the character behind them. -/
def token : Reader (Option Char) := fun s =>
  let s := s.dropWhile isSpace
  .ok (s.head?, s)

def advance : Reader Unit := fun s => .ok ((), s.drop 1)

/-- Takes exactly these characters. -/
def word : List Char → Reader Unit
  | [] => pure ()
  | c :: rest => do
    match ← get with
    | [] => fail .unfinished
    | d :: s =>
      if d = c then
        set s
        word rest
      else fail .malformed

/-! ## Modes -/

/-- Whether a value is wanted, with the number of containers that may still be opened,
or is skipped. -/
inductive Mode where
  | strict (depth : Nat)
  | lenient

/-- The mode inside one more container. -/
def Mode.enter : Mode → Reader Mode
  | strict 0 => fail .malformed
  | strict (n + 1) => pure (.strict n)
  | lenient => pure .lenient

end FrameGraph.Json
