import FrameGraph.Json.Number
import FrameGraph.Json.Quoted

/-!
# JSON values of any shape

Values that are taken without looking at their shape, in either mode.
-/

namespace FrameGraph.Json

/-- Takes the colon behind a key. -/
def colon : Reader Unit := do
  match ← token with
  | some ':' => advance
  | some _ => fail .malformed
  | none => fail .unfinished

def key (mode : Mode) : Reader String := do
  match ← token with
  | some '"' => quotedString mode
  | some _ => fail .malformed
  | none => fail .unfinished

mutual

/-- Takes a value of any shape and gives it if it is a natural number of 64 bits. -/
def anyValue (mode : Mode) : Nat → Reader (Option Nat)
  | 0 => fail .unfinished
  | rounds + 1 => do
    match ← token with
    | none => fail .unfinished
    | some c =>
      if c = 'n' then
        word ['n', 'u', 'l', 'l']
        return none
      else if c = 't' then
        word ['t', 'r', 'u', 'e']
        return none
      else if c = 'f' then
        word ['f', 'a', 'l', 's', 'e']
        return none
      else if c = '"' then
        let _ ← quotedString mode
        return none
      else if c = '-' ∨ c.isDigit then
        return (← number mode).word64?
      else if c = '[' then
        advance
        anyElements (← mode.enter) true rounds
        return none
      else if c = '\x7b' then
        advance
        anyMembers (← mode.enter) true rounds
        return none
      else fail .malformed

/-- Takes the elements of an array and its closing bracket. -/
def anyElements (mode : Mode) (first : Bool) : Nat → Reader Unit
  | 0 => fail .unfinished
  | rounds + 1 => do
    match ← token with
    | none => fail .unfinished
    | some c =>
      if c = ']' then advance
      else if first then
        let _ ← anyValue mode rounds
        anyElements mode false rounds
      else if c = ',' then
        advance
        let _ ← anyValue mode rounds
        anyElements mode false rounds
      else fail .malformed

/-- Takes the members of an object and its closing brace. -/
def anyMembers (mode : Mode) (first : Bool) : Nat → Reader Unit
  | 0 => fail .unfinished
  | rounds + 1 => do
    match ← token with
    | none => fail .unfinished
    | some c =>
      if c = '\x7d' then advance
      else
        if !first then
          if c = ',' then advance else fail .malformed
        let _ ← key mode
        colon
        let _ ← anyValue mode rounds
        anyMembers mode false rounds

end

end FrameGraph.Json
