import FrameGraph.Json.Value

/-!
# JSON records

Values of a wanted shape: strings, numbers, lists, string members, and records.  A
record is written as an object, in which fields may be missing if they have a default,
or as an array of its fields in order.
-/

namespace FrameGraph.Json

/-! ## Wanted shapes -/

/-- The mode for the values of records, which never reach the limit of depth. -/
def wanted : Mode := .strict 127

/-- Reports a value of another shape than the wanted one.  A word, a number or a string
is still read to its end, and a container is not. -/
def otherShape {α : Type} : Reader α := do
  match ← token with
  | none => fail .unfinished
  | some c =>
    if c = 'n' then word ['n', 'u', 'l', 'l']
    else if c = 't' then word ['t', 'r', 'u', 'e']
    else if c = 'f' then word ['f', 'a', 'l', 's', 'e']
    else if c = '"' then
      let _ ← quotedString wanted
    else if c = '-' ∨ c.isDigit then
      let _ ← number wanted
    else if c ≠ '[' ∧ c ≠ '\x7b' then fail .malformed
    fail .misshapen

def text : Reader String := do
  match ← token with
  | some '"' => quotedString wanted
  | _ => otherShape

/-- Takes a natural number of 64 bits. -/
def word64 : Reader Nat := do
  match ← token with
  | some c =>
    if c = '-' ∨ c.isDigit then
      match (← number wanted).word64? with
      | some n => return n
      | none => fail .misshapen
    else otherShape
  | none => fail .unfinished

def nullValue : Reader Unit := do
  match ← token with
  | some 'n' => word ['n', 'u', 'l', 'l']
  | _ => otherShape

/-- Goes on to the next element of an array, if there is one. -/
def nextElement (first : Bool) : Reader Bool := do
  match ← token with
  | none => fail .unfinished
  | some c =>
    if c = ']' then return false
    else if first then return true
    else if c = ',' then
      advance
      match ← token with
      | none => fail .unfinished
      | some c => if c = ']' then fail .malformed else return true
    else fail .malformed

/-- Goes on to the next key of an object, if there is one. -/
def nextKey (first : Bool) : Reader (Option String) := do
  match ← token with
  | none => fail .unfinished
  | some c =>
    if c = '\x7d' then return none
    else
      if !first then
        if c = ',' then advance else fail .malformed
      some <$> key wanted

/-- Takes the elements of an array and its closing bracket. -/
def elements {α : Type} (element : Reader α) (first : Bool) : Nat → Reader (List α)
  | 0 => fail .unfinished
  | rounds + 1 => do
    if ← nextElement first then
      let a ← element
      let rest ← elements element false rounds
      return a :: rest
    else
      advance
      return []

def list {α : Type} (element : Reader α) (rounds : Nat) : Reader (List α) := do
  match ← token with
  | some '[' =>
    advance
    elements element true rounds
  | _ => otherShape

/-- Takes the members of an object whose values are strings. -/
def stringMembers (first : Bool) : Nat → Reader (List (String × String))
  | 0 => fail .unfinished
  | rounds + 1 => do
    match ← nextKey first with
    | none =>
      advance
      return []
    | some k =>
      colon
      let v ← text
      let rest ← stringMembers false rounds
      return (k, v) :: rest

/-- Takes an object whose values are strings, as pairs in the order of the text. -/
def stringPairs (rounds : Nat) : Reader (List (String × String)) := do
  match ← token with
  | some '\x7b' =>
    advance
    stringMembers true rounds
  | _ => otherShape

/-! ## Records -/

/-- A field of a record, which reading puts into a partial record of type `σ`. -/
structure Field (σ : Type) where
  name : String
  required : Bool
  read : σ → Reader σ

variable {σ : Type}

/-- Takes the members of a record written as an object.  A field stands at most once,
and a key that is no field is skipped with its value. -/
def recordMembers (fields : List (Field σ)) (seen : List String) (first : Bool)
    (known : σ) : Nat → Reader σ
  | 0 => fail .unfinished
  | rounds + 1 => do
    match ← nextKey first with
    | none =>
      if fields.any fun f => f.required && !seen.contains f.name then fail .misshapen
      else
        advance
        return known
    | some k =>
      match fields.find? fun f => f.name = k with
      | none =>
        colon
        let _ ← anyValue .lenient rounds
        recordMembers fields seen false known rounds
      | some field =>
        if seen.contains k then fail .misshapen
        else
          colon
          let next ← field.read known
          recordMembers fields (k :: seen) false next rounds

/-- Takes the elements of a record written as an array of its fields in order. -/
def recordElements (known : σ) (first : Bool) : List (Field σ) → Reader σ
  | [] => do
    match ← token with
    | none => fail .unfinished
    | some c =>
      if c = ']' then
        advance
        return known
      else fail .malformed
  | field :: rest => do
    if ← nextElement first then
      let next ← field.read known
      recordElements next false rest
    else if field.required || rest.any Field.required then fail .misshapen
    else
      advance
      return known

/-- Takes a record, written as an object or as an array. -/
def record (fields : List (Field σ)) (empty : σ) (rounds : Nat) : Reader σ := do
  match ← token with
  | some '\x7b' =>
    advance
    recordMembers fields [] true empty rounds
  | some '[' =>
    advance
    recordElements empty true fields
  | _ => otherShape

/-! ## Documents -/

/-- Reads a text that holds one value and nothing else.  The reader is told how many
rounds are enough. -/
def read {α : Type} (reader : Nat → Reader α) (source : String) :
    Except SourceFault α := do
  let s := source.toList
  let (a, rest) ← (reader (2 * s.length + 2)).run s
  if (rest.dropWhile isSpace).isEmpty then return a else throw .malformed

end FrameGraph.Json
