import FrameGraph.Json.Reader

/-!
# JSON strings

A string is read up to its closing quote.  In a wanted string the codes of surrogates
must come in pairs; in a skipped one they are not looked at.
-/

namespace FrameGraph.Json

/-- What is expected inside a string. -/
inductive Inside where
  | plain
  /-- The character after a backslash. -/
  | escape
  /-- More digits of a code, of which `value` is known so far. -/
  | code (missing value : Nat) (high : Option Nat)
  /-- The backslash of the second half of a surrogate pair. -/
  | lowBackslash (high : Nat)
  /-- The letter of the second half of a surrogate pair. -/
  | lowLetter (high : Nat)

/-- The character that a one-letter escape stands for. -/
def escaped? : Char → Option Char
  | '"' => some '"'
  | '\\' => some '\\'
  | '/' => some '/'
  | 'b' => some '\x08'
  | 'f' => some '\x0c'
  | 'n' => some '\n'
  | 'r' => some '\r'
  | 't' => some '\t'
  | _ => none

def hexDigit? (c : Char) : Option Nat :=
  if '0' ≤ c ∧ c ≤ '9' then some (c.toNat - '0'.toNat)
  else if 'a' ≤ c ∧ c ≤ 'f' then some (c.toNat - 'a'.toNat + 10)
  else if 'A' ≤ c ∧ c ≤ 'F' then some (c.toNat - 'A'.toNat + 10)
  else none

/-- Whether four bytes of UTF-8 are left, as many as the digits of a code need. -/
def hasFourBytes (s : List Char) : Bool :=
  4 ≤ (s.take 4).foldl (fun bytes c => bytes + c.utf8Size) 0

/-- What follows a complete code: a character, or the second half of a pair. -/
def finishCode (value : Nat) (high : Option Nat) :
    Except SourceFault (Inside × Option Char) :=
  match high with
  | none =>
    if 0xd800 ≤ value ∧ value ≤ 0xdbff then .ok (.lowBackslash value, none)
    else if 0xdc00 ≤ value ∧ value ≤ 0xdfff then .error .malformed
    else .ok (.plain, some (Char.ofNat value))
  | some high =>
    if 0xdc00 ≤ value ∧ value ≤ 0xdfff then
      .ok (.plain, some (Char.ofNat (0x10000 + (high - 0xd800) * 0x400 + (value - 0xdc00))))
    else .error .malformed

/-- Reads the inside of a string up to the closing quote.  The characters read so far
are kept in reverse. -/
def stringRest (mode : Mode) : Inside → List Char → List Char →
    Except SourceFault (List Char × List Char)
  | _, _, [] => .error .unfinished
  | .plain, taken, c :: s =>
    if c = '"' then .ok (taken.reverse, s)
    else if c = '\\' then stringRest mode .escape taken s
    else if c.toNat < 0x20 then .error .malformed
    else stringRest mode .plain (c :: taken) s
  | .escape, taken, c :: s =>
    if c = 'u' then
      if hasFourBytes s then stringRest mode (.code 4 0 none) taken s
      else .error .unfinished
    else
      match escaped? c with
      | some d => stringRest mode .plain (d :: taken) s
      | none => .error .malformed
  | .code missing value high, taken, c :: s =>
    match hexDigit? c with
    | none => .error .malformed
    | some digit =>
      let value := value * 16 + digit
      if 1 < missing then stringRest mode (.code (missing - 1) value high) taken s
      else
        match mode with
        | .lenient => stringRest mode .plain taken s
        | .strict _ =>
          match finishCode value high with
          | .error fault => .error fault
          | .ok (inside, none) => stringRest mode inside taken s
          | .ok (inside, some d) => stringRest mode inside (d :: taken) s
  | .lowBackslash high, taken, c :: s =>
    if c = '\\' then stringRest mode (.lowLetter high) taken s else .error .malformed
  | .lowLetter high, taken, c :: s =>
    if c = 'u' then
      if hasFourBytes s then stringRest mode (.code 4 0 (some high)) taken s
      else .error .unfinished
    else .error .malformed

/-- Takes a string whose opening quote is the next character. -/
def quotedString (mode : Mode) : Reader String := do
  advance
  let (taken, rest) ← (stringRest mode .plain [] (← get) : Except SourceFault _)
  set rest
  return String.ofList taken

end FrameGraph.Json
