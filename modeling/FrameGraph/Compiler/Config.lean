import FrameGraph.Json.Record
import FrameGraph.Operator
import FrameGraph.Resource.Device

/-!
# Compiler settings

Where the final output goes, how deep the operand stack may be, and the numeric mode
of operators that name none, with the JSON form of these settings.
-/

namespace FrameGraph

/-- Where the final output of a graph is rendered. -/
inductive FramebufferMode where
  /-- Into a framebuffer of the host, which takes the place of the final texture. -/
  | external (handle : Handle)
  /-- Into the framebuffer of the pass that renders the final node. -/
  | internal
  deriving DecidableEq, Repr

structure Config where
  framebuffer : FramebufferMode := .external .null
  stackLimit : Nat := 1024
  defaultMode : NumericMode := .float
  deriving DecidableEq, Repr

namespace FramebufferMode

open Json

def externalHandle? : FramebufferMode → Option Handle
  | external h => some h
  | internal => none

/-! ## Reading -/

/-- The values of the settings stand below the document and their own container. -/
def buffered : Mode := .strict 125

/-- Takes the name of a mode and tells whether it is the external one. -/
def tagReader : Reader Bool := do
  match ← text with
  | "external" => return true
  | "internal" => return false
  | _ => fail .misshapen

/-- Takes the members of the tagged object: the tag, which stands once, and the values
of all other keys. -/
def members (first : Bool) (tag : Option Bool) :
    Nat → Reader (Option Bool × List (String × Option Nat))
  | 0 => fail .unfinished
  | rounds + 1 => do
    match ← nextKey first with
    | none =>
      advance
      return (tag, [])
    | some k =>
      if k = "mode" then
        if tag.isSome then fail .misshapen
        else
          colon
          members false (some (← tagReader)) rounds
      else
        colon
        let v ← anyValue buffered rounds
        let (tag, rest) ← members false tag rounds
        return (tag, (k, v) :: rest)

/-- The external mode with the one handle given, which must have 32 bits. -/
def ofHandles : List (Option Nat) → Reader FramebufferMode
  | [some n] => if n < 2 ^ 32 then return .external ⟨n⟩ else fail .misshapen
  | _ => fail .misshapen

/-- Reads the mode: an object tagged by `mode`, or an array that begins with the tag. -/
def reader (rounds : Nat) : Reader FramebufferMode := do
  match ← token with
  | some '\x7b' =>
    advance
    match ← members true none rounds with
    | (none, _) => fail .misshapen
    | (some false, _) => return .internal
    | (some true, others) =>
      ofHandles ((others.filter fun p => p.1 = "handle").map Prod.snd)
  | some '[' =>
    advance
    if ← nextElement true then
      let isExternal ← tagReader
      let others ← elements (anyValue buffered rounds) false rounds
      if isExternal then ofHandles others
      else if others.isEmpty then return .internal
      else fail .misshapen
    else fail .misshapen
  | _ => otherShape

end FramebufferMode

def NumericMode.named (s : String) : Json.Reader NumericMode :=
  match NumericMode.all.find? fun m => m.name = s with
  | some m => return m
  | none => Json.fail .misshapen

/-- Reads a numeric mode: its name, or an object with the name as its only key and a
null value. -/
def NumericMode.reader : Json.Reader NumericMode := do
  match ← Json.token with
  | none => Json.fail .unfinished
  | some '"' => named (← Json.text)
  | some '\x7b' =>
    Json.advance
    let m ← named (← Json.key Json.wanted)
    Json.colon
    Json.nullValue
    match ← Json.token with
    | some '\x7d' =>
      Json.advance
      return m
    | some _ => Json.fail .malformed
    | none => Json.fail .unfinished
  | some _ => Json.fail .malformed

namespace Config

/-- Reads settings; a missing field has its default. -/
def reader (rounds : Nat) : Json.Reader Config :=
  Json.record
    [⟨"framebuffer", false, fun c =>
        return { c with framebuffer := ← FramebufferMode.reader rounds }⟩,
      ⟨"stack_limit", false, fun c => return { c with stackLimit := ← Json.word64 }⟩,
      ⟨"default_mode", false, fun c =>
        return { c with defaultMode := ← NumericMode.reader }⟩]
    {} rounds

def ofSource (source : String) : Except Error Config :=
  (Json.read reader source).mapError .source

end Config

end FrameGraph
