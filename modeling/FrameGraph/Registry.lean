import FrameGraph.Operation
import FrameGraph.Text.Quoted

/-!
# Operation registries

A registry maps identifiers, as passes name them, to factories of operations, in the
order of registration.
-/

namespace FrameGraph

/-- A computation in a world of type `ω` that may fail; what it did to the world before
it failed stays done. -/
abbrev Build (ω : Type) := ExceptT Error (StateM ω)

abbrev Factory (ω : Type) := ω → Operation ω × ω

structure Registry (ω : Type) where
  entries : List (String × Factory ω) := []

namespace Registry

variable {ω : Type}

def find? (r : Registry ω) (identifier : String) : Option (Factory ω) :=
  r.entries.lookup identifier

def contains (r : Registry ω) (identifier : String) : Bool :=
  (r.find? identifier).isSome

def identifiers (r : Registry ω) : List String := r.entries.map Prod.fst

/-- Registers a factory under an identifier that is new. -/
def register (r : Registry ω) (identifier : String) (factory : Factory ω) :
    Except Error (Registry ω) :=
  if r.contains identifier then .error (.duplicateOperation identifier)
  else .ok ⟨r.entries ++ [(identifier, factory)]⟩

/-- Makes an operation of the kind registered under an identifier. -/
def create (r : Registry ω) (identifier : String) : Build ω (Operation ω) :=
  match r.find? identifier with
  | none => throw (.unknownOperationType identifier)
  | some factory => fun world =>
    let (operation, world) := factory world
    (.ok operation, world)

def debugText (r : Registry ω) : String :=
  "OperationRegistry \x7b identifiers: [" ++
    String.intercalate ", " (r.identifiers.map Text.quoted) ++ "] \x7d"

end Registry

end FrameGraph
