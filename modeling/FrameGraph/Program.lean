import FrameGraph.Instruction

/-!
# Programs

A program is a non-empty byte stream.  It can be read linearly as instructions with
their offsets, printed, and assembled from instructions one by one.
-/

namespace FrameGraph

structure Program where
  bytes : Array UInt8
  bytes_ne_empty : bytes.size ≠ 0

namespace Program

/-- The program over a byte stream, which must not be empty. -/
def ofBytes (bytes : Array UInt8) : Except Error Program :=
  if h : bytes.size ≠ 0 then .ok ⟨bytes, h⟩ else .error .emptyProgram

def size (p : Program) : Nat := p.bytes.size

/-! ## Linear reading -/

/-- What linear reading finds: an instruction, or the trap that ends it. -/
inductive Item where
  | instruction (offset : Nat) (i : Instruction)
  | trap (t : Trap)
  deriving DecidableEq, Repr

/-- The items from `offset` on: instructions that follow each other without gaps, up
to the end of the stream or the first place where none starts. -/
def itemsFrom (bytes : Array UInt8) (offset : Nat) : List Item :=
  if offset < bytes.size then
    match Instruction.decode bytes offset with
    | .error t => [.trap t]
    | .ok i => .instruction offset i :: itemsFrom bytes (offset + i.encodedLength)
  else []
termination_by bytes.size - offset
decreasing_by
  have := i.encodedLength_pos
  omega

/-- The whole stream as instructions. -/
def items (p : Program) : List Item := itemsFrom p.bytes 0

def Item.line : Item → String
  | .instruction offset i => Text.fourDigits offset ++ " " ++ i.text ++ "\n"
  | .trap t => "<" ++ t.message ++ ">\n"

/-- The disassembly: one line for each item. -/
def text (p : Program) : String := String.join (p.items.map Item.line)

end Program

/-! ## Assembling -/

structure Assembler where
  bytes : Array UInt8 := #[]

namespace Assembler

/-- The offset at which the next instruction goes. -/
def position (a : Assembler) : Nat := a.bytes.size

/-- Appends an instruction and gives the offset at which it starts. -/
def emit (a : Assembler) (i : Instruction) : Nat × Assembler :=
  (a.position, ⟨a.bytes ++ i.encode.toArray⟩)

/-- Appends instructions in order and gives the offset of each. -/
def emitAll (a : Assembler) : List Instruction → List Nat × Assembler
  | [] => ([], a)
  | i :: rest =>
    let (offset, a) := a.emit i
    let (offsets, a) := a.emitAll rest
    (offset :: offsets, a)

def finish (a : Assembler) : Except Error Program := Program.ofBytes a.bytes

end Assembler

def Program.assemble (code : List Instruction) : Except Error Program :=
  ((Assembler.mk #[]).emitAll code).2.finish

end FrameGraph
