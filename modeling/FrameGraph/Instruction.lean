import FrameGraph.Error
import FrameGraph.Operator

/-!
# Instructions

The instruction set and its byte encoding: an opcode byte and then, depending on the
opcode alone, nothing, one mode byte, or one 16-bit word with the high byte first.
-/

namespace FrameGraph

/-! ## Addresses -/

/-- A 16-bit operand address: the top bit selects texture memory, the other bits are
the index. -/
structure Address where
  word : UInt16
  deriving DecidableEq, Repr

namespace Address

def spaceSize : Nat := 2 ^ 15

/-- The address of a value slot, if there are that many. -/
def value? (index : Nat) : Option Address :=
  if index < spaceSize then some ⟨UInt16.ofNat index⟩ else none

def texture? (index : Nat) : Option Address :=
  if index < spaceSize then some ⟨UInt16.ofNat (spaceSize + index)⟩ else none

def isTexture (a : Address) : Bool := decide (spaceSize ≤ a.word.toNat)

def index (a : Address) : Nat := a.word.toNat % spaceSize

def text (a : Address) : String :=
  (if a.isTexture then "t" else "v") ++ toString a.index

end Address

/-! ## Opcodes -/

/-- What an instruction does, without its operand. -/
inductive Opcode where
  | nop
  | push
  | pop
  | numeric (op : NumericOperator)
  | logical (op : LogicalOperator)
  | jump
  | jumpIf (expected : Bool)
  | call
  | halt
  deriving DecidableEq, Repr

namespace Opcode

def all : List Opcode :=
  [.nop, .push, .pop] ++ NumericOperator.all.map .numeric ++
    LogicalOperator.all.map .logical ++
    [.jump, .jumpIf true, .jumpIf false, .call, .halt]

def byte : Opcode → UInt8
  | .nop => 0x00
  | .push => 0x01
  | .pop => 0x02
  | .numeric .add => 0x10
  | .numeric .sub => 0x11
  | .numeric .mul => 0x12
  | .numeric .div => 0x13
  | .numeric .neg => 0x14
  | .numeric .abs => 0x15
  | .numeric .fma => 0x16
  | .numeric .eq => 0x20
  | .numeric .neq => 0x21
  | .numeric .gt => 0x22
  | .numeric .gte => 0x23
  | .numeric .lt => 0x24
  | .numeric .lte => 0x25
  | .logical .not => 0x30
  | .logical .and => 0x31
  | .logical .or => 0x32
  | .jump => 0x40
  | .jumpIf true => 0x41
  | .jumpIf false => 0x42
  | .call => 0x50
  | .halt => 0xff

def ofByte? (b : UInt8) : Option Opcode := all.find? fun op => op.byte = b

def mnemonic : Opcode → String
  | .nop => "NOP"
  | .push => "PUSH"
  | .pop => "POP"
  | .numeric .add => "ADD"
  | .numeric .sub => "SUB"
  | .numeric .mul => "MUL"
  | .numeric .div => "DIV"
  | .numeric .neg => "NEG"
  | .numeric .abs => "ABS"
  | .numeric .fma => "FMA"
  | .numeric .eq => "EQ"
  | .numeric .neq => "NEQ"
  | .numeric .gt => "GT"
  | .numeric .gte => "GTE"
  | .numeric .lt => "LT"
  | .numeric .lte => "LTE"
  | .logical .not => "NOT"
  | .logical .and => "AND"
  | .logical .or => "OR"
  | .jump => "JMP"
  | .jumpIf true => "JMPT"
  | .jumpIf false => "JMPF"
  | .call => "CALL"
  | .halt => "HALT"

def ofMnemonic? (s : String) : Option Opcode := all.find? fun op => op.mnemonic = s

end Opcode

/-! ## Instructions -/

/-- An instruction with its operand.  Jump targets are byte offsets. -/
inductive Instruction where
  | nop
  | push (address : Address)
  | pop (address : Address)
  | numeric (op : NumericOperator) (mode : NumericMode)
  | logical (op : LogicalOperator)
  | jump (target : UInt16)
  | jumpIf (expected : Bool) (target : UInt16)
  | call (index : UInt16)
  | halt
  deriving DecidableEq, Repr

namespace Instruction

def opcode : Instruction → Opcode
  | .nop => .nop
  | .push _ => .push
  | .pop _ => .pop
  | .numeric op _ => .numeric op
  | .logical op => .logical op
  | .jump _ => .jump
  | .jumpIf expected _ => .jumpIf expected
  | .call _ => .call
  | .halt => .halt

/-- The two bytes of a word, the high one first. -/
def wordBytes (w : UInt16) : List UInt8 :=
  [UInt8.ofNat (w.toNat / 256), UInt8.ofNat (w.toNat % 256)]

def wordOfBytes (high low : UInt8) : UInt16 := UInt16.ofNat (high.toNat * 256 + low.toNat)

def operandBytes : Instruction → List UInt8
  | .push a | .pop a => wordBytes a.word
  | .numeric _ mode => [mode.byte]
  | .jump w | .jumpIf _ w | .call w => wordBytes w
  | .nop | .logical _ | .halt => []

def encode (i : Instruction) : List UInt8 := i.opcode.byte :: i.operandBytes

def encodedLength : Instruction → Nat
  | .push _ | .pop _ | .jump _ | .jumpIf _ _ | .call _ => 3
  | .numeric _ _ => 2
  | .nop | .logical _ | .halt => 1

theorem encodedLength_pos (i : Instruction) : 0 < i.encodedLength := by
  cases i <;> simp [encodedLength]

/-! ## Decoding -/

def decodeMode (bytes : Array UInt8) (offset : Nat) : Except Trap NumericMode :=
  match bytes[offset + 1]? with
  | none => .error (.truncatedInstruction offset)
  | some b =>
    match NumericMode.ofByte? b with
    | none => .error (.invalidMode offset b)
    | some mode => .ok mode

def decodeWord (bytes : Array UInt8) (offset : Nat) : Except Trap UInt16 :=
  match bytes[offset + 1]?, bytes[offset + 2]? with
  | some high, some low => .ok (wordOfBytes high low)
  | _, _ => .error (.truncatedInstruction offset)

/-- The instruction at `offset` whose opcode is already known. -/
def decodeOperand (bytes : Array UInt8) (offset : Nat) : Opcode → Except Trap Instruction
  | .nop => .ok .nop
  | .push => (decodeWord bytes offset).map fun w => .push ⟨w⟩
  | .pop => (decodeWord bytes offset).map fun w => .pop ⟨w⟩
  | .numeric op => (decodeMode bytes offset).map (.numeric op)
  | .logical op => .ok (.logical op)
  | .jump => (decodeWord bytes offset).map .jump
  | .jumpIf expected => (decodeWord bytes offset).map (.jumpIf expected)
  | .call => (decodeWord bytes offset).map .call
  | .halt => .ok .halt

def decode (bytes : Array UInt8) (offset : Nat) : Except Trap Instruction :=
  match bytes[offset]? with
  | none => .error (.pointerOutOfRange offset)
  | some b =>
    match Opcode.ofByte? b with
    | none => .error (.invalidOpcode offset b)
    | some op => decodeOperand bytes offset op

/-! ## Text -/

def text (i : Instruction) : String :=
  match i with
  | .push a | .pop a => i.opcode.mnemonic ++ " " ++ a.text
  | .jump w | .jumpIf _ w => i.opcode.mnemonic ++ " @" ++ Text.fourDigits w.toNat
  | .call w => i.opcode.mnemonic ++ " " ++ toString w.toNat
  | .numeric _ mode => i.opcode.mnemonic ++ "." ++ mode.suffix
  | .nop | .logical _ | .halt => i.opcode.mnemonic

end Instruction

def Operator.instruction (op : Operator) (mode : NumericMode) : Instruction :=
  match op with
  | .numeric op => .numeric op mode
  | .logical op => .logical op

end FrameGraph
