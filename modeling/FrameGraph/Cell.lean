import FrameGraph.Binary32.Arithmetic
import FrameGraph.Binary32.Text

/-!
# Cells

A cell is one 32-bit word of value memory or of the operand stack.  The same bits
are read as an unsigned or a signed integer, as a binary32 number or as a truth
value, and nothing is ever widened.
-/

namespace FrameGraph

/-- One 32-bit word. -/
structure Cell where
  bits : UInt32
  deriving DecidableEq, Repr

namespace Cell

def zero : Cell := ⟨0⟩

/-! ## Writing -/

/-- The residue of an integer modulo `2 ^ 32`. -/
def ofInt (n : Int) : Cell := ⟨UInt32.ofNat (n % 2 ^ 32).toNat⟩

def ofNat (n : Nat) : Cell := ⟨UInt32.ofNat n⟩

def ofFloat (x : Binary32) : Cell := ⟨x.bits⟩

def ofBool (b : Bool) : Cell := if b then ⟨1⟩ else ⟨0⟩

/-! ## Reading -/

def unsigned (c : Cell) : Int := c.bits.toNat

/-- The signed reading in two's complement. -/
def signed (c : Cell) : Int :=
  if c.bits.toNat < 2 ^ 31 then c.bits.toNat else (c.bits.toNat : Int) - 2 ^ 32

def toFloat (c : Cell) : Binary32 := ⟨c.bits⟩

/-- Every bit pattern but zero is true. -/
def toBool (c : Cell) : Bool := c.bits != 0

/-! ## Text -/

/-- The bits in hexadecimal with the decimal text of the number they encode. -/
def debugText (c : Cell) : String :=
  "Value(0x" ++ String.ofList (Text.paddedDigits 16 8 c.bits.toNat) ++ " = " ++
    c.toFloat.text ++ ")"

end Cell

end FrameGraph
