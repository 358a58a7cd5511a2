import ShaderGen.Binary
import ShaderGen.Word
import ShaderGen.Source.Type

/-!
# Constants of the source

A constant is a scalar or a composite of constants. Integers are mathematical ones, within 64 bits,
and floating-point numbers are given by their 64-bit pattern. `literalBits` is the literal that
stands for a scalar in a given type: two's complement of the type's width for integers, the number
rounded to the format for floating-point types.
-/

namespace ShaderGen

inductive ConstantValue
  | bool (value : Bool)
  | int (value : Int)
  | uint (value : Nat)
  /-- A floating-point number by its 64-bit pattern. -/
  | float (bits : Nat)
  | composite (parts : List ConstantValue)
  deriving Inhabited

namespace ConstantValue

def toUInt32? : ConstantValue → Option Nat
  | .int value => some (wrap wordCount value)
  | .uint value => some (value % wordCount)
  | _ => none

def doubleBits : ConstantValue → Nat
  | .bool value => Binary.double.ofInt (if value then 1 else 0)
  | .int value => Binary.double.ofInt value
  | .uint value => Binary.double.ofInt value
  | .float bits => bits
  | .composite _ => 0

def toInt : ConstantValue → Int
  | .bool value => if value then 1 else 0
  | .int value => value
  | .uint value => value
  | .float bits => Binary.double.toInt64 bits
  | .composite _ => 0

end ConstantValue

/-- The literal of a scalar constant in the representation of a type. Integers narrower than a word
are sign-extended to the word when signed. -/
def literalBits (value : ConstantValue) (t : ShaderType) : Nat :=
  match t.basic with
  | .bool => if wrap wideCount value.toInt = 0 then 0 else 1
  | .float width => Binary.ofDouble width value.doubleBits
  | .int width =>
    if width < 32 then wrap wordCount (value.toInt.bmod (Nat.pow 2 width))
    else if width < 64 then wrap (Nat.pow 2 width) value.toInt
    else wrap wideCount value.toInt
  | .uint width =>
    if width < 64 then wrap (Nat.pow 2 width) value.toInt else wrap wideCount value.toInt
  | _ => wrap wideCount value.toInt

end ShaderGen
