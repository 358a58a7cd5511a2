import ShaderGen.Named

/-!
# Operators

The operators of expressions, and the ways in which a branch statement leaves the place it stands
at.
-/

namespace ShaderGen

inductive BinaryOp
  | add | sub | mul | div | mod | shiftLeft | shiftRight | bitAnd | bitOr | bitXor | equal
  | notEqual | less | greater | lessEqual | greaterEqual | logicalAnd | logicalOr | logicalXor
  | assign | addAssign | subAssign | mulAssign | divAssign | modAssign | shiftLeftAssign
  | shiftRightAssign | andAssign | orAssign | xorAssign | index | indexConstant | member
  | vectorTimesScalar | matrixTimesScalar | vectorTimesMatrix | matrixTimesVector
  | matrixTimesMatrix
  deriving DecidableEq, Inhabited, Repr

instance : Named BinaryOp where
  all := (List.range (BinaryOp.matrixTimesMatrix.ctorIdx + 1)).map BinaryOp.ofNat
  name
    | .indexConstant => "IndexDirect" | .member => "IndexStruct"
    | other => constructorName other

namespace BinaryOp

/-- For `a op= b`, the operator applied before the store. -/
def compoundOperator? : BinaryOp → Option BinaryOp
  | .addAssign => some .add
  | .subAssign => some .sub
  | .mulAssign => some .mul
  | .divAssign => some .div
  | .modAssign => some .mod
  | .shiftLeftAssign => some .shiftLeft
  | .shiftRightAssign => some .shiftRight
  | .andAssign => some .bitAnd
  | .orAssign => some .bitOr
  | .xorAssign => some .bitXor
  | _ => none

def isAssignment (op : BinaryOp) : Bool :=
  op.compoundOperator?.isSome || op == .assign

def isIndexing : BinaryOp → Bool
  | .index | .indexConstant | .member => true
  | _ => false

def isComparison : BinaryOp → Bool
  | .equal | .notEqual | .less | .greater | .lessEqual | .greaterEqual => true
  | _ => false

def spelling : BinaryOp → String
  | .add => "+" | .sub => "-" | .mul => "*" | .div => "/" | .mod => "%" | .shiftLeft => "<<"
  | .shiftRight => ">>" | .bitAnd => "&" | .bitOr => "|" | .bitXor => "^" | .equal => "=="
  | .notEqual => "!=" | .less => "<" | .greater => ">" | .lessEqual => "<="
  | .greaterEqual => ">=" | .logicalAnd => "&&" | .logicalOr => "||" | .logicalXor => "^^"
  | .assign => "=" | .addAssign => "+=" | .subAssign => "-=" | .mulAssign => "*="
  | .divAssign => "/=" | .modAssign => "%=" | .shiftLeftAssign => "<<="
  | .shiftRightAssign => ">>=" | .andAssign => "&=" | .orAssign => "|=" | .xorAssign => "^="
  | .index => "[]" | .indexConstant => "[const]" | .member => "."
  | .vectorTimesScalar => "vec*scalar" | .matrixTimesScalar => "mat*scalar"
  | .vectorTimesMatrix => "vec*mat" | .matrixTimesVector => "mat*vec"
  | .matrixTimesMatrix => "mat*mat"

end BinaryOp

inductive UnaryOp
  | negate | logicalNot | bitwiseNot | preIncrement | preDecrement | postIncrement
  | postDecrement | convert | arrayLength
  deriving DecidableEq, Inhabited, Repr

instance : Named UnaryOp where
  all := [.negate, .logicalNot, .bitwiseNot, .preIncrement, .preDecrement, .postIncrement,
    .postDecrement, .convert, .arrayLength]
  name := constructorName

def UnaryOp.isUpdate : UnaryOp → Bool
  | .preIncrement | .preDecrement | .postIncrement | .postDecrement => true
  | _ => false

/-- What a branch statement does. Case and default labels of a switch count as branches. -/
inductive Jump
  | leave | next | ret | kill | terminateInvocation | demote | ignoreIntersection | terminateRay
  | caseLabel (value : Int) | defaultLabel
  deriving DecidableEq, Inhabited

namespace Jump

def named : List (Jump × String) :=
  [(.leave, "Break"), (.next, "Continue"), (.ret, "Return"), (.kill, "Kill"),
    (.terminateInvocation, "TerminateInvocation"), (.demote, "Demote"),
    (.ignoreIntersection, "IgnoreIntersection"), (.terminateRay, "TerminateRay"),
    (.defaultLabel, "Default")]

def ofName? (text : String) : Option Jump :=
  (named.find? fun entry => entry.2 == text).map Prod.fst

def isLabel : Jump → Bool
  | .caseLabel _ | .defaultLabel => true
  | _ => false

end Jump

end ShaderGen
