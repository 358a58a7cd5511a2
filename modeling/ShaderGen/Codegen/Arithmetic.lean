import ShaderGen.Codegen.Value
import ShaderGen.Source.Spelling

/-!
# Operators on values

Arithmetic, bitwise and comparison operators. The instruction depends on the scalar kind of the
operands. Scalars are replicated to meet vectors, matrices are treated column by column, and what no
instruction can do is reported as missing functionality.
-/

namespace ShaderGen

inductive OperandKind
  | float | signed | unsigned | bool | other
  deriving DecidableEq, Inhabited

def ShaderType.operandKind (t : ShaderType) : OperandKind :=
  match t.basic with
  | .float _ => .float
  | .int _ => .signed
  | .uint _ => .unsigned
  | .bool => .bool
  | _ => .other

namespace BinaryOp

def floatOpcode? : BinaryOp → Option Opcode
  | .add => some .fAdd
  | .sub => some .fSub
  | .mul => some .fMul
  | .div => some .fDiv
  | .mod => some .fMod
  | .equal => some .fOrdEqual
  | .notEqual => some .fUnordNotEqual
  | .less => some .fOrdLessThan
  | .greater => some .fOrdGreaterThan
  | .lessEqual => some .fOrdLessThanEqual
  | .greaterEqual => some .fOrdGreaterThanEqual
  | _ => none

/-- The instruction on integers, where it is the same with and without a sign. -/
def integerOpcode? : BinaryOp → Option Opcode
  | .add => some .iAdd
  | .sub => some .iSub
  | .mul => some .iMul
  | .shiftLeft => some .shiftLeftLogical
  | .bitAnd => some .bitwiseAnd
  | .bitOr => some .bitwiseOr
  | .bitXor => some .bitwiseXor
  | .equal => some .iEqual
  | .notEqual => some .iNotEqual
  | _ => none

def signedOpcode? : BinaryOp → Option Opcode
  | .div => some .sDiv
  | .mod => some .sMod
  | .shiftRight => some .shiftRightArithmetic
  | .less => some .sLessThan
  | .greater => some .sGreaterThan
  | .lessEqual => some .sLessThanEqual
  | .greaterEqual => some .sGreaterThanEqual
  | op => op.integerOpcode?

def unsignedOpcode? : BinaryOp → Option Opcode
  | .div => some .uDiv
  | .mod => some .uMod
  | .shiftRight => some .shiftRightLogical
  | .less => some .uLessThan
  | .greater => some .uGreaterThan
  | .lessEqual => some .uLessThanEqual
  | .greaterEqual => some .uGreaterThanEqual
  | op => op.integerOpcode?

def boolOpcode? : BinaryOp → Option Opcode
  | .equal => some .logicalEqual
  | .notEqual | .logicalXor | .bitXor => some .logicalNotEqual
  | .bitAnd => some .logicalAnd
  | .bitOr => some .logicalOr
  | _ => none

def opcode? (op : BinaryOp) : OperandKind → Option Opcode
  | .float => op.floatOpcode?
  | .signed => op.signedOpcode?
  | .unsigned => op.unsignedOpcode?
  | .bool => op.boolOpcode?
  | .other => none

def productOpcode? : BinaryOp → Option Opcode
  | .vectorTimesMatrix => some .vectorTimesMatrix
  | .matrixTimesVector => some .matrixTimesVector
  | .matrixTimesMatrix => some .matrixTimesMatrix
  | _ => none

def scalingOpcode? : BinaryOp → Option Opcode
  | .vectorTimesScalar => some .vectorTimesScalar
  | .matrixTimesScalar => some .matrixTimesScalar
  | _ => none

def isComponentwise : BinaryOp → Bool
  | .add | .sub | .mul | .div => true
  | _ => false

def isShift : BinaryOp → Bool
  | .shiftLeft | .shiftRight => true
  | _ => false

/-- For a comparison of whole vectors, the instruction that reduces the comparisons of the
components. -/
def reduction? : BinaryOp → Option Opcode
  | .equal => some .all
  | .notEqual => some .any
  | _ => none

end BinaryOp

def UnaryOp.opcode? : UnaryOp → OperandKind → Option Opcode
  | .negate, .float => some .fNegate
  | .negate, .signed | .negate, .unsigned => some .sNegate
  | .logicalNot, .bool => some .logicalNot
  | .bitwiseNot, .signed | .bitwiseNot, .unsigned => some .not
  | _, _ => none

namespace Codegen

/-- The vector all of whose components are a scalar, as long as `like`, or as its columns. -/
def broadcast (p : Program) (scalar : Evaluated) (like : ShaderType) : Codegen Ident := do
  let count := if like.isMatrix then like.matrixRows else like.componentCount
  let type ← valueType p (scalar.type.scalarType.vector count)
  emitOn .compositeConstruct type (List.replicate count scalar.id)

def scale (p : Program) (op : Opcode) (left right : Evaluated) (type : Ident) : Codegen Ident := do
  let (whole, factor) := if left.type.isScalar then (right, left) else (left, right)
  if whole.type.isFloat then emitOn op type [whole.id, factor.id]
  else
    let factor ← broadcast p factor whole.type
    emitOn .iMul type [whole.id, factor]

/-- The part of an operand that goes with one column of a matrix. -/
def operandColumn (p : Program) (operand : Evaluated) (column : Nat) (columnType : ShaderType)
    (type : Ident) : Codegen Ident :=
  if operand.type.isMatrix then extract type operand.id [column]
  else broadcast p operand columnType

def overColumns (p : Program) (op : Opcode) (matrix : ShaderType) (left right : Evaluated)
    (type : Ident) : Codegen Ident := do
  let columnType ← valueType p matrix.columnType
  let columns ← (List.range matrix.matrixCols).mapM fun c => do
    let l ← operandColumn p left c matrix.columnType columnType
    let r ← operandColumn p right c matrix.columnType columnType
    emitOn op columnType [l, r]
  emitOn .compositeConstruct type columns

def matrixOperation (p : Program) (op : BinaryOp) (left right : Evaluated) (type : Ident)
    (span : Span) : Codegen Ident := do
  let matrix := if left.type.isMatrix then left.type else right.type
  match op.opcode? matrix.operandKind, op.isComponentwise with
  | some opcode, true => overColumns p opcode matrix left right type
  | _, _ => nullFor s!"'{op.spelling}' on matrix operands" type span

/-- Brings a scalar and a vector to the same shape. The first operand of a shift stays as it is. -/
def alignOperands (p : Program) (op : BinaryOp) (left right : Evaluated) :
    Codegen (Ident × Ident) := do
  if left.type.isVector && right.type.isScalar then
    return (left.id, ← broadcast p right left.type)
  else if left.type.isScalar && right.type.isVector && !op.isShift then
    return (← broadcast p left right.type, right.id)
  else return (left.id, right.id)

/-- An operator on scalars and vectors. Equality of whole vectors is one truth value. -/
def vectorOperation (p : Program) (op : BinaryOp) (left right : Evaluated) (result : ShaderType)
    (type : Ident) (span : Span) : Codegen Ident := do
  let (l, r) ← alignOperands p op left right
  let operandType :=
    if right.type.isVector && !left.type.isVector then right.type else left.type
  match op.opcode? operandType.operandKind with
  | none =>
    nullFor s!"'{op.spelling}' on {operandType.basic.describe} operands" type span
  | some opcode =>
    match op.reduction?, operandType.isVector && result.isScalar with
    | some reduction, true =>
      let truths ← Builder.typeVector (← Builder.typeBool) operandType.vectorSize
      let compared ← emitOn opcode truths [l, r]
      emitOn reduction type [compared]
    | _, _ => emitOn opcode type [l, r]

def operation (p : Program) (op : BinaryOp) (left right : Evaluated) (result : ShaderType)
    (span : Span) : Codegen Value := do
  let type ← valueType p result
  let isAggregate (t : ShaderType) : Bool := t.isStruct || t.isArray
  let id ← match op.scalingOpcode?, op.productOpcode? with
    | some opcode, _ => scale p opcode left right type
    | none, some opcode => emitOn opcode type [left.id, right.id]
    | none, none =>
      if isAggregate left.type || isAggregate right.type then
        nullFor s!"'{op.spelling}' on aggregate operands" type span
      else if left.type.isMatrix || right.type.isMatrix then
        matrixOperation p op left right type span
      else vectorOperation p op left right result type span
  return { id, type }

def unaryOverColumns (p : Program) (op : Opcode) (t : ShaderType) (v : Value) :
    Codegen Ident := do
  let columnType ← valueType p t.columnType
  let columns ← (List.range t.matrixCols).mapM fun c => do
    let column ← extract columnType v.id [c]
    emitOn op columnType [column]
  emitOn .compositeConstruct v.type columns

/-- A unary operator that gives a value of the type of its operand. -/
def unaryOperation (p : Program) (op : UnaryOp) (operand : Deferred) (info : Info) :
    Codegen Outcome := do
  let v ← operand.value p
  match op.opcode? operand.type.operandKind with
  | none => unsupported p s!"unary {Named.name op} on {operand.type.basic.describe}" info
  | some opcode =>
    let id ← if operand.type.isMatrix then unaryOverColumns p opcode operand.type v
      else emitOn opcode v.type [v.id]
    return .value { id, type := v.type }

/-- A binary operator that evaluates both operands to values, the left one first. -/
def binaryOperation (p : Program) (op : BinaryOp) (left right : Deferred) (info : Info) :
    Codegen Outcome := do
  let l ← left.evaluate p
  let r ← right.evaluate p
  return .value (← operation p op l r info.type info.span)

end Codegen

end ShaderGen
