import ShaderGen.Codegen.Arithmetic

/-!
# Conversions

Conversions between numbers and truth values, of scalars and of vectors of the same length. Truth
values become one and zero; a number is true when it is not zero. A change of sign and width at once
takes two instructions.
-/

namespace ShaderGen

def conversionOpcode? : BasicType → BasicType → Option Opcode
  | .float _, .float _ => some .fConvert
  | .float _, .int _ => some .convertFToS
  | .float _, .uint _ => some .convertFToU
  | .int _, .float _ => some .convertSToF
  | .uint _, .float _ => some .convertUToF
  | .int _, .int _ => some .sConvert
  | .uint _, .uint _ => some .uConvert
  | .int a, .uint b | .uint a, .int b => if a = b then some .bitcast else none
  | _, _ => none

namespace Codegen

/-- The constant of a numeric type all of whose components are a small number. -/
def numberOf (p : Program) (t : ShaderType) (value : Nat) : Codegen Ident := do
  let type ← valueType p t
  Builder.constFilled type value

/-- Changes the width of an integer, keeping its sign, and then reinterprets it. -/
def resize (p : Program) (value : Ident) (middle : ShaderType) (op : Opcode) (target : Ident) :
    Codegen Ident := do
  let middleType ← valueType p middle
  let resized ← emitOn op middleType [value]
  emitOn .bitcast target [resized]

/-- Converts between scalars, or component by component. `type` is the type of the result in the
module. -/
def convertComponents (p : Program) (value : Ident) (source target : ShaderType) (type : Ident)
    (span : Span) : Codegen Ident := do
  match source.basic, target.basic with
  | .bool, .float _ | .bool, .int _ | .bool, .uint _ =>
    let one ← numberOf p target 1
    let nought ← numberOf p target 0
    emitOn .select type [value, one, nought]
  | .int _, .bool | .uint _, .bool =>
    let nought ← numberOf p source 0
    emitOn .iNotEqual type [value, nought]
  | .float _, .bool =>
    let nought ← numberOf p source 0
    emitOn .fUnordNotEqual type [value, nought]
  | _, _ =>
    match conversionOpcode? source.basic target.basic, source.basic, target.basic with
    | some op, _, _ => emitOn op type [value]
    | none, .int _, .uint width => resize p value (target.withBasic (.int width)) .sConvert type
    | none, .uint _, .int width => resize p value (target.withBasic (.uint width)) .uConvert type
    | none, _, _ =>
      nullFor s!"conversion from {source.basic.describe} to {target.basic.describe}" type span

def convert (p : Program) (value : Ident) (source target : ShaderType) (span : Span) :
    Codegen Ident := do
  let sourceType ← valueType p source
  let targetType ← valueType p target
  if sourceType = targetType then return value
  else if source.isMatrix || target.isMatrix || source.isArray || target.isArray
      || source.isStruct then
    nullFor "conversion between composite types" targetType span
  else convertComponents p value source target targetType span

def conversion (p : Program) (operand : Deferred) (info : Info) : Codegen Outcome := do
  let v ← operand.value p
  let id ← convert p v.id operand.type info.type info.span
  let type ← valueType p info.type
  return .value { id, type }

end Codegen

end ShaderGen
