import ShaderGen.Codegen.Arithmetic

/-!
# Assignments

The path to the left side is formed before the right side is evaluated; a compound assignment reads
the left side afterwards.
-/

namespace ShaderGen.Codegen

/-- `left = right`, or a compound assignment. The result is the value that was stored. -/
def assignment (p : Program) (op : BinaryOp) (left right : Deferred) (info : Info) :
    Codegen Outcome := do
  let path ← left.path
  if path.isValue then failAt left.span .assignmentWithoutStorage
  let r ← right.value p
  let stored ← match op.compoundOperator? with
    | none => pure r
    | some base => do
      let type ← valueType p left.type
      let current ← path.load type
      operation p base ⟨current, left.type⟩ ⟨r.id, right.type⟩ left.type info.span
  path.store stored.id stored.type
  return .value stored

def stepOpcode (float increment : Bool) : Opcode :=
  match float, increment with
  | true, true => .fAdd
  | true, false => .fSub
  | false, true => .iAdd
  | false, false => .iSub

/-- An increment or decrement. The postfix forms give the value from before. -/
def increment (p : Program) (op : UnaryOp) (operand : Deferred) (info : Info) :
    Codegen Outcome := do
  if operand.type.isMatrix then unsupported p "increment of a matrix" info
  else
    let path ← operand.path
    let type ← valueType p operand.type
    let old ← path.load type
    let one ← Builder.constFilled type 1
    let up := op == .preIncrement || op == .postIncrement
    let new ← emitOn (stepOpcode operand.type.isFloat up) type [old, one]
    path.store new type
    let before := op == .postIncrement || op == .postDecrement
    return .value { id := if before then old else new, type }

/-- The declaration of a variable. Constants have their value already. -/
def declaration (p : Program) (id : SymbolId) (init : Option Deferred) : Codegen Unit := do
  let s ← p.symbol id
  let binding ← bindingOf p (typer p) id
  let q := s.type.qualifier
  if q.specConstant || (q.storage == .constant && s.value.isSome) then return
  match init with
  | none => return
  | some init =>
    let v ← init.value p
    match binding with
    | .object pointer type storage => (AccessPath.ofPointer pointer type storage).store v.id v.type
    | .value _ _ => failAt init.span (.initializerWithoutStorage s.name)

end ShaderGen.Codegen
