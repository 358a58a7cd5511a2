import ShaderGen.Builder.Types

/-!
# Constants of the module

Constants are shared: one id for each type and value. Specialization constants are not, since each
can be given another value when the module is used.
-/

namespace ShaderGen.Builder

def declareConstant (op : Opcode) (type : Ident) (operands : List Operand) : Emit Ident := do
  let id ← fresh
  appendGlobal { op, type := some type, result := some id, operands }
  return id

def literalOperand (b : Builder) (type : Ident) (bits : Nat) : Operand :=
  if b.isWide type then .wide bits else .literal (bits % wordCount)

def constBool (value : Bool) : Emit Ident := do
  let type ← typeBool
  match (← get).scalars.lookup (type, value.toNat) with
  | some id => return id
  | none =>
    let id ← declareConstant (if value then .constantTrue else .constantFalse) type []
    modify fun b => { b with scalars := ((type, value.toNat), id) :: b.scalars }
    return id

def constBits (type : Ident) (bits : Nat) : Emit Ident := do
  match (← get).scalars.lookup (type, bits) with
  | some id => return id
  | none =>
    let id ← declareConstant .constant type [(← get).literalOperand type bits]
    modify fun b =>
      { b with scalars := ((type, bits), id) :: b.scalars, literals := (id, bits) :: b.literals }
    return id

def constWord (value : Nat) : Emit Ident := do
  constBits (← typeWord) value

def constSigned (value : Int) : Emit Ident := do
  constBits (← typeInt 32 true) (wrap wordCount value)

def constFloat (bits : Nat) : Emit Ident := do
  constBits (← typeFloat 32) bits

def constComposite (type : Ident) (parts : List Ident) : Emit Ident := do
  match (← get).composites.lookup (type, parts) with
  | some id => return id
  | none =>
    let id ← declareConstant .constantComposite type (Operand.refs parts)
    modify fun b => { b with composites := ((type, parts), id) :: b.composites }
    return id

def constNumber (type : Ident) (value : Nat) : Emit Ident := do
  match (← get).form? type with
  | some (.float width) => constBits type (Binary.ofDouble width (Binary.double.ofInt value))
  | some .bool => constBool (value != 0)
  | _ => constBits type value

/-- The constant of a scalar or vector type all of whose components are the given number. Vectors
of vectors are followed to the given depth. -/
def constFilledWithin : Nat → Ident → Nat → Emit Ident
  | 0, type, value => constNumber type value
  | depth + 1, type, value => do
    match (← get).form? type with
    | some (.vector component count) =>
      let part ← constFilledWithin depth component value
      constComposite type (List.replicate count part)
    | _ => constNumber type value

def constFilled (type : Ident) (value : Nat) : Emit Ident := do
  constFilledWithin (← get).types.length type value

def constNull (type : Ident) : Emit Ident := do
  match (← get).nulls.lookup type with
  | some id => return id
  | none =>
    let id ← declareConstant .constantNull type []
    modify fun b => { b with nulls := (type, id) :: b.nulls }
    return id

def specBits (type : Ident) (bits : Nat) : Emit Ident := do
  let b ← get
  if b.isBool type then
    declareConstant (if bits = 0 then .specConstantFalse else .specConstantTrue) type []
  else declareConstant .specConstant type [b.literalOperand type bits]

def specComposite (type : Ident) (parts : List Ident) : Emit Ident :=
  declareConstant .specConstantComposite type (Operand.refs parts)

end ShaderGen.Builder
