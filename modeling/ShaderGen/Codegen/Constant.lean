import ShaderGen.Codegen.Struct

/-!
# Constants

A composite constant has a part for each constituent of its type. A scalar stands for a vector or
matrix all of whose components are that scalar.
-/

namespace ShaderGen.Codegen

/-- The types of the constituents of a composite with the given number of parts. A structure has as
many constituents as members. -/
def constituents (p : Program) (t : ShaderType) (count : Nat) : Codegen (List ShaderType) :=
  if t.isArray then return List.replicate count t.elementType
  else if t.isMatrix then return List.replicate count t.columnType
  else
    match t.structId? with
    | some id => do
      let s ← p.struct id
      return (s.members.filter p.hasMember).map StructMember.type
    | none => return List.replicate count t.scalarType

def fillParts (t : ShaderType) : ShaderType × Nat :=
  if t.isMatrix then (t.columnType, t.matrixCols) else (t.scalarType, t.componentCount)

/-- The constant of a type all of whose components are one scalar, for types of the given depth. A
matrix has depth three: it is made of columns, which are made of scalars. -/
def filledConstant (typer : Typer) (value : ConstantValue) : Nat → ShaderType → Codegen Ident
  | 0, _ => fail .endless
  | depth + 1, t => do
    let type ← typer (.plain t)
    if t.isScalar then
      let bits := literalBits value t
      if t.isBool then Builder.constBool (bits != 0) else Builder.constBits type bits
    else
      let (partType, count) := fillParts t
      let part ← filledConstant typer value depth partType
      Builder.constComposite type (List.replicate count part)

mutual

def constant (p : Program) (typer : Typer) : ConstantValue → ShaderType → Codegen Ident
  | .composite parts, t => do
    let type ← typer (.plain t)
    let types ← constituents p t parts.length
    let ids ← constants p typer parts types
    Builder.constComposite type ids
  | .bool value, t => filledConstant typer (.bool value) 3 t
  | .int value, t => filledConstant typer (.int value) 3 t
  | .uint value, t => filledConstant typer (.uint value) 3 t
  | .float bits, t => filledConstant typer (.float bits) 3 t
termination_by structural value => value

/-- The constants for the parts of a composite. What has no type, or no value, is left out. -/
def constants (p : Program) (typer : Typer) :
    List ConstantValue → List ShaderType → Codegen (List Ident)
  | part :: parts, t :: types => do
    let id ← constant p typer part t
    let ids ← constants p typer parts types
    return id :: ids
  | _, _ => return []
termination_by structural parts => parts

end

end ShaderGen.Codegen
