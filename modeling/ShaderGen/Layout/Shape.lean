import ShaderGen.Source.Program

/-!
# Shapes

The shape of a type is what matters for placing its values in memory: sizes of scalars, counts, and
the members of structures in order. Unlike a type, a shape is a finite tree with no reference to the
program, and the layout rules are functions on it.
-/

namespace ShaderGen

mutual

/-- What a value is made of. Sizes of scalars are in bytes. -/
inductive Shape
  /-- A vector, or a scalar when the count is one. -/
  | vector (scalar count : Nat)
  | matrix (scalar cols rows : Nat)
  | array (length : Nat) (element : Shape)
  | struct (members : Members)
  /-- A structure that does not exist. -/
  | unknown

inductive Members
  | nil
  /-- A member that does not exist in the module. -/
  | absent (rest : Members)
  | member (shape : Shape) (matrix : MatrixLayout) (align offset : Option Nat) (rest : Members)

end

/-- The size of a scalar in bytes. Truth values take four bytes and addresses eight. -/
def ShaderType.scalarBytes (t : ShaderType) : Nat :=
  match t.basic with
  | .bool => 4
  | .reference _ => 8
  | _ => max (t.bitWidth / 8) 1

namespace Program

/-- The length of an array dimension. One that a specialization constant gives counts with its
default value. -/
def arrayLength (p : Program) : ArraySize → Nat
  | .sized length => length
  | .unsized => 0
  | .spec symbol =>
    (((p.symbol? symbol).bind Symbol.value).bind ConstantValue.toUInt32?).getD 1

/-- The members of a structure, given the shapes of their types. -/
def membersOf (p : Program) (shapeOf : ShaderType → Shape) (members : List StructMember) :
    Members :=
  members.foldr (fun m rest =>
    if p.hasMember m then
      .member (shapeOf m.type) m.type.qualifier.layout.matrix m.type.qualifier.layout.align
        m.type.qualifier.layout.offset rest
    else .absent rest) .nil

/-- The shape of a type whose structures are nested to at most the given depth. -/
def shapeWithin (p : Program) : Nat → ShaderType → Shape
  | depth, t =>
    let single : Shape :=
      match t.matrix? with
      | some (cols, rows) => .matrix t.scalarBytes cols rows
      | none =>
        match t.structId? with
        | some id =>
          match depth, p.struct? id with
          | depth + 1, some s => .struct (p.membersOf (p.shapeWithin depth) s.members)
          | _, _ => .unknown
        | none => .vector t.scalarBytes t.componentCount
    t.arrays.foldr (fun size => .array (p.arrayLength size)) single

def shape (p : Program) (t : ShaderType) : Shape :=
  p.shapeWithin p.structs.length t

end Program

end ShaderGen
