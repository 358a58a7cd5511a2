import ShaderGen.Layout.Shape

/-!
# Placement in memory

The rules that give a value its size and alignment, an array its stride and the members of a
structure their offsets. Numbers are exact here; code generation refuses a layout that does not fit
into words of 32 bits. The packings differ in two points: `scalar` aligns vectors like their
scalars, and `std140` rounds the alignment of arrays, matrices and structures up to sixteen bytes.
-/

namespace ShaderGen

/-- The least multiple of `align` that is not below `value`. -/
def roundUp (value align : Nat) : Nat :=
  if align ≤ 1 then value else (value + align - 1) / align * align

structure Footprint where
  size : Nat
  align : Nat
  deriving DecidableEq, Inhabited

/-- The majorness of a member: its own if it has one, and otherwise the enclosing one. -/
def MatrixLayout.isRowMajor (own : MatrixLayout) (inherited : Bool) : Bool :=
  match own with
  | .rowMajor => true
  | .columnMajor => false
  | .none => inherited

namespace Packing

/-- The alignment of an aggregate whose parts are aligned to `align`. -/
def outerAlign (k : Packing) (align : Nat) : Nat :=
  match k with
  | .std140 => roundUp align 16
  | _ => align

/-- The room a vector takes. A vector of three is aligned like one of four. -/
def vector (k : Packing) (scalar count : Nat) : Footprint :=
  { size := scalar * count
    align := match k with
      | .scalar => scalar
      | _ => if count = 3 then scalar * 4 else scalar * max count 1 }

def stride (k : Packing) (element : Footprint) : Nat :=
  roundUp element.size (k.outerAlign element.align)

/-- The vectors that a matrix is stored as: their length and their number. -/
def lines (rowMajor : Bool) (cols rows : Nat) : Nat × Nat :=
  if rowMajor then (cols, rows) else (rows, cols)

/-- The distance between consecutive columns of a matrix, or rows when it is stored by rows. -/
def matrixStride (k : Packing) (rowMajor : Bool) (scalar cols rows : Nat) : Nat :=
  k.stride (k.vector scalar (lines rowMajor cols rows).1)

end Packing

mutual

def Shape.footprint (k : Packing) (rowMajor : Bool) : Shape → Footprint
  | .vector scalar count => k.vector scalar count
  | .matrix scalar cols rows =>
    let (length, count) := Packing.lines rowMajor cols rows
    { size := k.matrixStride rowMajor scalar cols rows * count
      align := k.outerAlign (k.vector scalar length).align }
  | .array length element =>
    let inner := element.footprint k rowMajor
    { size := k.stride inner * length, align := k.outerAlign inner.align }
  | .struct members =>
    let (_, last, align) := members.place k rowMajor 0 1
    { size := roundUp last (k.outerAlign align), align := k.outerAlign align }
  | .unknown => { size := 0, align := 1 }
termination_by structural s => s

/-- Places members one after the other, from the byte `start` on. Gives the offset of each member,
the end of the last one, and the largest of `align` and their alignments. The offset of an absent
member is where the next one would start from. -/
def Members.place (k : Packing) (rowMajor : Bool) : Members → Nat → Nat → List Nat × Nat × Nat
  | .nil, start, align => ([], start, align)
  | .absent rest, start, align =>
    let (offsets, last, most) := rest.place k rowMajor start align
    (start :: offsets, last, most)
  | .member shape matrix ownAlign ownOffset rest, start, align =>
    let room := shape.footprint k (matrix.isRowMajor rowMajor)
    let memberAlign := max room.align (ownAlign.getD 0)
    let offset := ownOffset.getD (roundUp start memberAlign)
    let (offsets, last, most) :=
      rest.place k rowMajor (offset + room.size) (max align memberAlign)
    (offset :: offsets, last, most)
termination_by structural m => m

end

structure StructLayout where
  offsets : List Nat
  whole : Footprint
  deriving DecidableEq, Inhabited

def Members.layout (members : Members) (k : Packing) (rowMajor : Bool) : StructLayout :=
  { offsets := (members.place k rowMajor 0 1).1
    whole := (Shape.struct members).footprint k rowMajor }

namespace Program

def footprint (p : Program) (k : Packing) (t : ShaderType) (rowMajor : Bool) : Footprint :=
  (p.shape t).footprint k rowMajor

def arrayStride (p : Program) (k : Packing) (t : ShaderType) (rowMajor : Bool) : Nat :=
  k.stride (p.footprint k t.elementType rowMajor)

def structLayout (p : Program) (k : Packing) (s : StructDecl) (rowMajor : Bool) : StructLayout :=
  (p.membersOf p.shape s.members).layout k rowMajor

end Program

/-- The stride of the columns of a matrix type, or of its rows when it is stored by rows. -/
def ShaderType.matrixStride (t : ShaderType) (k : Packing) (rowMajor : Bool) : Nat :=
  let (cols, rows) := t.matrix?.getD (1, 1)
  k.matrixStride rowMajor t.scalarBytes cols rows

def ShaderType.isRowMajor (t : ShaderType) (inherited : Bool) : Bool :=
  t.qualifier.layout.matrix.isRowMajor inherited

end ShaderGen
