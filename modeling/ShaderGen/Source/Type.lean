import ShaderGen.Source.Qualifier

/-!
# Types of the source

A type is a basic type with a shape (scalar, vector or matrix), array dimensions and the
qualifiers of the declaration it comes from. Structures are referred to by their index in the
program, so that a block may hold a reference to itself.
-/

namespace ShaderGen

abbrev StructId := Nat

abbrev SymbolId := Nat

/-- What a type is made of. Widths are in bits. -/
inductive BasicType
  | void
  | bool
  | int (width : Nat)
  | uint (width : Nat)
  | float (width : Nat)
  | sampler (desc : Sampler)
  | struct (id : StructId)
  /-- An interface block. -/
  | block (id : StructId)
  | accelerationStructure
  | rayQuery
  /-- An address in a buffer laid out as the block. -/
  | reference (id : StructId)
  deriving DecidableEq, Inhabited

inductive ArraySize
  | sized (length : Nat)
  | unsized
  /-- The length is the value of a specialization constant. -/
  | spec (symbol : SymbolId)
  deriving DecidableEq, Inhabited

structure ShaderType where
  basic : BasicType
  /-- Number of components of a vector; zero or one otherwise. -/
  vectorSize : Nat := 0
  matrixCols : Nat := 0
  matrixRows : Nat := 0
  /-- The array dimensions, outermost first. -/
  arrays : List ArraySize := []
  qualifier : Qualifier := {}
  deriving DecidableEq, Inhabited

namespace ShaderType

def void : ShaderType := { basic := .void }
def bool : ShaderType := { basic := .bool }
def int (width : Nat) : ShaderType := { basic := .int width }
def uint (width : Nat) : ShaderType := { basic := .uint width }
def float (width : Nat) : ShaderType := { basic := .float width }

def vector (t : ShaderType) (size : Nat) : ShaderType :=
  { t with vectorSize := size }

def matrixOf (t : ShaderType) (cols rows : Nat) : ShaderType :=
  { t with vectorSize := 0, matrixCols := cols, matrixRows := rows }

def withStorage (t : ShaderType) (storage : Storage) : ShaderType :=
  { t with qualifier := { t.qualifier with storage } }

def withBasic (t : ShaderType) (basic : BasicType) : ShaderType :=
  { t with basic }

def isArray (t : ShaderType) : Bool :=
  !t.arrays.isEmpty

def isVoid (t : ShaderType) : Bool :=
  t.basic == .void && !t.isArray

def isUnsizedArray (t : ShaderType) : Bool :=
  t.arrays.head? == some .unsized

def isMatrix (t : ShaderType) : Bool :=
  !t.isArray && 0 < t.matrixCols

def matrix? (t : ShaderType) : Option (Nat × Nat) :=
  if 0 < t.matrixCols then some (t.matrixCols, t.matrixRows) else none

def isVector (t : ShaderType) : Bool :=
  !t.isArray && t.matrixCols == 0 && 1 < t.vectorSize

def isScalar (t : ShaderType) : Bool :=
  !t.isArray && t.matrixCols == 0 && t.vectorSize ≤ 1 &&
    match t.basic with
    | .bool | .int _ | .uint _ | .float _ => true
    | _ => false

/-- The structure behind a structure or block type, or behind an array of them. -/
def structId? (t : ShaderType) : Option StructId :=
  match t.basic with
  | .struct id | .block id => some id
  | _ => none

def isStruct (t : ShaderType) : Bool :=
  t.structId?.isSome

def isBlock (t : ShaderType) : Bool :=
  match t.basic with
  | .block _ => true
  | _ => false

def isReference (t : ShaderType) : Bool :=
  match t.basic with
  | .reference _ => true
  | _ => false

def isSampler (t : ShaderType) : Bool :=
  match t.basic with
  | .sampler _ => true
  | _ => false

/-- Handles of resources, which have no value to compute with. -/
def isOpaque (t : ShaderType) : Bool :=
  match t.basic with
  | .sampler _ | .accelerationStructure | .rayQuery => true
  | _ => false

def isBool (t : ShaderType) : Bool :=
  t.basic == .bool

def isFloat (t : ShaderType) : Bool :=
  match t.basic with
  | .float _ => true
  | _ => false

def isSignedInt (t : ShaderType) : Bool :=
  match t.basic with
  | .int _ => true
  | _ => false

def isUnsignedInt (t : ShaderType) : Bool :=
  match t.basic with
  | .uint _ => true
  | _ => false

def isInteger (t : ShaderType) : Bool :=
  t.isSignedInt || t.isUnsignedInt

/-- Width of the scalars in bits; 32 for everything that is not a number or an address. -/
def bitWidth (t : ShaderType) : Nat :=
  match t.basic with
  | .int width | .uint width | .float width => width
  | .reference _ => 64
  | _ => 32

def componentCount (t : ShaderType) : Nat :=
  if 1 < t.vectorSize then t.vectorSize else 1

def elementType (t : ShaderType) : ShaderType :=
  { t with arrays := t.arrays.tail }

def columnType (t : ShaderType) : ShaderType :=
  { basic := t.basic, vectorSize := t.matrixRows, qualifier := t.qualifier }

/-- The type of the scalars in a scalar, vector or matrix. Of the qualifiers, precision stays. -/
def scalarType (t : ShaderType) : ShaderType :=
  { basic := t.basic, qualifier := { precision := t.qualifier.precision } }

def sameShape (t u : ShaderType) : Bool :=
  t.basic == u.basic && max t.vectorSize 1 == max u.vectorSize 1 &&
    t.matrixCols == u.matrixCols && t.matrixRows == u.matrixRows && t.arrays == u.arrays

end ShaderType

end ShaderGen
