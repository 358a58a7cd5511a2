import ShaderGen.Target
import ShaderGen.Source.Stage
import ShaderGen.Source.Node

/-!
# Programs

A program is a shader after type checking. Structures, symbols and functions are referred to by
their position in the lists below.
-/

namespace ShaderGen

structure StructMember where
  name : String
  type : ShaderType
  hidden : Bool := false
  /-- The member exists only when this extension of the source language is enabled. -/
  requiredExtension : Option String := none
  deriving DecidableEq, Inhabited

/-- A structure or an interface block. -/
structure StructDecl where
  name : String
  members : List StructMember := []
  qualifier : Qualifier := {}
  deriving DecidableEq, Inhabited

/-- A declared variable, parameter or specialization constant. -/
structure Symbol where
  name : String
  type : ShaderType
  value : Option ConstantValue := none
  deriving Inhabited

structure FunctionDecl where
  name : String
  returnType : ShaderType
  parameters : List SymbolId := []
  body : List Node := []
  deriving Inhabited

/-- What the shader promises about the depth it writes. -/
inductive DepthLayout
  | any | greater | less | unchanged
  deriving DecidableEq, Inhabited, Repr

instance : Named DepthLayout where
  all := [.any, .greater, .less, .unchanged]
  name := constructorName

inductive InputPrimitive
  | points | lines | linesAdjacency | triangles | trianglesAdjacency | quads | isolines
  deriving DecidableEq, Inhabited, Repr

instance : Named InputPrimitive where
  all := [.points, .lines, .linesAdjacency, .triangles, .trianglesAdjacency, .quads, .isolines]
  name := constructorName

inductive OutputPrimitive
  | points | lines | lineStrip | triangles | triangleStrip
  deriving DecidableEq, Inhabited, Repr

instance : Named OutputPrimitive where
  all := [.points, .lines, .lineStrip, .triangles, .triangleStrip]
  name := constructorName

/-- How tessellation divides an edge. -/
inductive VertexSpacing
  | equal | fractionalEven | fractionalOdd
  deriving DecidableEq, Inhabited, Repr

instance : Named VertexSpacing where
  all := [.equal, .fractionalEven, .fractionalOdd]
  name := constructorName

/-- The orientation of tessellated primitives. -/
inductive VertexOrder
  | clockwise | counterclockwise
  deriving DecidableEq, Inhabited

instance : Named VertexOrder where
  all := [.clockwise, .counterclockwise]
  name
    | .clockwise => "Cw" | .counterclockwise => "Ccw"

/-- The size of a workgroup in one direction, which a specialization constant may replace. -/
structure Extent where
  size : Nat := 0
  specId : Option Nat := none
  deriving DecidableEq, Inhabited

structure LocalSize where
  x : Extent := {}
  y : Extent := {}
  z : Extent := {}
  deriving DecidableEq, Inhabited

def LocalSize.extents (s : LocalSize) : List Extent := [s.x, s.y, s.z]

/-- What the shader declares about its stage as a whole. -/
structure ExecutionLayout where
  localSize : LocalSize := {}
  originUpperLeft : Bool := false
  earlyFragmentTests : Bool := false
  depthLayout : Option DepthLayout := none
  invocations : Option Nat := none
  inputPrimitive : Option InputPrimitive := none
  outputPrimitive : Option OutputPrimitive := none
  outputVertices : Option Nat := none
  outputPrimitives : Option Nat := none
  vertexSpacing : Option VertexSpacing := none
  vertexOrder : Option VertexOrder := none
  pointMode : Bool := false
  deriving DecidableEq, Inhabited

/-- A shader after type checking. -/
structure Program where
  stage : Stage := .fragment
  language : Language := .glsl
  languageVersion : Nat := 450
  target : Target := {}
  entryName : String := "main"
  structs : List StructDecl := []
  symbols : List Symbol := []
  functions : List FunctionDecl := []
  entry : FunctionId := 0
  /-- Initializers of module-scope variables, run before the body of the entry function. -/
  initializers : List Node := []
  /-- All module-scope variables, used or not. -/
  globals : List SymbolId := []
  /-- The extensions of the source language that the shader enables. -/
  extensions : List String := []
  layout : ExecutionLayout := {}
  deriving Inhabited

namespace Program

def symbol? (p : Program) (id : SymbolId) : Option Symbol := p.symbols[id]?

def function? (p : Program) (id : FunctionId) : Option FunctionDecl := p.functions[id]?

def struct? (p : Program) (id : StructId) : Option StructDecl := p.structs[id]?

def isEnabled (p : Program) (extension : String) : Bool :=
  p.extensions.contains extension

def hasMember (p : Program) (m : StructMember) : Bool :=
  !m.hidden && m.requiredExtension.all p.isEnabled

end Program

end ShaderGen
