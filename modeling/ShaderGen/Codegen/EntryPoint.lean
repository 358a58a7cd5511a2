import ShaderGen.Codegen.Type
import ShaderGen.Source.Reach

/-!
# Entry points

The entry point of the module, the variables it lists, and the execution modes that the layout of
the shader calls for.
-/

namespace ShaderGen

namespace DepthLayout

def mode? : DepthLayout → Option ExecutionMode
  | .any => none
  | .greater => some .depthGreater
  | .less => some .depthLess
  | .unchanged => some .depthUnchanged

end DepthLayout

namespace InputPrimitive

def geometryMode? : InputPrimitive → Option ExecutionMode
  | .points => some .inputPoints
  | .lines => some .inputLines
  | .linesAdjacency => some .inputLinesAdjacency
  | .triangles => some .triangles
  | .trianglesAdjacency => some .inputTrianglesAdjacency
  | .quads | .isolines => none

def tessellationMode? : InputPrimitive → Option ExecutionMode
  | .triangles => some .triangles
  | .quads => some .quads
  | .isolines => some .isolines
  | _ => none

end InputPrimitive

namespace OutputPrimitive

def geometryMode : OutputPrimitive → ExecutionMode
  | .points => .outputPoints
  | .lines | .lineStrip => .outputLineStrip
  | .triangles | .triangleStrip => .outputTriangleStrip

def meshMode : OutputPrimitive → ExecutionMode
  | .points => .outputPoints
  | .lines | .lineStrip => .outputLinesNV
  | .triangles | .triangleStrip => .outputTrianglesNV

end OutputPrimitive

def VertexSpacing.mode : VertexSpacing → ExecutionMode
  | .equal => .spacingEqual
  | .fractionalEven => .spacingFractionalEven
  | .fractionalOdd => .spacingFractionalOdd

def VertexOrder.mode : VertexOrder → ExecutionMode
  | .clockwise => .vertexOrderCw
  | .counterclockwise => .vertexOrderCcw

namespace ExecutionLayout

/-- The modes of a fragment stage. Under Vulkan the origin is always the upper left corner. -/
def fragmentModes (l : ExecutionLayout) (vulkan replacesDepth : Bool) : List ExecutionMode :=
  (if vulkan || l.originUpperLeft then [.originUpperLeft] else [.originLowerLeft])
  ++ (if l.earlyFragmentTests then [.earlyFragmentTests] else [])
  ++ (if replacesDepth then [.depthReplacing] else [])
  ++ (l.depthLayout.bind DepthLayout.mode?).toList

def workgroup (l : ExecutionLayout) : List Nat :=
  l.localSize.extents.map fun e => max e.size 1

def meshModes (l : ExecutionLayout) : List (ExecutionMode × List Nat) :=
  l.outputVertices.toList.map (fun n => (.outputVertices, [n]))
  ++ l.outputPrimitives.toList.map (fun n => (.outputPrimitivesNV, [n]))
  ++ l.outputPrimitive.toList.map (fun o => (o.meshMode, []))

def geometryModes (l : ExecutionLayout) : List (ExecutionMode × List Nat) :=
  [(.invocations, [l.invocations.getD 1])]
  ++ (l.inputPrimitive.bind InputPrimitive.geometryMode?).toList.map (·, [])
  ++ l.outputPrimitive.toList.map (fun o => (o.geometryMode, []))
  ++ l.outputVertices.toList.map (fun n => (.outputVertices, [n]))

def tessellationModes (l : ExecutionLayout) : List ExecutionMode :=
  (l.inputPrimitive.bind InputPrimitive.tessellationMode?).toList
  ++ l.vertexSpacing.toList.map VertexSpacing.mode
  ++ l.vertexOrder.toList.map VertexOrder.mode
  ++ (if l.pointMode then [.pointMode] else [])

def modes (l : ExecutionLayout) (stage : Stage) (vulkan replacesDepth : Bool) :
    List (ExecutionMode × List Nat) :=
  match stage with
  | .fragment => (l.fragmentModes vulkan replacesDepth).map (·, [])
  | .compute | .task => [(.localSize, l.workgroup)]
  | .mesh => (.localSize, l.workgroup) :: l.meshModes
  | .geometry => l.geometryModes
  | .tessControl => l.outputVertices.toList.map (fun n => (.outputVertices, [n]))
  | .tessEvaluation => l.tessellationModes.map (·, [])
  | .vertex | .rayGen | .intersect | .anyHit | .closestHit | .miss | .callable => []

/-- Whether specialization constants can replace a part of the size of the workgroup. -/
def isSpecialized (l : ExecutionLayout) (stage : Stage) : Bool :=
  (stage == .compute || stage == .task || stage == .mesh) &&
    l.localSize.extents.any fun e => e.specId.isSome

end ExecutionLayout

namespace Codegen

def extentConstant (word : Ident) (e : Extent) : Emit Ident := do
  let size := max e.size 1
  match e.specId with
  | none => Builder.constWord size
  | some n =>
    let id ← Builder.specBits word size
    Builder.decorateWith id .specId n
    return id

/-- The size of the workgroup as a constant, whose parts are specialization constants where the
shader says so. -/
def workgroupConstant (l : ExecutionLayout) : Emit Unit := do
  let word ← Builder.typeWord
  let type ← Builder.typeVector word 3
  let parts ← l.localSize.extents.mapM (extentConstant word)
  let id ← Builder.specComposite type parts
  Builder.decorateBuiltIn id .workgroupSize

/-- The objects at module scope that the initializers and the given functions name. -/
def usedObjects (p : Program) (s : State) (functions : List FunctionId) : List Ident :=
  (p.referenced functions).filterMap fun id =>
    match s.globals.contains id, s.bindings.lookup id with
    | true, some (.object pointer _ _) => some pointer
    | _, _ => none

/-- The variables that the entry point lists. From version 1.4 on these are all that are used. -/
def interface (p : Program) (s : State) (functions : List FunctionId) : List Ident :=
  if s.builder.version.atLeast .v1_4 then
    s.builder.interface.filter (usedObjects p s functions).contains
  else s.builder.interface

def addEntryPoint (p : Program) (functions : List FunctionId) : Codegen Unit := do
  let signature ← signature p.entry
  let s ← get
  let entryPoint : EntryPoint :=
    { stage := p.stage, function := signature.id, name := p.entryName
      interface := interface p s functions }
  let modes := (p.layout.modes p.stage p.target.vulkan s.replacesDepth).map (signature.id, ·)
  if p.layout.isSpecialized p.stage then workgroupConstant p.layout
  modify fun s =>
    { s with
      builder.output.entryPoints := s.builder.output.entryPoints ++ [entryPoint]
      builder.output.executionModes := s.builder.output.executionModes ++ modes }

end Codegen

end ShaderGen
