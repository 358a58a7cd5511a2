import ShaderGen.Named

/-!
# Enumerants

The closed vocabularies that instruction operands are taken from, each with its printed names and
its numbers in the binary form.
-/

namespace ShaderGen

/-- Where the object behind a pointer lives. -/
inductive StorageClass
  | uniformConstant | input | uniform | output | workgroup | privateMemory | function | generic
  | pushConstant | image | storageBuffer | callableDataNV | incomingCallableDataNV | rayPayloadNV
  | hitAttributeNV | incomingRayPayloadNV | physicalStorageBuffer | taskPayloadWorkgroupEXT
  deriving DecidableEq, Inhabited, Repr

instance : Named StorageClass where
  all := (List.range (StorageClass.taskPayloadWorkgroupEXT.ctorIdx + 1)).map StorageClass.ofNat
  name
    | .privateMemory => "Private"
    | other => constructorName other

def StorageClass.code : StorageClass → Nat
  | .uniformConstant => 0 | .input => 1 | .uniform => 2 | .output => 3 | .workgroup => 4
  | .privateMemory => 6 | .function => 7 | .generic => 8 | .pushConstant => 9 | .image => 11
  | .storageBuffer => 12 | .callableDataNV => 5328 | .incomingCallableDataNV => 5329
  | .rayPayloadNV => 5338 | .hitAttributeNV => 5339 | .incomingRayPayloadNV => 5342
  | .physicalStorageBuffer => 5349 | .taskPayloadWorkgroupEXT => 5402

/-- A property attached to an id or to a member of a structure. -/
inductive Decoration
  | relaxedPrecision | specId | block | bufferBlock | rowMajor | colMajor | arrayStride
  | matrixStride | builtIn | noPerspective | flat | patch | centroid | sample | invariant
  | restrict | volatile | constant | coherent | nonWritable | nonReadable | uniform | location
  | component | index | binding | descriptorSet | offset | xfbBuffer | xfbStride | noContraction
  | inputAttachmentIndex | perPrimitiveNV | nonUniform
  deriving DecidableEq, Inhabited, Repr

instance : Named Decoration where
  all := (List.range (Decoration.nonUniform.ctorIdx + 1)).map Decoration.ofNat
  name := constructorName

def Decoration.code : Decoration → Nat
  | .relaxedPrecision => 0 | .specId => 1 | .block => 2 | .bufferBlock => 3 | .rowMajor => 4
  | .colMajor => 5 | .arrayStride => 6 | .matrixStride => 7 | .builtIn => 11
  | .noPerspective => 13 | .flat => 14 | .patch => 15 | .centroid => 16 | .sample => 17
  | .invariant => 18 | .restrict => 19 | .volatile => 21 | .constant => 22 | .coherent => 23
  | .nonWritable => 24 | .nonReadable => 25 | .uniform => 26 | .location => 30 | .component => 31
  | .index => 32 | .binding => 33 | .descriptorSet => 34 | .offset => 35 | .xfbBuffer => 36
  | .xfbStride => 37 | .noContraction => 42 | .inputAttachmentIndex => 43
  | .perPrimitiveNV => 5271 | .nonUniform => 5300

/-- How an entry point is run. -/
inductive ExecutionMode
  | invocations | spacingEqual | spacingFractionalEven | spacingFractionalOdd | vertexOrderCw
  | vertexOrderCcw | originUpperLeft | originLowerLeft | earlyFragmentTests | pointMode
  | depthReplacing | depthGreater | depthLess | depthUnchanged | localSize | inputPoints
  | inputLines | inputLinesAdjacency | triangles | inputTrianglesAdjacency | quads | isolines
  | outputVertices | outputPoints | outputLineStrip | outputTriangleStrip | subgroupSize
  | outputLinesNV | outputPrimitivesNV | outputTrianglesNV
  deriving DecidableEq, Inhabited, Repr

instance : Named ExecutionMode where
  all := (List.range (ExecutionMode.outputTrianglesNV.ctorIdx + 1)).map ExecutionMode.ofNat
  name := constructorName

def ExecutionMode.code : ExecutionMode → Nat
  | .invocations => 0 | .spacingEqual => 1 | .spacingFractionalEven => 2
  | .spacingFractionalOdd => 3 | .vertexOrderCw => 4 | .vertexOrderCcw => 5
  | .originUpperLeft => 7 | .originLowerLeft => 8 | .earlyFragmentTests => 9 | .pointMode => 10
  | .depthReplacing => 12 | .depthGreater => 14 | .depthLess => 15 | .depthUnchanged => 16
  | .localSize => 17 | .inputPoints => 19 | .inputLines => 20 | .inputLinesAdjacency => 21
  | .triangles => 22 | .inputTrianglesAdjacency => 23 | .quads => 24 | .isolines => 25
  | .outputVertices => 26 | .outputPoints => 27 | .outputLineStrip => 28
  | .outputTriangleStrip => 29 | .subgroupSize => 35 | .outputLinesNV => 5269
  | .outputPrimitivesNV => 5270 | .outputTrianglesNV => 5298

/-- The invocations a memory or execution instruction speaks of. -/
inductive Scope
  | device | workgroup | subgroup | invocation | queueFamily | shaderCallKHR
  deriving DecidableEq, Inhabited, Repr

instance : Named Scope where
  all := [.device, .workgroup, .subgroup, .invocation, .queueFamily, .shaderCallKHR]
  name := constructorName

def Scope.code : Scope → Nat
  | .device => 1 | .workgroup => 2 | .subgroup => 3 | .invocation => 4 | .queueFamily => 5
  | .shaderCallKHR => 6

/-- Whether a module holds physical addresses. -/
inductive AddressingModel
  | logical | physicalStorageBuffer64
  deriving DecidableEq, Inhabited, Repr

instance : Named AddressingModel where
  all := [.logical, .physicalStorageBuffer64]
  name := constructorName

def AddressingModel.code : AddressingModel → Nat
  | .logical => 0 | .physicalStorageBuffer64 => 5348

/-- The memory model a module is written for. -/
inductive MemoryModel
  | glsl450 | vulkan
  deriving DecidableEq, Inhabited

instance : Named MemoryModel where
  all := [
    .glsl450, .vulkan]
  name
    | .glsl450 => "GLSL450" | .vulkan => "Vulkan"

def MemoryModel.code : MemoryModel → Nat
  | .glsl450 => 1 | .vulkan => 3

end ShaderGen
