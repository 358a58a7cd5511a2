import ShaderGen.Requirement
import ShaderGen.Source.Type
import ShaderGen.Source.Stage
import ShaderGen.Spirv.Enumerant

/-!
# Decorations from qualifiers

Which decorations the qualifiers of a declaration call for, and what a module has to declare in
order to use them.
-/

namespace ShaderGen

def Precision.decoration? : Precision → Option Decoration
  | .low | .medium => some .relaxedPrecision
  | .high | .none => Option.none

def Interpolation.decoration? : Interpolation → Option Decoration
  | .flat => some .flat
  | .noPerspective => some .noPerspective
  | .smooth | .none => Option.none

namespace Auxiliary

def decoration? : Auxiliary → Option Decoration
  | .none => Option.none
  | .centroid => some .centroid
  | .sample => some .sample
  | .patch => some .patch
  | .perPrimitive => some .perPrimitiveNV

def requirements (a : Auxiliary) (stage : Stage) : Requirements :=
  match a with
  | .sample => .capability .sampleRateShading
  | .perPrimitive =>
    if stage = .fragment then .provided .meshShadingEXT .meshShader else .none
  | _ => .none

end Auxiliary

/-- What values that differ between invocations of a group require. -/
def nonUniformRequirements : Requirements :=
  .provided .shaderNonUniform .descriptorIndexing

namespace Qualifier

def invariantDecoration? (q : Qualifier) : Option Decoration :=
  if q.invariant then some .invariant else none

def preciseDecoration? (q : Qualifier) : Option Decoration :=
  if q.precise then some .noContraction else none

def nonUniformDecoration? (q : Qualifier) : Option Decoration :=
  if q.nonUniform then some .nonUniform else none

def nonUniformNeeds (q : Qualifier) : Requirements :=
  if q.nonUniform then nonUniformRequirements else .none

end Qualifier

/-- The decorations for memory access. Under the Vulkan memory model coherence and volatility are
part of each access instead. -/
def MemoryQualifiers.decorations (m : MemoryQualifiers) (vulkanMemoryModel : Bool) :
    List Decoration :=
  (if !vulkanMemoryModel && m.isCoherent then [.coherent] else [])
  ++ (if !vulkanMemoryModel && m.volatile then [.volatile] else [])
  ++ (if m.restrict then [.restrict] else [])
  ++ (if m.readOnly then [.nonWritable] else [])
  ++ (if m.writeOnly then [.nonReadable] else [])

def majorness (rowMajor : Bool) : Decoration :=
  if rowMajor then .rowMajor else .colMajor

def Storage.blockDecoration? (s : Storage) (target : Target) : Option Decoration :=
  match s with
  | .uniform | .varyingIn | .varyingOut => some .block
  | .buffer => if target.hasStorageBufferClass then some .block else some .bufferBlock
  | _ => none

def ShaderType.storageClass (t : ShaderType) (target : Target) : StorageClass :=
  match t.qualifier.storage with
  | .varyingIn => .input
  | .varyingOut => .output
  | .uniform =>
    if t.qualifier.layout.pushConstant then .pushConstant
    else if t.isOpaque then .uniformConstant
    else .uniform
  | .buffer =>
    if t.qualifier.layout.pushConstant then .pushConstant
    else if target.hasStorageBufferClass then .storageBuffer
    else .uniform
  | .shared => .workgroup
  | .global | .constant => .privateMemory
  | .temporary | .paramIn | .paramOut | .paramInOut | .paramConst => .function
  | .rayPayload => .rayPayloadNV
  | .rayPayloadIn => .incomingRayPayloadNV
  | .hitAttribute => .hitAttributeNV
  | .callableData => .callableDataNV
  | .callableDataIn => .incomingCallableDataNV
  | .taskPayload => .taskPayloadWorkgroupEXT

end ShaderGen
