import ShaderGen.Named

/-!
# Built-in variables

The variables a stage is handed by the pipeline. Each has the name shading languages give it and
the name and number that modules use.
-/

namespace ShaderGen

inductive BuiltIn
  | position | pointSize | clipDistance | cullDistance | vertexIndex | instanceIndex | vertexId
  | instanceId | drawIndex | baseVertex | baseInstance | fragCoord | frontFacing | pointCoord
  | fragDepth | fragStencilRef | sampleId | samplePosition | sampleMask | helperInvocation
  | layer | viewportIndex | primitiveId | invocationId | tessLevelOuter | tessLevelInner
  | tessCoord | patchVertices | numWorkgroups | workgroupSize | workgroupId | localInvocationId
  | globalInvocationId | localInvocationIndex | subgroupSize | subgroupLocalInvocationId
  | viewIndex | deviceIndex | launchId | launchSize | primitiveShadingRate
  | primitivePointIndices | primitiveLineIndices | primitiveTriangleIndices | cullPrimitive
  deriving DecidableEq, Inhabited, Repr

instance : Named BuiltIn where
  all := (List.range (BuiltIn.cullPrimitive.ctorIdx + 1)).map BuiltIn.ofNat
  name
    | .fragStencilRef => "FragStencilRefEXT" | .launchId => "LaunchIdNV"
    | .launchSize => "LaunchSizeNV" | .primitiveShadingRate => "PrimitiveShadingRateKHR"
    | .primitivePointIndices => "PrimitivePointIndicesEXT"
    | .primitiveLineIndices => "PrimitiveLineIndicesEXT"
    | .primitiveTriangleIndices => "PrimitiveTriangleIndicesEXT"
    | .cullPrimitive => "CullPrimitiveEXT"
    | other => constructorName other

def BuiltIn.code : BuiltIn → Nat
  | .position => 0 | .pointSize => 1 | .clipDistance => 3 | .cullDistance => 4
  | .vertexIndex => 42 | .instanceIndex => 43 | .vertexId => 5 | .instanceId => 6
  | .drawIndex => 4426 | .baseVertex => 4424 | .baseInstance => 4425 | .fragCoord => 15
  | .frontFacing => 17 | .pointCoord => 16 | .fragDepth => 22 | .fragStencilRef => 5014
  | .sampleId => 18 | .samplePosition => 19 | .sampleMask => 20 | .helperInvocation => 23
  | .layer => 9 | .viewportIndex => 10 | .primitiveId => 7 | .invocationId => 8
  | .tessLevelOuter => 11 | .tessLevelInner => 12 | .tessCoord => 13 | .patchVertices => 14
  | .numWorkgroups => 24 | .workgroupSize => 25 | .workgroupId => 26 | .localInvocationId => 27
  | .globalInvocationId => 28 | .localInvocationIndex => 29 | .subgroupSize => 36
  | .subgroupLocalInvocationId => 41 | .viewIndex => 4440 | .deviceIndex => 4438
  | .launchId => 5319 | .launchSize => 5320 | .primitiveShadingRate => 4432
  | .primitivePointIndices => 5294 | .primitiveLineIndices => 5295
  | .primitiveTriangleIndices => 5296 | .cullPrimitive => 5299

def BuiltIn.sourceName : BuiltIn → String
  | .position => "Position" | .pointSize => "PointSize" | .clipDistance => "ClipDistance"
  | .cullDistance => "CullDistance" | .vertexIndex => "VertexIndex"
  | .instanceIndex => "InstanceIndex" | .vertexId => "VertexId" | .instanceId => "InstanceId"
  | .drawIndex => "DrawIndex" | .baseVertex => "BaseVertex" | .baseInstance => "BaseInstance"
  | .fragCoord => "FragCoord" | .frontFacing => "FrontFacing" | .pointCoord => "PointCoord"
  | .fragDepth => "FragDepth" | .fragStencilRef => "FragStencilRef" | .sampleId => "SampleId"
  | .samplePosition => "SamplePosition" | .sampleMask => "SampleMask"
  | .helperInvocation => "HelperInvocation" | .layer => "Layer"
  | .viewportIndex => "ViewportIndex" | .primitiveId => "PrimitiveId"
  | .invocationId => "InvocationId" | .tessLevelOuter => "TessLevelOuter"
  | .tessLevelInner => "TessLevelInner" | .tessCoord => "TessCoord"
  | .patchVertices => "PatchVertices" | .numWorkgroups => "NumWorkGroups"
  | .workgroupSize => "WorkGroupSize" | .workgroupId => "WorkGroupId"
  | .localInvocationId => "LocalInvocationId" | .globalInvocationId => "GlobalInvocationId"
  | .localInvocationIndex => "LocalInvocationIndex" | .subgroupSize => "SubgroupSize"
  | .subgroupLocalInvocationId => "SubgroupInvocationId" | .viewIndex => "ViewIndex"
  | .deviceIndex => "DeviceIndex" | .launchId => "LaunchId" | .launchSize => "LaunchSize"
  | .primitiveShadingRate => "PrimitiveShadingRate"
  | .primitivePointIndices => "PrimitivePointIndices"
  | .primitiveLineIndices => "PrimitiveLineIndices"
  | .primitiveTriangleIndices => "PrimitiveTriangleIndices" | .cullPrimitive => "CullPrimitive"

def BuiltIn.ofSourceName? (text : String) : Option BuiltIn :=
  (Named.all : List BuiltIn).find? fun b => b.sourceName == text

end ShaderGen
