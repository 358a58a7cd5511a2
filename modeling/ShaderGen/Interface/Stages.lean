import ShaderGen.Requirement
import ShaderGen.Source.BuiltIn
import ShaderGen.Source.Stage

/-!
# Requirements of stages and built-in variables

What a module has to declare for its stage, and for the built-in variables it uses. A built-in that
is only listed as a member of a block, as the standard blocks between stages do, requires less than
one that is used.
-/

namespace ShaderGen

def Stage.requirements : Stage → Requirements
  | .vertex | .fragment | .compute => .none
  | .tessControl | .tessEvaluation => .capability .tessellation
  | .geometry => .capability .geometry
  | .rayGen | .intersect | .anyHit | .closestHit | .miss | .callable =>
    .provided .rayTracingKHR .rayTracing
  | .task | .mesh => .provided .meshShadingEXT .meshShader

def Stage.isPreGeometry : Stage → Bool
  | .vertex | .tessControl | .tessEvaluation => true
  | _ => false

namespace BuiltIn

/-- What a built-in variable requires by being declared, in whatever form. -/
def declarationNeeds : BuiltIn → Requirements
  | .drawIndex | .baseVertex | .baseInstance => .provided .drawParameters .shaderDrawParameters
  | .fragStencilRef => .provided .stencilExportEXT .stencilExport
  | .subgroupSize | .subgroupLocalInvocationId => .capability .groupNonUniform
  | .viewIndex => .provided .multiView .multiview
  | .deviceIndex => .provided .deviceGroup .deviceGroup
  | .primitiveShadingRate => .provided .fragmentShadingRateKHR .fragmentShadingRate
  | _ => .none

def usageNeeds (b : BuiltIn) (stage : Stage) : Requirements :=
  match b with
  | .pointSize =>
    match stage with
    | .geometry => .capability .geometryPointSize
    | .tessControl | .tessEvaluation => .capability .tessellationPointSize
    | _ => .none
  | .clipDistance => .capability .clipDistance
  | .cullDistance => .capability .cullDistance
  | .sampleId | .samplePosition => .capability .sampleRateShading
  | .layer =>
    if stage.isPreGeometry then .provided .shaderViewportIndexLayerEXT .viewportIndexLayer
    else if stage = .fragment then .capability .geometry
    else .none
  | .viewportIndex =>
    if stage.isPreGeometry then
      .capability .multiViewport ++ .provided .shaderViewportIndexLayerEXT .viewportIndexLayer
    else .capability .multiViewport
  | .primitiveId => if stage = .fragment then .capability .geometry else .none
  | _ => .none

/-- What a built-in variable requires in a stage; `member` when it is only listed as a member. -/
def requirements (b : BuiltIn) (stage : Stage) (member : Bool) : Requirements :=
  b.declarationNeeds ++ if member then .none else b.usageNeeds stage

end BuiltIn

def builtInRequirements (b : Option BuiltIn) (stage : Stage) (member : Bool) : Requirements :=
  match b with
  | some b => b.requirements stage member
  | none => .none

end ShaderGen
