import ShaderGen.Named

/-!
# Pipeline stages and source languages

The stage a shader runs in is also the execution model of its entry point, so a stage carries the
name and number that the entry point instruction uses. The source language is recorded as debug
information only.
-/

namespace ShaderGen

inductive Stage
  | vertex | tessControl | tessEvaluation | geometry | fragment | compute | rayGen | intersect
  | anyHit | closestHit | miss | callable | task | mesh
  deriving DecidableEq, Inhabited, Repr

instance : Named Stage where
  all := (List.range (Stage.mesh.ctorIdx + 1)).map Stage.ofNat
  name := constructorName

namespace Stage

def model : Stage → String
  | .vertex => "Vertex" | .tessControl => "TessellationControl"
  | .tessEvaluation => "TessellationEvaluation" | .geometry => "Geometry"
  | .fragment => "Fragment" | .compute => "GLCompute" | .rayGen => "RayGenerationNV"
  | .intersect => "IntersectionNV" | .anyHit => "AnyHitNV" | .closestHit => "ClosestHitNV"
  | .miss => "MissNV" | .callable => "CallableNV" | .task => "TaskEXT" | .mesh => "MeshEXT"

def modelCode : Stage → Nat
  | .vertex => 0 | .tessControl => 1 | .tessEvaluation => 2 | .geometry => 3 | .fragment => 4
  | .compute => 5 | .rayGen => 5313 | .intersect => 5314 | .anyHit => 5315 | .closestHit => 5316
  | .miss => 5317 | .callable => 5318 | .task => 5364 | .mesh => 5365

def isRayTracing : Stage → Bool
  | .rayGen | .intersect | .anyHit | .closestHit | .miss | .callable => true
  | _ => false

end Stage

inductive Language
  | glsl | essl | hlsl
  deriving DecidableEq, Inhabited, Repr

instance : Named Language where
  all := [.glsl, .essl, .hlsl]
  name := constructorName

namespace Language

def printed : Language → String
  | .glsl => "GLSL" | .essl => "ESSL" | .hlsl => "HLSL"

def code : Language → Nat
  | .glsl => 2 | .essl => 1 | .hlsl => 5

end Language

end ShaderGen
