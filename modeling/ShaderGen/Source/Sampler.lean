import ShaderGen.Named

/-!
# Images and samplers

A sampler description says what kind of image resource a type denotes. Dimensions and storage
formats are shared by the source and by image types of the module.
-/

namespace ShaderGen

inductive Dimension
  | line | plane | volume | cube | rect | buffer | subpassData
  deriving DecidableEq, Inhabited

instance : Named Dimension where
  all := [
    .line, .plane, .volume, .cube, .rect, .buffer, .subpassData]
  name
    | .line => "Dim1D" | .plane => "Dim2D" | .volume => "Dim3D" | .cube => "DimCube"
    | .rect => "DimRect" | .buffer => "DimBuffer" | .subpassData => "DimSubpassData"

def Dimension.code : Dimension → Nat
  | .line => 0 | .plane => 1 | .volume => 2 | .cube => 3 | .rect => 4 | .buffer => 5
  | .subpassData => 6

def Dimension.sourceName : Dimension → String
  | .line => "Dim1D" | .plane => "Dim2D" | .volume => "Dim3D" | .cube => "Cube" | .rect => "Rect"
  | .buffer => "Buffer" | .subpassData => "SubpassData"

def Dimension.ofSourceName? (text : String) : Option Dimension :=
  (Named.all : List Dimension).find? fun d => d.sourceName == text

inductive ImageFormat
  | unknown | rgba32f | rgba16f | r32f | rgba8 | rgba8Snorm | rg32f | rg16f | r16f | rgba32i
  | r32i | rgba32ui | r32ui
  deriving DecidableEq, Inhabited, Repr

instance : Named ImageFormat where
  all := [.unknown, .rgba32f, .rgba16f, .r32f, .rgba8, .rgba8Snorm, .rg32f, .rg16f, .r16f, .rgba32i,
    .r32i, .rgba32ui, .r32ui]
  name := constructorName

def ImageFormat.code : ImageFormat → Nat
  | .unknown => 0 | .rgba32f => 1 | .rgba16f => 2 | .r32f => 3 | .rgba8 => 4 | .rgba8Snorm => 5
  | .rg32f => 6 | .rg16f => 7 | .r16f => 9 | .rgba32i => 21 | .r32i => 24 | .rgba32ui => 30
  | .r32ui => 33

/-- How an image resource is bound. -/
inductive SamplerKind
  | sampler | texture | combined | image | subpass
  deriving DecidableEq, Inhabited, Repr

instance : Named SamplerKind where
  all := [.sampler, .texture, .combined, .image, .subpass]
  name := constructorName

/-- The scalar type that reads of an image give. -/
inductive SampledType
  | float | int | uint
  deriving DecidableEq, Inhabited, Repr

instance : Named SampledType where
  all := [.float, .int, .uint]
  name := constructorName

/-- An image resource, or a bare sampler. -/
structure Sampler where
  kind : SamplerKind := .combined
  dimension : Dimension
  sampled : SampledType := .float
  arrayed : Bool := false
  multisampled : Bool := false
  shadow : Bool := false
  deriving DecidableEq, Inhabited

def Sampler.isTexelBuffer (s : Sampler) : Bool :=
  s.dimension == .buffer

end ShaderGen
