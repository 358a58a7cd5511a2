import ShaderGen.Source.Program

/-!
# Types in words

`ShaderType.spelling` writes a type the way shading languages do, `vec3` or `uint[]`.
`BasicType.describe` writes out a basic type with all its parameters, for error messages.
-/

namespace ShaderGen

/-- The name of a structure; one that does not exist goes by its number. -/
def structName (structs : List StructDecl) (id : StructId) : String :=
  match structs[id]? with
  | some s => s.name
  | none => s!"struct#{id}"

def Sampler.spelling (s : Sampler) : String :=
  let dimension := match s.dimension with
    | .line => "1D"
    | .plane => "2D"
    | .volume => "3D"
    | .cube => "Cube"
    | .rect => "2DRect"
    | .buffer => "Buffer"
    | .subpassData => ""
  let suffix := (if s.multisampled then "MS" else "") ++ (if s.arrayed then "Array" else "")
    ++ (if s.shadow then "Shadow" else "")
  match s.kind with
  | .sampler => "sampler"
  | .texture => "texture" ++ dimension ++ suffix
  | .combined => "sampler" ++ dimension ++ suffix
  | .image => "image" ++ dimension ++ suffix
  | .subpass => "subpassInput" ++ dimension ++ suffix

namespace ShaderType

/-- The word in front of `vec` and `mat`. -/
def vectorMark (t : ShaderType) : String :=
  match t.basic with
  | .bool => "b"
  | .int 32 => "i"
  | .uint 32 => "u"
  | .float 64 => "d"
  | .float 16 => "f16"
  | _ => ""

def singleSpelling (t : ShaderType) (structs : List StructDecl) : String :=
  match t.basic with
  | .void => "void"
  | .bool => "bool"
  | .int _ => "int"
  | .uint _ => "uint"
  | .float 16 => "float16_t"
  | .float 64 => "double"
  | .float _ => "float"
  | .sampler desc => desc.spelling
  | .struct id | .block id => structName structs id
  | .reference id => "ref " ++ structName structs id
  | .accelerationStructure => "accelerationStructureEXT"
  | .rayQuery => "rayQueryEXT"

/-- The name of an integer type of unusual width, which is never called a matrix. -/
def sizedSpelling (t : ShaderType) (stem : String) (width : Nat) : String :=
  if 1 < t.vectorSize then s!"{stem}{width}vec{t.vectorSize}" else s!"{stem}{width}_t"

def elementSpelling (t : ShaderType) (structs : List StructDecl) : String :=
  let plain :=
    match t.matrix? with
    | some (cols, rows) =>
      if cols = rows then s!"{t.vectorMark}mat{cols}" else s!"{t.vectorMark}mat{cols}x{rows}"
    | none =>
      if 1 < t.vectorSize then s!"{t.vectorMark}vec{t.vectorSize}" else t.singleSpelling structs
  match t.basic with
  | .int width => if width = 32 then plain else t.sizedSpelling "int" width
  | .uint width => if width = 32 then plain else t.sizedSpelling "uint" width
  | _ => plain

def spelling (t : ShaderType) (structs : List StructDecl) : String :=
  t.arrays.foldl (fun text size =>
    text ++ match size with
      | .sized length => s!"[{length}]"
      | .unsized => "[]"
      | .spec symbol => s!"[spec#{symbol}]") (t.elementSpelling structs)

end ShaderType

def truthWord (b : Bool) : String :=
  if b then "true" else "false"

def Sampler.describe (s : Sampler) : String :=
  "SamplerDesc \x7b kind: " ++ Named.name s.kind ++ ", dim: " ++ s.dimension.sourceName
    ++ ", sampled_type: " ++ Named.name s.sampled ++ ", arrayed: " ++ truthWord s.arrayed
    ++ ", ms: " ++ truthWord s.multisampled ++ ", shadow: " ++ truthWord s.shadow ++ " \x7d"

def BasicType.describe : BasicType → String
  | .void => "Void"
  | .bool => "Bool"
  | .int width => s!"Int({width})"
  | .uint width => s!"Uint({width})"
  | .float width => s!"Float({width})"
  | .sampler desc => s!"Sampler({desc.describe})"
  | .struct id => s!"Struct(StructId({id}))"
  | .block id => s!"Block(StructId({id}))"
  | .accelerationStructure => "AccelerationStructure"
  | .rayQuery => "RayQuery"
  | .reference id => s!"Reference(StructId({id}))"

end ShaderGen
