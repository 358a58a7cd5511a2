import ShaderGen.Codegen.Symbol
import ShaderGen.Interface.Images

/-!
# Types

`Codegen.valueType` gives the type of the module for the values of a type of the program, and
`Codegen.objectType` the type for objects in memory that are laid out by a packing: there, truth
values are integers, arrays and matrices have strides, and the members of structures have offsets.

Structures hold types, types hold references to structures, and the length of an array may be a
constant with a type of its own. One step of typing, `Codegen.typeStep`, takes what it needs of
further types from a `Typer`; the steps are repeated as often as a program without a type that
contains itself can need.
-/

namespace ShaderGen

def SamplerKind.usage : SamplerKind → Nat
  | .image | .subpass => 2
  | .sampler | .texture | .combined => 1

namespace Codegen

def sampledType : SampledType → Emit Ident
  | .float => Builder.typeFloat 32
  | .int => Builder.typeInt 32 true
  | .uint => Builder.typeInt 32 false

/-- The type of a sampler or an image. Only images that are accessed without a sampler have a
format. -/
def samplerType (s : Sampler) (format : ImageFormat) : Emit Ident := do
  if s.kind = .sampler then Builder.typeSampler
  else
    let sampled ← sampledType s.sampled
    Builder.require s.requirements
    let format := if s.isStorage then format else .unknown
    Builder.require format.requirements
    let image ← Builder.typeImage
      { sampled, dimension := s.dimension, depth := s.shadow, arrayed := s.arrayed
        multisampled := s.multisampled, usage := s.kind.usage, format }
    if s.kind = .combined then Builder.typeSampledImage image else return image

def shapedType (t : ShaderType) (scalar : Ident) : Emit Ident := do
  if 0 < t.matrixCols then
    let column ← Builder.typeVector scalar t.matrixRows
    Builder.typeMatrix column t.matrixCols
  else Builder.typeVector scalar t.vectorSize

def elementType (p : Program) (typer : Typer) (r : TypeRequest) : Codegen Ident := do
  match r.type.basic with
  | .void => Builder.typeVoid
  | .bool =>
    let scalar ← if r.packing.isExplicit then Builder.typeWord else Builder.typeBool
    shapedType r.type scalar
  | .int width => do shapedType r.type (← Builder.typeInt width true)
  | .uint width => do shapedType r.type (← Builder.typeInt width false)
  | .float width => do shapedType r.type (← Builder.typeFloat width)
  | .sampler s => samplerType s r.type.qualifier.layout.format
  | .struct id | .block id => structType p typer id (r.structUse false)
  | .accelerationStructure => Builder.typeAccelerationStructure
  | .rayQuery => do
    Builder.require (.provided .rayQueryKHR .rayQuery)
    Builder.typeRayQuery
  | .reference id => referenceType p typer id

/-- The stride of an array, if it has one. Arrays of resources have none. -/
def arrayStride? (p : Program) (r : TypeRequest) (t : ShaderType) : Option Nat :=
  if r.packing.isExplicit && !(t.isOpaque || t.isBlock) then
    some (p.arrayStride r.packing t r.rowMajor)
  else none

def arrayOf (p : Program) (typer : Typer) (size : ArraySize) (element : Ident)
    (stride : Option Nat) (lastMember : Bool) : Codegen Ident := do
  ensureFits (stride.all (· < UInt32.size))
  match size with
  | .sized length => do Builder.typeArray element (← Builder.constWord length) stride
  | .spec symbol =>
    match ← bindingOf p typer symbol with
    | .value length _ => Builder.typeArray element length stride
    | .object _ _ _ => fail (.lengthNotConstant symbol)
  | .unsized =>
    if !lastMember then
      Builder.require (.provided .runtimeDescriptorArray .descriptorIndexing)
    Builder.typeRuntimeArray element stride

/-- The type for a request, with these array dimensions in place of those of its type. -/
def typeWithDimensions (p : Program) (typer : Typer) (r : TypeRequest) :
    List ArraySize → Bool → Codegen Ident
  | [], _ => elementType p typer r
  | size :: inner, lastMember => do
    let element ← match inner, r.type.structId? with
      | [], some id => structType p typer id (r.structUse true)
      | _, _ => typeWithDimensions p typer r inner false
    let stride := arrayStride? p r { r.type with arrays := size :: inner }
    arrayOf p typer size element stride lastMember

/-- The type for a request, where further types come from `typer`. -/
def typeStep (p : Program) (typer : Typer) (r : TypeRequest) : Codegen Ident :=
  typeWithDimensions p typer r r.type.arrays r.lastMember

/-- The type for a request, through types nested to the given depth. -/
def typeWithin (p : Program) : Nat → Typer
  | 0, _ => fail .endless
  | depth + 1, r => typeStep p (typeWithin p depth) r

end Codegen

/-- How deep types can be nested. By value, structures are nested at most as deep as there are
structures. A reference leads on only to a structure that is not underway and has no pointer type
yet; a structure that has been underway is so again unless it has been typed by value in between,
and then either another one has got its pointer type or it is part of a structure entered later. -/
def Program.typeDepth (p : Program) : Nat :=
  let n := p.structs.length + 1
  n.pow (n + 2) + 2

namespace Codegen

def typer (p : Program) : Typer :=
  typeWithin p p.typeDepth

def valueType (p : Program) (t : ShaderType) : Codegen Ident :=
  typer p (.plain t)

def objectType (p : Program) (t : ShaderType) : Codegen Ident :=
  let (packing, rowMajor) := t.blockLayout
  typer p { type := t, packing, rowMajor }

/-- The position of a member in the types of its structure, which gets one if it has had none. -/
def memberPosition (p : Program) (id : StructId) (source : Nat) : Codegen Nat := do
  if !(← get).typedStructs.contains id then
    let _ ← valueType p { basic := .struct id }
  match ((← get).memberTables.lookup id).bind (·[source]?) with
  | some (some k) => return k
  | some none => fail (.absentMember source id)
  | none => fail (.noMember id source)

end Codegen

end ShaderGen
