import ShaderGen.Source.BuiltIn
import ShaderGen.Source.Sampler

/-!
# Qualifiers

What a declaration says about its variable beyond the type proper: storage, precision,
interpolation, memory access, explicit layout and a built-in meaning.
-/

namespace ShaderGen

/-- The role a declaration gives to its variable. -/
inductive Storage
  | temporary | global | constant | varyingIn | varyingOut | uniform | buffer | shared | paramIn
  | paramOut | paramInOut | paramConst | rayPayload | rayPayloadIn | hitAttribute | callableData
  | callableDataIn | taskPayload
  deriving DecidableEq, Inhabited, Repr

instance : Named Storage where
  all := (List.range (Storage.taskPayload.ctorIdx + 1)).map Storage.ofNat
  name
    | .constant => "Const" | .paramIn => "In" | .paramOut => "Out" | .paramInOut => "InOut"
    | .paramConst => "ConstIn"
    | other => constructorName other

namespace Storage

def isPipe : Storage → Bool
  | .varyingIn | .varyingOut => true
  | _ => false

def isParameterOutput : Storage → Bool
  | .paramOut | .paramInOut => true
  | _ => false

end Storage

/-- How precisely a value has to be computed. -/
inductive Precision
  | none | low | medium | high
  deriving DecidableEq, Inhabited, Repr

instance : Named Precision where
  all := [.none, .low, .medium, .high]
  name := constructorName

/-- How a value is interpolated across a primitive. -/
inductive Interpolation
  | none | smooth | flat | noPerspective
  deriving DecidableEq, Inhabited, Repr

instance : Named Interpolation where
  all := [.none, .smooth, .flat, .noPerspective]
  name := constructorName

/-- Where on a primitive an interpolated value is taken. -/
inductive Auxiliary
  | none | centroid | sample | patch | perPrimitive
  deriving DecidableEq, Inhabited, Repr

instance : Named Auxiliary where
  all := [.none, .centroid, .sample, .patch, .perPrimitive]
  name := constructorName

/-- The rule by which the members of a block are placed in memory. -/
inductive Packing
  | none | std140 | std430 | scalar | shared | packed
  deriving DecidableEq, Inhabited, Repr

instance : Named Packing where
  all := [.none, .std140, .std430, .scalar, .shared, .packed]
  name := constructorName

/-- The packings under which members get explicit offsets and strides. -/
def Packing.isExplicit : Packing → Bool
  | .std140 | .std430 | .scalar => true
  | _ => false

/-- Whether the columns or the rows of a matrix are contiguous. -/
inductive MatrixLayout
  | none | columnMajor | rowMajor
  deriving DecidableEq, Inhabited, Repr

instance : Named MatrixLayout where
  all := [.none, .columnMajor, .rowMajor]
  name := constructorName

/-- How the memory behind a variable is accessed. -/
structure MemoryQualifiers where
  coherent : Bool := false
  deviceCoherent : Bool := false
  queueFamilyCoherent : Bool := false
  workgroupCoherent : Bool := false
  subgroupCoherent : Bool := false
  shaderCallCoherent : Bool := false
  nonPrivate : Bool := false
  volatile : Bool := false
  restrict : Bool := false
  readOnly : Bool := false
  writeOnly : Bool := false
  deriving DecidableEq, Inhabited

namespace MemoryQualifiers

def flags (m : MemoryQualifiers) : List (String × Bool) :=
  [("COHERENT", m.coherent), ("DEVICE_COHERENT", m.deviceCoherent),
   ("QUEUE_FAMILY_COHERENT", m.queueFamilyCoherent), ("WORKGROUP_COHERENT", m.workgroupCoherent),
   ("SUBGROUP_COHERENT", m.subgroupCoherent), ("SHADER_CALL_COHERENT", m.shaderCallCoherent),
   ("NON_PRIVATE", m.nonPrivate), ("VOLATILE", m.volatile), ("RESTRICT", m.restrict),
   ("READ_ONLY", m.readOnly), ("WRITE_ONLY", m.writeOnly)]

def ofNames (names : List String) : MemoryQualifiers :=
  { coherent := names.contains "COHERENT", deviceCoherent := names.contains "DEVICE_COHERENT",
    queueFamilyCoherent := names.contains "QUEUE_FAMILY_COHERENT",
    workgroupCoherent := names.contains "WORKGROUP_COHERENT",
    subgroupCoherent := names.contains "SUBGROUP_COHERENT",
    shaderCallCoherent := names.contains "SHADER_CALL_COHERENT",
    nonPrivate := names.contains "NON_PRIVATE", volatile := names.contains "VOLATILE",
    restrict := names.contains "RESTRICT", readOnly := names.contains "READ_ONLY",
    writeOnly := names.contains "WRITE_ONLY" }

def union (m n : MemoryQualifiers) : MemoryQualifiers :=
  { coherent := m.coherent || n.coherent, deviceCoherent := m.deviceCoherent || n.deviceCoherent,
    queueFamilyCoherent := m.queueFamilyCoherent || n.queueFamilyCoherent,
    workgroupCoherent := m.workgroupCoherent || n.workgroupCoherent,
    subgroupCoherent := m.subgroupCoherent || n.subgroupCoherent,
    shaderCallCoherent := m.shaderCallCoherent || n.shaderCallCoherent,
    nonPrivate := m.nonPrivate || n.nonPrivate, volatile := m.volatile || n.volatile,
    restrict := m.restrict || n.restrict, readOnly := m.readOnly || n.readOnly,
    writeOnly := m.writeOnly || n.writeOnly }

/-- Whether writes are made visible to other invocations, in any scope. -/
def isCoherent (m : MemoryQualifiers) : Bool :=
  m.coherent || m.deviceCoherent || m.queueFamilyCoherent || m.workgroupCoherent ||
    m.subgroupCoherent || m.shaderCallCoherent

def isEmpty (m : MemoryQualifiers) : Bool :=
  m == {}

end MemoryQualifiers

structure LayoutQualifier where
  packing : Packing := .none
  matrix : MatrixLayout := .none
  location : Option Nat := none
  component : Option Nat := none
  binding : Option Nat := none
  set : Option Nat := none
  offset : Option Nat := none
  align : Option Nat := none
  xfbBuffer : Option Nat := none
  xfbStride : Option Nat := none
  xfbOffset : Option Nat := none
  format : ImageFormat := .unknown
  pushConstant : Bool := false
  bufferReference : Bool := false
  bufferReferenceAlign : Option Nat := none
  specId : Option Nat := none
  inputAttachmentIndex : Option Nat := none
  deriving DecidableEq, Inhabited

structure Qualifier where
  storage : Storage := .temporary
  precision : Precision := .none
  interpolation : Interpolation := .none
  auxiliary : Auxiliary := .none
  memory : MemoryQualifiers := {}
  layout : LayoutQualifier := {}
  builtIn : Option BuiltIn := none
  invariant : Bool := false
  precise : Bool := false
  nonUniform : Bool := false
  /-- A specialization constant, which never has storage of its own. -/
  specConstant : Bool := false
  deriving DecidableEq, Inhabited

namespace Qualifier

def isUniformOrBuffer (q : Qualifier) : Bool :=
  q.storage == .uniform || q.storage == .buffer

/-- Whether the members of a structure declared this way differ from those of the same structure
declared plainly, beyond packing and majorness. -/
def changesMembers (q : Qualifier) : Bool :=
  q.storage.isPipe || (q.storage == .buffer && !q.memory.isEmpty)

end Qualifier

end ShaderGen
