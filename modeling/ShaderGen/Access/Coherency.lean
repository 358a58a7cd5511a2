import ShaderGen.Requirement
import ShaderGen.Source.Qualifier
import ShaderGen.Spirv.Enumerant

/-!
# Coherency

What the declarations along a path say about accesses to the memory it leads to. Outside the Vulkan
memory model this is a matter of decorations; under it every load and store carries a mask and a
scope, given by `Coherency.memoryAccess` and `Coherency.scope?`.
-/

namespace ShaderGen

structure Coherency where
  coherent : Bool := false
  deviceCoherent : Bool := false
  queueFamilyCoherent : Bool := false
  workgroupCoherent : Bool := false
  subgroupCoherent : Bool := false
  shaderCallCoherent : Bool := false
  volatile : Bool := false
  nonPrivate : Bool := false
  /-- The path depends on a value that differs between invocations of a group. -/
  nonUniform : Bool := false
  isImage : Bool := false
  deriving DecidableEq, Inhabited

namespace Coherency

def none : Coherency := {}

def union (c d : Coherency) : Coherency :=
  { coherent := c.coherent || d.coherent, deviceCoherent := c.deviceCoherent || d.deviceCoherent,
    queueFamilyCoherent := c.queueFamilyCoherent || d.queueFamilyCoherent,
    workgroupCoherent := c.workgroupCoherent || d.workgroupCoherent,
    subgroupCoherent := c.subgroupCoherent || d.subgroupCoherent,
    shaderCallCoherent := c.shaderCallCoherent || d.shaderCallCoherent,
    volatile := c.volatile || d.volatile, nonPrivate := c.nonPrivate || d.nonPrivate,
    nonUniform := c.nonUniform || d.nonUniform, isImage := c.isImage || d.isImage }

def isCoherent (c : Coherency) : Bool :=
  c.coherent || c.deviceCoherent || c.queueFamilyCoherent || c.workgroupCoherent ||
    c.subgroupCoherent || c.shaderCallCoherent

/-- What the qualifiers of one declaration say. Coherent memory is never private. -/
def ofQualifier (q : Qualifier) (isImage : Bool) : Coherency :=
  let m := q.memory
  { coherent := m.coherent, deviceCoherent := m.deviceCoherent,
    queueFamilyCoherent := m.queueFamilyCoherent, workgroupCoherent := m.workgroupCoherent,
    subgroupCoherent := m.subgroupCoherent, shaderCallCoherent := m.shaderCallCoherent,
    volatile := m.volatile, nonPrivate := m.nonPrivate || m.isCoherent,
    nonUniform := q.nonUniform, isImage }

def flags (c : Coherency) : List (String × Bool) :=
  [("COHERENT", c.coherent), ("DEVICE_COHERENT", c.deviceCoherent),
   ("QUEUE_FAMILY_COHERENT", c.queueFamilyCoherent), ("WORKGROUP_COHERENT", c.workgroupCoherent),
   ("SUBGROUP_COHERENT", c.subgroupCoherent), ("SHADER_CALL_COHERENT", c.shaderCallCoherent),
   ("VOLATILE", c.volatile), ("NON_PRIVATE", c.nonPrivate), ("NON_UNIFORM", c.nonUniform),
   ("IS_IMAGE", c.isImage)]

def bits (c : Coherency) : Nat :=
  c.flags.foldr (fun flag rest => flag.2.toNat + 2 * rest) 0

def ofNames (names : List String) : Coherency :=
  { coherent := names.contains "COHERENT", deviceCoherent := names.contains "DEVICE_COHERENT",
    queueFamilyCoherent := names.contains "QUEUE_FAMILY_COHERENT",
    workgroupCoherent := names.contains "WORKGROUP_COHERENT",
    subgroupCoherent := names.contains "SUBGROUP_COHERENT",
    shaderCallCoherent := names.contains "SHADER_CALL_COHERENT",
    volatile := names.contains "VOLATILE", nonPrivate := names.contains "NON_PRIVATE",
    nonUniform := names.contains "NON_UNIFORM", isImage := names.contains "IS_IMAGE" }

end Coherency

structure MemoryAccess where
  volatile : Bool := false
  aligned : Bool := false
  available : Bool := false
  visible : Bool := false
  nonPrivate : Bool := false
  deriving DecidableEq, Inhabited

namespace MemoryAccess

def bits (a : MemoryAccess) : Nat :=
  a.volatile.toNat + 2 * a.aligned.toNat + 8 * a.available.toNat + 16 * a.visible.toNat
    + 32 * a.nonPrivate.toNat

def isEmpty (a : MemoryAccess) : Bool :=
  a == {}

end MemoryAccess

namespace Coherency

/-- How memory is accessed; before it is known whether the access is a load or a store. Outside the
Vulkan memory model, and for images, nothing is said. -/
def memoryAccess (c : Coherency) (vulkanMemoryModel : Bool) : MemoryAccess :=
  if !vulkanMemoryModel || c.isImage then {}
  else
    { volatile := c.volatile, available := c.volatile || c.isCoherent,
      visible := c.volatile || c.isCoherent, nonPrivate := c.nonPrivate }

def accessNeeds (c : Coherency) (vulkanMemoryModel : Bool) : Requirements :=
  if (c.memoryAccess vulkanMemoryModel).isEmpty then .none else .capability .vulkanMemoryModel

def scope? (c : Coherency) (vulkanMemoryModel : Bool) : Option Scope :=
  if !vulkanMemoryModel then Option.none
  else if c.volatile || c.coherent then some .device
  else if c.queueFamilyCoherent then some .queueFamily
  else if c.deviceCoherent then some .device
  else if c.workgroupCoherent then some .workgroup
  else if c.subgroupCoherent then some .subgroup
  else if c.shaderCallCoherent then some .shaderCallKHR
  else Option.none

def scopeNeeds (c : Coherency) (vulkanMemoryModel : Bool) : Requirements :=
  if c.scope? vulkanMemoryModel = some .device then .capability .vulkanMemoryModelDeviceScope
  else .none

end Coherency

end ShaderGen
