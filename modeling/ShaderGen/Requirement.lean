import ShaderGen.Target
import ShaderGen.Spirv.Capability

/-!
# Requirements

Using a feature obliges the module to declare capabilities and extensions. An extension may have
become part of the core format at some version; from there on it is not declared any more.
-/

namespace ShaderGen

structure Extension where
  name : String
  coreIn : Option Version := none
  deriving DecidableEq, Inhabited

/-- Whether a module of the given version has to declare the extension. -/
def Extension.isNeededIn (e : Extension) (v : Version) : Bool :=
  match e.coreIn with
  | some core => !v.atLeast core
  | none => true

namespace Extension

def shaderDrawParameters : Extension := ⟨"SPV_KHR_shader_draw_parameters", some .v1_3⟩
def multiview : Extension := ⟨"SPV_KHR_multiview", some .v1_3⟩
def deviceGroup : Extension := ⟨"SPV_KHR_device_group", some .v1_3⟩
def storage16Bit : Extension := ⟨"SPV_KHR_16bit_storage", some .v1_3⟩
def storage8Bit : Extension := ⟨"SPV_KHR_8bit_storage", some .v1_5⟩
def descriptorIndexing : Extension := ⟨"SPV_EXT_descriptor_indexing", some .v1_5⟩
def physicalStorageBuffer : Extension := ⟨"SPV_KHR_physical_storage_buffer", some .v1_5⟩
def vulkanMemoryModel : Extension := ⟨"SPV_KHR_vulkan_memory_model", some .v1_5⟩
def viewportIndexLayer : Extension := ⟨"SPV_EXT_shader_viewport_index_layer", some .v1_5⟩
def demoteToHelper : Extension := ⟨"SPV_EXT_demote_to_helper_invocation", some .v1_6⟩
def terminateInvocation : Extension := ⟨"SPV_KHR_terminate_invocation", some .v1_6⟩
def stencilExport : Extension := ⟨"SPV_EXT_shader_stencil_export", none⟩
def fragmentShadingRate : Extension := ⟨"SPV_KHR_fragment_shading_rate", none⟩
def rayTracing : Extension := ⟨"SPV_KHR_ray_tracing", none⟩
def rayQuery : Extension := ⟨"SPV_KHR_ray_query", none⟩
def meshShader : Extension := ⟨"SPV_EXT_mesh_shader", none⟩

end Extension

/-- A single thing that a module is asked to declare. -/
inductive Request
  | capability (c : Capability)
  | extension (e : Extension)
  deriving DecidableEq, Inhabited

/-- What a module has to declare in order to use something. -/
structure Requirements where
  capabilities : List Capability := []
  extensions : List Extension := []
  deriving DecidableEq, Inhabited

namespace Requirements

def none : Requirements := {}

def capability (c : Capability) : Requirements := { capabilities := [c] }

def provided (c : Capability) (e : Extension) : Requirements :=
  { capabilities := [c], extensions := [e] }

/-- Both, the first one's first. -/
def append (r s : Requirements) : Requirements :=
  { capabilities := r.capabilities ++ s.capabilities, extensions := r.extensions ++ s.extensions }

instance instAppendRequirements : Append Requirements := ⟨append⟩

/-- The single requests, in the order in which they are made. -/
def requests (r : Requirements) : List Request :=
  r.capabilities.map .capability ++ r.extensions.map .extension

def isEmpty (r : Requirements) : Bool :=
  r.capabilities.isEmpty && r.extensions.isEmpty

end Requirements

end ShaderGen
