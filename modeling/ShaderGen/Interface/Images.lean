import ShaderGen.Requirement
import ShaderGen.Source.Type

/-!
# Requirements of images

What images of a given dimension and format require, and what it takes to index an array of
resources by a value that is not constant.
-/

namespace ShaderGen

def Sampler.isStorage (s : Sampler) : Bool :=
  s.kind == .image

def Sampler.requirements (s : Sampler) : Requirements :=
  let either (storage sampled : Capability) : Requirements :=
    .capability (if s.isStorage then storage else sampled)
  let dimension : Requirements :=
    match s.dimension with
    | .line => either .image1D .sampled1D
    | .plane | .volume => .none
    | .cube => if s.arrayed then either .imageCubeArray .sampledCubeArray else .none
    | .rect => either .imageRect .sampledRect
    | .buffer => either .imageBuffer .sampledBuffer
    | .subpassData => .capability .inputAttachment
  let multisampled : Requirements :=
    if s.multisampled && s.isStorage then
      .capability .storageImageMultisample
        ++ if s.arrayed then .capability .imageMSArray else .none
    else .none
  dimension ++ multisampled

def ImageFormat.requirements : ImageFormat → Requirements
  | .rg32f | .rg16f | .r16f => .capability .storageImageExtendedFormats
  | _ => .none

/-- The capability for indexing an array of elements of this type by a value that is not constant,
if it takes one. -/
def ShaderType.indexingCapability? (element : ShaderType) (nonUniform : Bool) :
    Option Capability :=
  match element.basic with
  | .sampler desc =>
    match desc.kind, desc.isTexelBuffer, nonUniform with
    | .subpass, _, true => some .inputAttachmentArrayNonUniformIndexing
    | .subpass, _, false => some .inputAttachmentArrayDynamicIndexing
    | .image, true, true => some .storageTexelBufferArrayNonUniformIndexing
    | .image, true, false => some .storageTexelBufferArrayDynamicIndexing
    | .image, false, true => some .storageImageArrayNonUniformIndexing
    | _, true, true => some .uniformTexelBufferArrayNonUniformIndexing
    | _, true, false => some .uniformTexelBufferArrayDynamicIndexing
    | _, false, true => some .sampledImageArrayNonUniformIndexing
    | _, false, false => none
  | .block _ =>
    if nonUniform then
      match element.qualifier.storage with
      | .buffer => some .storageBufferArrayNonUniformIndexing
      | .uniform => some .uniformBufferArrayNonUniformIndexing
      | _ => none
    else none
  | _ => none

end ShaderGen
