import ShaderGen.Named

/-!
# Capabilities

The optional features a module declares before it may use them.
-/

namespace ShaderGen

inductive Capability
  | matrix | shader | geometry | tessellation | float16 | float64 | int64 | int64Atomics | int16
  | tessellationPointSize | geometryPointSize | storageImageMultisample | clipDistance
  | cullDistance | imageCubeArray | sampleRateShading | imageRect | sampledRect | int8
  | inputAttachment | sampled1D | image1D | sampledCubeArray | sampledBuffer | imageBuffer
  | imageMSArray | storageImageExtendedFormats | imageQuery | interpolationFunction
  | transformFeedback | storageImageReadWithoutFormat | storageImageWriteWithoutFormat
  | multiViewport | groupNonUniform | groupNonUniformVote | groupNonUniformArithmetic
  | groupNonUniformBallot | fragmentShadingRateKHR | drawParameters | storageBuffer16BitAccess
  | uniformAndStorageBuffer16BitAccess | storagePushConstant16 | storageInputOutput16
  | deviceGroup | multiView | storageBuffer8BitAccess | uniformAndStorageBuffer8BitAccess
  | storagePushConstant8 | rayQueryKHR | rayTracingKHR | stencilExportEXT
  | shaderViewportIndexLayerEXT | meshShadingEXT | shaderNonUniform | runtimeDescriptorArray
  | inputAttachmentArrayDynamicIndexing | uniformTexelBufferArrayDynamicIndexing
  | storageTexelBufferArrayDynamicIndexing | uniformBufferArrayNonUniformIndexing
  | sampledImageArrayNonUniformIndexing | storageBufferArrayNonUniformIndexing
  | storageImageArrayNonUniformIndexing | inputAttachmentArrayNonUniformIndexing
  | uniformTexelBufferArrayNonUniformIndexing | storageTexelBufferArrayNonUniformIndexing
  | vulkanMemoryModel | vulkanMemoryModelDeviceScope | physicalStorageBufferAddresses
  | demoteToHelperInvocation
  deriving DecidableEq, Inhabited, Repr

instance : Named Capability where
  all := (List.range (Capability.demoteToHelperInvocation.ctorIdx + 1)).map Capability.ofNat
  name := constructorName

def Capability.code : Capability → Nat
  | .matrix => 0 | .shader => 1 | .geometry => 2 | .tessellation => 3 | .float16 => 9
  | .float64 => 10 | .int64 => 11 | .int64Atomics => 12 | .int16 => 22
  | .tessellationPointSize => 23 | .geometryPointSize => 24 | .storageImageMultisample => 27
  | .clipDistance => 32 | .cullDistance => 33 | .imageCubeArray => 34 | .sampleRateShading => 35
  | .imageRect => 36 | .sampledRect => 37 | .int8 => 39 | .inputAttachment => 40
  | .sampled1D => 43 | .image1D => 44 | .sampledCubeArray => 45 | .sampledBuffer => 46
  | .imageBuffer => 47 | .imageMSArray => 48 | .storageImageExtendedFormats => 49
  | .imageQuery => 50 | .interpolationFunction => 52 | .transformFeedback => 53
  | .storageImageReadWithoutFormat => 55 | .storageImageWriteWithoutFormat => 56
  | .multiViewport => 57 | .groupNonUniform => 61 | .groupNonUniformVote => 62
  | .groupNonUniformArithmetic => 63 | .groupNonUniformBallot => 64
  | .fragmentShadingRateKHR => 4422 | .drawParameters => 4427 | .storageBuffer16BitAccess => 4433
  | .uniformAndStorageBuffer16BitAccess => 4434 | .storagePushConstant16 => 4435
  | .storageInputOutput16 => 4436 | .deviceGroup => 4437 | .multiView => 4439
  | .storageBuffer8BitAccess => 4448 | .uniformAndStorageBuffer8BitAccess => 4449
  | .storagePushConstant8 => 4450 | .rayQueryKHR => 4472 | .rayTracingKHR => 4479
  | .stencilExportEXT => 5013 | .shaderViewportIndexLayerEXT => 5254 | .meshShadingEXT => 5283
  | .shaderNonUniform => 5301 | .runtimeDescriptorArray => 5302
  | .inputAttachmentArrayDynamicIndexing => 5303 | .uniformTexelBufferArrayDynamicIndexing => 5304
  | .storageTexelBufferArrayDynamicIndexing => 5305
  | .uniformBufferArrayNonUniformIndexing => 5306 | .sampledImageArrayNonUniformIndexing => 5307
  | .storageBufferArrayNonUniformIndexing => 5308 | .storageImageArrayNonUniformIndexing => 5309
  | .inputAttachmentArrayNonUniformIndexing => 5310
  | .uniformTexelBufferArrayNonUniformIndexing => 5311
  | .storageTexelBufferArrayNonUniformIndexing => 5312 | .vulkanMemoryModel => 5345
  | .vulkanMemoryModelDeviceScope => 5346 | .physicalStorageBufferAddresses => 5347
  | .demoteToHelperInvocation => 5379

end ShaderGen
