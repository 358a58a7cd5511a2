import ShaderGen.Named

/-!
# Intrinsic functions

The functions a shading language provides without a definition, from trigonometry to ray queries.
-/

namespace ShaderGen

inductive Intrinsic
  | radians | degrees | sin | cos | tan | asin | acos | atan | atan2 | sinh | cosh | tanh | pow
  | exp | log | exp2 | log2 | sqrt | inverseSqrt | abs | sign | floor | trunc | round | roundEven
  | ceil | fract | mod | modf | min | max | clamp | mix | step | smoothStep | fma | frexp | ldexp
  | isNan | isInf | floatBitsToInt | floatBitsToUint | intBitsToFloat | uintBitsToFloat
  | packHalf2x16 | unpackHalf2x16 | packUnorm4x8 | unpackUnorm4x8 | length | distance | dot
  | cross | normalize | faceForward | reflect | refract | outerProduct | transpose | determinant
  | inverse | lessThan | lessThanEqual | greaterThan | greaterThanEqual | vectorEqual
  | vectorNotEqual | any | all | not | uaddCarry | usubBorrow | umulExtended | imulExtended
  | bitfieldExtract | bitfieldInsert | bitfieldReverse | bitCount | findLsb | findMsb | dPdx
  | dPdy | fwidth | interpolateAtCentroid | interpolateAtSample | interpolateAtOffset | texture
  | textureLod | textureGrad | textureGather | texelFetch | textureSize | textureQueryLevels
  | imageLoad | imageStore | imageSize | imageAtomicAdd | imageAtomicExchange | subpassLoad
  | atomicAdd | atomicMin | atomicMax | atomicAnd | atomicOr | atomicXor | atomicExchange
  | atomicCompSwap | atomicLoad | atomicStore | barrier | memoryBarrier | memoryBarrierBuffer
  | memoryBarrierShared | memoryBarrierImage | groupMemoryBarrier | emitVertex | endPrimitive
  | subgroupBarrier | subgroupElect | subgroupAll | subgroupAny | subgroupBroadcastFirst
  | subgroupAdd | subgroupMin | subgroupMax | rayQueryInitialize | rayQueryProceed
  | rayQueryTerminate | rayQueryGetIntersectionType | rayQueryGetIntersectionT | traceRay
  | executeCallable | reportIntersection | setMeshOutputs | emitMeshTasks
  deriving DecidableEq, Inhabited, Repr

instance : Named Intrinsic where
  all := (List.range (Intrinsic.emitMeshTasks.ctorIdx + 1)).map Intrinsic.ofNat
  name := constructorName

end ShaderGen
