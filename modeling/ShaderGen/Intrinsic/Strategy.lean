import ShaderGen.Requirement
import ShaderGen.Intrinsic.Basic
import ShaderGen.Source.Operator
import ShaderGen.Spirv.Opcode

/-!
# How intrinsic functions are carried out

Each intrinsic has a strategy, the positions of the arguments it takes by address, and the
requirements its use puts on the module. Numbers of library instructions are those of the extended
instruction set `GLSL.std.450`.
-/

namespace ShaderGen

inductive Strategy
  /-- An instruction of the extended set. -/
  | library (number : Nat)
  /-- An instruction of the extended set, chosen by the scalar kind of the first argument. -/
  | libraryByKind (float signed unsigned : Nat)
  /-- A core instruction that takes the arguments as operands. -/
  | core (op : Opcode)
  /-- A core instruction, chosen by the scalar kind of the first argument. -/
  | coreByKind (float signed unsigned : Opcode)
  /-- A comparison by components. -/
  | compare (op : BinaryOp)
  /-- Integer arithmetic with two results. -/
  | twoResult (op : Opcode)
  /-- Sampling, fetches, queries and storage image access. -/
  | image
  /-- An atomic operation on a texel. -/
  | imageAtomic (op : Opcode)
  /-- An atomic operation on memory. -/
  | atomic (op : Opcode)
  | barrier
  /-- Output of a geometry stage. -/
  | primitive (op : Opcode)
  | subgroup
  | rayQuery (op : Opcode)
  | rayTracing (op : Opcode)
  | mesh (op : Opcode)
  deriving DecidableEq

namespace Intrinsic

def strategy : Intrinsic → Strategy
  | .radians => .library 11
  | .degrees => .library 12
  | .sin => .library 13
  | .cos => .library 14
  | .tan => .library 15
  | .asin => .library 16
  | .acos => .library 17
  | .atan => .library 18
  | .atan2 => .library 25
  | .sinh => .library 19
  | .cosh => .library 20
  | .tanh => .library 21
  | .pow => .library 26
  | .exp => .library 27
  | .log => .library 28
  | .exp2 => .library 29
  | .log2 => .library 30
  | .sqrt => .library 31
  | .inverseSqrt => .library 32
  | .abs => .libraryByKind 4 5 5
  | .sign => .libraryByKind 6 7 7
  | .floor => .library 8
  | .trunc => .library 3
  | .round => .library 1
  | .roundEven => .library 2
  | .ceil => .library 9
  | .fract => .library 10
  | .mod => .coreByKind .fMod .sMod .uMod
  | .modf => .library 35
  | .min => .libraryByKind 37 39 38
  | .max => .libraryByKind 40 42 41
  | .clamp => .libraryByKind 43 45 44
  | .mix => .library 46
  | .step => .library 48
  | .smoothStep => .library 49
  | .fma => .library 50
  | .frexp => .library 51
  | .ldexp => .library 53
  | .isNan => .core .isNan
  | .isInf => .core .isInf
  | .floatBitsToInt | .floatBitsToUint | .intBitsToFloat | .uintBitsToFloat => .core .bitcast
  | .packHalf2x16 => .library 58
  | .unpackHalf2x16 => .library 62
  | .packUnorm4x8 => .library 55
  | .unpackUnorm4x8 => .library 64
  | .length => .library 66
  | .distance => .library 67
  | .dot => .core .dot
  | .cross => .library 68
  | .normalize => .library 69
  | .faceForward => .library 70
  | .reflect => .library 71
  | .refract => .library 72
  | .outerProduct => .core .outerProduct
  | .transpose => .core .transpose
  | .determinant => .library 33
  | .inverse => .library 34
  | .lessThan => .compare .less
  | .lessThanEqual => .compare .lessEqual
  | .greaterThan => .compare .greater
  | .greaterThanEqual => .compare .greaterEqual
  | .vectorEqual => .compare .equal
  | .vectorNotEqual => .compare .notEqual
  | .any => .core .any
  | .all => .core .all
  | .not => .core .logicalNot
  | .uaddCarry => .twoResult .iAddCarry
  | .usubBorrow => .twoResult .iSubBorrow
  | .umulExtended => .twoResult .uMulExtended
  | .imulExtended => .twoResult .sMulExtended
  | .bitfieldExtract => .coreByKind .nop .bitFieldSExtract .bitFieldUExtract
  | .bitfieldInsert => .core .bitFieldInsert
  | .bitfieldReverse => .core .bitReverse
  | .bitCount => .core .bitCount
  | .findLsb => .library 73
  | .findMsb => .libraryByKind 74 74 75
  | .dPdx => .core .dPdx
  | .dPdy => .core .dPdy
  | .fwidth => .core .fwidth
  | .interpolateAtCentroid => .library 76
  | .interpolateAtSample => .library 77
  | .interpolateAtOffset => .library 78
  | .texture | .textureLod | .textureGrad | .textureGather | .texelFetch | .textureSize
  | .textureQueryLevels | .imageLoad | .imageStore | .imageSize | .subpassLoad => .image
  | .imageAtomicAdd => .imageAtomic .atomicIAdd
  | .imageAtomicExchange => .imageAtomic .atomicExchange
  | .atomicAdd => .atomic .atomicIAdd
  | .atomicMin => .atomic .atomicSMin
  | .atomicMax => .atomic .atomicSMax
  | .atomicAnd => .atomic .atomicAnd
  | .atomicOr => .atomic .atomicOr
  | .atomicXor => .atomic .atomicXor
  | .atomicExchange => .atomic .atomicExchange
  | .atomicCompSwap => .atomic .atomicCompareExchange
  | .atomicLoad => .atomic .atomicLoad
  | .atomicStore => .atomic .atomicStore
  | .barrier | .memoryBarrier | .memoryBarrierBuffer | .memoryBarrierShared | .memoryBarrierImage
  | .groupMemoryBarrier => .barrier
  | .emitVertex => .primitive .emitVertex
  | .endPrimitive => .primitive .endPrimitive
  | .subgroupBarrier | .subgroupElect | .subgroupAll | .subgroupAny | .subgroupBroadcastFirst
  | .subgroupAdd | .subgroupMin | .subgroupMax => .subgroup
  | .rayQueryInitialize => .rayQuery .rayQueryInitializeKHR
  | .rayQueryProceed => .rayQuery .rayQueryProceedKHR
  | .rayQueryTerminate => .rayQuery .rayQueryTerminateKHR
  | .rayQueryGetIntersectionType => .rayQuery .rayQueryGetIntersectionTypeKHR
  | .rayQueryGetIntersectionT => .rayQuery .rayQueryGetIntersectionTKHR
  | .traceRay => .rayTracing .traceRayKHR
  | .executeCallable => .rayTracing .executeCallableKHR
  | .reportIntersection => .rayTracing .reportIntersectionKHR
  | .setMeshOutputs => .mesh .setMeshOutputsEXT
  | .emitMeshTasks => .mesh .emitMeshTasksEXT

def addressArguments : Intrinsic → List Nat
  | .modf | .frexp | .executeCallable => [1]
  | .uaddCarry | .usubBorrow => [2]
  | .umulExtended | .imulExtended => [2, 3]
  | .interpolateAtCentroid | .interpolateAtSample | .interpolateAtOffset | .atomicAdd | .atomicMin
  | .atomicMax | .atomicAnd | .atomicOr | .atomicXor | .atomicExchange | .atomicCompSwap
  | .atomicLoad | .atomicStore | .imageAtomicAdd | .imageAtomicExchange | .rayQueryInitialize
  | .rayQueryProceed | .rayQueryTerminate | .rayQueryGetIntersectionType
  | .rayQueryGetIntersectionT => [0]
  | .traceRay => [10]
  | _ => []

def requirements : Intrinsic → Requirements
  | .interpolateAtCentroid | .interpolateAtSample | .interpolateAtOffset =>
    .capability .interpolationFunction
  | .textureSize | .textureQueryLevels | .imageSize => .capability .imageQuery
  | .subgroupElect => .capability .groupNonUniform
  | .subgroupAll | .subgroupAny =>
    .capability .groupNonUniform ++ .capability .groupNonUniformVote
  | .subgroupBroadcastFirst => .capability .groupNonUniform ++ .capability .groupNonUniformBallot
  | .subgroupAdd | .subgroupMin | .subgroupMax =>
    .capability .groupNonUniform ++ .capability .groupNonUniformArithmetic
  | .rayQueryInitialize | .rayQueryProceed | .rayQueryTerminate | .rayQueryGetIntersectionType
  | .rayQueryGetIntersectionT => .provided .rayQueryKHR .rayQuery
  | .traceRay | .executeCallable | .reportIntersection => .provided .rayTracingKHR .rayTracing
  | .setMeshOutputs | .emitMeshTasks => .provided .meshShadingEXT .meshShader
  | .emitVertex | .endPrimitive => .capability .geometry
  | _ => .none

def hasSideEffects : Intrinsic → Bool
  | .modf | .frexp | .uaddCarry | .usubBorrow | .umulExtended | .imulExtended | .imageStore
  | .imageAtomicAdd | .imageAtomicExchange | .atomicAdd | .atomicMin | .atomicMax | .atomicAnd
  | .atomicOr | .atomicXor | .atomicExchange | .atomicCompSwap | .atomicStore | .barrier
  | .memoryBarrier | .memoryBarrierBuffer | .memoryBarrierShared | .memoryBarrierImage
  | .groupMemoryBarrier | .emitVertex | .endPrimitive | .subgroupBarrier | .rayQueryInitialize
  | .rayQueryProceed | .rayQueryTerminate | .traceRay | .executeCallable | .reportIntersection
  | .setMeshOutputs | .emitMeshTasks => true
  | _ => false

end Intrinsic

end ShaderGen
