import ShaderGen.Named

/-!
# Operation codes

The instructions that modules are made of, with the name each one is listed under and its number
in the binary form.
-/

namespace ShaderGen

inductive Opcode
  | nop | undef | source | sourceExtension | name | memberName | extension | extInstImport
  | extInst | memoryModel | entryPoint | executionMode | capability | typeVoid | typeBool
  | typeInt | typeFloat | typeVector | typeMatrix | typeImage | typeSampler | typeSampledImage
  | typeArray | typeRuntimeArray | typeStruct | typePointer | typeFunction | typeForwardPointer
  | constantTrue | constantFalse | constant | constantComposite | constantNull | specConstantTrue
  | specConstantFalse | specConstant | specConstantComposite | specConstantOp | function
  | functionParameter | functionEnd | functionCall | var | imageTexelPointer | load | store
  | copyMemory | accessChain | inBoundsAccessChain | ptrAccessChain | arrayLength | decorate
  | memberDecorate | vectorExtractDynamic | vectorShuffle | compositeConstruct | compositeExtract
  | compositeInsert | copyObject | transpose | sampledImage | imageSampleImplicitLod
  | imageSampleExplicitLod | imageSampleDrefImplicitLod | imageSampleDrefExplicitLod | imageFetch
  | imageGather | imageDrefGather | imageRead | imageWrite | image | imageQuerySizeLod
  | imageQuerySize | imageQueryLevels | convertFToU | convertFToS | convertSToF | convertUToF
  | uConvert | sConvert | fConvert | bitcast | sNegate | fNegate | iAdd | fAdd | iSub | fSub
  | iMul | fMul | uDiv | sDiv | fDiv | uMod | sMod | fMod | vectorTimesScalar | matrixTimesScalar
  | vectorTimesMatrix | matrixTimesVector | matrixTimesMatrix | outerProduct | dot | iAddCarry
  | iSubBorrow | uMulExtended | sMulExtended | any | all | isNan | isInf | logicalEqual
  | logicalNotEqual | logicalOr | logicalAnd | logicalNot | select | iEqual | iNotEqual
  | uGreaterThan | sGreaterThan | uGreaterThanEqual | sGreaterThanEqual | uLessThan | sLessThan
  | uLessThanEqual | sLessThanEqual | fOrdEqual | fUnordNotEqual | fOrdLessThan | fOrdGreaterThan
  | fOrdLessThanEqual | fOrdGreaterThanEqual | shiftRightLogical | shiftRightArithmetic
  | shiftLeftLogical | bitwiseOr | bitwiseXor | bitwiseAnd | not | bitFieldInsert
  | bitFieldSExtract | bitFieldUExtract | bitReverse | bitCount | dPdx | dPdy | fwidth
  | emitVertex | endPrimitive | controlBarrier | memoryBarrier | atomicLoad | atomicStore
  | atomicExchange | atomicCompareExchange | atomicIAdd | atomicSMin | atomicUMin | atomicSMax
  | atomicUMax | atomicAnd | atomicOr | atomicXor | phi | loopMerge | selectionMerge | label
  | branch | branchConditional | switch | kill | ret | returnValue | unreachable
  | groupNonUniformElect | groupNonUniformAll | groupNonUniformAny
  | groupNonUniformBroadcastFirst | groupNonUniformIAdd | groupNonUniformFAdd
  | groupNonUniformSMin | groupNonUniformUMin | groupNonUniformFMin | groupNonUniformSMax
  | groupNonUniformUMax | groupNonUniformFMax | copyLogical | terminateInvocation | traceRayKHR
  | executeCallableKHR | ignoreIntersectionKHR | terminateRayKHR | typeRayQueryKHR
  | rayQueryInitializeKHR | rayQueryTerminateKHR | rayQueryProceedKHR
  | rayQueryGetIntersectionTypeKHR | emitMeshTasksEXT | setMeshOutputsEXT | reportIntersectionKHR
  | typeAccelerationStructureKHR | demoteToHelperInvocation | rayQueryGetIntersectionTKHR
  deriving DecidableEq, Inhabited, Repr

instance : Named Opcode where
  all := (List.range (Opcode.rayQueryGetIntersectionTKHR.ctorIdx + 1)).map Opcode.ofNat
  name
    | .var => "Variable" | .ret => "Return"
    | other => constructorName other

def Opcode.code : Opcode → Nat
  | .nop => 0 | .undef => 1 | .source => 3 | .sourceExtension => 4 | .name => 5 | .memberName => 6
  | .extension => 10 | .extInstImport => 11 | .extInst => 12 | .memoryModel => 14
  | .entryPoint => 15 | .executionMode => 16 | .capability => 17 | .typeVoid => 19
  | .typeBool => 20 | .typeInt => 21 | .typeFloat => 22 | .typeVector => 23 | .typeMatrix => 24
  | .typeImage => 25 | .typeSampler => 26 | .typeSampledImage => 27 | .typeArray => 28
  | .typeRuntimeArray => 29 | .typeStruct => 30 | .typePointer => 32 | .typeFunction => 33
  | .typeForwardPointer => 39 | .constantTrue => 41 | .constantFalse => 42 | .constant => 43
  | .constantComposite => 44 | .constantNull => 46 | .specConstantTrue => 48
  | .specConstantFalse => 49 | .specConstant => 50 | .specConstantComposite => 51
  | .specConstantOp => 52 | .function => 54 | .functionParameter => 55 | .functionEnd => 56
  | .functionCall => 57 | .var => 59 | .imageTexelPointer => 60 | .load => 61 | .store => 62
  | .copyMemory => 63 | .accessChain => 65 | .inBoundsAccessChain => 66 | .ptrAccessChain => 67
  | .arrayLength => 68 | .decorate => 71 | .memberDecorate => 72 | .vectorExtractDynamic => 77
  | .vectorShuffle => 79 | .compositeConstruct => 80 | .compositeExtract => 81
  | .compositeInsert => 82 | .copyObject => 83 | .transpose => 84 | .sampledImage => 86
  | .imageSampleImplicitLod => 87 | .imageSampleExplicitLod => 88
  | .imageSampleDrefImplicitLod => 89 | .imageSampleDrefExplicitLod => 90 | .imageFetch => 95
  | .imageGather => 96 | .imageDrefGather => 97 | .imageRead => 98 | .imageWrite => 99
  | .image => 100 | .imageQuerySizeLod => 103 | .imageQuerySize => 104 | .imageQueryLevels => 106
  | .convertFToU => 109 | .convertFToS => 110 | .convertSToF => 111 | .convertUToF => 112
  | .uConvert => 113 | .sConvert => 114 | .fConvert => 115 | .bitcast => 124 | .sNegate => 126
  | .fNegate => 127 | .iAdd => 128 | .fAdd => 129 | .iSub => 130 | .fSub => 131 | .iMul => 132
  | .fMul => 133 | .uDiv => 134 | .sDiv => 135 | .fDiv => 136 | .uMod => 137 | .sMod => 139
  | .fMod => 141 | .vectorTimesScalar => 142 | .matrixTimesScalar => 143
  | .vectorTimesMatrix => 144 | .matrixTimesVector => 145 | .matrixTimesMatrix => 146
  | .outerProduct => 147 | .dot => 148 | .iAddCarry => 149 | .iSubBorrow => 150
  | .uMulExtended => 151 | .sMulExtended => 152 | .any => 154 | .all => 155 | .isNan => 156
  | .isInf => 157 | .logicalEqual => 164 | .logicalNotEqual => 165 | .logicalOr => 166
  | .logicalAnd => 167 | .logicalNot => 168 | .select => 169 | .iEqual => 170 | .iNotEqual => 171
  | .uGreaterThan => 172 | .sGreaterThan => 173 | .uGreaterThanEqual => 174
  | .sGreaterThanEqual => 175 | .uLessThan => 176 | .sLessThan => 177 | .uLessThanEqual => 178
  | .sLessThanEqual => 179 | .fOrdEqual => 180 | .fUnordNotEqual => 183 | .fOrdLessThan => 184
  | .fOrdGreaterThan => 186 | .fOrdLessThanEqual => 188 | .fOrdGreaterThanEqual => 190
  | .shiftRightLogical => 194 | .shiftRightArithmetic => 195 | .shiftLeftLogical => 196
  | .bitwiseOr => 197 | .bitwiseXor => 198 | .bitwiseAnd => 199 | .not => 200
  | .bitFieldInsert => 201 | .bitFieldSExtract => 202 | .bitFieldUExtract => 203
  | .bitReverse => 204 | .bitCount => 205 | .dPdx => 207 | .dPdy => 208 | .fwidth => 209
  | .emitVertex => 218 | .endPrimitive => 219 | .controlBarrier => 224 | .memoryBarrier => 225
  | .atomicLoad => 227 | .atomicStore => 228 | .atomicExchange => 229
  | .atomicCompareExchange => 230 | .atomicIAdd => 234 | .atomicSMin => 236 | .atomicUMin => 237
  | .atomicSMax => 238 | .atomicUMax => 239 | .atomicAnd => 240 | .atomicOr => 241
  | .atomicXor => 242 | .phi => 245 | .loopMerge => 246 | .selectionMerge => 247 | .label => 248
  | .branch => 249 | .branchConditional => 250 | .switch => 251 | .kill => 252 | .ret => 253
  | .returnValue => 254 | .unreachable => 255 | .groupNonUniformElect => 333
  | .groupNonUniformAll => 334 | .groupNonUniformAny => 335
  | .groupNonUniformBroadcastFirst => 338 | .groupNonUniformIAdd => 349
  | .groupNonUniformFAdd => 350 | .groupNonUniformSMin => 353 | .groupNonUniformUMin => 354
  | .groupNonUniformFMin => 355 | .groupNonUniformSMax => 356 | .groupNonUniformUMax => 357
  | .groupNonUniformFMax => 358 | .copyLogical => 400 | .terminateInvocation => 4416
  | .traceRayKHR => 4445 | .executeCallableKHR => 4446 | .ignoreIntersectionKHR => 4448
  | .terminateRayKHR => 4449 | .typeRayQueryKHR => 4472 | .rayQueryInitializeKHR => 4473
  | .rayQueryTerminateKHR => 4474 | .rayQueryProceedKHR => 4477
  | .rayQueryGetIntersectionTypeKHR => 4479 | .emitMeshTasksEXT => 5294
  | .setMeshOutputsEXT => 5295 | .reportIntersectionKHR => 5334
  | .typeAccelerationStructureKHR => 5341 | .demoteToHelperInvocation => 5380
  | .rayQueryGetIntersectionTKHR => 6018

end ShaderGen
