import ShaderGen.Source.Node
import ShaderGen.Spirv.Instruction

/-!
# Failures

The reasons for which no module comes out: a program that does not hold together, or instructions
given to the module builder out of place. Each reason is a value; `Cause.message` and
`Misuse.message` have the wording.
-/

namespace ShaderGen

inductive Misuse
  | nestedFunction
  | mismatchedFunctionEnd
  | detachedParameter
  | detachedBlock
  | nestedBlock
  | mismatchedTerminator
  | detachedInstruction (op : Opcode)
  | blockNotFound
  deriving DecidableEq, Inhabited

def Misuse.message : Misuse → String
  | .nestedFunction => "found nested function"
  | .mismatchedFunctionEnd => "found mismatched OpFunctionEnd"
  | .detachedParameter => "found function OpFunctionParameter not inside function"
  | .detachedBlock => "found block not inside function"
  | .nestedBlock => "found nested block"
  | .mismatchedTerminator => "found mismatched terminator"
  | .detachedInstruction op =>
    "found instruction `\"" ++ Named.name op ++ "\"` not inside block"
  | .blockNotFound => "can't find the block"

inductive Cause
  /-- An index selects a component of a component. -/
  | secondDynamicComponent
  | notIndexable (type : Ident)
  | swizzleAfterDynamicComponent
  | componentOutOfRange (component : Nat)
  | addressOfValue
  | notAddressable
  | noLiteralLength (type : Ident)
  | notDecomposable (type : Ident)
  | noRepresentationChange (source target : Ident)
  | differentShapes (source target : Ident)
  | notForwardPointer (id : Ident)
  | variableOutsideFunction
  | noFunction
  | unknownBlock (label : Ident)
  | noOpenBlock
  | unknownSymbol (id : SymbolId)
  | unknownStruct (id : StructId)
  | unknownFunction (id : FunctionId)
  | undeclaredFunction (id : FunctionId)
  | lengthNotConstant (symbol : SymbolId)
  | absentMember (member : Nat) (struct : StructId)
  | noMember (struct : StructId) (member : Nat)
  | noPointee (struct : StructId)
  | memberNotConstant
  | memberOfNonStruct
  | voidValue
  | voidOperand
  | assignmentWithoutStorage
  | initializerWithoutStorage (name : String)
  | scalarWithoutArguments
  | argumentWithoutComponents
  | argumentNotNumeric
  | componentsMissing (given needed : Nat)
  | valuesMissing
  | breakOutside
  | continueOutside
  | labelOutside
  | returnOutside
  | argumentCount (function : String) (given expected : Nat)
  | takesTwoArguments (op : Intrinsic)
  | takesThreeArguments
  | needsTwoOperands (op : Opcode)
  | outputCount (op : Opcode) (count : Nat)
  | noImageType (type : Ident)
  | withoutImage (op : Intrinsic)
  | onNonImage (op : Intrinsic)
  | withoutCoordinates (op : Intrinsic)
  | withoutLevel
  | withoutDerivatives
  | gatherWithoutCoordinates
  | gatherWithoutReference
  | fetchWithoutCoordinates
  | loadWithoutCoordinates
  | storeWithoutTexel
  | imageAtomicArguments
  | imageAtomicWithoutStorage
  | withoutTarget (op : Intrinsic)
  | atomicWithoutStorage
  | compareSwapArguments
  | selectorNotConstant (op : Intrinsic)
  /-- The types of the program contain themselves, so that there is no finite module for it. -/
  | endless
  | layoutOverflow
  deriving DecidableEq, Inhabited

def Cause.message : Cause → String
  | .secondDynamicComponent => "second dynamic component on an access chain"
  | .notIndexable type => s!"cannot index into type %{type}"
  | .swizzleAfterDynamicComponent => "swizzle after a dynamic component select"
  | .componentOutOfRange component => s!"swizzle component {component} out of range"
  | .addressOfValue => "address of an rvalue requested"
  | .notAddressable => "access chain is not addressable"
  | .noLiteralLength type => s!"array %{type} has no literal length"
  | .notDecomposable type => s!"%{type} is not a decomposable aggregate"
  | .noRepresentationChange source target =>
    s!"no representation change from %{source} to %{target}"
  | .differentShapes source target => s!"aggregates %{source} and %{target} differ in shape"
  | .notForwardPointer id => s!"%{id} is not an open forward pointer"
  | .variableOutsideFunction => "declare_variable called outside function"
  | .noFunction => "no function under construction"
  | .unknownBlock label => s!"block %{label} not found"
  | .noOpenBlock => "no block is open"
  | .unknownSymbol id => s!"unknown symbol {id}"
  | .unknownStruct id => s!"unknown struct {id}"
  | .unknownFunction id => s!"unknown function {id}"
  | .undeclaredFunction id => s!"function {id} was never declared"
  | .lengthNotConstant symbol => s!"array size symbol {symbol} is not a constant"
  | .absentMember member struct =>
    s!"member {member} of struct {struct} is not part of the IR aggregate"
  | .noMember struct member => s!"struct {struct} has no member {member}"
  | .noPointee struct => s!"reference to struct {struct} has no pointee"
  | .memberNotConstant => "member selector is not a constant"
  | .memberOfNonStruct => "member access on a non-struct value"
  | .voidValue => "void expression used as a value"
  | .voidOperand => "void expression used as an operand"
  | .assignmentWithoutStorage => "assignment to a value that has no storage"
  | .initializerWithoutStorage name => s!"initializer for '{name}' which has no storage"
  | .scalarWithoutArguments => "scalar constructor without arguments"
  | .argumentWithoutComponents => "constructor argument has no components"
  | .argumentNotNumeric => "constructor argument is not numeric"
  | .componentsMissing given needed => s!"constructor has {given} of {needed} components"
  | .valuesMissing => "conditional expression without both values"
  | .breakOutside => "break outside of a loop or switch"
  | .continueOutside => "continue outside of a loop"
  | .labelOutside => "case label outside of a switch body"
  | .returnOutside => "return outside of a function body"
  | .argumentCount function given expected =>
    s!"call to {function} passes {given} argument(s) for {expected} parameter(s)"
  | .takesTwoArguments op => s!"{Named.name op} takes two arguments"
  | .takesThreeArguments => "mix takes three arguments"
  | .needsTwoOperands op => s!"{Named.name op} needs two operands"
  | .outputCount op count => s!"{Named.name op} with {count} output(s)"
  | .noImageType type => s!"combined sampler %{type} has no image type"
  | .withoutImage op => s!"{Named.name op} without an image"
  | .onNonImage op => s!"{Named.name op} on a non-image operand"
  | .withoutCoordinates op => s!"{Named.name op} without coordinates"
  | .withoutLevel => "textureLod without a level"
  | .withoutDerivatives => "textureGrad without derivatives"
  | .gatherWithoutCoordinates => "textureGather without coordinates"
  | .gatherWithoutReference => "shadow gather without a reference"
  | .fetchWithoutCoordinates => "texelFetch without coordinates"
  | .loadWithoutCoordinates => "imageLoad without coordinates"
  | .storeWithoutTexel => "imageStore without coordinates and texel"
  | .imageAtomicArguments => "image atomic takes image, coordinate and value"
  | .imageAtomicWithoutStorage => "image atomic on an image without storage"
  | .withoutTarget op => s!"{Named.name op} without a target"
  | .atomicWithoutStorage => "atomic on a value without storage"
  | .compareSwapArguments => "atomicCompSwap takes comparator and value"
  | .selectorNotConstant op => s!"{Named.name op} needs a constant intersection selector"
  | .endless => "a type contains itself"
  | .layoutOverflow => "a layout does not fit into 32 bits"

/-- Why no module comes out, and where in the source if that is known. -/
inductive Failure
  | generating (cause : Cause) (span : Option Span)
  | building (misuse : Misuse)
  deriving DecidableEq, Inhabited

namespace Failure

def message : Failure → String
  | .generating cause _ => "Internal lowering error: " ++ cause.message
  | .building misuse => "SPIR-V builder error: " ++ misuse.message

def span? : Failure → Option Span
  | .generating _ span => span
  | .building _ => none

end Failure

end ShaderGen
