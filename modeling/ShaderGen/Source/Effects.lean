import ShaderGen.Intrinsic.Strategy
import ShaderGen.Source.Node

/-!
# Effects and cost of evaluation

`Node.hasSideEffects` says whether evaluating a node can be observed by more than its value.
`Node.isSimple` says whether a node is cheap enough to be evaluated even where its value may not
be needed: constants, variables, constant selections out of those, and one level of simple
arithmetic or comparison on top.
-/

namespace ShaderGen

mutual

/-- Whether evaluation can be observed by more than the value: it stores, calls, jumps, declares or
uses an intrinsic with an effect of its own. -/
def Node.hasSideEffects : Node → Bool
  | .symbol .. | .constant .. => false
  | .binary _ op left right => op.isAssignment || left.hasSideEffects || right.hasSideEffects
  | .unary _ op operand => op.isUpdate || operand.hasSideEffects
  | .swizzle _ base _ => base.hasSideEffects
  | .sequence _ nodes | .construct _ nodes => anySideEffects nodes
  | .intrinsic _ op arguments => op.hasSideEffects || anySideEffects arguments
  | .select _ condition thenBranch elseBranch _ _ =>
    condition.hasSideEffects || optionalSideEffects thenBranch || optionalSideEffects elseBranch
  | .switch _ selector body _ => selector.hasSideEffects || anySideEffects body
  | .loop _ test body terminal _ _ =>
    optionalSideEffects test || optionalSideEffects body || optionalSideEffects terminal
  | .call .. | .jump .. | .declare .. => true
termination_by structural n => n

def anySideEffects : List Node → Bool
  | [] => false
  | n :: rest => n.hasSideEffects || anySideEffects rest
termination_by structural ns => ns

def optionalSideEffects : Option Node → Bool
  | none => false
  | some n => n.hasSideEffects
termination_by structural n => n

end

namespace Node

/-- Constants, variables that are not resource handles, and constant selections out of those. -/
def isSimpleLeaf : Node → Bool
  | .constant .. => true
  | .symbol info _ => !info.type.isOpaque
  | .swizzle _ base _ => base.isSimpleLeaf
  | .binary _ .indexConstant left _ | .binary _ .member left _ => left.isSimpleLeaf
  | _ => false
termination_by structural n => n

def isSimple (n : Node) : Bool :=
  n.isSimpleLeaf ||
    (!n.type.isArray && !n.type.isStruct &&
      match n with
      | .unary _ .negate operand | .unary _ .logicalNot operand | .unary _ .bitwiseNot operand =>
        operand.isSimpleLeaf
      | .binary _ op left right =>
        (op.isComparison ||
          [.add, .sub, .mul, .bitAnd, .bitOr, .bitXor, .logicalXor].contains op) &&
          left.isSimpleLeaf && right.isSimpleLeaf
      | _ => false)

end Node

end ShaderGen
