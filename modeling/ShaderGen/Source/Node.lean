import ShaderGen.Intrinsic.Basic
import ShaderGen.Source.Constant
import ShaderGen.Source.Operator

/-!
# Typed trees

Expressions and statements are one kind of tree. Every node carries its type and its position in
the text; a statement has type void.
-/

namespace ShaderGen

structure Span where
  line : Nat := 0
  column : Nat := 0
  deriving DecidableEq, Inhabited

abbrev FunctionId := Nat

/-- What every node carries. -/
structure Info where
  type : ShaderType
  span : Span := {}
  deriving DecidableEq, Inhabited

structure SelectionAdvice where
  flatten : Bool := false
  dontFlatten : Bool := false
  deriving DecidableEq, Inhabited

structure LoopAdvice where
  unroll : Bool := false
  dontUnroll : Bool := false
  dependencyInfinite : Bool := false
  dependencyLength : Option Nat := none
  deriving DecidableEq, Inhabited

inductive Node
  | symbol (info : Info) (id : SymbolId)
  | constant (info : Info) (value : ConstantValue)
  | binary (info : Info) (op : BinaryOp) (left right : Node)
  | unary (info : Info) (op : UnaryOp) (operand : Node)
  /-- Components of a vector, by constant selectors. -/
  | swizzle (info : Info) (base : Node) (components : List Nat)
  | sequence (info : Info) (nodes : List Node)
  | call (info : Info) (function : FunctionId) (arguments : List Node)
  /-- A value of the node's type, made of the arguments. -/
  | construct (info : Info) (arguments : List Node)
  | intrinsic (info : Info) (op : Intrinsic) (arguments : List Node)
  /-- An `if` statement when the type is void, and otherwise a conditional expression. When
  `evaluateBoth` holds, both sides are evaluated whatever the condition is. -/
  | select (info : Info) (condition : Node) (thenBranch elseBranch : Option Node)
      (evaluateBoth : Bool) (advice : SelectionAdvice)
  /-- The body is a flat list of statements, with case and default labels among them. -/
  | switch (info : Info) (selector : Node) (body : List Node) (advice : SelectionAdvice)
  /-- `terminal` runs after the body and after `continue`. -/
  | loop (info : Info) (test body terminal : Option Node) (testFirst : Bool) (advice : LoopAdvice)
  | jump (info : Info) (kind : Jump) (value : Option Node)
  | declare (info : Info) (symbol : SymbolId) (init : Option Node)
  deriving Inhabited

namespace Node

def info : Node → Info
  | .symbol info .. | .constant info .. | .binary info .. | .unary info .. | .swizzle info ..
  | .sequence info .. | .call info .. | .construct info .. | .intrinsic info .. | .select info ..
  | .switch info .. | .loop info .. | .jump info .. | .declare info .. => info

def withInfo (info : Info) : Node → Node
  | .symbol _ id => .symbol info id
  | .constant _ value => .constant info value
  | .binary _ op left right => .binary info op left right
  | .unary _ op operand => .unary info op operand
  | .swizzle _ base components => .swizzle info base components
  | .sequence _ nodes => .sequence info nodes
  | .call _ function arguments => .call info function arguments
  | .construct _ arguments => .construct info arguments
  | .intrinsic _ op arguments => .intrinsic info op arguments
  | .select _ condition thenBranch elseBranch both advice =>
    .select info condition thenBranch elseBranch both advice
  | .switch _ selector body advice => .switch info selector body advice
  | .loop _ test body terminal testFirst advice => .loop info test body terminal testFirst advice
  | .jump _ kind value => .jump info kind value
  | .declare _ id init => .declare info id init

def type (n : Node) : ShaderType := n.info.type

def span (n : Node) : Span := n.info.span

def withType (n : Node) (type : ShaderType) : Node :=
  n.withInfo { n.info with type }

def withSpan (n : Node) (span : Span) : Node :=
  n.withInfo { n.info with span }

def constant? : Node → Option ConstantValue
  | .constant _ value => some value
  | _ => none

def symbol? : Node → Option SymbolId
  | .symbol _ id => some id
  | _ => none

end Node

end ShaderGen
