import ShaderGen.Codegen.Assignment
import ShaderGen.Codegen.Construction
import ShaderGen.Codegen.Intrinsic
import ShaderGen.Codegen.Jump
import ShaderGen.Codegen.Loop
import ShaderGen.Codegen.Selection

/-!
# Code for nodes

`Codegen.code` gives the code for a node. It hands the code for the parts of the node to the
operation, which decides when that code is generated.
-/

namespace ShaderGen.Codegen

def literal (p : Program) (value : ConstantValue) (t : ShaderType) : Codegen Outcome := do
  let type ← valueType p t
  let id ← constant p (typer p) value t
  return .value { id, type }

def binary (p : Program) (op : BinaryOp) (left right : Deferred) (info : Info) :
    Codegen Outcome := do
  match op with
  | .index | .indexConstant => return .path (← elementPath p left right info)
  | .member => return .path (← memberPath p left right.node)
  | .logicalAnd => logical p true left right
  | .logicalOr => logical p false left right
  | op =>
    if op.isAssignment then assignment p op left right info
    else binaryOperation p op left right info

/-- A unary operator. `member` is the member selection that the operand is, if it is one. -/
def unary (p : Program) (op : UnaryOp) (operand : Deferred) (member : Option (Deferred × Node))
    (info : Info) : Codegen Outcome :=
  match op with
  | .preIncrement | .preDecrement | .postIncrement | .postDecrement => increment p op operand info
  | .arrayLength => arrayLength p operand.type member info
  | .convert => conversion p operand info
  | .negate | .logicalNot | .bitwiseNot => unaryOperation p op operand info

def sequence (nodes : List Deferred) : Codegen Outcome :=
  nodes.foldlM (fun _ d => d.run) .void

mutual

def code (p : Program) : Node → Codegen Outcome
  | .symbol _ id => do return .path (← symbolPath p id)
  | .constant info value => literal p value info.type
  | .binary info op left right => binary p op ⟨left, code p left⟩ ⟨right, code p right⟩ info
  | .unary info op operand => unary p op ⟨operand, code p operand⟩ (memberOf p operand) info
  | .swizzle info base components => swizzle p ⟨base, code p base⟩ components info
  | .sequence _ nodes => sequence (deferAll p nodes)
  | .call info f arguments => call p f (deferAll p arguments) info.span
  | .construct info arguments => construction p (deferAll p arguments) info
  | .intrinsic info op arguments => intrinsic p op (deferAll p arguments) info
  | .select info condition thenBranch elseBranch evaluateBoth advice =>
    selection p ⟨condition, code p condition⟩ (deferOption p thenBranch)
      (deferOption p elseBranch) evaluateBoth advice info
  | .switch _ selector body advice => do
    switch p ⟨selector, code p selector⟩ (deferAll p body) advice
    return .void
  | .loop _ test body terminal testFirst advice => do
    loop p (deferOption p test) (deferOption p body) (deferOption p terminal) testFirst advice
    return .void
  | .jump info kind value => do
    jump p kind (deferOption p value) info.span
    return .void
  | .declare _ id init => do
    declaration p id (deferOption p init)
    return .void
termination_by structural n => n

def deferAll (p : Program) : List Node → List Deferred
  | [] => []
  | n :: rest => ⟨n, code p n⟩ :: deferAll p rest
termination_by structural ns => ns

def deferOption (p : Program) : Option Node → Option Deferred
  | none => none
  | some n => some ⟨n, code p n⟩
termination_by structural n => n

def memberOf (p : Program) : Node → Option (Deferred × Node)
  | .binary _ .member left right => some (⟨left, code p left⟩, right)
  | _ => none
termination_by structural n => n

end

def statement (p : Program) (n : Node) : Codegen Unit := do
  let _ ← code p n

end ShaderGen.Codegen
