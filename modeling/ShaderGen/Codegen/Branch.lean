import ShaderGen.Codegen.Arithmetic

/-!
# Selections by a condition

`if` statements, conditional expressions and the logical operators. A construct asks for the labels
of its blocks before any of them is begun. Blocks that no path from the start of the function leads
to end without going anywhere.
-/

namespace ShaderGen

def SelectionAdvice.mask (h : SelectionAdvice) : Nat :=
  h.flatten.toNat + 2 * h.dontFlatten.toNat

namespace Codegen

/-- Whether the current place can be reached from the start of the function. -/
def isLive : Codegen Bool := do
  return (← builder).reachable

def beginAt (label : Ident) (live : Bool) : Codegen Unit := do
  Builder.beginBlock label
  if !live then Builder.markDead

def currentBlock : Codegen Ident := do
  match (← builder).currentBlock with
  | some label => return label
  | none => fail .noOpenBlock

/-- Goes to another block; what follows cannot be reached. -/
def jumpTo (target : Ident) : Codegen Unit := do
  Builder.finishBlock target
  Builder.beginDeadBlock

/-- Ends the block with a choice between two blocks that come together again in a third one. -/
def choose (condition thenBlock elseBlock merge : Ident) (advice : SelectionAdvice) :
    Codegen Unit := do
  Builder.selectionMerge merge advice.mask
  Builder.branchIf condition thenBlock elseBlock

/-- One side of an `if` statement. Says whether its end can be reached. -/
def branchBody (label merge : Ident) (live : Bool) (body : Option Deferred) : Codegen Bool := do
  beginAt label live
  body.forM Deferred.exec
  let reached ← isLive
  Builder.finishBlock merge
  return reached

/-- The sides of an `if` statement. Without a second one, the merge block is as live as the
condition. -/
def branchOn (condition : Ident) (thenBranch elseBranch : Option Deferred)
    (advice : SelectionAdvice) : Codegen Unit := do
  let live ← isLive
  let thenBlock ← Builder.fresh
  let merge ← Builder.fresh
  let elseBlock ← if elseBranch.isSome then Builder.fresh else pure merge
  choose condition thenBlock elseBlock merge advice
  let thenReached ← branchBody thenBlock merge live thenBranch
  match elseBranch with
  | none => beginAt merge live
  | some _ =>
    let elseReached ← branchBody elseBlock merge live elseBranch
    beginAt merge (thenReached || elseReached)

def ifStatement (p : Program) (condition : Deferred) (thenBranch elseBranch : Option Deferred)
    (advice : SelectionAdvice) : Codegen Unit := do
  let c ← condition.value p
  branchOn c.id thenBranch elseBranch advice

/-- Whether one instruction can select between values of a type. From version 1.4 on it can for all
but resources. -/
def isSelectable (t : ShaderType) (version : Version) : Bool :=
  t.isScalar || t.isVector || (version.atLeast .v1_4 && !t.isOpaque)

/-- A conditional expression whose sides are both evaluated. Before version 1.4 the condition has to
have as many components as the values. -/
def selectValue (p : Program) (condition thenValue elseValue : Deferred) (t : ShaderType)
    (type : Ident) : Codegen Value := do
  let c ← condition.evaluate p
  let a ← thenValue.value p
  let b ← elseValue.value p
  let selector ←
    if t.isVector && !(← builder).version.atLeast .v1_4 then broadcast p c t else pure c.id
  return { id := ← emitOn .select type [selector, a.id, b.id], type }

/-- One side of a conditional expression, which goes to a variable. -/
def storeSide (p : Program) (label merge var type : Ident) (live : Bool) (side : Deferred) :
    Codegen Unit := do
  beginAt label live
  let v ← side.value p
  let id ← Builder.recast v.id v.type type
  storeTo var id
  Builder.finishBlock merge

def storeSides (p : Program) (condition : Ident) (thenValue elseValue : Deferred)
    (advice : SelectionAdvice) (var type : Ident) : Codegen Unit := do
  let live ← isLive
  let thenBlock ← Builder.fresh
  let elseBlock ← Builder.fresh
  let merge ← Builder.fresh
  choose condition thenBlock elseBlock merge advice
  storeSide p thenBlock merge var type live thenValue
  storeSide p elseBlock merge var type live elseValue
  beginAt merge live

def branchValue (p : Program) (condition thenValue elseValue : Deferred) (advice : SelectionAdvice)
    (type : Ident) : Codegen Value := do
  let var ← Builder.localVariable "ternary" type
  let c ← condition.value p
  storeSides p c.id thenValue elseValue advice var type
  return { id := ← loadFrom var type, type }

def conditional (p : Program) (condition thenValue elseValue : Deferred) (evaluateBoth : Bool)
    (advice : SelectionAdvice) (info : Info) : Codegen Value := do
  let type ← valueType p info.type
  let cheap := evaluateBoth || (thenValue.isCheap && elseValue.isCheap)
  if cheap && isSelectable info.type (← builder).version && condition.type.isScalar then
    selectValue p condition thenValue elseValue info.type type
  else branchValue p condition thenValue elseValue advice type

def selection (p : Program) (condition : Deferred) (thenBranch elseBranch : Option Deferred)
    (evaluateBoth : Bool) (advice : SelectionAdvice) (info : Info) : Codegen Outcome := do
  if info.type.isVoid then
    ifStatement p condition thenBranch elseBranch advice
    return .void
  else
    match thenBranch, elseBranch with
    | some a, some b => return .value (← conditional p condition a b evaluateBoth advice info)
    | _, _ => failAt info.span .valuesMissing

/-- A logical operator whose right operand is evaluated only if it matters. -/
def guardedLogical (p : Program) (isAnd : Bool) (left : Value) (right : Deferred) (type : Ident) :
    Codegen Value := do
  let leftBlock ← currentBlock
  let rightBlock ← Builder.fresh
  let merge ← Builder.fresh
  if isAnd then Builder.branchConditional left.id rightBlock merge merge
  else Builder.branchConditional left.id merge rightBlock merge
  Builder.beginBlock rightBlock
  let r ← right.value p
  let rightEnd ← currentBlock
  Builder.branch merge
  Builder.beginBlock merge
  return { id := ← emitOn .phi type [left.id, leftBlock, r.id, rightEnd], type }

/-- `left && right` when `isAnd` holds, and otherwise `left || right`. -/
def logical (p : Program) (isAnd : Bool) (left right : Deferred) : Codegen Outcome := do
  let type ← Builder.typeBool
  let l ← left.value p
  if right.isCheap then
    let r ← right.value p
    let op := if isAnd then Opcode.logicalAnd else .logicalOr
    return .value { id := ← emitOn op type [l.id, r.id], type }
  else return .value (← guardedLogical p isAnd l right type)

end Codegen

end ShaderGen
