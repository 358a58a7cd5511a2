import ShaderGen.Builder.Constants

/-!
# Functions, blocks and instructions

A function has a block for its variables, in front, and blocks for its code. The block of variables
stays open until the function ends, when it gets a branch to the first block of code. At most one
block at a time takes instructions; after a block has been ended, code that cannot be reached goes
into a block that nothing branches to.
-/

namespace ShaderGen

def modifyLast {α : Type} (f : α → α) : List α → List α
  | [] => []
  | [a] => [f a]
  | a :: b :: rest => a :: modifyLast f (b :: rest)

def Block.push (b : Block) (i : Instruction) : Block :=
  { b with body := b.body ++ [i] }

def Function.pushTo (f : Function) (block : Nat) (i : Instruction) : Function :=
  { f with blocks := f.blocks.modify block (·.push i) }

namespace Builder

def modifyFunction (f : Function → Function) : Emit Unit :=
  modify fun b => { b with output.functions := modifyLast f b.output.functions }

/-! ## Placing instructions -/

def append (i : Instruction) : Build Unit := do
  let b ← get
  match b.inFunction, b.block with
  | true, some block => modifyFunction (·.pushTo block i)
  | _, _ => throw (.building (.detachedInstruction i.op))

/-- Appends an instruction with a result. The id is used up even if there is no block to append
to. -/
def emit (op : Opcode) (type : Ident) (operands : List Operand) : Build Ident := do
  let id ← fresh
  append { op, type := some type, result := some id, operands }
  return id

def emitVoid (op : Opcode) (operands : List Operand) : Build Unit :=
  append { op, operands }

def endBlock (i : Instruction) : Build Unit := do
  if (← get).block.isNone then throw (.building .mismatchedTerminator)
  append i
  modify fun b => { b with block := none }

def blockCount (b : Builder) : Nat :=
  ((b.output.functions.getLast?.map Function.blocks).getD []).length

def selectBlock (position : Option Nat) : Build Unit := do
  match position with
  | none => modify fun b => { b with block := none }
  | some k =>
    let b ← get
    if !b.inFunction then throw (.building .detachedBlock)
    if k < b.blockCount then set { b with block := some k }
    else throw (.building .blockNotFound)

def blockPosition (label : Ident) : Build Nat := do
  match (← get).output.functions.getLast? with
  | none => Build.fail .noFunction
  | some f =>
    match f.blocks.findIdx? fun block => block.label == label with
    | some k => return k
    | none => Build.fail (.unknownBlock label)

def openBlock (label : Ident) : Build Unit := do
  let b ← get
  if !b.inFunction then throw (.building .detachedBlock)
  if b.block.isSome then throw (.building .nestedBlock)
  modifyFunction fun f => { f with blocks := f.blocks ++ [{ label }] }
  modify fun b => { b with block := some (b.blockCount - 1) }

/-- An instruction that goes to the selected block, or to module scope when there is none. -/
def appendAnywhere (i : Instruction) : Emit Unit := do
  let b ← get
  match b.inFunction, b.block with
  | true, some block => modifyFunction (·.pushTo block i)
  | _, _ => appendGlobal i

/-- A variable in the selected block, or at module scope when there is none. -/
def variableOf (pointerType : Ident) (storage : StorageClass) (init : Option Ident) :
    Emit Ident := do
  let id ← fresh
  appendAnywhere
    { op := .var, type := some pointerType, result := some id
      operands := .storage storage :: Operand.refs init.toList }
  return id

def undef (type : Ident) : Emit Ident := do
  let id ← fresh
  appendAnywhere { op := .undef, type := some type, result := some id }
  return id

/-! ## Variables -/

/-- Whether the entry point of a module lists variables of this storage class. -/
def isListed (version : Version) (storage : StorageClass) : Bool :=
  if version.atLeast .v1_4 then storage != .function
  else storage == .input || storage == .output

def globalVariable (type : Ident) (storage : StorageClass) (text : String)
    (init : Option Ident) : Emit Ident := do
  let pointer ← typePointer storage type
  let id ← variableOf pointer storage init
  name id text
  if isListed (← get).version storage then
    modify fun b => { b with interface := b.interface ++ [id] }
  return id

/-- A variable of the function under construction, in its block of variables. -/
def localVariable (text : String) (type : Ident) : Build Ident := do
  let pointer ← typePointer .function type
  let b ← get
  match b.variablesBlock with
  | none => Build.fail .variableOutsideFunction
  | some label =>
    selectBlock (some (← blockPosition label))
    let id ← variableOf pointer .function none
    selectBlock b.block
    name id text
    return id

/-! ## Functions -/

def addParameter (type : Ident) : Build Ident := do
  if !(← get).inFunction then throw (.building .detachedParameter)
  let id ← fresh
  modifyFunction fun f => { f with parameters := f.parameters ++ [{ id, type }] }
  return id

def beginBlock (label : Ident) : Build Unit := do
  openBlock label
  modify fun b => { b with toCursor := b.toCursor.enter label }

def beginFunction (id : Ident) (text : String) (returnType : Ident) (parameterTypes : List Ident) :
    Build (List Ident) := do
  let type ← typeFunction returnType parameterTypes
  if (← get).inFunction then throw (.building .nestedFunction)
  modify fun b =>
    { b with
      output.functions := b.output.functions ++ [{ id, returnType, type }]
      inFunction := true }
  name id text
  let parameters ← parameterTypes.mapM addParameter
  let front ← fresh
  let code ← fresh
  modify fun b => { b with variablesBlock := some front, codeBlock := some code }
  openBlock front
  selectBlock none
  beginBlock code
  return parameters

def endFunction : Build Unit := do
  let b ← get
  match b.variablesBlock, b.codeBlock with
  | some front, some code =>
    selectBlock (some (← blockPosition front))
    endBlock { op := .branch, operands := [.ref code] }
  | _, _ => pure ()
  if !(← get).inFunction then throw (.building .mismatchedFunctionEnd)
  modifyFunction fun f => { f with ended := true }
  modify fun b =>
    { b with
      toCursor := b.toCursor.leave, inFunction := false, variablesBlock := none, codeBlock := none }

/-! ## Control flow -/

def isBlockOpen (b : Builder) : Bool :=
  b.block.isSome

def markDead : Emit Unit :=
  modify fun b => { b with toCursor := b.toCursor.markDead }

def beginDeadBlock : Build Unit := do
  beginBlock (← fresh)
  markDead

def branch (target : Ident) : Build Unit :=
  endBlock { op := .branch, operands := [.ref target] }

def branchIf (condition thenBlock elseBlock : Ident) : Build Unit :=
  endBlock
    { op := .branchConditional, operands := [.ref condition, .ref thenBlock, .ref elseBlock] }

def selectionMerge (merge : Ident) (control : Nat) : Build Unit :=
  emitVoid .selectionMerge [.ref merge, .mask control]

/-- Ends the block with a choice between two blocks that come together again in a third one. -/
def branchConditional (condition thenBlock elseBlock merge : Ident) : Build Unit := do
  selectionMerge merge 0
  branchIf condition thenBlock elseBlock

/-- Ends the block with another instruction, so that no block is selected. -/
def endWith (op : Opcode) (operands : List Operand) : Build Unit := do
  emitVoid op operands
  selectBlock none
  modify fun b => { b with toCursor := b.toCursor.leave }

def terminate (op : Opcode) (operands : List Operand) : Build Unit := do
  endWith op operands
  beginDeadBlock

/-- Ends the block by going to `target`; a block that cannot be reached goes nowhere. -/
def finishBlock (target : Ident) : Build Unit := do
  if (← get).reachable then branch target else endWith .unreachable []

end Builder

end ShaderGen
