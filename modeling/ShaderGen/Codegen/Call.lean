import ShaderGen.Codegen.Value

/-!
# Calls

Resources and buffer blocks are passed by the address of the caller's own object, constant
parameters as values, and everything else by the address of a copy. All arguments are evaluated
before the call, and what the function has written to output parameters is copied back after it.
-/

namespace ShaderGen

namespace ShaderType

def isStorageBlock (t : ShaderType) : Bool :=
  t.isBlock && t.qualifier.storage == .buffer

def passing (t : ShaderType) : Passing :=
  if t.isOpaque || t.isStorageBlock then .byAddress
  else if t.qualifier.storage = .paramConst then .byValue
  else .byCopy

end ShaderType

namespace Codegen

/-- The storage class and the type of an object that is passed by its own address. -/
def addressedParameter (p : Program) (t : ShaderType) : Codegen (StorageClass × Ident) := do
  if t.isStorageBlock then
    let type ← objectType p t
    return (t.storageClass p.target, type)
  else
    let storage := if t.basic = .rayQuery then StorageClass.function else .uniformConstant
    return (storage, ← valueType p t)

/-- What goes back to the caller's object after a call. -/
structure CopyBack where
  path : AccessPath
  var : Ident
  type : Ident
  deriving DecidableEq, Inhabited

def CopyBack.run (c : CopyBack) : Codegen Unit := do
  let value ← loadFrom c.var c.type
  c.path.store value c.type

/-- An argument that is passed by the address of a copy. Only what the function can read is copied
in, and only output parameters are copied back. -/
def copyArgument (p : Program) (argument : Deferred) (t : ShaderType) :
    Codegen (Ident × List CopyBack) := do
  let type ← valueType p t
  if t.qualifier.storage.isParameterOutput then
    let path ← argument.path
    let var ← Builder.localVariable "param" type
    if t.qualifier.storage ≠ .paramOut then storeTo var (← path.load type)
    return (var, [{ path, var, type }])
  else
    let var ← Builder.localVariable "param" type
    let v ← argument.value p
    let value ← Builder.recast v.id v.type type
    storeTo var value
    return (var, [])

def passArgument (p : Program) (argument : Deferred) (passing : Passing) (t : ShaderType) :
    Codegen (Ident × List CopyBack) := do
  match passing with
  | .byAddress =>
    let path ← argument.path
    return (← path.pointer, [])
  | .byCopy => copyArgument p argument t
  | .byValue =>
    let type ← valueType p t
    let v ← argument.value p
    return (← Builder.recast v.id v.type type, [])

def call (p : Program) (f : FunctionId) (arguments : List Deferred) (span : Span) :
    Codegen Outcome := do
  let signature ← signature f
  let definition ← p.function f
  if arguments.length ≠ signature.passing.length then
    failAt span (.argumentCount definition.name arguments.length signature.passing.length)
  let passed ← ((arguments.zip signature.passing).zip definition.parameters).mapM
    fun ((argument, passing), parameter) => do
      let s ← p.symbol parameter
      passArgument p argument passing s.type
  let id ← emitOn .functionCall signature.returnType (signature.id :: passed.map Prod.fst)
  (passed.flatMap Prod.snd).forM CopyBack.run
  if definition.returnType.isVoid then return .void
  else return .value { id, type := signature.returnType }

/-- A `return` statement. A value of another representation goes through a variable. -/
def returnStatement (p : Program) (value : Option Deferred) (span : Span) : Codegen Unit := do
  match value, (← get).returnType with
  | none, _ => Builder.terminate .ret []
  | some _, none => failAt span .returnOutside
  | some value, some declared =>
    let type ← valueType p declared
    let v ← value.value p
    if v.type = type then Builder.terminate .returnValue [.ref v.id]
    else
      let var ← Builder.localVariable "ret" type
      (AccessPath.ofPointer var type .function).storeByParts v.id v.type
      let id ← loadFrom var type
      Builder.terminate .returnValue [.ref id]

end Codegen

end ShaderGen
