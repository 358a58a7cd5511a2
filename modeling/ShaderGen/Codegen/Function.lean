import ShaderGen.Codegen.Node

/-!
# Functions

Every function gets its id and its signature before the body of any function is generated, so that
calls can come before definitions. The initializers of module-scope variables run at the start of
the entry function.
-/

namespace ShaderGen.Codegen

/-- The type by which a parameter is passed, and how. -/
def parameterType (p : Program) (t : ShaderType) : Codegen (Ident × Passing) := do
  let passing := t.passing
  let type ← match passing with
    | .byAddress => do
      let (storage, type) ← addressedParameter p t
      Builder.typePointer storage type
    | .byCopy => do
      let type ← valueType p t
      Builder.typePointer .function type
    | .byValue => valueType p t
  return (type, passing)

def declareFunction (p : Program) (f : FunctionId) : Codegen Unit := do
  let definition ← p.function f
  let returnType ← valueType p definition.returnType
  let parameters ← definition.parameters.mapM fun parameter => do
    let s ← p.symbol parameter
    parameterType p s.type
  let id ← Builder.fresh
  let signature : Signature :=
    { id, returnType, parameterTypes := parameters.map Prod.fst
      passing := parameters.map Prod.snd }
  modify fun s => { s with signatures := (f, signature) :: s.signatures }

def bindParameter (p : Program) (parameter : SymbolId) (id : Ident) (passing : Passing) :
    Codegen Unit := do
  let s ← p.symbol parameter
  let binding ← match passing with
    | .byAddress => do
      let (storage, type) ← addressedParameter p s.type
      pure (Binding.object id type storage)
    | .byCopy => pure (Binding.object id (← valueType p s.type) .function)
    | .byValue => pure (Binding.value id (← valueType p s.type))
  Builder.name id s.name
  bind parameter binding

/-- Ends a body that control can run off the end of. A function with a result gives a null value
there. -/
def closeBody (f : FunctionDecl) (returnType : Ident) : Codegen Unit := do
  if !(← isLive) then Builder.endWith .unreachable []
  else if f.returnType.isVoid then Builder.endWith .ret []
  else
    let null ← Builder.constNull returnType
    Builder.endWith .returnValue [.ref null]

def runInitializers (p : Program) (f : FunctionId) : Codegen Unit :=
  if f = p.entry then p.initializers.forM (statement p) else return

def functionCode (p : Program) (f : FunctionId) (definition : FunctionDecl)
    (parameters : List ((SymbolId × Ident) × Passing)) : Codegen Unit := do
  parameters.forM fun ((parameter, id), passing) => bindParameter p parameter id passing
  runInitializers p f
  modify fun s => { s with returnType := some definition.returnType }
  definition.body.forM (statement p)
  modify fun s => { s with returnType := none }

def defineFunction (p : Program) (f : FunctionId) : Codegen Unit := do
  let definition ← p.function f
  let signature ← signature f
  let ids ← Builder.beginFunction signature.id definition.name signature.returnType
    signature.parameterTypes
  functionCode p f definition ((definition.parameters.zip ids).zip signature.passing)
  closeBody definition signature.returnType
  Builder.endFunction

end ShaderGen.Codegen
