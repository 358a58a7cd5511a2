import ShaderGen.Access.Memory
import ShaderGen.Diagnostic
import ShaderGen.Source.Program

/-!
# The state of code generation

Beside the module under construction, code generation keeps what the symbols and functions of the
program have become, which structures have types, and where jumps lead. Steps are in `Codegen`; a
building step is one of them.
-/

namespace ShaderGen

inductive Binding
  /-- An object in memory, of the type `type`. -/
  | object (pointer type : Ident) (storage : StorageClass)
  /-- A value, for specialization constants and constant parameters. -/
  | value (id type : Ident)
  deriving DecidableEq, Inhabited

/-- How an argument reaches a function. -/
inductive Passing
  /-- By the address of the caller's own object. -/
  | byAddress
  /-- By the address of a copy, which is copied back for output parameters. -/
  | byCopy
  | byValue
  deriving DecidableEq, Inhabited

structure Signature where
  id : Ident
  returnType : Ident
  parameterTypes : List Ident
  passing : List Passing
  deriving DecidableEq, Inhabited

/-- A pointer type for references to a structure. -/
inductive ReferencePointer
  /-- Announced, while the structure has no type yet. -/
  | announced (type : Ident)
  | declared (type : Ident)
  deriving DecidableEq, Inhabited

def ReferencePointer.type : ReferencePointer → Ident
  | .announced type | .declared type => type

/-- What tells apart the types that one structure of the program has in the module. -/
structure StructVariant where
  id : StructId
  packing : Packing
  rowMajor : Bool
  /-- The storage of a block, which decides how the block is decorated. -/
  block : Option Storage
  arrayed : Bool
  deriving DecidableEq, Inhabited

/-- An enclosing construct that jumps can leave. -/
inductive JumpScope
  | loop (merge continueTarget : Ident)
  | switch (merge : Ident)
  deriving DecidableEq, Inhabited

namespace JumpScope

def merge : JumpScope → Ident
  | .loop merge _ | .switch merge => merge

def continueTarget? : JumpScope → Option Ident
  | .loop _ target => some target
  | .switch _ => none

end JumpScope

structure State where
  builder : Builder
  diagnostics : List Diagnostic := []
  bindings : List (SymbolId × Binding) := []
  signatures : List (FunctionId × Signature) := []
  globals : List SymbolId := []
  structTypes : List (StructVariant × Ident) := []
  /-- For a structure that has had a type, the positions of its members in the module. A member that
  does not exist there has none. -/
  memberTables : List (StructId × List (Option Nat)) := []
  underway : List StructId := []
  references : List (StructId × ReferencePointer) := []
  /-- Structures of two equal members, by the type of the members. -/
  pairTypes : List (Ident × Ident) := []
  scopes : List JumpScope := []
  /-- The return type of the function whose body is being generated. -/
  returnType : Option ShaderType := none
  replacesDepth : Bool := false
  deriving Inhabited

def State.typedStructs (s : State) : List StructId := s.memberTables.map Prod.fst

abbrev Codegen := EStateM Failure State

instance liftBuild : MonadLift Build Codegen where
  monadLift step := fun s =>
    match step s.builder with
    | .ok a b => .ok a { s with builder := b }
    | .error e b => .error e { s with builder := b }

namespace Codegen

def fail {α : Type} (cause : Cause) : Codegen α :=
  throw (.generating cause none)

def failAt {α : Type} (span : Span) (cause : Cause) : Codegen α :=
  throw (.generating cause (some span))

/-- The sizes, offsets and strides of a layout are words of 32 bits, and it is a failure if one of
them is not. -/
def ensureFits (fits : Bool) : Codegen Unit :=
  if fits then pure () else fail .layoutOverflow

def builder : Codegen Builder := do
  return (← get).builder

def report (d : Diagnostic) : Codegen Unit :=
  modify fun s => { s with diagnostics := s.diagnostics ++ [d] }

/-- Binds a symbol, in place of what it was bound to before. -/
def bind (id : SymbolId) (binding : Binding) : Codegen Unit :=
  modify fun s => { s with bindings := (id, binding) :: s.bindings }

def within (scope : JumpScope) (step : Codegen Unit) : Codegen Unit := do
  modify fun s => { s with scopes := scope :: s.scopes }
  step
  modify fun s => { s with scopes := s.scopes.tail }

end Codegen

namespace Program

/-- A symbol of the program, which has to exist. -/
def symbol (p : Program) (id : SymbolId) : Codegen Symbol :=
  match p.symbol? id with
  | some s => return s
  | none => Codegen.fail (.unknownSymbol id)

/-- A structure of the program, which has to exist. -/
def struct (p : Program) (id : StructId) : Codegen StructDecl :=
  match p.struct? id with
  | some s => return s
  | none => Codegen.fail (.unknownStruct id)

/-- A function of the program, which has to exist. -/
def function (p : Program) (id : FunctionId) : Codegen FunctionDecl :=
  match p.function? id with
  | some f => return f
  | none => Codegen.fail (.unknownFunction id)

end Program

/-- A function of the module, which has to be declared. -/
def Codegen.signature (id : FunctionId) : Codegen Signature := do
  match (← get).signatures.lookup id with
  | some s => return s
  | none => fail (.undeclaredFunction id)

end ShaderGen
