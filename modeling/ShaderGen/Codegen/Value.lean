import ShaderGen.Codegen.Type
import ShaderGen.Source.Effects

/-!
# Operands

Generating code for a node gives a value, a path that has not been loaded from yet, or nothing. The
operands of an operation reach it as `Deferred` code, since the operation decides when an operand
is evaluated, and whether as a value or as a path.
-/

namespace ShaderGen

structure Value where
  id : Ident
  type : Ident
  deriving DecidableEq, Inhabited

/-- What the code for a node gives. -/
inductive Outcome
  | value (v : Value)
  /-- A part of an object or of a value that has not been read yet. -/
  | path (path : AccessPath)
  /-- Statements, and calls of functions without a result. -/
  | void
  deriving DecidableEq, Inhabited

/-- A node with the code for it, to be generated when its value is needed. -/
structure Deferred where
  node : Node
  run : Codegen Outcome

structure Evaluated where
  id : Ident
  type : ShaderType
  deriving DecidableEq, Inhabited

namespace Deferred

def type (d : Deferred) : ShaderType := d.node.type

def span (d : Deferred) : Span := d.node.span

def value (p : Program) (d : Deferred) : Codegen Value := do
  let type ← Codegen.valueType p d.type
  match ← d.run with
  | .value v => return { id := ← Builder.recast v.id v.type type, type }
  | .path path => return { id := ← path.load type, type }
  | .void => Codegen.failAt d.span .voidValue

/-- Evaluates an operand, for operations that go by its type in the program. -/
def evaluate (p : Program) (d : Deferred) : Codegen Evaluated := do
  let v ← d.value p
  return { id := v.id, type := d.type }

/-- Evaluates an operand to a path; a value becomes a path to itself. -/
def path (d : Deferred) : Codegen AccessPath := do
  match ← d.run with
  | .path path => return path
  | .value v => return .ofValue v.id v.type
  | .void => Codegen.failAt d.span .voidOperand

def exec (d : Deferred) : Codegen Unit := do
  let _ ← d.run

/-- Whether an operand is cheap to evaluate and has no effects, so that it may be evaluated even
where its value is not needed. -/
def isCheap (d : Deferred) : Bool :=
  d.node.isSimple && !d.node.hasSideEffects

end Deferred

namespace Codegen

/-- Reports missing functionality, and goes on with a null value. -/
def nullFor (message : String) (type : Ident) (span : Span) : Codegen Ident := do
  report { kind := .missingFunctionality, message, span := some span }
  Builder.constNull type

/-- Reports that a node is missing functionality, and goes on with a null value of its type. -/
def unsupported (p : Program) (message : String) (info : Info) : Codegen Outcome := do
  if info.type.isVoid then
    report { kind := .missingFunctionality, message, span := some info.span }
    return .void
  else
    let type ← valueType p info.type
    let id ← nullFor message type info.span
    return .value { id, type }

def symbolPath (p : Program) (id : SymbolId) : Codegen AccessPath := do
  let binding ← bindingOf p (typer p) id
  let s ← p.symbol id
  match binding with
  | .object pointer type storage =>
    return (AccessPath.ofPointer pointer type storage).absorb
      (.ofQualifier s.type.qualifier s.type.isSampler) 0
  | .value id type => return .ofValue id type

def emitOn (op : Opcode) (type : Ident) (ids : List Ident) : Codegen Ident :=
  Builder.emit op type (Operand.refs ids)

def loadFrom (pointer type : Ident) : Codegen Ident :=
  emitOn .load type [pointer]

def storeTo (pointer value : Ident) : Codegen Unit :=
  Builder.emitVoid .store (Operand.refs [pointer, value])

/-- A part of a composite, by literal positions. -/
def extract (type composite : Ident) (positions : List Nat) : Codegen Ident :=
  Builder.emit .compositeExtract type (.ref composite :: positions.map .literal)

end Codegen

end ShaderGen
