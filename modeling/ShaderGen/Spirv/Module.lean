import ShaderGen.Target
import ShaderGen.Spirv.Instruction

/-!
# Modules

A module is a sequence of sections in a fixed order. The sections whose instructions all have one
shape hold that shape; types, constants and module-scope variables, and the bodies of blocks, are
instructions. `Module.instructions` writes a whole module out as one list.
-/

namespace ShaderGen

/-- A decoration of an id, or of one member of a structure type. -/
structure Annotation where
  target : Ident
  member : Option Nat := none
  decoration : Decoration
  argument : Option Operand := none
  deriving DecidableEq, Inhabited

/-- A name of an id, or of one member of a structure type, for debugging. -/
structure DebugName where
  target : Ident
  member : Option Nat := none
  text : String
  deriving DecidableEq, Inhabited

structure EntryPoint where
  stage : Stage
  function : Ident
  name : String
  interface : List Ident
  deriving DecidableEq, Inhabited

structure Block where
  label : Ident
  body : List Instruction := []
  deriving DecidableEq, Inhabited

structure Parameter where
  id : Ident
  type : Ident
  deriving DecidableEq, Inhabited

structure Function where
  id : Ident
  returnType : Ident
  type : Ident
  parameters : List Parameter := []
  blocks : List Block := []
  ended : Bool := false
  deriving DecidableEq, Inhabited

structure Module where
  version : Version := .v1_0
  generator : Nat := 0
  bound : Ident := 1
  capabilities : List Capability := []
  extensions : List String := []
  imports : List (Ident × String) := []
  memoryModel : Option (AddressingModel × MemoryModel) := none
  entryPoints : List EntryPoint := []
  executionModes : List (Ident × ExecutionMode × List Nat) := []
  source : Option (Language × Nat) := none
  sourceExtensions : List String := []
  names : List DebugName := []
  annotations : List Annotation := []
  /-- Types, constants and module-scope variables. -/
  globals : List Instruction := []
  functions : List Function := []
  deriving DecidableEq, Inhabited

def Annotation.instruction (a : Annotation) : Instruction :=
  let tail := .decoration a.decoration :: a.argument.toList
  match a.member with
  | none => { op := .decorate, operands := .ref a.target :: tail }
  | some member =>
    { op := .memberDecorate, operands := .ref a.target :: .literal member :: tail }

def DebugName.instruction (n : DebugName) : Instruction :=
  match n.member with
  | none => { op := .name, operands := [.ref n.target, .text n.text] }
  | some member =>
    { op := .memberName, operands := [.ref n.target, .literal member, .text n.text] }

def EntryPoint.instruction (e : EntryPoint) : Instruction :=
  { op := .entryPoint
    operands := .model e.stage :: .ref e.function :: .text e.name :: Operand.refs e.interface }

def Block.instructions (b : Block) : List Instruction :=
  { op := .label, result := some b.label } :: b.body

/-- The instructions of a function, from its head to its end. -/
def Function.instructions (f : Function) : List Instruction :=
  { op := .function, type := some f.returnType, result := some f.id
    operands := [.mask 0, .ref f.type] } ::
  f.parameters.map (fun p => { op := .functionParameter, type := some p.type, result := some p.id })
  ++ f.blocks.flatMap Block.instructions
  ++ if f.ended then [{ op := .functionEnd }] else []

def Module.instructions (m : Module) : List Instruction :=
  m.capabilities.map (fun c => { op := .capability, operands := [.capability c] })
  ++ m.extensions.map (fun e => { op := .extension, operands := [.text e] })
  ++ m.imports.map (fun i =>
    { op := .extInstImport, result := some i.1, operands := [.text i.2] })
  ++ m.memoryModel.toList.map (fun model =>
    { op := .memoryModel, operands := [.addressing model.1, .memory model.2] })
  ++ m.entryPoints.map EntryPoint.instruction
  ++ m.executionModes.map (fun (entry, mode, literals) =>
    { op := .executionMode, operands := .ref entry :: .mode mode :: literals.map .literal })
  ++ m.source.toList.map (fun s =>
    { op := .source, operands := [.language s.1, .literal s.2] })
  ++ m.sourceExtensions.map (fun e => { op := .sourceExtension, operands := [.text e] })
  ++ m.names.map DebugName.instruction
  ++ m.annotations.map Annotation.instruction
  ++ m.globals
  ++ m.functions.flatMap Function.instructions

end ShaderGen
