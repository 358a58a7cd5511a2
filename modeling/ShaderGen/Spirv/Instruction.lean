import ShaderGen.Source.Stage
import ShaderGen.Source.BuiltIn
import ShaderGen.Source.Sampler
import ShaderGen.Spirv.Opcode
import ShaderGen.Spirv.Capability
import ShaderGen.Spirv.Enumerant

/-!
# Instructions

An instruction has an operation, possibly a result type and a result, and operands. Types,
constants, variables, functions, blocks and values are all referred to by one kind of id.
-/

namespace ShaderGen

/-- Refers to the instruction that defines it. -/
abbrev Ident := Nat

inductive Operand
  | ref (id : Ident)
  | literal (value : Nat)
  /-- A literal of two words. -/
  | wide (value : Nat)
  | mask (bits : Nat)
  | text (value : String)
  | capability (value : Capability)
  | storage (value : StorageClass)
  | decoration (value : Decoration)
  | builtIn (value : BuiltIn)
  | model (value : Stage)
  | mode (value : ExecutionMode)
  | dimension (value : Dimension)
  | format (value : ImageFormat)
  | addressing (value : AddressingModel)
  | memory (value : MemoryModel)
  | language (value : Language)
  /-- The group operation that combines the values of all invocations. -/
  | reduce
  deriving DecidableEq, Inhabited

structure Instruction where
  op : Opcode
  type : Option Ident := none
  result : Option Ident := none
  operands : List Operand := []
  deriving DecidableEq, Inhabited

def Operand.refs (ids : List Ident) : List Operand :=
  ids.map .ref

end ShaderGen
