import ShaderGen.Failure
import ShaderGen.Requirement
import ShaderGen.Spirv.Module

/-!
# The module under construction

A builder holds a module that grows, the place where instructions go, and what it remembers about
the types and constants it has made, so that equal requests get equal ids. Operations that cannot
fail are in `Emit`. Operations that can are in `Build`; a failure leaves the builder as it was at
the moment of the failure, since ids and instructions that have been given out stay given out.
-/

namespace ShaderGen

inductive TypeForm
  | void
  | bool
  | int (width : Nat) (signed : Bool)
  | float (width : Nat)
  | vector (component : Ident) (count : Nat)
  | matrix (column : Ident) (count : Nat)
  /-- `length` is the id of a constant. -/
  | array (element length : Ident) (stride : Option Nat)
  | runtimeArray (element : Ident) (stride : Option Nat)
  | struct (members : List Ident)
  /-- A pointer announced before the type it points to has no pointee yet. -/
  | pointer (storage : StorageClass) (pointee : Option Ident)
  | image (sampled : Ident) (dimension : Dimension)
  | sampledImage (image : Ident)
  | sampler
  | accelerationStructure
  | rayQuery
  | function (result : Ident) (parameters : List Ident)
  deriving DecidableEq, Inhabited

structure Cursor where
  /-- The label of the block that was begun last, while it counts as current. -/
  currentBlock : Option Ident := none
  /-- Whether the current block can be reached from the start of its function. -/
  reachable : Bool := false
  deadBlocks : List Ident := []
  recorded : reachable = false → ∀ label ∈ currentBlock, label ∈ deadBlocks := by simp

namespace Cursor

instance : Inhabited Cursor := ⟨{}⟩

def enter (c : Cursor) (label : Ident) : Cursor :=
  { deadBlocks := c.deadBlocks, currentBlock := some label, reachable := true }

def leave (c : Cursor) : Cursor :=
  { deadBlocks := c.deadBlocks, currentBlock := none, reachable := c.reachable }

def markDead (c : Cursor) : Cursor :=
  { deadBlocks := c.deadBlocks ++ c.currentBlock.toList
    currentBlock := c.currentBlock
    reachable := false
    recorded := fun _ label h => by simp [Option.mem_def.1 h] }

end Cursor

/-- A request, and the capabilities and extensions that the module declares right after it. -/
structure Answer where
  request : Request
  capabilities : List Capability
  extensions : List String
  deriving DecidableEq, Inhabited

structure Builder extends Cursor where
  /-- The module so far. Its bound is the next id to be given out. -/
  output : Module := {}
  vulkanMemoryModel : Bool := false
  debugNames : Bool := true
  addressing : AddressingModel := .logical
  /-- Whether the last function of the module is still being built. -/
  inFunction : Bool := false
  /-- The position, in the last function, of the block that instructions go to. -/
  block : Option Nat := none
  types : List (Ident × TypeForm) := []
  pointerTypes : List ((StorageClass × Ident) × Ident) := []
  arrayTypes : List ((Ident × Ident × Option Nat) × Ident) := []
  runtimeArrayTypes : List ((Ident × Option Nat) × Ident) := []
  handleTypes : List (Opcode × Ident) := []
  scalars : List ((Ident × Nat) × Ident) := []
  nulls : List (Ident × Ident) := []
  composites : List ((Ident × List Ident) × Ident) := []
  literals : List (Ident × Nat) := []
  variablesBlock : Option Ident := none
  codeBlock : Option Ident := none
  interface : List Ident := []
  /-- What has been asked for so far. -/
  answers : List Answer := []
  deriving Inhabited

abbrev Emit := StateM Builder

abbrev Build := EStateM Failure Builder

instance liftEmit {ε σ : Type} : MonadLift (StateM σ) (EStateM ε σ) where
  monadLift step := fun s =>
    match step.run s with
    | (a, s) => .ok a s

def Build.fail {α : Type} (cause : Cause) : Build α :=
  throw (.generating cause none)

namespace Builder

def version (b : Builder) : Version := b.output.version

def fresh : Emit Ident :=
  modifyGet fun b => (b.output.bound, { b with output.bound := b.output.bound + 1 })

/-- Appends to the section of types, constants and module-scope variables. -/
def appendGlobal (i : Instruction) : Emit Unit :=
  modify fun b => { b with output.globals := b.output.globals ++ [i] }

def form? (b : Builder) (type : Ident) : Option TypeForm :=
  b.types.lookup type

/-- The literal of a scalar constant that is not a specialization constant. -/
def literal? (b : Builder) (id : Ident) : Option Nat :=
  b.literals.lookup id

end Builder

end ShaderGen
