import ShaderGen.Requirement
import ShaderGen.Spirv.Module

/-!
# Narrow types

Numbers of eight and sixteen bits take one capability to be stored, which depends on the storage
class, and another one to compute with. Which of them a module needs is read off the finished
module: `Module.narrowRequirements` looks at what its pointer types reach and at the types that its
instructions compute in. These are sets, and the order in which their elements come up is open.
-/

namespace ShaderGen

structure ScalarKind where
  width : Nat
  float : Bool
  deriving DecidableEq, Inhabited

namespace ScalarKind

def storageNeeds (k : ScalarKind) (storage : StorageClass) : Requirements :=
  match storage, k.width with
  | .storageBuffer, 8 | .physicalStorageBuffer, 8 =>
    .provided .storageBuffer8BitAccess .storage8Bit
  | .storageBuffer, 16 | .physicalStorageBuffer, 16 =>
    .provided .storageBuffer16BitAccess .storage16Bit
  | .uniform, 8 => .provided .uniformAndStorageBuffer8BitAccess .storage8Bit
  | .uniform, 16 => .provided .uniformAndStorageBuffer16BitAccess .storage16Bit
  | .pushConstant, 8 => .provided .storagePushConstant8 .storage8Bit
  | .pushConstant, 16 => .provided .storagePushConstant16 .storage16Bit
  | .input, 16 | .output, 16 => .provided .storageInputOutput16 .storage16Bit
  | _, _ => .none

def arithmeticNeeds (k : ScalarKind) : List Capability :=
  match k.width, k.float with
  | 8, false => [.int8]
  | 16, false => [.int16]
  | 16, true => [.float16]
  | _, _ => []

end ScalarKind

def Opcode.movesOnly : Opcode → Bool
  | .load | .store | .copyMemory | .copyObject | .accessChain | .inBoundsAccessChain
  | .ptrAccessChain | .compositeExtract | .compositeConstruct | .compositeInsert | .var
  | .functionParameter | .function | .functionCall | .returnValue | .phi => true
  | _ => false

def Operand.ids (operands : List Operand) : List Ident :=
  operands.filterMap fun
    | .ref id => some id
    | _ => none

namespace Instruction

def scalarKind? (i : Instruction) : Option (Ident × ScalarKind) :=
  match i.op, i.result, i.operands with
  | .typeInt, some id, .literal width :: _ => some (id, ⟨width, false⟩)
  | .typeFloat, some id, .literal width :: _ => some (id, ⟨width, true⟩)
  | _, _, _ => none

def typeParts? (i : Instruction) : Option (Ident × List Ident) :=
  match i.op, i.result with
  | .typeStruct, some id => some (id, Operand.ids i.operands)
  | .typeVector, some id | .typeMatrix, some id | .typeArray, some id
  | .typeRuntimeArray, some id => some (id, Operand.ids (i.operands.take 1))
  | _, _ => none

end Instruction

/-- The sets of scalar kinds that are gone through for what they require. -/
inductive KindSet
  /-- What can be reached from the pointer type. -/
  | reached (pointer : Option Ident)
  | computed
  | declared
  deriving DecidableEq, Inhabited

/-- The order in which the elements of sets come up. Nothing is known about it. -/
structure SetOrder where
  arrange : KindSet → List ScalarKind → List ScalarKind
  perm : ∀ set kinds, (arrange set kinds).Perm kinds

/-- The order in which the elements are first met. -/
def SetOrder.met : SetOrder := ⟨fun _ kinds => kinds, fun _ _ => .refl _⟩

namespace Module

def scalarKinds (m : Module) : List (Ident × ScalarKind) :=
  m.globals.filterMap Instruction.scalarKind?

def typeParts (m : Module) : List (Ident × List Ident) :=
  m.globals.filterMap Instruction.typeParts?

/-- The scalar kinds that a type reaches through its parts, followed to the given depth. -/
def kindsWithin (m : Module) : Nat → Ident → List ScalarKind
  | 0, _ => []
  | depth + 1, type =>
    match m.scalarKinds.lookup type with
    | some kind => [kind]
    | none => ((m.typeParts.lookup type).getD []).flatMap (m.kindsWithin depth)

def kindsOf (m : Module) (type : Ident) : List ScalarKind :=
  (m.kindsWithin (m.globals.length + 1) type).eraseDups

/-- The scalar kind of a type that is a number or has one single number as its parts. -/
def componentKind? (m : Module) (type : Ident) : Option ScalarKind :=
  match m.scalarKinds.lookup type with
  | some kind => some kind
  | none =>
    match m.typeParts.lookup type with
    | some [component] => m.scalarKinds.lookup component
    | _ => none

/-- What storing narrow numbers requires: for each pointer type, and each scalar kind it reaches,
the capability and the extension. Gives the widths that take a capability as well. -/
def storageUses (m : Module) (order : SetOrder) : List (Nat × Requirements) :=
  m.globals.flatMap fun i =>
    match i.op, i.operands with
    | .typePointer, .storage storage :: .ref pointee :: _ =>
      (order.arrange (.reached i.result) (m.kindsOf pointee)).filterMap fun kind =>
        let needs := kind.storageNeeds storage
        if needs.isEmpty then none else some (kind.width, needs)
    | _, _ => []

def computedKind? (m : Module) (i : Instruction) : Option ScalarKind :=
  if i.op.movesOnly then none else i.type.bind m.componentKind?

/-- The scalar kinds that the module computes in, each once. -/
def computedKinds (m : Module) : List ScalarKind :=
  let bodies := m.functions.flatMap fun f => f.blocks.flatMap Block.body
  ((m.globals ++ bodies).filterMap m.computedKind?).eraseDups

/-- What the narrow types of a module require. One that is neither stored nor computed with
takes the capability to compute with it. -/
def narrowRequirements (m : Module) (order : SetOrder) : Requirements :=
  let kinds := m.scalarKinds.map Prod.snd
  if kinds.all fun k => 32 ≤ k.width then .none
  else
    let stored := m.storageUses order
    let computed := (order.arrange .computed m.computedKinds).flatMap ScalarKind.arithmeticNeeds
    let idle := (order.arrange .declared kinds).filter fun k =>
      !stored.any fun use => use.1 == k.width
    let found := stored.foldr (fun use rest => use.2 ++ rest) { capabilities := computed }
    (idle.flatMap ScalarKind.arithmeticNeeds).foldl (fun needs c =>
      if needs.capabilities.contains c then needs else needs ++ .capability c) found

end Module

end ShaderGen
