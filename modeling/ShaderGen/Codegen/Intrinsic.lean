import ShaderGen.Codegen.Arithmetic
import ShaderGen.Codegen.Call
import ShaderGen.Codegen.Image

/-!
# Intrinsic functions

What each strategy makes of the arguments. Arguments are evaluated in order, to addresses where the
intrinsic writes through them and to values elsewhere. Where an address is needed and the argument
has none, the instruction writes a variable that is copied back afterwards.
-/

namespace ShaderGen

/-- One of three alternatives, by the scalar kind of a type. All that is no integer counts as
floating-point. -/
def ShaderType.byKind {α : Type} (t : ShaderType) (float signed unsigned : α) : α :=
  match t.basic with
  | .int _ => signed
  | .uint _ => unsigned
  | _ => float

/-- The intrinsics that take a scalar where the other arguments are vectors. -/
def Intrinsic.replicatesScalars : Intrinsic → Bool
  | .min | .max | .clamp | .mix | .step | .smoothStep | .mod | .fma => true
  | _ => false

/-- The masks that say what memory a barrier orders. -/
inductive MemorySemantics
  | acquireRelease | uniform | workgroup | image
  deriving DecidableEq, Inhabited

def MemorySemantics.mask : MemorySemantics → Nat
  | .acquireRelease => 8
  | .uniform => 64
  | .workgroup => 256
  | .image => 2048

namespace MemorySemantics

def ordering (memory : List MemorySemantics) : Nat :=
  memory.foldr (fun m rest => m.mask + rest) acquireRelease.mask

def everything : Nat := ordering [uniform, workgroup, image]

end MemorySemantics

namespace Codegen

/-! ## Operands -/

def addressOperand (p : Program) (argument : Deferred) : Codegen (Ident × List CopyBack) := do
  let path ← argument.path
  if path.isAddressable then return (← path.pointer, [])
  else
    let type ← valueType p argument.type
    let var ← Builder.localVariable "scratch" type
    return (var, [{ path, var, type }])

/-- Evaluates the arguments of an intrinsic in order. Gives the operands, and what has to be copied
back. -/
def operands (p : Program) (op : Intrinsic) (arguments : List Deferred) :
    Codegen (List Ident × List CopyBack) := do
  let evaluated ← arguments.zipIdx.mapM fun (argument, i) => do
    if op.addressArguments.contains i then addressOperand p argument
    else return ((← argument.value p).id, [])
  return (evaluated.map Prod.fst, evaluated.flatMap Prod.snd)

/-- Replicates scalar operands to the length of a vector result, where the intrinsic allows for
it. -/
def replicateScalars (p : Program) (op : Intrinsic) (values : List Ident)
    (arguments : List Deferred) (result : ShaderType) : Codegen (List Ident) := do
  if !result.isVector || !op.replicatesScalars then return values
  else
    (values.zip arguments).mapM fun (value, argument) =>
      if argument.type.isScalar then broadcast p ⟨value, argument.type⟩ result else return value

def resultOf (v : Value) (info : Info) : Outcome :=
  if info.type.isVoid then .void else .value v

/-! ## Instructions with the arguments as operands -/

/-- `mix` with truth values as its last argument, which selects instead of blending. -/
def mixByTruth (p : Program) (arguments : List Deferred) (info : Info) (type : Ident) :
    Codegen Outcome := do
  match arguments with
  | [x, y, a] =>
    let x ← x.value p
    let y ← y.value p
    let selector ← a.evaluate p
    let selector ← if info.type.isVector && a.type.isScalar then broadcast p selector info.type
      else pure selector.id
    return .value { id := ← emitOn .select type [selector, y.id, x.id], type }
  | _ => failAt info.span .takesThreeArguments

def libraryIntrinsic (p : Program) (op : Intrinsic) (number : Nat) (arguments : List Deferred)
    (info : Info) : Codegen Outcome := do
  let type ← valueType p info.type
  if op = .mix && arguments[2]?.any fun a => a.type.isBool then
    mixByTruth p arguments info type
  else
    let (values, backs) ← operands p op arguments
    let values ← replicateScalars p op values arguments info.type
    let set ← Builder.librarySet
    let id ← Builder.emit .extInst type (.ref set :: .literal number :: Operand.refs values)
    backs.forM CopyBack.run
    return resultOf { id, type } info

def coreIntrinsic (p : Program) (op : Intrinsic) (opcode : Opcode) (arguments : List Deferred)
    (info : Info) : Codegen Outcome := do
  let (values, backs) ← operands p op arguments
  let values ← replicateScalars p op values arguments info.type
  if info.type.isVoid then
    Builder.emitVoid opcode (Operand.refs values)
    backs.forM CopyBack.run
    return .void
  else
    let type ← valueType p info.type
    let id ← emitOn opcode type values
    backs.forM CopyBack.run
    return .value { id, type }

def compareIntrinsic (p : Program) (op : Intrinsic) (operator : BinaryOp)
    (arguments : List Deferred) (info : Info) : Codegen Outcome := do
  match arguments with
  | [left, right] => binaryOperation p operator left right info
  | _ => failAt info.span (.takesTwoArguments op)

/-! ## Arithmetic with two results -/

/-- The structure of two equal members that such an instruction gives. -/
def pairType (part : Ident) : Codegen Ident := do
  match (← get).pairTypes.lookup part with
  | some type => return type
  | none =>
    let type ← Builder.typeStruct [part, part] "ResType"
    modify fun s => { s with pairTypes := (part, type) :: s.pairTypes }
    return type

/-- Sums give the low word and write the carry; products write the high word and then the low
one. -/
def deliverPair (op : Opcode) (low high type : Ident) (outputs : List Ident) (span : Span) :
    Codegen Outcome := do
  match op, outputs with
  | .iAddCarry, [carry] | .iSubBorrow, [carry] =>
    storeTo carry high
    return .value { id := low, type }
  | .uMulExtended, [top, bottom] | .sMulExtended, [top, bottom] =>
    storeTo top high
    storeTo bottom low
    return .void
  | _, _ => failAt span (.outputCount op outputs.length)

def twoResultIntrinsic (p : Program) (op : Intrinsic) (opcode : Opcode)
    (arguments : List Deferred) (info : Info) : Codegen Outcome := do
  match arguments with
  | [] => failAt info.span (.needsTwoOperands opcode)
  | first :: _ =>
    let part ← valueType p first.type
    match ← operands p op arguments with
    | (x :: y :: outputs, backs) =>
      let type ← pairType part
      let pair ← emitOn opcode type [x, y]
      let low ← extract part pair [0]
      let high ← extract part pair [1]
      let result ← deliverPair opcode low high part outputs info.span
      backs.forM CopyBack.run
      return result
    | _ => failAt info.span (.needsTwoOperands opcode)

/-! ## Atomic operations -/

def imageAtomicIntrinsic (p : Program) (op : Intrinsic) (opcode : Opcode)
    (arguments : List Deferred) (info : Info) : Codegen Outcome := do
  match ← operands p op arguments with
  | ([image, coordinates, data], []) =>
    let type ← valueType p info.type
    let pointerType ← Builder.typePointer .image type
    let sample ← Builder.constWord 0
    let texel ← emitOn .imageTexelPointer pointerType [image, coordinates, sample]
    let scope ← Builder.constWord Scope.device.code
    let semantics ← Builder.constWord 0
    return .value { id := ← emitOn opcode type [texel, scope, semantics, data], type }
  | ([_, _, _], _) => failAt info.span .imageAtomicWithoutStorage
  | _ => failAt info.span .imageAtomicArguments

def isPlainAtomic : Opcode → Bool
  | .atomicExchange | .atomicLoad | .atomicStore => true
  | _ => false

def unsignedAtomic : Opcode → Opcode
  | .atomicSMin => .atomicUMin
  | .atomicSMax => .atomicUMax
  | op => op

/-- The instruction of an atomic operation. `place` is the address with the scope and the
semantics. -/
def emitAtomic (opcode : Opcode) (type : Ident) (place : List Ident) (semantics : Ident)
    (data : List Ident) (span : Span) : Codegen Outcome := do
  match opcode, data with
  | .atomicStore, data =>
    Builder.emitVoid .atomicStore (Operand.refs (place ++ data))
    return .void
  | .atomicLoad, _ => return .value { id := ← emitOn .atomicLoad type place, type }
  | .atomicCompareExchange, comparator :: new :: _ =>
    let id ← emitOn .atomicCompareExchange type (place ++ [semantics, new, comparator])
    return .value { id, type }
  | .atomicCompareExchange, _ => failAt span .compareSwapArguments
  | opcode, data => return .value { id := ← emitOn opcode type (place ++ data), type }

def atomicIntrinsic (p : Program) (op : Intrinsic) (opcode : Opcode) (arguments : List Deferred)
    (info : Info) : Codegen Outcome := do
  match arguments with
  | [] => failAt info.span (.withoutTarget op)
  | target :: _ =>
    let t := target.type
    if t.isFloat && !isPlainAtomic opcode then
      unsupported p s!"floating-point {Named.name op}" info
    else
      let (values, backs) ← operands p op arguments
      if !backs.isEmpty then failAt target.span .atomicWithoutStorage
      if t.bitWidth = 64 then Builder.addCapability .int64Atomics
      let opcode := if t.isUnsignedInt then unsignedAtomic opcode else opcode
      let type ← valueType p t
      let scope ← Builder.constWord Scope.device.code
      let relaxed ← Builder.constWord 0
      emitAtomic opcode type (values.take 1 ++ [scope, relaxed]) relaxed (values.drop 1) info.span

/-! ## Barriers and groups -/

/-- Whether a barrier waits for the other invocations, and the scope and mask by which it orders
memory. -/
def barrierParts (op : Intrinsic) (stage : Stage) : Bool × Scope × Nat :=
  match op with
  | .barrier =>
    if stage = .tessControl then (true, .invocation, 0)
    else (true, .workgroup, MemorySemantics.ordering [.workgroup])
  | .memoryBarrier => (false, .device, MemorySemantics.everything)
  | .memoryBarrierBuffer => (false, .device, MemorySemantics.ordering [.uniform])
  | .memoryBarrierShared => (false, .device, MemorySemantics.ordering [.workgroup])
  | .memoryBarrierImage => (false, .device, MemorySemantics.ordering [.image])
  | _ => (false, .workgroup, MemorySemantics.everything)

def barrierIntrinsic (p : Program) (op : Intrinsic) : Codegen Outcome := do
  let (waits, scope, semantics) := barrierParts op p.stage
  let scope ← Builder.constWord scope.code
  let semantics ← Builder.constWord semantics
  if waits then
    let execution ← Builder.constWord Scope.workgroup.code
    Builder.emitVoid .controlBarrier (Operand.refs [execution, scope, semantics])
  else Builder.emitVoid .memoryBarrier (Operand.refs [scope, semantics])
  return .void

/-- The instruction of an operation among the invocations of a subgroup, with the operands in front
of the arguments. -/
def subgroupOpcode? (op : Intrinsic) (t : ShaderType) : Option (Opcode × List Operand) :=
  match op with
  | .subgroupElect => some (.groupNonUniformElect, [])
  | .subgroupAll => some (.groupNonUniformAll, [])
  | .subgroupAny => some (.groupNonUniformAny, [])
  | .subgroupBroadcastFirst => some (.groupNonUniformBroadcastFirst, [])
  | .subgroupAdd =>
    some (t.byKind .groupNonUniformFAdd .groupNonUniformIAdd .groupNonUniformIAdd, [.reduce])
  | .subgroupMin =>
    some (t.byKind .groupNonUniformFMin .groupNonUniformSMin .groupNonUniformUMin, [.reduce])
  | .subgroupMax =>
    some (t.byKind .groupNonUniformFMax .groupNonUniformSMax .groupNonUniformUMax, [.reduce])
  | _ => none

def subgroupIntrinsic (p : Program) (op : Intrinsic) (arguments : List Deferred) (info : Info) :
    Codegen Outcome := do
  if !(← builder).version.atLeast .v1_3 then
    unsupported p s!"{Named.name op} before SPIR-V 1.3" info
  else
    let scope ← Builder.constWord Scope.subgroup.code
    if op = .subgroupBarrier then
      let semantics ← Builder.constWord MemorySemantics.everything
      Builder.emitVoid .controlBarrier (Operand.refs [scope, scope, semantics])
      return .void
    else
      let (values, _) ← operands p op arguments
      let type ← valueType p info.type
      match subgroupOpcode? op info.type with
      | none => unsupported p s!"subgroup built-in {Named.name op}" info
      | some (opcode, front) =>
        let id ← Builder.emit opcode type (.ref scope :: front ++ Operand.refs values)
        return .value { id, type }

/-! ## Rays -/

/-- The queries that say by a constant whether they are about the committed intersection. -/
def selectsIntersection : Opcode → Bool
  | .rayQueryGetIntersectionTypeKHR | .rayQueryGetIntersectionTKHR => true
  | _ => false

/-- The number of an intersection by the constant that selects it. -/
def intersectionNumber : ConstantValue → Nat
  | .bool committed => committed.toNat
  | value => value.toUInt32?.getD 0

def selectIntersection (op : Intrinsic) (arguments : List Deferred) (values : List Ident)
    (span : Span) : Codegen (List Ident) := do
  match arguments[1]?.bind fun a => a.node.constant? with
  | none => failAt span (.selectorNotConstant op)
  | some selector =>
    let selector ← Builder.constWord (intersectionNumber selector)
    return values.set 1 selector

def rayQueryIntrinsic (p : Program) (op : Intrinsic) (opcode : Opcode)
    (arguments : List Deferred) (info : Info) : Codegen Outcome := do
  let (values, _) ← operands p op arguments
  let values ← if selectsIntersection opcode then
      selectIntersection op arguments values info.span
    else pure values
  if info.type.isVoid then
    Builder.emitVoid opcode (Operand.refs values)
    return .void
  else
    let type ← valueType p info.type
    return .value { id := ← emitOn opcode type values, type }

/-! ## All intrinsics -/

/-- An operation of a mesh pipeline. Starting the mesh stage ends the invocation. -/
def meshIntrinsic (p : Program) (op : Intrinsic) (opcode : Opcode) (arguments : List Deferred)
    (info : Info) : Codegen Outcome := do
  if opcode = .emitMeshTasksEXT then
    let (values, _) ← operands p op arguments
    Builder.terminate .emitMeshTasksEXT (Operand.refs values)
    return .void
  else coreIntrinsic p op opcode arguments info

def intrinsic (p : Program) (op : Intrinsic) (arguments : List Deferred) (info : Info) :
    Codegen Outcome := do
  Builder.require op.requirements
  let pick {α : Type} (float signed unsigned : α) : α :=
    match arguments with
    | [] => float
    | first :: _ => first.type.byKind float signed unsigned
  match op.strategy with
  | .library number => libraryIntrinsic p op number arguments info
  | .libraryByKind f s u => libraryIntrinsic p op (pick f s u) arguments info
  | .core opcode => coreIntrinsic p op opcode arguments info
  | .coreByKind f s u =>
    let opcode := pick f s u
    if opcode = .nop then unsupported p s!"{Named.name op} on floating-point operands" info
    else coreIntrinsic p op opcode arguments info
  | .compare operator => compareIntrinsic p op operator arguments info
  | .twoResult opcode => twoResultIntrinsic p op opcode arguments info
  | .image => imageIntrinsic p op arguments info
  | .imageAtomic opcode => imageAtomicIntrinsic p op opcode arguments info
  | .atomic opcode => atomicIntrinsic p op opcode arguments info
  | .barrier => barrierIntrinsic p op
  | .primitive opcode =>
    Builder.emitVoid opcode []
    return .void
  | .subgroup => subgroupIntrinsic p op arguments info
  | .rayQuery opcode => rayQueryIntrinsic p op opcode arguments info
  | .rayTracing opcode => coreIntrinsic p op opcode arguments info
  | .mesh opcode => meshIntrinsic p op opcode arguments info

end Codegen

end ShaderGen
