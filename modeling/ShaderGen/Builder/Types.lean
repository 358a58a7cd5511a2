import ShaderGen.Builder.Declaration

/-!
# Types of the module

A type without an identity of its own is declared once: asking for it again gives the id of the
first declaration with the same operation and operands. Structures, arrays with a stride and
announced pointers have an identity of their own, because decorations and forward references hang on
their ids.
-/

namespace ShaderGen.Builder

/-- Remembers the form of a type, unless one is known already. -/
def record (id : Ident) (form : TypeForm) : Emit Unit :=
  modify fun b =>
    if (b.form? id).isSome then b else { b with types := (id, form) :: b.types }

/-- The id of the type with the given operation and operands, declared if there is none yet. -/
def sharedType (op : Opcode) (operands : List Operand) : Emit Ident := do
  match (← get).output.globals.find? fun i => i.op == op && i.operands == operands with
  | some { result := some id, .. } => return id
  | _ =>
    let id ← fresh
    appendGlobal { op, result := some id, operands }
    return id

def distinctType (op : Opcode) (operands : List Operand) : Emit Ident := do
  let id ← fresh
  appendGlobal { op, result := some id, operands }
  return id

def typeVoid : Emit Ident := do
  let id ← sharedType .typeVoid []
  record id .void
  return id

def typeBool : Emit Ident := do
  let id ← sharedType .typeBool []
  record id .bool
  return id

def typeInt (width : Nat) (signed : Bool) : Emit Ident := do
  if width = 64 then addCapability .int64
  let id ← sharedType .typeInt [.literal width, .literal signed.toNat]
  record id (.int width signed)
  return id

def typeFloat (width : Nat) : Emit Ident := do
  if width = 64 then addCapability .float64
  let id ← sharedType .typeFloat [.literal width]
  record id (.float width)
  return id

def typeWord : Emit Ident := typeInt 32 false

/-- A vector; one of a single component is that component. -/
def typeVector (component : Ident) (count : Nat) : Emit Ident := do
  if count ≤ 1 then return component
  let id ← sharedType .typeVector [.ref component, .literal count]
  record id (.vector component count)
  return id

def typeMatrix (column : Ident) (count : Nat) : Emit Ident := do
  let id ← sharedType .typeMatrix [.ref column, .literal count]
  record id (.matrix column count)
  return id

def typePointer (storage : StorageClass) (pointee : Ident) : Emit Ident := do
  match (← get).pointerTypes.lookup (storage, pointee) with
  | some id => return id
  | none =>
    let id ← sharedType .typePointer [.storage storage, .ref pointee]
    modify fun b => { b with pointerTypes := ((storage, pointee), id) :: b.pointerTypes }
    record id (.pointer storage (some pointee))
    return id

def announcePointer (storage : StorageClass) : Emit Ident := do
  let id ← fresh
  appendGlobal { op := .typeForwardPointer, operands := [.ref id, .storage storage] }
  record id (.pointer storage none)
  return id

def completePointer (id pointee : Ident) : Build Unit := do
  match (← get).form? id with
  | some (.pointer storage none) =>
    appendGlobal
      { op := .typePointer, result := some id, operands := [.storage storage, .ref pointee] }
    modify fun b => { b with types := (id, .pointer storage (some pointee)) :: b.types }
  | _ => Build.fail (.notForwardPointer id)

/-- Declares a type of the given operation and operands: with an identity of its own and a stride
when there is a stride, and shared otherwise. -/
def stridedType (op : Opcode) (operands : List Operand) (stride : Option Nat) : Emit Ident := do
  match stride with
  | some stride =>
    let id ← distinctType op operands
    decorateWith id .arrayStride stride
    return id
  | none => sharedType op operands

def typeArray (element length : Ident) (stride : Option Nat) : Emit Ident := do
  match (← get).arrayTypes.lookup (element, length, stride) with
  | some id => return id
  | none =>
    let id ← stridedType .typeArray [.ref element, .ref length] stride
    modify fun b => { b with arrayTypes := ((element, length, stride), id) :: b.arrayTypes }
    record id (.array element length stride)
    return id

def typeRuntimeArray (element : Ident) (stride : Option Nat) : Emit Ident := do
  match (← get).runtimeArrayTypes.lookup (element, stride) with
  | some id => return id
  | none =>
    let id ← stridedType .typeRuntimeArray [.ref element] stride
    modify fun b => { b with runtimeArrayTypes := ((element, stride), id) :: b.runtimeArrayTypes }
    record id (.runtimeArray element stride)
    return id

def typeStruct (members : List Ident) (text : String) : Emit Ident := do
  let id ← distinctType .typeStruct (Operand.refs members)
  name id text
  record id (.struct members)
  return id

def typeFunction (result : Ident) (parameters : List Ident) : Emit Ident := do
  let id ← sharedType .typeFunction (Operand.refs (result :: parameters))
  record id (.function result parameters)
  return id

def typeSampler : Emit Ident := do
  let id ← sharedType .typeSampler []
  record id .sampler
  return id

/-- The parameters of an image type. `usage` is one when the image is used with a sampler and two
when it is not. -/
structure ImageType where
  sampled : Ident
  dimension : Dimension
  depth : Bool
  arrayed : Bool
  multisampled : Bool
  usage : Nat
  format : ImageFormat
  deriving DecidableEq, Inhabited

def typeImage (i : ImageType) : Emit Ident := do
  let id ← sharedType .typeImage
    [.ref i.sampled, .dimension i.dimension, .literal i.depth.toNat, .literal i.arrayed.toNat,
     .literal i.multisampled.toNat, .literal i.usage, .format i.format]
  record id (.image i.sampled i.dimension)
  return id

def typeSampledImage (image : Ident) : Emit Ident := do
  let id ← sharedType .typeSampledImage [.ref image]
  record id (.sampledImage image)
  return id

def handleType (op : Opcode) (form : TypeForm) : Emit Ident := do
  match (← get).handleTypes.lookup op with
  | some id => return id
  | none =>
    let id ← distinctType op []
    modify fun b => { b with handleTypes := (op, id) :: b.handleTypes }
    record id form
    return id

def typeAccelerationStructure : Emit Ident :=
  handleType .typeAccelerationStructureKHR .accelerationStructure

def typeRayQuery : Emit Ident :=
  handleType .typeRayQueryKHR .rayQuery

/-! ## Questions about types -/

def contained? (b : Builder) (type : Ident) (member : Nat) : Option Ident :=
  match b.form? type with
  | some (.vector component _) => some component
  | some (.matrix column _) => some column
  | some (.array element _ _) | some (.runtimeArray element _) => some element
  | some (.struct members) => members[member]?
  | some (.pointer _ pointee) => pointee
  | _ => none

def pointee? (b : Builder) (type : Ident) : Option Ident :=
  match b.form? type with
  | some (.pointer _ pointee) => pointee
  | _ => none

def isBool (b : Builder) (type : Ident) : Bool :=
  b.form? type == some .bool

def isVector (b : Builder) (type : Ident) : Bool :=
  match b.form? type with
  | some (.vector _ _) => true
  | _ => false

def isScalar (b : Builder) (type : Ident) : Bool :=
  match b.form? type with
  | some .bool | some (.int _ _) | some (.float _) => true
  | _ => false

def isAggregate (b : Builder) (type : Ident) : Bool :=
  match b.form? type with
  | some (.struct _) | some (.array _ _ _) | some (.runtimeArray _ _) => true
  | _ => false

def componentCount (b : Builder) (type : Ident) : Nat :=
  match b.form? type with
  | some (.vector _ count) => count
  | _ => 1

def scalarOf (b : Builder) (type : Ident) : Ident :=
  match b.form? type with
  | some (.vector component _) => component
  | _ => type

def isWide (b : Builder) (type : Ident) : Bool :=
  match b.form? type with
  | some (.int 64 _) | some (.float 64) => true
  | _ => false

/-- The types of the parts of a structure, or of an array whose length is a literal. -/
def partTypes (b : Builder) (type : Ident) : Except Cause (List Ident) :=
  match b.form? type with
  | some (.struct members) => .ok members
  | some (.array element length _) =>
    match b.literal? length with
    | some n => .ok (List.replicate n element)
    | none => .error (.noLiteralLength type)
  | _ => .error (.notDecomposable type)

end ShaderGen.Builder
