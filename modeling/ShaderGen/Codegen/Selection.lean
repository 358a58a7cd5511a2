import ShaderGen.Codegen.Value

/-!
# Selections

Indexing, member selection and swizzles extend the path to their left operand. Only a swizzle of a
scalar and the length of an array are values.
-/

namespace ShaderGen

def Node.selector? (n : Node) : Option Nat :=
  n.constant?.bind ConstantValue.toUInt32?

namespace Codegen

/-- Declares what it takes to index an array of resources by a value that is not constant. -/
def requireIndexing (element : ShaderType) (nonUniform : Bool) : Emit Unit := do
  match element.indexingCapability? nonUniform with
  | none => pure ()
  | some c =>
    Builder.addCapability c
    if nonUniform then Builder.useExtension .descriptorIndexing

def elementPath (p : Program) (base index : Deferred) (info : Info) : Codegen AccessPath := do
  let path ← base.path
  let i ← index.value p
  let nonUniform := index.type.qualifier.nonUniform || info.type.qualifier.nonUniform
  if base.type.isArray && index.node.constant?.isNone then
    requireIndexing base.type.elementType nonUniform
  let alignment :=
    if path.storage = .physicalStorageBuffer && base.type.isArray then
      p.arrayStride .std430 base.type false
    else 0
  let path := path.absorb { nonUniform } alignment
  path.selectIndex i.id

/-- The path to what a member selection looks into, and the structure that is. References are
followed. -/
def ownerPath (p : Program) (base : Deferred) : Codegen (AccessPath × StructId) := do
  match base.type.basic, base.type.isArray, base.type.structId? with
  | .reference id, false, _ =>
    let pointer ← base.value p
    let pointee ← followReference p (typer p) id
    let path := AccessPath.ofPointer pointer.id pointee .physicalStorageBuffer
    return (path.absorb {} (p.referenceAlignment id), id)
  | _, _, some id => return (← base.path, id)
  | _, _, none => failAt base.span .memberOfNonStruct

/-- A member of the object or value that a path leads to. Its qualifiers apply to accesses through
the path. -/
def selectSourceMember (p : Program) (path : AccessPath) (id : StructId) (source : Nat) :
    Codegen AccessPath := do
  let k ← memberPosition p id source
  match (p.struct? id).bind fun s => s.members[source]? with
  | none => fail (.noMember id source)
  | some m =>
    let q := m.type.qualifier
    Builder.require (builtInRequirements q.builtIn p.stage false)
    let alignment :=
      if path.storage = .physicalStorageBuffer then p.referentOffset id source else 0
    let path := path.absorb (.ofQualifier q m.type.isSampler) alignment
    path.selectMember k

def memberPath (p : Program) (base : Deferred) (index : Node) : Codegen AccessPath := do
  match index.selector? with
  | none => failAt index.span .memberNotConstant
  | some source =>
    let (path, id) ← ownerPath p base
    selectSourceMember p path id source

/-- A swizzle. One of a scalar replicates it. -/
def swizzle (p : Program) (base : Deferred) (components : List Nat) (info : Info) :
    Codegen Outcome := do
  if base.type.isScalar then
    let v ← base.value p
    let type ← valueType p info.type
    if components.length = 1 then return .value { id := v.id, type }
    else
      let id ← emitOn .compositeConstruct type (List.replicate components.length v.id)
      return .value { id, type }
  else
    let path ← base.path
    let path ← path.selectComponents components path.type
    return .path path

/-- The length of an array that has no length of its own: the last member of a block. -/
def runtimeLength (p : Program) (block : Deferred) (id : StructId) (source : Nat) (type : Ident) :
    Codegen Outcome := do
  let path ← block.path
  let k ← memberPosition p id source
  let pointer ← path.pointer
  let word ← Builder.typeWord
  let length ← Builder.emit .arrayLength word [.ref pointer, .literal k]
  let length ← if type = word then pure length else emitOn .bitcast type [length]
  return .value { id := length, type }

/-- `array.length()`. `member` is the member selection that gives the array, if it is one. -/
def arrayLength (p : Program) (array : ShaderType) (member : Option (Deferred × Node))
    (info : Info) : Codegen Outcome := do
  let type ← valueType p info.type
  match array.arrays.head?, member with
  | some (.sized n), _ =>
    let id ← Builder.constBits type n
    return .value { id, type }
  | _, none => unsupported p "length() of an array that is not a block member" info
  | _, some (block, index) =>
    match block.type.structId? with
    | none => unsupported p "length() through a buffer reference" info
    | some id =>
      match index.selector? with
      | none => failAt index.span .memberNotConstant
      | some source => runtimeLength p block id source type

end Codegen

end ShaderGen
