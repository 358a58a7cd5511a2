import ShaderGen.Access.Path

/-!
# Loads and stores through a path

A load gives the designated part in the type that is asked for. A store writes it; where only some
components of a vector are designated, the others are read and written back, and an aggregate in
another representation is stored part by part.
-/

namespace ShaderGen.AccessPath

def memoryOperands (path : AccessPath) (isStore : Bool) : Emit (List Operand) := do
  let vulkan := (← get).vulkanMemoryModel
  Builder.require (path.coherency.accessNeeds vulkan)
  let access := path.coherency.memoryAccess vulkan
  let alignment := path.guaranteedAlignment
  let access : MemoryAccess :=
    { access with
      visible := access.visible && !isStore
      available := access.available && isStore
      aligned := path.storage == .physicalStorageBuffer && 0 < alignment }
  if access.isEmpty then return []
  let aligned := if access.aligned then [.literal alignment] else []
  if access.visible || access.available then
    Builder.require (path.coherency.scopeNeeds vulkan)
    let scope ← Builder.constWord ((path.coherency.scope? vulkan).getD .device).code
    return .mask access.bits :: aligned ++ [.ref scope]
  else return .mask access.bits :: aligned

def loadIndexed (path : AccessPath) : Build Ident := do
  let pointer ← path.address
  let operands ← path.memoryOperands false
  let id ← Builder.emit .load path.type (.ref pointer :: operands)
  path.markNonUniform id
  return id

/-- The value that the indices lead to. A value that is indexed at run time goes through a
variable. -/
def fetch (path : AccessPath) : Build Ident := do
  if !path.isValue then path.loadIndexed
  else if path.indices.isEmpty then return path.base
  else
    match path.literals? (← get) with
    | some literals =>
      Builder.emit .compositeExtract path.type (.ref path.base :: literals.map .literal)
    | none =>
      let holder ← Builder.localVariable "indexable" path.baseType
      Builder.emitVoid .store [.ref holder, .ref path.base]
      { path with base := holder, isValue := false, storage := .function }.loadIndexed

def pickComponents (path : AccessPath) (value : Ident) : Build (Ident × Ident) := do
  let scalar := (← get).scalarOf path.type
  match path.swizzle with
  | [] => return (value, path.type)
  | [s] => return (← Builder.emit .compositeExtract scalar [.ref value, .literal s], scalar)
  | swizzle =>
    let type ← Builder.typeVector scalar swizzle.length
    let picked ← Builder.emit .vectorShuffle type
      (.ref value :: .ref value :: swizzle.map .literal)
    return (picked, type)

def load (path : AccessPath) (wanted : Ident) : Build Ident := do
  let path ← (← path.resolveComponent).simplify
  let whole ← path.fetch
  let (picked, pickedType) ← path.pickComponents whole
  let (value, type) ← match path.component with
    | none => pure (picked, pickedType)
    | some component => do
      let scalar := (← get).scalarOf pickedType
      let value ← Builder.emit .vectorExtractDynamic scalar [.ref picked, .ref component]
      pure (value, scalar)
  if type = wanted then return value
  else Builder.recast value type wanted

def storeIndexed (path : AccessPath) (value : Ident) : Build Unit := do
  let pointer ← path.address
  let operands ← path.memoryOperands true
  Builder.emitVoid .store (.ref pointer :: .ref value :: operands)

/-- The components of a shuffle that replaces the components in `swizzle` of a vector of the given
size by those of a second vector. -/
def replacing (swizzle : List Nat) (size : Nat) : List Nat :=
  (List.range size).map fun i =>
    match swizzle.findIdx? (· == i) with
    | some k => size + k
    | none => i

/-- Turns a run-time component of a vector in memory into an index. -/
def indexComponent (path : AccessPath) (b : Builder) : AccessPath :=
  match path.component with
  | some component =>
    { path with
      component := none, indices := path.indices ++ [component], type := b.scalarOf path.type }
  | none => path

/-- Stores a value through a path. Aggregates in another representation are left to `byParts`. -/
def storeWith (byParts : AccessPath → Ident → Ident → Build Unit)
    (path : AccessPath) (value type : Ident) : Build Unit := do
  let path ← (← path.resolveComponent).simplify
  let path := path.indexComponent (← get)
  if !path.swizzle.isEmpty then
    let scalar := (← get).scalarOf path.type
    let partialType ← Builder.typeVector scalar path.swizzle.length
    let replacement ←
      if type = partialType then pure value
      else Builder.recast value type partialType
    let whole ← path.loadIndexed
    let components := replacing path.swizzle ((← get).componentCount path.type)
    let merged ← Builder.emit .vectorShuffle path.type
      (.ref whole :: .ref replacement :: components.map .literal)
    path.storeIndexed merged
  else if type = path.type then path.storeIndexed value
  else if (← get).isAggregate path.type then byParts path value type
  else path.storeIndexed (← Builder.recast value type path.type)

def storeByPartsWithin : Nat → AccessPath → Ident → Ident → Build Unit
  | 0, _, _, _ => Build.fail .endless
  | depth + 1, path, value, type => do
    let store := storeWith (storeByPartsWithin depth)
    if type = path.type then store path value type
    else if (← get).canCopyLogically type path.type then
      let copied ← Builder.emit .copyLogical path.type [.ref value]
      store path copied path.type
    else
      let parts ← Build.ofExcept ((← get).partTypes type)
      parts.zipIdx.forM fun (part, i) => do
        let element ← Builder.emit .compositeExtract part [.ref value, .literal i]
        store (← path.selectMember i) element part

def storeByParts (path : AccessPath) (value type : Ident) : Build Unit := do
  storeByPartsWithin (← get).nesting path value type

def store (path : AccessPath) (value type : Ident) : Build Unit :=
  storeWith storeByParts path value type

end ShaderGen.AccessPath
