import ShaderGen.Access.Coherency
import ShaderGen.Access.Representation

/-!
# Access paths

A path designates a part of an object in memory, or of a value, without computing anything yet. It
collects indices, a selection of vector components, coherency and alignment from left to right, so
that `a.b[i].xy` comes out as one address computation and one load or store.
-/

namespace ShaderGen

structure AccessPath where
  /-- A pointer to the object, or the value itself. -/
  base : Ident
  baseType : Ident
  isValue : Bool := false
  indices : List Ident := []
  type : Ident
  /-- A component known only at run time, selected after the swizzle. -/
  component : Option Ident := none
  swizzle : List Nat := []
  preSwizzleType : Option Ident := none
  storage : StorageClass := .function
  coherency : Coherency := {}
  /-- All alignments along the path, or-ed together: the lowest bit is what is guaranteed. -/
  alignment : Nat := 0
  deriving DecidableEq, Inhabited

namespace AccessPath

def ofPointer (pointer type : Ident) (storage : StorageClass) : AccessPath :=
  { base := pointer, baseType := type, type, storage }

def ofValue (value type : Ident) : AccessPath :=
  { base := value, baseType := type, type, isValue := true }

def absorb (path : AccessPath) (coherency : Coherency) (alignment : Nat) : AccessPath :=
  { path with
    coherency := path.coherency.union coherency, alignment := path.alignment ||| alignment }

def hasSwizzle (path : AccessPath) : Bool :=
  !path.swizzle.isEmpty || path.component.isSome

def isAddressable (path : AccessPath) : Bool :=
  !path.isValue && path.component.isNone && path.swizzle.length ≤ 1

def guaranteedAlignment (path : AccessPath) : Nat :=
  path.alignment &&& (wordCount - path.alignment)

/-- Selects components of a vector. Components of a swizzle are those of the vector behind it. -/
def selectComponents (path : AccessPath) (components : List Nat) (vectorType : Ident) :
    Build AccessPath :=
  if path.component.isSome then Build.fail .swizzleAfterDynamicComponent
  else if path.swizzle.isEmpty then
    return { path with preSwizzleType := some vectorType, swizzle := components }
  else do
    let composed ← components.mapM fun c =>
      match path.swizzle[c]? with
      | some s => pure s
      | none => Build.fail (.componentOutOfRange c)
    return { path with swizzle := composed }

/-- Selects by an index. An index into a vector selects a component. -/
def selectIndex (path : AccessPath) (index : Ident) : Build AccessPath := do
  let b ← get
  let literal := (b.literal? index).map (· % wordCount)
  if path.hasSwizzle || b.isVector path.type then
    match literal, path.component with
    | some c, none => path.selectComponents [c] path.type
    | none, none => return { path with component := some index }
    | _, some _ => Build.fail .secondDynamicComponent
  else
    match b.contained? path.type (literal.getD 0) with
    | some type => return { path with indices := path.indices ++ [index], type }
    | none => Build.fail (.notIndexable path.type)

def selectMember (path : AccessPath) (member : Nat) : Build AccessPath := do
  path.selectIndex (← Builder.constSigned member)

def valueType (path : AccessPath) : Emit Ident := do
  let scalar := (← get).scalarOf path.type
  if path.component.isSome then return scalar
  else if path.swizzle.isEmpty then return path.type
  else Builder.typeVector scalar path.swizzle.length

def withoutSwizzle (path : AccessPath) : AccessPath :=
  { path with swizzle := [], preSwizzleType := none }

/-- Turns a run-time component of a swizzle into a component of the vector behind the swizzle. -/
def resolveComponent (path : AccessPath) : Build AccessPath := do
  match path.component with
  | none => return path
  | some component =>
    if 1 < path.swizzle.length then
      let word ← Builder.typeWord
      let tableType ← Builder.typeVector word path.swizzle.length
      let entries ← path.swizzle.mapM fun s => (Builder.constWord s : Build Ident)
      let table ← Builder.constComposite tableType entries
      let component ← Builder.emit .vectorExtractDynamic word [.ref table, .ref component]
      return { path.withoutSwizzle with component := some component }
    else return path.withoutSwizzle

/-- Drops a swizzle that selects all components in order, and turns one that selects a single
component of an object in memory into an index. -/
def simplify (path : AccessPath) : Emit AccessPath := do
  let b ← get
  let path :=
    if path.swizzle = List.range (b.componentCount path.type) then path.withoutSwizzle else path
  match path.isValue, path.component, path.swizzle with
  | false, none, [s] =>
    let index ← Builder.constWord s
    return { path.withoutSwizzle with
      indices := path.indices ++ [index], type := b.scalarOf path.type }
  | _, _, _ => return path

def literals? (path : AccessPath) (b : Builder) : Option (List Nat) :=
  path.indices.mapM fun i => (b.literal? i).map (· % wordCount)

/-- Marks an id as one that depends on a value that differs between invocations, if it does. -/
def markNonUniform (path : AccessPath) (id : Ident) : Emit Unit := do
  if path.coherency.nonUniform then
    Builder.require (.provided .shaderNonUniform .descriptorIndexing)
    Builder.decorate id .nonUniform

def address (path : AccessPath) : Build Ident := do
  if path.isValue then Build.fail .addressOfValue
  else if path.indices.isEmpty then return path.base
  else
    let type ← Builder.typePointer path.storage path.type
    let id ← Builder.emit .accessChain type (Operand.refs (path.base :: path.indices))
    path.markNonUniform id
    return id

def pointer (path : AccessPath) : Build Ident := do
  let path ← path.simplify
  if path.isAddressable then path.address else Build.fail .notAddressable

end AccessPath

end ShaderGen
