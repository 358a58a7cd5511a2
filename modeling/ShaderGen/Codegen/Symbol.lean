import ShaderGen.Codegen.Constant
import ShaderGen.Codegen.Reference

/-!
# Symbols

A symbol is bound when it is first needed: a specialization constant and a constant with a value to
values, every other one to a variable, at module scope or in the function under construction.
-/

namespace ShaderGen

/-- The packing and majorness by which a variable of this type is laid out. Only blocks in buffers
are. -/
def ShaderType.blockLayout (t : ShaderType) : Packing × Bool :=
  let q := t.qualifier
  if !(t.isBlock && (q.isUniformOrBuffer || q.layout.pushConstant)) then (.none, false)
  else
    let packing :=
      if q.layout.packing.isExplicit then q.layout.packing
      else if q.storage = .buffer || q.layout.pushConstant then .std430
      else .std140
    (packing, q.layout.matrix == .rowMajor)

/-- Variables that ray tracing stages pass to one another. Their locations number the variables of
one shader only, and are not written out. -/
def Storage.isRayPayload : Storage → Bool
  | .rayPayload | .rayPayloadIn | .callableData | .callableDataIn | .hitAttribute => true
  | _ => false

def Storage.isLocal : Storage → Bool
  | .temporary | .paramIn | .paramOut | .paramInOut | .paramConst | .constant => true
  | _ => false

def Program.isGlobal (p : Program) (id : SymbolId) (s : Symbol) : Bool :=
  p.globals.contains id || !s.type.qualifier.storage.isLocal

namespace Codegen

/-! ## Decorations of variables -/

def decoratePlace (var : Ident) (q : Qualifier) (target : Target) : Emit Unit := do
  let l := q.layout
  if !q.storage.isRayPayload then l.location.forM (Builder.decorateWith var .location)
  l.component.forM (Builder.decorateWith var .component)
  l.inputAttachmentIndex.forM (Builder.decorateWith var .inputAttachmentIndex)
  match l.set with
  | some set => Builder.decorateWith var .descriptorSet set
  | none =>
    if l.binding.isSome && target.vulkan then Builder.decorateWith var .descriptorSet 0
  l.binding.forM (Builder.decorateWith var .binding)

def decorateMeaning (var : Ident) (meaning : BuiltIn) : Codegen Unit := do
  Builder.decorateBuiltIn var meaning
  if meaning = .fragDepth then modify fun s => { s with replacesDepth := true }
  if meaning = .helperInvocation && (← builder).version.atLeast .v1_6 then
    Builder.decorate var .volatile

/-- Whether a variable of a storage class is interpolated on its way into or out of a stage. -/
def isInterpolated (storage : StorageClass) (stage : Stage) : Bool :=
  (storage == .input && stage != .vertex) || (storage == .output && stage != .fragment)

def decorateTreatment (var : Ident) (q : Qualifier) (storage : StorageClass) (stage : Stage) :
    Emit Unit := do
  if isInterpolated storage stage then
    q.interpolation.decoration?.forM (Builder.decorate var)
  match q.auxiliary.decoration? with
  | some d =>
    Builder.require (q.auxiliary.requirements stage)
    Builder.decorate var d
  | none => pure ()
  q.invariantDecoration?.forM (Builder.decorate var)
  q.precision.decoration?.forM (Builder.decorate var)

/-- How the memory of a variable is accessed, and how transform feedback captures it. The members of
a block say so themselves. -/
def decorateMemory (var : Ident) (t : ShaderType) : Emit Unit := do
  let q := t.qualifier
  if !t.isBlock then
    (q.memory.decorations (← get).vulkanMemoryModel).forM (Builder.decorate var)
    q.layout.xfbOffset.forM (Builder.decorateWith var .offset)
  match q.layout.xfbBuffer with
  | some buffer =>
    Builder.decorateWith var .xfbBuffer buffer
    Builder.addCapability .transformFeedback
  | none => pure ()
  q.layout.xfbStride.forM (Builder.decorateWith var .xfbStride)

def decorateObject (p : Program) (var : Ident) (t : ShaderType) (storage : StorageClass) :
    Codegen Unit := do
  let q := t.qualifier
  decoratePlace var q p.target
  Builder.require (builtInRequirements q.builtIn p.stage false)
  q.builtIn.forM (decorateMeaning var)
  decorateTreatment var q storage p.stage
  decorateMemory var t

/-! ## Bindings -/

/-- A specialization constant with its default, which is zero if the program gives none. -/
def specConstant (p : Program) (typer : Typer) (s : Symbol) : Codegen Binding := do
  let type ← typer (.plain s.type)
  let id ← match s.value.getD (.int 0) with
    | .composite parts => do
      let types ← constituents p s.type parts.length
      let ids ← constants p typer parts types
      Builder.specComposite type ids
    | value => Builder.specBits type (literalBits value s.type)
  s.type.qualifier.layout.specId.forM fun n => (Builder.decorateWith id .specId n : Codegen Unit)
  Builder.name id s.name
  return .value id type

def globalObject (p : Program) (typer : Typer) (s : Symbol) : Codegen Binding := do
  let storage := match s.type.storageClass p.target with
    | .function => .privateMemory
    | storage => storage
  let (packing, rowMajor) := s.type.blockLayout
  let type ← typer { type := s.type, packing, rowMajor }
  let var ← Builder.globalVariable type storage s.name none
  decorateObject p var s.type storage
  return .object var type storage

def localObject (typer : Typer) (s : Symbol) : Codegen Binding := do
  let type ← typer (.plain s.type)
  let var ← Builder.localVariable s.name type
  s.type.qualifier.precision.decoration?.forM fun d =>
    (Builder.decorate var d : Codegen Unit)
  return .object var type .function

def newBinding (p : Program) (typer : Typer) (id : SymbolId) (s : Symbol) : Codegen Binding := do
  if s.type.qualifier.specConstant then specConstant p typer s
  else
    match s.type.qualifier.storage, s.value with
    | .constant, some value =>
      let type ← typer (.plain s.type)
      return .value (← constant p typer value s.type) type
    | _, _ =>
      if p.isGlobal id s then
        modify fun st => { st with globals := id :: st.globals }
        globalObject p typer s
      else localObject typer s

/-- What a symbol is bound to; it is bound if it is not yet. -/
def bindingOf (p : Program) (typer : Typer) (id : SymbolId) : Codegen Binding := do
  match (← get).bindings.lookup id with
  | some binding => return binding
  | none =>
    let s ← p.symbol id
    let binding ← newBinding p typer id s
    bind id binding
    return binding

end Codegen

end ShaderGen
