import ShaderGen.Builder.State
import ShaderGen.Requirement

/-!
# Capabilities, extensions, names and decorations

Capabilities and extensions are declared once, in the order of first use. Names are kept only when
names for debugging are wanted and the name is not empty.
-/

namespace ShaderGen.Builder

/-- Keeps a record of a request that has been met. -/
def answer (request : Request) : Emit Unit :=
  modify fun b =>
    { b with answers := b.answers ++ [⟨request, b.output.capabilities, b.output.extensions⟩] }

def addCapability (c : Capability) : Emit Unit := do
  modify fun b =>
    if b.output.capabilities.contains c then b
    else { b with output.capabilities := b.output.capabilities ++ [c] }
  answer (.capability c)

def addExtension (name : String) : Emit Unit :=
  modify fun b =>
    if b.output.extensions.contains name then b
    else { b with output.extensions := b.output.extensions ++ [name] }

def useExtension (e : Extension) : Emit Unit := do
  if e.isNeededIn (← get).version then addExtension e.name
  answer (.extension e)

def require (r : Requirements) : Emit Unit := do
  r.capabilities.forM addCapability
  r.extensions.forM useExtension

def usePhysicalAddresses : Emit Unit := do
  addCapability .physicalStorageBufferAddresses
  useExtension .physicalStorageBuffer
  modify fun b => { b with addressing := .physicalStorageBuffer64 }

def importSet (name : String) : Emit Ident := do
  match (← get).output.imports.find? fun i => i.2 == name with
  | some i => return i.1
  | none =>
    let id ← fresh
    modify fun b => { b with output.imports := b.output.imports ++ [(id, name)] }
    return id

def librarySet : Emit Ident := importSet "GLSL.std.450"

def annotate (a : Annotation) : Emit Unit :=
  modify fun b => { b with output.annotations := b.output.annotations ++ [a] }

def decorate (target : Ident) (decoration : Decoration) : Emit Unit :=
  annotate { target, decoration }

def decorateWith (target : Ident) (decoration : Decoration) (value : Nat) : Emit Unit :=
  annotate { target, decoration, argument := some (.literal value) }

def decorateBuiltIn (target : Ident) (value : BuiltIn) : Emit Unit :=
  annotate { target, decoration := .builtIn, argument := some (.builtIn value) }

def decorateMember (target : Ident) (member : Nat) (decoration : Decoration) : Emit Unit :=
  annotate { target, member := some member, decoration }

def decorateMemberWith (target : Ident) (member : Nat) (decoration : Decoration) (value : Nat) :
    Emit Unit :=
  annotate { target, member := some member, decoration, argument := some (.literal value) }

def decorateMemberBuiltIn (target : Ident) (member : Nat) (value : BuiltIn) : Emit Unit :=
  annotate
    { target, member := some member, decoration := .builtIn, argument := some (.builtIn value) }

def addName (n : DebugName) : Emit Unit :=
  modify fun b =>
    if b.debugNames && !n.text.isEmpty then { b with output.names := b.output.names ++ [n] }
    else b

def name (target : Ident) (text : String) : Emit Unit :=
  addName { target, text }

def nameMember (target : Ident) (member : Nat) (text : String) : Emit Unit :=
  addName { target, member := some member, text }

def start (target : Target) (options : Options) : Builder :=
  let setup : Emit Unit := do
    addCapability .shader
    if target.vulkanMemoryModel then
      addCapability .vulkanMemoryModel
      useExtension .vulkanMemoryModel
  (setup.run
    { toCursor := default
      output := { version := options.version.getD target.version, generator := options.generator }
      vulkanMemoryModel := target.vulkanMemoryModel
      debugNames := options.debugNames }).2

end ShaderGen.Builder
