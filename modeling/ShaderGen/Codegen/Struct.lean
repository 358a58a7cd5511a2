import ShaderGen.Codegen.State
import ShaderGen.Interface.Decorations
import ShaderGen.Interface.Stages
import ShaderGen.Layout.Placement

/-!
# Structures

A structure of the program has one type in the module for each way it is laid out and used: by
packing and majorness, by the storage of the block it is declared as, and by whether it is the
element of an array. The types of the members come from a `Typer` that is passed in, since members
may hold further structures.
-/

namespace ShaderGen

/-- A type together with the place it is wanted in. -/
structure TypeRequest where
  type : ShaderType
  packing : Packing := .none
  rowMajor : Bool := false
  /-- The last member of a buffer block may be an array without a length. -/
  lastMember : Bool := false
  deriving DecidableEq, Inhabited

abbrev Typer := TypeRequest → Codegen Ident

/-- A type of the program as the type of a value, outside of any layout. -/
def TypeRequest.plain (t : ShaderType) : TypeRequest :=
  { type := { t with qualifier := {} } }

namespace Program

def isBlock (p : Program) (id : StructId) : Bool :=
  match p.struct? id with
  | some s => s.qualifier.storage != .temporary
  | none => false

/-- The members that exist in the module, with their positions in the source. -/
def presentMembers (p : Program) (s : StructDecl) : List (StructMember × Nat) :=
  s.members.zipIdx.filter fun m => p.hasMember m.1

/-- Numbers the members that exist in the module, from `next` on. -/
def numberMembers (p : Program) : Nat → List StructMember → List (Option Nat)
  | _, [] => []
  | next, m :: rest =>
    if p.hasMember m then some next :: p.numberMembers (next + 1) rest
    else none :: p.numberMembers next rest

/-- Whether the offsets, sizes and strides of a structure are words of 32 bits. -/
def layoutFits (p : Program) (k : Packing) (s : StructDecl) (rowMajor : Bool) : Bool :=
  let layout := p.structLayout k s rowMajor
  layout.whole.size < UInt32.size && layout.whole.align < UInt32.size &&
    (p.presentMembers s).all fun (m, source) =>
      let row := m.type.isRowMajor rowMajor
      layout.offsets[source]?.getD 0 + (p.footprint k m.type row).size < UInt32.size &&
        m.type.matrixStride k row < UInt32.size

end Program

/-- How a structure is laid out and used. -/
structure StructUse where
  /-- The qualifiers of the declaration that has the structure as its type. -/
  qualifier : Qualifier
  packing : Packing
  rowMajor : Bool
  arrayed : Bool
  deriving DecidableEq, Inhabited

def TypeRequest.structUse (r : TypeRequest) (arrayed : Bool) : StructUse :=
  { qualifier := r.type.qualifier, packing := r.packing, rowMajor := r.rowMajor, arrayed }

namespace StructUse

def key (use : StructUse) (p : Program) (id : StructId) : StructVariant :=
  { id, packing := use.packing, rowMajor := use.rowMajor
    block := if p.isBlock id then some use.qualifier.storage else none
    arrayed := use.arrayed }

def isShared (use : StructUse) : Bool :=
  !use.qualifier.changesMembers

/-- The decorations of a member that connects pipeline stages. What the member does not say about
interpolation, the block does. -/
def decoratePipeMember (use : StructUse) (stage : Stage) (struct : Ident) (k : Nat)
    (m : Qualifier) : Emit Unit := do
  let interpolation :=
    if m.interpolation = .none then use.qualifier.interpolation else m.interpolation
  interpolation.decoration?.forM (Builder.decorateMember struct k)
  let auxiliary := if m.auxiliary = .none then use.qualifier.auxiliary else m.auxiliary
  match auxiliary.decoration? with
  | some d =>
    Builder.require (auxiliary.requirements stage)
    Builder.decorateMember struct k d
  | none => pure ()

/-- The byte offset of a member, if it has one: the one asked for by transform feedback, or the one
by the packing. -/
def offset? (use : StructUse) (offsets : List Nat) (m : StructMember) (source : Nat) : Option Nat :=
  match m.type.qualifier.layout.xfbOffset with
  | some offset => some offset
  | none => if use.packing.isExplicit then offsets[source]? else none

/-- Names and decorates one member, which is number `k` in the module and number `source` in the
program. -/
def decorateMember (use : StructUse) (p : Program) (struct : Ident) (offsets : List Nat)
    (m : StructMember) (source k : Nat) : Emit Unit := do
  let q := m.type.qualifier
  Builder.nameMember struct k m.name
  q.precision.decoration?.forM (Builder.decorateMember struct k)
  if use.qualifier.storage.isPipe then use.decoratePipeMember p.stage struct k q
  if q.invariant || use.qualifier.invariant then Builder.decorateMember struct k .invariant
  if use.qualifier.storage = .buffer then
    let memory := q.memory.union use.qualifier.memory
    (memory.decorations (← get).vulkanMemoryModel).forM (Builder.decorateMember struct k)
  if !use.arrayed then
    q.layout.location.forM (Builder.decorateMemberWith struct k .location)
  q.layout.component.forM (Builder.decorateMemberWith struct k .component)
  (use.offset? offsets m source).forM (Builder.decorateMemberWith struct k .offset)
  if use.packing.isExplicit && 0 < m.type.matrixCols then
    let rowMajor := m.type.isRowMajor use.rowMajor
    Builder.decorateMember struct k (majorness rowMajor)
    Builder.decorateMemberWith struct k .matrixStride (m.type.matrixStride use.packing rowMajor)
  Builder.require (builtInRequirements q.builtIn p.stage true)
  q.builtIn.forM (Builder.decorateMemberBuiltIn struct k)

def decorate (use : StructUse) (p : Program) (id : StructId) (s : StructDecl) (struct : Ident) :
    Emit Unit := do
  let offsets := (p.structLayout use.packing s use.rowMajor).offsets
  (p.presentMembers s).zipIdx.forM fun ((m, source), k) =>
    use.decorateMember p struct offsets m source k
  match (use.key p id).block with
  | some storage => (storage.blockDecoration? p.target).forM (Builder.decorate struct)
  | none => pure ()

end StructUse

namespace Codegen

def memberTypes (p : Program) (typer : Typer) (s : StructDecl) (use : StructUse) :
    Codegen (List Ident) :=
  (p.presentMembers s).mapM fun (m, source) =>
    typer
      { type := m.type, packing := use.packing, rowMajor := m.type.isRowMajor use.rowMajor
        lastMember := use.qualifier.storage == .buffer && source == s.members.length - 1 }

/-- A new type for a structure. While its members are being typed, the structure counts as
underway. -/
def newStructType (p : Program) (typer : Typer) (id : StructId) (s : StructDecl) (use : StructUse) :
    Codegen Ident := do
  modify fun st => { st with underway := id :: st.underway }
  let members ← memberTypes p typer s use
  modify fun st =>
    { st with
      underway := st.underway.filter (· != id)
      memberTables := (id, p.numberMembers 0 s.members) :: st.memberTables }
  ensureFits (!use.packing.isExplicit || p.layoutFits use.packing s use.rowMajor)
  let type ← Builder.typeStruct members s.name
  use.decorate p id s type
  return type

def structType (p : Program) (typer : Typer) (id : StructId) (use : StructUse) :
    Codegen Ident := do
  let s ← p.struct id
  let key := use.key p id
  match (← get).structTypes.lookup key, use.isShared with
  | some type, true => return type
  | _, true =>
    let type ← newStructType p typer id s use
    modify fun st => { st with structTypes := (key, type) :: st.structTypes }
    return type
  | _, false => newStructType p typer id s use

end Codegen

end ShaderGen
