import ShaderGen.Codegen.Struct

/-!
# References to buffers

A reference is a pointer into a buffer that is laid out as a structure. A structure may hold
references to itself: while the members of a structure are being typed, the pointer type for
references to it is only announced, and it is declared once the structure has a type.
-/

namespace ShaderGen

namespace StructDecl

def referentUse (s : StructDecl) : StructUse :=
  { qualifier := s.qualifier
    packing := if s.qualifier.layout.packing.isExplicit then s.qualifier.layout.packing else .std430
    rowMajor := s.qualifier.layout.matrix == .rowMajor
    arrayed := false }

end StructDecl

namespace Program

def referenceAlignment (p : Program) (id : StructId) : Nat :=
  ((p.struct? id).bind fun s => s.qualifier.layout.bufferReferenceAlign).getD 16

/-- The byte offset of a member where references to the structure lead. -/
def referentOffset (p : Program) (id : StructId) (source : Nat) : Nat :=
  match p.struct? id with
  | some s =>
    let use := s.referentUse
    (p.structLayout use.packing s use.rowMajor).offsets[source]?.getD 0
  | none => 0

end Program

namespace Codegen

def setReference (id : StructId) (r : ReferencePointer) : Codegen Unit :=
  modify fun s => { s with references := (id, r) :: s.references }

def targetType (p : Program) (typer : Typer) (id : StructId) : Codegen Ident := do
  let s ← p.struct id
  structType p typer id s.referentUse

def announceReference (id : StructId) : Codegen Ident := do
  let type ← Builder.announcePointer .physicalStorageBuffer
  setReference id (.announced type)
  return type

/-- Declares the pointer type for references to a structure. Typing the structure may have announced
the pointer type, or even declared it. -/
def declareReference (p : Program) (typer : Typer) (id : StructId) : Codegen Ident := do
  let referent ← targetType p typer id
  let type ← match (← get).references.lookup id with
    | some (.announced type) => do
      Builder.completePointer type referent
      pure type
    | some (.declared type) => pure type
    | none => Builder.typePointer .physicalStorageBuffer referent
  setReference id (.declared type)
  return type

def referenceType (p : Program) (typer : Typer) (id : StructId) : Codegen Ident := do
  Builder.usePhysicalAddresses
  let s ← get
  match s.references.lookup id with
  | some r => return r.type
  | none => if s.underway.contains id then announceReference id else declareReference p typer id

def completeReference (p : Program) (typer : Typer) (id : StructId) (type : Ident) :
    Codegen Unit := do
  let referent ← targetType p typer id
  Builder.completePointer type referent
  setReference id (.declared type)

/-- The type of what a reference leads to, after its pointer type has been declared. -/
def followReference (p : Program) (typer : Typer) (id : StructId) : Codegen Ident := do
  let type ← referenceType p typer id
  match (← get).references.lookup id with
  | some (.announced _) => completeReference p typer id type
  | _ => pure ()
  match (← builder).pointee? type with
  | some pointee => return pointee
  | none => fail (.noPointee id)

def openReferences (p : Program) (s : State) : List (StructId × Ident) :=
  (List.range p.structs.length).filterMap fun id =>
    match s.references.lookup id with
    | some (.announced type) => some (id, type)
    | _ => none

def completeReferences (p : Program) (typer : Typer) : Codegen Unit := do
  (openReferences p (← get)).forM fun (id, type) => completeReference p typer id type

end Codegen

end ShaderGen
