import ShaderGen.Codegen.Conversion

/-!
# Constructors

A constructor makes a value of its type out of its arguments: arrays and structures out of one
argument for each constituent, vectors and matrices out of the scalars of all arguments in order. A
single scalar fills a vector and the diagonal of a matrix; a single matrix is cut to size, or filled
up with the identity.
-/

namespace ShaderGen

/-- Cuts a list into pieces of the given length; the last piece may be shorter. -/
def chunks {α : Type} (size : Nat) (list : List α) : List (List α) :=
  (List.range ((list.length + size - 1) / size)).map fun k => (list.drop (k * size)).take size

namespace Codegen

def cells (cols rows : Nat) : List (List Nat) :=
  (List.range cols).flatMap fun c => (List.range rows).map fun r => [c, r]

/-- The scalars of an argument, at most `limit` of them; a scalar argument counts as one. -/
def scalarsOf (p : Program) (argument : Deferred) (limit : Nat) : Codegen (List Ident) := do
  let v ← argument.value p
  let t := argument.type
  let type ← valueType p t.scalarType
  if t.isScalar then return [v.id]
  else if t.isMatrix then
    ((cells t.matrixCols t.matrixRows).take limit).mapM (extract type v.id)
  else if t.isVector then
    (List.range (min t.vectorSize limit)).mapM fun i => extract type v.id [i]
  else failAt argument.span .argumentNotNumeric

/-- Adds the scalars of one argument, converted, to those of the arguments before it, up to `count`
in all. -/
def addScalars (p : Program) (scalar : ShaderType) (count : Nat) (span : Span)
    (before : List Ident) (argument : Deferred) : Codegen (List Ident) := do
  let remaining := count - before.length
  let components ← scalarsOf p argument (max remaining 1)
  let converted ← (components.take remaining).mapM fun c =>
    convert p c argument.type.scalarType scalar span
  return before ++ converted

def flatten (p : Program) (arguments : List Deferred) (scalar : ShaderType) (count : Nat)
    (span : Span) : Codegen (List Ident) := do
  let scalars ← arguments.foldlM (addScalars p scalar count span) []
  if scalars.length < count then failAt span (.componentsMissing scalars.length count)
  return scalars

/-- Whether the arguments have the scalars of a vector exactly, with no need to convert or to take
them apart. -/
def fitsDirectly (arguments : List Deferred) (t : ShaderType) : Bool :=
  (arguments.all fun a => (a.type.isScalar || a.type.isVector) && a.type.basic == t.basic) &&
    arguments.foldr (fun a n => a.type.componentCount + n) 0 == t.vectorSize

def joinVector (p : Program) (arguments : List Deferred) (info : Info) (type : Ident) :
    Codegen Ident := do
  let t := info.type
  let parts ←
    if fitsDirectly arguments t then arguments.mapM fun a => do return (← a.value p).id
    else flatten p arguments t.scalarType t.vectorSize info.span
  emitOn .compositeConstruct type parts

def makeVector (p : Program) (arguments : List Deferred) (info : Info) (type : Ident) :
    Codegen Ident := do
  let t := info.type
  match arguments with
  | [a] =>
    if a.type.isScalar then
      let v ← a.value p
      let scalar ← convert p v.id a.type t.scalarType info.span
      emitOn .compositeConstruct type (List.replicate t.vectorSize scalar)
    else if a.type.isVector && a.type.vectorSize = t.vectorSize then
      let v ← a.value p
      convert p v.id a.type t info.span
    else joinVector p arguments info type
  | _ => joinVector p arguments info type

/-- The scalars of a matrix of another size, or those of the identity where it has none. -/
def resizedColumn (p : Program) (source target : ShaderType)
    (matrix sourceScalar one nought : Ident) (c : Nat) (span : Span) : Codegen (List Ident) :=
  (List.range target.matrixRows).mapM fun r => do
    if c < source.matrixCols && r < source.matrixRows then
      let cell ← extract sourceScalar matrix [c, r]
      convert p cell source.scalarType target.scalarType span
    else return if r = c then one else nought

def matrixCells (p : Program) (arguments : List Deferred) (info : Info) (one nought : Ident) :
    Codegen (List (List Ident)) := do
  let t := info.type
  let spread : Codegen (List (List Ident)) := do
    let scalars ← flatten p arguments t.scalarType (t.matrixCols * t.matrixRows) info.span
    return chunks t.matrixRows scalars
  match arguments with
  | [a] =>
    if a.type.isScalar then
      let v ← a.value p
      let scalar ← convert p v.id a.type t.scalarType info.span
      return (List.range t.matrixCols).map fun c =>
        (List.range t.matrixRows).map fun r => if r = c then scalar else nought
    else if a.type.isMatrix then
      let v ← a.value p
      let sourceScalar ← valueType p a.type.scalarType
      (List.range t.matrixCols).mapM fun c =>
        resizedColumn p a.type t v.id sourceScalar one nought c info.span
    else spread
  | _ => spread

def makeMatrix (p : Program) (arguments : List Deferred) (info : Info) (type : Ident) :
    Codegen Ident := do
  let columnType ← valueType p info.type.columnType
  let scalarType ← valueType p info.type.scalarType
  let nought ← Builder.constFilled scalarType 0
  let one ← Builder.constFilled scalarType 1
  let columns ← matrixCells p arguments info one nought
  let columns ← columns.mapM (emitOn .compositeConstruct columnType)
  emitOn .compositeConstruct type columns

def makeAggregate (p : Program) (arguments : List Deferred) (info : Info) (type : Ident) :
    Codegen Ident := do
  let types ← constituents p info.type arguments.length
  let parts ← (arguments.zip types).mapM fun (a, t) => do
    let v ← a.value p
    let wanted ← valueType p t
    (Builder.recast v.id v.type wanted : Codegen Ident)
  emitOn .compositeConstruct type parts

/-- A scalar constructor, which takes the first scalar of its first argument. -/
def makeScalar (p : Program) (arguments : List Deferred) (info : Info) : Codegen Ident := do
  match arguments with
  | [] => failAt info.span .scalarWithoutArguments
  | a :: _ =>
    match ← scalarsOf p a 1 with
    | [] => failAt a.span .argumentWithoutComponents
    | scalar :: _ => convert p scalar a.type.scalarType info.type info.span

def construction (p : Program) (arguments : List Deferred) (info : Info) : Codegen Outcome := do
  let t := info.type
  let type ← valueType p t
  if t.isOpaque && !t.isArray then
    match arguments with
    | [image, sampler] =>
      let image ← image.value p
      let sampler ← sampler.value p
      return .value { id := ← emitOn .sampledImage type [image.id, sampler.id], type }
    | _ => unsupported p "constructor of an opaque type" info
  else
    let id ←
      if t.isArray || t.isStruct then makeAggregate p arguments info type
      else if t.isMatrix then makeMatrix p arguments info type
      else if t.isVector then makeVector p arguments info type
      else makeScalar p arguments info
    return .value { id, type }

end Codegen

end ShaderGen
