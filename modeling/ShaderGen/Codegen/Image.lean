import ShaderGen.Codegen.Value

/-!
# Images

Sampling, fetches, queries, and reads and writes of storage images. Implicit levels of detail exist
only in the fragment stage; elsewhere sampling without a level takes level zero. Shadow samplers
compare with a reference depth, which is the last component of the coordinates, or an argument of
its own where the coordinates fill all four components.
-/

namespace ShaderGen

/-- The masks that announce further operands of image instructions. -/
inductive ImageOperand
  | bias | lod | grad | sample
  deriving DecidableEq, Inhabited

def ImageOperand.mask : ImageOperand → Nat
  | .bias => 1
  | .lod => 2
  | .grad => 4
  | .sample => 64

def ImageOperand.operands (o : ImageOperand) (ids : List Ident) : List Operand :=
  .mask o.mask :: Operand.refs ids

namespace Sampler

/-- Cube arrays compared with a reference, whose coordinates have no room for it. -/
def isCubeArrayShadow (s : Sampler) : Bool :=
  s.shadow && s.dimension == .cube && s.arrayed

def isLevelless (s : Sampler) : Bool :=
  s.multisampled || s.dimension == .buffer || s.kind == .image || s.kind == .subpass

end Sampler

/-- An intrinsic on an image whose arguments have been evaluated. -/
structure ImageCall where
  op : Intrinsic
  sampler : Sampler
  format : ImageFormat
  image : Value
  arguments : List Ident
  coordinateSize : Nat
  info : Info
  type : Ident
  deriving Inhabited

namespace ImageCall

def fail {α : Type} (c : ImageCall) (cause : Cause) : Codegen α :=
  Codegen.failAt c.info.span cause

def emit (c : ImageCall) (op : Opcode) (operands : List Operand) : Codegen Outcome := do
  return .value { id := ← Builder.emit op c.type operands, type := c.type }

def reference? (c : ImageCall) (coordinates : Ident) (rest : List Ident) :
    Codegen (Option Ident) := do
  if !c.sampler.shadow then return none
  else if c.sampler.isCubeArrayShadow && c.op = .texture then return rest.head?
  else
    let float ← Builder.typeFloat 32
    return some (← Codegen.extract float coordinates [c.coordinateSize - 1])

def levelOperands (c : ImageCall) (implicit : Bool) (rest : List Ident) :
    Codegen (List Operand) := do
  match c.op, rest with
  | .textureLod, level :: _ => return ImageOperand.lod.operands [level]
  | .textureLod, [] => c.fail .withoutLevel
  | .textureGrad, dx :: dy :: _ => return ImageOperand.grad.operands [dx, dy]
  | .textureGrad, _ => c.fail .withoutDerivatives
  | _, _ =>
    if implicit then
      match c.sampler.isCubeArrayShadow, rest with
      | false, bias :: _ => return ImageOperand.bias.operands [bias]
      | _, _ => return []
    else
      let nought ← Builder.constFloat 0
      return ImageOperand.lod.operands [nought]

def sampleOpcode (implicit reference : Bool) : Opcode :=
  match implicit, reference with
  | true, false => .imageSampleImplicitLod
  | true, true => .imageSampleDrefImplicitLod
  | false, false => .imageSampleExplicitLod
  | false, true => .imageSampleDrefExplicitLod

def sample (c : ImageCall) (stage : Stage) : Codegen Outcome := do
  match c.arguments with
  | [] => c.fail (.withoutCoordinates c.op)
  | coordinates :: rest =>
    let reference ← c.reference? coordinates rest
    let implicit := c.op = .texture && stage = .fragment
    let level ← c.levelOperands implicit rest
    c.emit (sampleOpcode implicit reference.isSome)
      (Operand.refs (c.image.id :: coordinates :: reference.toList) ++ level)

/-- One component of the four texels around a place, or four comparisons. -/
def gather (c : ImageCall) : Codegen Outcome := do
  match c.arguments with
  | [] => c.fail .gatherWithoutCoordinates
  | coordinates :: rest =>
    let detail ← match rest, c.sampler.shadow with
      | detail :: _, _ => pure detail
      | [], true => c.fail .gatherWithoutReference
      | [], false => Builder.constSigned 0
    let op := if c.sampler.shadow then Opcode.imageDrefGather else .imageGather
    c.emit op (Operand.refs [c.image.id, coordinates, detail])

def bareImage (c : ImageCall) : Codegen Ident := do
  if c.sampler.kind ≠ .combined then return c.image.id
  else
    match (← Codegen.builder).form? c.image.type with
    | some (.sampledImage type) => Codegen.emitOn .image type [c.image.id]
    | _ => Codegen.fail (.noImageType c.image.type)

def fetch (c : ImageCall) : Codegen Outcome := do
  let image ← c.bareImage
  match c.arguments with
  | [] => c.fail .fetchWithoutCoordinates
  | coordinates :: rest =>
    let kind := if c.sampler.multisampled then ImageOperand.sample else .lod
    let detail := match rest with
      | detail :: _ => kind.operands [detail]
      | [] => []
    c.emit .imageFetch (Operand.refs [image, coordinates] ++ detail)

def size (c : ImageCall) : Codegen Outcome := do
  let image ← c.bareImage
  if c.sampler.isLevelless then c.emit .imageQuerySize [.ref image]
  else
    let level ← match c.arguments with
      | level :: _ => pure level
      | [] => Builder.constSigned 0
    c.emit .imageQuerySizeLod (Operand.refs [image, level])

def levels (c : ImageCall) : Codegen Outcome := do
  let image ← c.bareImage
  c.emit .imageQueryLevels [.ref image]

def readAt (c : ImageCall) (coordinates : Ident) (rest : List Ident) : Codegen Outcome := do
  let detail := match rest, c.sampler.multisampled with
    | number :: _, true => ImageOperand.sample.operands [number]
    | _, _ => []
  c.emit .imageRead (Operand.refs [c.image.id, coordinates] ++ detail)

def read (c : ImageCall) : Codegen Outcome := do
  if c.format = .unknown then Builder.addCapability .storageImageReadWithoutFormat
  match c.arguments with
  | [] => c.fail .loadWithoutCoordinates
  | coordinates :: rest => c.readAt coordinates rest

def readSubpass (c : ImageCall) : Codegen Outcome := do
  let type ← Builder.typeVector (← Builder.typeInt 32 true) 2
  let here ← Builder.constFilled type 0
  c.readAt here c.arguments

def write (c : ImageCall) : Codegen Outcome := do
  if c.format = .unknown then Builder.addCapability .storageImageWriteWithoutFormat
  match c.arguments.head?, c.arguments.getLast? with
  | some coordinates, some texel =>
    let detail := match c.arguments, c.sampler.multisampled with
      | [_, number, _], true => ImageOperand.sample.operands [number]
      | _, _ => []
    Builder.emitVoid .imageWrite (Operand.refs [c.image.id, coordinates, texel] ++ detail)
    return .void
  | _, _ => c.fail .storeWithoutTexel

def run (c : ImageCall) (p : Program) : Codegen Outcome :=
  match c.op with
  | .texture | .textureLod | .textureGrad => c.sample p.stage
  | .textureGather => c.gather
  | .texelFetch => c.fetch
  | .textureSize | .imageSize => c.size
  | .textureQueryLevels => c.levels
  | .imageLoad => c.read
  | .subpassLoad => c.readSubpass
  | .imageStore => c.write
  | op => Codegen.unsupported p s!"image built-in {Named.name op}" c.info

end ImageCall

def Codegen.imageIntrinsic (p : Program) (op : Intrinsic) (arguments : List Deferred)
    (info : Info) : Codegen Outcome := do
  match arguments with
  | [] => failAt info.span (.withoutImage op)
  | image :: rest =>
    match image.type.basic with
    | .sampler sampler =>
      let v ← image.value p
      let values ← rest.mapM fun a => do return (← a.value p).id
      let type ← valueType p info.type
      let call : ImageCall :=
        { op, sampler, format := image.type.qualifier.layout.format, image := v
          arguments := values
          coordinateSize := (rest.head?.map fun a => a.type.componentCount).getD 1
          info, type }
      call.run p
    | _ => failAt image.span (.onNonImage op)

end ShaderGen
