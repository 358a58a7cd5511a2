import ShaderGen.Builder.Blocks

/-!
# Representations

One type of the source can have several types in the module: a truth value in memory is an integer,
and structures and arrays with different layouts are different types.
`Builder.recast` takes a value from one of these types to another one.
-/

namespace ShaderGen

def Build.ofExcept {α : Type} : Except Cause α → Build α
  | .ok a => pure a
  | .error cause => Build.fail cause

def TypeForm.isDecomposable : TypeForm → Bool
  | .struct _ | .array _ _ _ => true
  | _ => false

namespace Builder

/-- Whether two types, followed to the given depth, have a truth value in one where the other has an
integer. -/
def disagreeOnTruthWithin (b : Builder) : Nat → Ident → Ident → Bool
  | 0, _, _ => false
  | depth + 1, s, t =>
    if s = t then false
    else
      match b.form? s, b.form? t with
      | some .bool, some (.int _ _) | some (.int _ _), some .bool => true
      | some (.vector x _), some (.vector y _) => b.disagreeOnTruthWithin depth x y
      | some (.array x _ _), some (.array y _ _) => b.disagreeOnTruthWithin depth x y
      | some (.struct xs), some (.struct ys) =>
        (xs.zip ys).any fun (x, y) => b.disagreeOnTruthWithin depth x y
      | _, _ => false

/-- How deep two types can be followed in step: no pair of types is met again inside itself. -/
def nesting (b : Builder) : Nat := b.types.length * b.types.length + 1

def disagreeOnTruth (b : Builder) (s t : Ident) : Bool :=
  b.disagreeOnTruthWithin b.nesting s t

def canCopyLogically (b : Builder) (s t : Ident) : Bool :=
  b.version.atLeast .v1_4 && !b.disagreeOnTruth s t

def truthOfInt (value source target : Ident) : Build Ident := do
  let nought ← constFilled source 0
  emit .iNotEqual target [.ref value, .ref nought]

def intOfTruth (value target : Ident) : Build Ident := do
  let one ← constFilled target 1
  let nought ← constFilled target 0
  emit .select target [.ref value, .ref one, .ref nought]

/-- Takes a value from one representation to another one, through types nested to the given
depth. -/
def recastWithin : Nat → Ident → Ident → Ident → Build Ident
  | 0, _, _, _ => Build.fail .endless
  | depth + 1, value, source, target => do
    if source = target then return value
    let b ← get
    match b.form? source, b.form? target with
    | some (.int _ _), some .bool => truthOfInt value source target
    | some .bool, some (.int _ _) => intOfTruth value target
    | some (.vector sourcePart _), some (.vector targetPart _) =>
      if b.isBool targetPart then truthOfInt value source target
      else if b.isBool sourcePart then intOfTruth value target
      else Build.fail (.noRepresentationChange source target)
    | some s, some t =>
      if !(s.isDecomposable && t.isDecomposable) then
        Build.fail (.noRepresentationChange source target)
      else if b.canCopyLogically source target then
        emit .copyLogical target [.ref value]
      else
        let sourceParts ← Build.ofExcept (b.partTypes source)
        let targetParts ← Build.ofExcept (b.partTypes target)
        if sourceParts.length ≠ targetParts.length then
          Build.fail (.differentShapes source target)
        let parts ← (sourceParts.zip targetParts).zipIdx.mapM fun ((s, t), i) => do
          let part ← emit .compositeExtract s [.ref value, .literal i]
          recastWithin depth part s t
        emit .compositeConstruct target (Operand.refs parts)
    | _, _ => Build.fail (.noRepresentationChange source target)

def recast (value source target : Ident) : Build Ident := do
  recastWithin (← get).nesting value source target

end Builder

end ShaderGen
