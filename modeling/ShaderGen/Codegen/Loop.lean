import ShaderGen.Codegen.Branch

/-!
# Loops and switches

The header of a loop holds only the names of its merge and continue blocks. A test in front of the
body stands in a block of its own after the header, a test at the end in the continue block.

The body of a switch is cut at its labels into groups, each of which is a block. A group that
runs to its end goes on with the next one.
-/

namespace ShaderGen

/-- The advice on a loop as a mask with its parameters. Advice on dependencies exists from version
1.1 on. -/
def LoopAdvice.operands (h : LoopAdvice) (version : Version) : List Operand :=
  let dependencies := version.atLeast .v1_1
  let length := if dependencies then h.dependencyLength else none
  .mask (h.unroll.toNat + 2 * h.dontUnroll.toNat
    + 4 * (dependencies && h.dependencyInfinite).toNat + 8 * length.isSome.toNat)
    :: length.toList.map .literal

/-- Statements of a switch that are entered through the same labels. -/
structure CaseGroup (α : Type) where
  labels : List Jump
  statements : List α := []
  deriving Inhabited

/-- Adds one statement of a switch to the groups before it, which come last first. A label opens a
new group unless the last one has only labels so far. Statements in front of all labels are
dropped, since they can never run. -/
def CaseGroup.add {α : Type} (label? : α → Option Jump) (groups : List (CaseGroup α)) (a : α) :
    List (CaseGroup α) :=
  match label? a, groups with
  | some l, [] => [{ labels := [l] }]
  | some l, s :: before =>
    if s.statements.isEmpty then { s with labels := s.labels ++ [l] } :: before
    else { labels := [l] } :: s :: before
  | none, [] => []
  | none, s :: before => { s with statements := s.statements ++ [a] } :: before

def caseGroups {α : Type} (label? : α → Option Jump) (body : List α) : List (CaseGroup α) :=
  (body.foldl (CaseGroup.add label?) []).reverse

def Node.label? : Node → Option Jump
  | .jump _ kind _ => if kind.isLabel then some kind else none
  | _ => none

/-- The literal of a case label, as wide as the selector. -/
def caseLiteral (wide : Bool) (value : Int) : Operand :=
  if wide then .wide (wrap wideCount value) else .literal (wrap wordCount value)

namespace CaseGroup

def targets {α : Type} (s : CaseGroup α) (block : Ident) (wide : Bool) : List Operand :=
  s.labels.flatMap fun l =>
    match l with
    | .caseLabel value => [caseLiteral wide value, .ref block]
    | _ => []

def isDefault {α : Type} (s : CaseGroup α) : Bool :=
  s.labels.contains .defaultLabel

end CaseGroup

namespace Codegen

def loopTest (p : Program) (test : Deferred) (again merge : Ident) : Codegen Unit := do
  let c ← test.value p
  Builder.branchIf c.id again merge

/-- Leaves the header of a loop for its body, through the test if it comes first. -/
def leaveHeader (p : Program) (test : Option Deferred) (testFirst : Bool) (body merge : Ident)
    (live : Bool) : Codegen Unit := do
  match test, testFirst with
  | some test, true =>
    let block ← Builder.fresh
    Builder.branch block
    beginAt block live
    loopTest p test body merge
  | _, _ => Builder.branch body

/-- Goes back to the header of a loop, through the test if it comes last. -/
def leaveContinue (p : Program) (test : Option Deferred) (testFirst : Bool)
    (header merge : Ident) : Codegen Unit := do
  match test, testFirst with
  | some test, false => loopTest p test header merge
  | _, _ => Builder.branch header

def loop (p : Program) (test body terminal : Option Deferred) (testFirst : Bool)
    (advice : LoopAdvice) : Codegen Unit := do
  let live ← isLive
  let header ← Builder.fresh
  let bodyBlock ← Builder.fresh
  let continueBlock ← Builder.fresh
  let merge ← Builder.fresh
  Builder.finishBlock header
  beginAt header live
  Builder.emitVoid .loopMerge
    (.ref merge :: .ref continueBlock :: advice.operands (← builder).version)
  leaveHeader p test testFirst bodyBlock merge live
  within (.loop merge continueBlock) do
    beginAt bodyBlock live
    body.forM Deferred.exec
    Builder.finishBlock continueBlock
  beginAt continueBlock live
  terminal.forM Deferred.exec
  leaveContinue p test testFirst header merge
  beginAt merge live

/-- The blocks of a switch: each group goes on with the next one, and the last one with the merge
block. -/
def groupBodies (live : Bool) (merge : Ident) :
    List (CaseGroup Deferred) → List Ident → Codegen Unit
  | s :: groups, block :: blocks => do
    beginAt block live
    s.statements.forM Deferred.exec
    Builder.finishBlock (blocks.head?.getD merge)
    groupBodies live merge groups blocks
  | _, _ => return

/-- The body of a switch on a value, whose case labels are wide if the value is. -/
def switchOn (selector : Ident) (wide : Bool) (body : List Deferred) (advice : SelectionAdvice) :
    Codegen Unit := do
  let live ← isLive
  let groups := caseGroups (fun d => d.node.label?) body
  let blocks ← groups.mapM fun _ => (Builder.fresh : Codegen Ident)
  let merge ← Builder.fresh
  let entries := groups.zip blocks
  let defaults := entries.filter fun entry => entry.1.isDefault
  let default := (defaults.getLast?.map Prod.snd).getD merge
  Builder.selectionMerge merge advice.mask
  Builder.endBlock
    { op := .switch
      operands := .ref selector :: .ref default
        :: entries.flatMap fun (s, block) => s.targets block wide }
  within (.switch merge) (groupBodies live merge groups blocks)
  beginAt merge live

def switch (p : Program) (selector : Deferred) (body : List Deferred) (advice : SelectionAdvice) :
    Codegen Unit := do
  let v ← selector.value p
  switchOn v.id (selector.type.bitWidth == 64) body advice

end Codegen

end ShaderGen
