import ShaderGen.Codegen.Branch
import ShaderGen.Codegen.Call

/-!
# Jumps

Leaving loops, switches and functions, and ending the invocation. What follows a jump in the same
block cannot be reached; only demotion to a helper invocation goes on.
-/

namespace ShaderGen.Codegen

def leave (span : Span) : Codegen Unit := do
  match (← get).scopes with
  | [] => failAt span .breakOutside
  | scope :: _ => jumpTo scope.merge

def nextRound (span : Span) : Codegen Unit := do
  match (← get).scopes.findSome? JumpScope.continueTarget? with
  | none => failAt span .continueOutside
  | some target => jumpTo target

/-- A branch statement. Labels are dealt with by the switch they belong to. -/
def jump (p : Program) (kind : Jump) (value : Option Deferred) (span : Span) : Codegen Unit := do
  match kind with
  | .leave => leave span
  | .next => nextRound span
  | .ret => returnStatement p value span
  | .kill =>
    let ending := if (← builder).version.atLeast .v1_6 then Opcode.terminateInvocation else .kill
    Builder.terminate ending []
  | .terminateInvocation =>
    Builder.useExtension .terminateInvocation
    Builder.terminate .terminateInvocation []
  | .demote =>
    Builder.require (.provided .demoteToHelperInvocation .demoteToHelper)
    Builder.emitVoid .demoteToHelperInvocation []
  | .ignoreIntersection => Builder.terminate .ignoreIntersectionKHR []
  | .terminateRay => Builder.terminate .terminateRayKHR []
  | .caseLabel _ | .defaultLabel => fail .labelOutside

end ShaderGen.Codegen
