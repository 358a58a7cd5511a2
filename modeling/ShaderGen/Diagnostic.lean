import ShaderGen.Source.Node

/-!
# Diagnostics

Problems that do not stop the work: it goes on with a placeholder, and the problem is reported
beside the module.
-/

namespace ShaderGen

inductive DiagnosticKind
  /-- A construct that is recognised and cannot be expressed yet. -/
  | missingFunctionality
  | warning
  deriving DecidableEq, Inhabited

def DiagnosticKind.label : DiagnosticKind → String
  | .missingFunctionality => "missing functionality"
  | .warning => "warning"

/-- A problem that does not stop the work. -/
structure Diagnostic where
  kind : DiagnosticKind
  message : String
  span : Option Span := none
  deriving DecidableEq, Inhabited

def Diagnostic.text (d : Diagnostic) : String :=
  let tail := d.kind.label ++ ": " ++ d.message
  match d.span with
  | some span => s!"{span.line}:{span.column}: {tail}"
  | none => tail

def anyMissing (ds : List Diagnostic) : Bool :=
  ds.any fun d => d.kind == .missingFunctionality

def warnings (ds : List Diagnostic) : List Diagnostic :=
  ds.filter fun d => d.kind == .warning

end ShaderGen
