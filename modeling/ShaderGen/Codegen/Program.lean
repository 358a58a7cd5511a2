import ShaderGen.Builder.Finish
import ShaderGen.Codegen.EntryPoint
import ShaderGen.Codegen.Function

/-!
# Whole programs

`Program.generate` makes a module of a program. The functions are declared first, then all
module-scope variables are bound, then the bodies follow, and at last the entry point with what only
the whole module can tell.
-/

namespace ShaderGen

namespace Program

/-- The functions that go into the module, the entry function first. -/
def emitted (p : Program) (o : Options) : List FunctionId :=
  if o.emitUncalled then
    p.entry :: (List.range p.functions.length).filter (· != p.entry)
  else p.reachable

def withOptions (p : Program) (o : Options) : Program :=
  { p with target := { p.target with version := o.version.getD p.target.version } }

end Program

namespace Codegen

def recordSource (p : Program) : Codegen Unit :=
  modify fun s =>
    { s with
      builder.output.source := some (p.language, p.languageVersion)
      builder.output.sourceExtensions := p.extensions }

def whole (p : Program) (o : Options) : Codegen Unit := do
  Builder.require p.stage.requirements
  if o.emitSource then recordSource p
  let functions := p.emitted o
  functions.forM (declareFunction p)
  p.globals.forM fun id => do
    let _ ← bindingOf p (typer p) id
  functions.forM (defineFunction p)
  addEntryPoint p functions
  completeReferences p (typer p)

end Codegen

structure Output where
  shader : Module
  diagnostics : List Diagnostic
  deriving Inhabited

def Program.generate (p : Program) (o : Options) (order : SetOrder := .met) :
    Except Failure Output :=
  let p := p.withOptions o
  match Codegen.whole p o { builder := Builder.start p.target o } with
  | .ok _ s => .ok { shader := s.builder.finish order, diagnostics := s.diagnostics }
  | .error failure _ => .error failure

end ShaderGen
