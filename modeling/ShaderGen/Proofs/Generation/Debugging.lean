import ShaderGen.Proofs.Generation.Program
import ShaderGen.Proofs.Typing.Demands
import ShaderGen.Proofs.Typing.Narrow

/-!
# Options for debugging

Names, the source and the mark of who made a module are there for debugging only. Whether they are
asked for makes no difference to anything else in the module, nor to whether there is one
(`Program.debugging_leaves_code`): no step looks at them, and none of them takes an id. What does
make a difference is the order in which the elements of sets come up when the module is finished.
The capabilities and extensions that narrow types take stand at the end, in an order that depends on
it.
-/

namespace ShaderGen

open Steps (Ends Fails)
open World (strip)

/-! ## The beginning and the end -/

namespace Module

variable {m m' : Module}

/-- What narrow types require depends only on the code. -/
theorem narrowRequirements_of_code (globals : m'.globals = m.globals)
    (functions : m'.functions = m.functions) : m'.narrowRequirements = m.narrowRequirements := by
  have scalars : m'.scalarKinds = m.scalarKinds := congrArg (List.filterMap _) globals
  have parts : m'.typeParts = m.typeParts := congrArg (List.filterMap _) globals
  have within : ∀ depth, m'.kindsWithin depth = m.kindsWithin depth := by
    intro depth
    induction depth with
    | zero => rfl
    | succ depth ih =>
      funext type
      rw [kindsWithin, kindsWithin, ih, scalars, parts]
  have kinds : m'.kindsOf = m.kindsOf := by
    funext type
    rw [kindsOf, kindsOf, within, globals]
  have computed : m'.computedKind? = m.computedKind? := by
    unfold computedKind? componentKind?
    rw [scalars, parts]
  funext order
  unfold narrowRequirements storageUses computedKinds
  rw [scalars, kinds, computed, globals, functions]

end Module

namespace Builder

variable {b b' : Builder}

end Builder

/-- The lists differ at most in the order of their last elements, which are among those given. -/
def SameButLast {α : Type} (among list list' : List α) : Prop :=
  ∃ first last last', list = first ++ last ∧ list' = first ++ last' ∧ last.Perm last' ∧ last ⊆ among

/-- The modules differ at most in the order of the capabilities and extensions that narrow types
take, which come last. -/
structure Module.SameButOrder (m m' : Module) : Prop where
  rest : { m with capabilities := m'.capabilities, extensions := m'.extensions } = m'
  capabilities : SameButLast (m.narrowRequirements .met).capabilities m.capabilities m'.capabilities
  extensions : SameButLast ((m.narrowRequirements .met).extensions.map (·.name)) m.extensions
    m'.extensions

theorem Module.SameButOrder.stripped {m m' : Module} (h : m.SameButOrder m') :
    m.stripped.SameButOrder m'.stripped := by
  have code : m.stripped.narrowRequirements = m.narrowRequirements :=
    narrowRequirements_of_code rfl rfl
  refine ⟨congrArg Module.stripped h.rest, ?_, ?_⟩ <;> rw [code]
  · exact h.capabilities
  · exact h.extensions

namespace Codegen

variable {p : Program} {s s' : State}

end Codegen

/-- The result of code generation without what is there for debugging. -/
def Output.stripped (out : Output) : Output := { out with shader := out.shader.stripped }

/-- Both fail for the same cause, or both give modules that differ at most in the order of what
narrow types take, with the same reports. -/
inductive Output.Alike : Except Failure Output → Except Failure Output → Prop
  | error (e : Failure) : Alike (.error e) (.error e)
  | ok {out out' : Output} (diagnostics : out.diagnostics = out'.diagnostics)
      (shader : out.shader.SameButOrder out'.shader) : Alike (.ok out) (.ok out')

end ShaderGen
