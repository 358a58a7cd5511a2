import ShaderGen.Proofs.Control.Program
import ShaderGen.Proofs.Scope.Program
import ShaderGen.Proofs.Typing.Narrow
import ShaderGen.Proofs.Typing.Run

/-!
# What a finished module declares

The builder keeps a record of all that is asked for. Along every course of code generation the
record and the lists of capabilities and extensions grow at their end, and the record stays true
(`Builder.Later.demands`). The same holds of the last requests, those of narrow types
(`Builder.grows_narrowed`). So a finished module declares all that has been asked for on the way,
each thing once, and no extension that its version has made superfluous
(`Program.declares_what_is_required`).
-/

namespace ShaderGen

open List
open Steps (Ends)

namespace Module

theorem narrowRequirements_general (m : Module) (order : SetOrder) :
    (m.narrowRequirements order).General := by
  unfold narrowRequirements
  dsimp only
  split
  · exact fun e mem => by cases mem
  · intro e mem
    rw [Requirements.mem_foldl.2, Requirements.capabilities_foldr.2, append_nil] at mem
    obtain ⟨use, asked, mem⟩ := mem_flatMap.1 mem
    obtain ⟨i, -, asked⟩ := mem_flatMap.1 asked
    split at asked
    · rename_i storage _ _ _ _
      obtain ⟨kind, -, same⟩ := mem_filterMap.1 asked
      obtain ⟨-, rfl⟩ : _ ∧ (kind.width, kind.storageNeeds storage) = use := by simpa using same
      have general : (kind.storageNeeds storage).General := by
        unfold ScalarKind.storageNeeds
        split <;> decide
      exact general e mem
    · cases asked

end Module

namespace Builder

variable {b b' : Builder}

theorem lawful_start (target : Target) (o : Options) : (start target o).demands.Lawful := by
  refine (setup_adorned target (fun _ => False) _ () _ (ends_setup target o)).demands.lawful ?_
  constructor <;> simp [blank, demands, Demands.demanding]

/-- Before all else comes the capability that every module has. -/
theorem shader_start (target : Target) (o : Options) :
    [.shader] <+: (start target o).output.capabilities := by
  obtain ⟨_, b, first, rest⟩ := Steps.ends_bind (ends_setup target o)
  have shader : b.output.capabilities = [.shader] := by
    rw [ends_addCapability first]
    rfl
  rw [← shader]
  split at rest
  · obtain ⟨_, b1, second, third⟩ := Steps.ends_bind rest
    rw [ends_useExtension third, ends_addCapability second, demanding_append]
    refine (b.demands.grows_demanding fun e mem => ?_).capabilities
    obtain rfl : e = .vulkanMemoryModel := by simpa using mem
    decide
  · cases rest
    exact prefix_rfl

theorem version_start (target : Target) (o : Options) :
    (start target o).output.version = o.version.getD target.version :=
  (setup_adorned target (fun _ => False) _ () _ (ends_setup target o)).demands.version

theorem grows_narrowed {order : SetOrder}
    (ends : Ends (require (b.output.narrowRequirements order)) b () b') :
    b.demands.Grows b'.demands := by
  rw [ends_require ends, demands_demanding]
  exact b.demands.grows_demanding (b.output.narrowRequirements_general order).requests

end Builder

variable {p : Program} {o : Options} {order : SetOrder} {out : Output}

/-- **A finished module declares all that has been asked for**, each capability and each extension
once, and of the extensions those that its version comes too early for. The record, in which every
request has its place, leads from nothing to these lists, and at each of its steps and at each place
of the course of code generation what has been declared is what the finished module declares first.
The last requests are those of narrow types. -/
theorem Program.declares_what_is_required (h : p.generate o order = .ok out) :
    let p := p.withOptions o
    let m := out.shader
    ∃ u b, Ends (Codegen.whole p o) (p.initial o) () u ∧
      Ends (Builder.require (u.builder.output.narrowRequirements order)) u.builder () b ∧
      m.capabilities = b.output.capabilities ∧ m.extensions = b.output.extensions ∧
      m.version = o.version.getD p.target.version ∧
      m.capabilities.Nodup ∧ m.capabilities.head? = some .shader ∧
      (∀ c, c ∈ m.capabilities ↔ ∃ a ∈ b.answers, a.request = .capability c) ∧
      m.extensions.Nodup ∧
      (∀ a ∈ b.answers, ∀ e, a.request = .extension e →
      (e.name ∈ m.extensions ↔ e.Predated m.version)) ∧
      (∀ name ∈ m.extensions, ∃ a ∈ b.answers, ∃ e, a.request = .extension e ∧ e.name = name) ∧
      b.demands = Demands.demanding ⟨m.version, [], [], []⟩ (b.answers.map Answer.request) ∧
      (∀ a ∈ b.answers, a.capabilities <+: m.capabilities ∧ a.extensions <+: m.extensions) ∧
      (∀ s, Trace p (p.initial o) s → Trace p s u →
        s.builder.output.capabilities <+: m.capabilities ∧
        s.builder.output.extensions <+: m.extensions ∧ s.builder.answers <+: b.answers) ∧
      ∀ r c c', Ends (Builder.require r) c () c' →
        c'.answers.map Answer.request = c.answers.map Answer.request ++ r.requests := by
  intro p m
  obtain ⟨u, ends, shader⟩ := exists_endsIn h
  obtain ⟨b, memoryModel, asks, finish⟩ := u.builder.exists_finish order
  have regular := State.regular_initial p o
  have grows := ((Codegen.whole_trace ends).keeps regular).later.demands
  have last := Builder.grows_narrowed asks
  have lawful : b.demands.Lawful := last.lawful (grows.lawful (Builder.lawful_start _ _))
  have declared : m.capabilities = b.output.capabilities ∧ m.extensions = b.output.extensions ∧
      m.version = b.output.version := by
    rw [show m = _ from shader.trans finish]
    exact ⟨rfl, rfl, rfl⟩
  obtain ⟨capabilities, extensions, same⟩ := declared
  rw [capabilities, extensions, same]
  have ofTarget : b.output.version = o.version.getD p.target.version :=
    (last.version.trans grows.version).trans (Builder.version_start p.target o)
  refine ⟨u, b, ends, asks, rfl, rfl, ofTarget, lawful.capabilities, ?_, lawful.asked,
    lawful.extensions,
    fun a mem e asked => ?_, fun name mem => ?_, lawful.replayed.symm, lawful.grown,
    fun s before after => ?_, fun r c c' => Builder.requests_of_require⟩
  · obtain ⟨rest, first⟩ := (Builder.shader_start p.target o).trans
      (grows.capabilities.trans last.capabilities)
    rw [show b.output.capabilities = [.shader] ++ rest from first.symm]
    rfl
  · refine (lawful.needed e.name).trans ⟨fun ⟨a', mem', e', asked', name, needed⟩ => ?_,
      fun needed => ?_⟩
    · exact Extension.eq_of_name (lawful.known a' mem' e' asked') (lawful.known a mem e asked)
        name ▸ needed
    · exact ⟨a, mem, e, asked, rfl, needed⟩
  · obtain ⟨a, mem, e, asked, same, -⟩ := (lawful.needed name).1 mem
    exact ⟨a, mem, e, asked, same⟩
  · have further := trans_of Demands.Grows (after.keeps (before.regular regular)).later.demands last
    exact ⟨further.capabilities, further.extensions, further.answers⟩

/-- A mesh shader with a buffer of short numbers, for a version that knows none of what they take.
-/
def Program.halved : Program :=
  let stored : Qualifier := { storage := .buffer, layout := { packing := .std430 } }
  { structs := [
      { name := "Data", members := [{ name := "x", type := { basic := .float 16 } }], qualifier :=
      stored }]
    symbols := [{ name := "data", type := { basic := .block 0, qualifier := stored } }]
    globals := [0]
    functions := [{ name := "main", returnType := .void, body := [] }]
    stage := .mesh
    target := { vulkanMemoryModel := true } }

theorem Program.declares_what_is_required_halved : ∃ (out : Output) (b : Builder),
    halved.generate {} = .ok out ∧ out.shader.capabilities.Nodup ∧
    out.shader.capabilities =
      [.shader, .vulkanMemoryModel, .meshShadingEXT, .uniformAndStorageBuffer16BitAccess] ∧
    (∃ a ∈ b.answers, a.request = .capability .uniformAndStorageBuffer16BitAccess) ∧
    ∀ a ∈ b.answers, a.capabilities <+: out.shader.capabilities := by
  have made : (halved.generate {}).toOption.any fun out => out.shader.capabilities =
      [.shader, .vulkanMemoryModel, .meshShadingEXT, .uniformAndStorageBuffer16BitAccess] := by
    decide +kernel
  obtain ⟨out, h, declared⟩ := exists_ok_of_any made
  have declared := of_decide_eq_true declared
  obtain ⟨u, b, -, -, -, -, -, once, -, asked, -, -, -, -, grown, -⟩ := declares_what_is_required h
  exact ⟨out, b, h, once, declared, (asked _).1 (by simp [declared]), fun a mem => (grown a mem).1⟩

end ShaderGen
