import ShaderGen.Codegen.Program
import ShaderGen.Proofs.Scope.Node

/-!
# Parameters and the entry point

The steps of code generation around the bodies of functions: the types of parameters and what they
are bound to, the entry point, and the size of the workgroup as a constant.
-/

namespace ShaderGen

open Builder List
open Steps (Ends)

variable {p : Program} {w : Stance} {s : State}

namespace Codegen

/-! ## Parameters -/

theorem addressedParameter_learns (p : Program) (t : ShaderType) :
    Learning w [.program p] (addressedParameter p t) fun r => [.shared r.2] := by
  unfold addressedParameter
  split
  · exact .bind (typer_learns p _) fun type => .pure
  · exact .bind (valueType_learns p t) fun type => .pure

theorem addressedParameter_callFree (t : ShaderType) :
    Acting w w (Quiet p) (addressedParameter p t) := by
  unfold addressedParameter
  split <;> exact .bind (typer_acts _) fun _ => .pure

theorem parameterType_does (p : Program) (t : ShaderType) :
    Does (Quiet p) [.program p] (parameterType p t) (fun r => [.shared r.1]) w := by
  unfold parameterType
  dsimp only
  split
  · refine .bind ⟨(addressedParameter_learns p t).runs, addressedParameter_callFree t⟩
      fun (storage, type) => ?_
    exact .bind (typePointer_does storage type).up fun pointer => .pure
  · refine .bind (valueType_does t) fun type => ?_
    exact .bind (typePointer_does .function type).up fun pointer => .pure
  · exact .bind (valueType_does t) fun type => .pure

variable {x : SymbolId}

theorem gives_fits_parameter {before : List Fact} {id type : Ident} (own : p.IsPrivate x)
    [f : Gives before (.fixed id)] [g : Gives before (.length id)] [t : Gives before (.shared type)]
    [u : Gives before (.used x)] [h : Gives before (.program p)] :
    Gives before (.fits x (.value id type)) := by
  refine ⟨fun l b hold hs => ?_⟩
  have program : l.program = p := h.holds l b hold hs
  exact ⟨t.holds l b hold hs, (g.holds l b hold hs).imp_right fun parameter =>
    ⟨parameter, program ▸ own, (u.holds l b hold hs).2, fun _ => (f.holds l b hold hs).1⟩⟩

theorem bindParameter_runs (own : p.IsPrivate x) (id : Ident) (passing : Passing) :
    Runs [.program p, .used x, .fixed id, .length id] (bindParameter p x id passing)
      fun _ => [] := by
  refine .bind (symbol_does x : Learning .outside _ _ _).runs fun d => ?_
  have rest : ∀ binding, Runs [.fits x binding, .fixed id] (do
      name id d.name
      bind x binding : Codegen Unit) fun _ => [] := fun binding =>
    .bind (name_provides id d.name).runs.up fun _ => (bind_runs x binding).last
  cases passing with
  | byAddress =>
    refine .bind (addressedParameter_learns p d.type).runs fun (storage, type) => ?_
    exact (rest (.object id type storage)).last
      (p := entails_cons.2 ⟨gives_fits_local own, inferInstance⟩)
  | byCopy =>
    refine .bind (valueType_learns p d.type).runs fun type => ?_
    exact (rest (.object id type .function)).last
      (p := entails_cons.2 ⟨gives_fits_local own, inferInstance⟩)
  | byValue =>
    refine .bind (valueType_learns p d.type).runs fun type => ?_
    exact (rest (.value id type)).last
      (p := entails_cons.2 ⟨gives_fits_parameter own, inferInstance⟩)

/-- Parameters are bound to what callers pass, which takes no code. -/
theorem bindParameter_learns (p : Program) (parameter : SymbolId) (id : Ident) (passing : Passing) :
    Keeps w State.Learns (bindParameter p parameter id passing) := by
  refine .bind (symbol_does parameter).acts fun d => ?_
  have rest : ∀ binding, Keeps w State.Learns (do
      name id d.name
      bind parameter binding : Codegen Unit) := fun binding =>
    .bind (name_provides id d.name).silent.up fun _ => note_learns (fun _ => .note) fun _ _ => rfl
  cases passing with
  | byAddress => exact .bind (addressedParameter_learns p d.type).acts fun _ => rest _
  | byCopy | byValue => exact .bind (valueType_learns p d.type).acts fun _ => rest _

/-! ## The entry point -/

theorem extentConstant_provides (word : Ident) (e : Extent) :
    Provides w [.shared word] (extentConstant word e) ([.shared ·]) := by
  unfold extentConstant
  dsimp only
  split
  · exact (constWord_provides _).last
  · refine .bind (specBits_provides word _) fun id => ?_
    exact .bind (annotate_provides rfl rfl) fun _ => .pure

theorem workgroupConstant_provides (layout : ExecutionLayout) :
    Provides w [] (workgroupConstant layout) fun _ => [] := by
  refine .bind typeWord_provides fun word => ?_
  refine .bind (typeVector_provides word 3) fun type => ?_
  refine .bind (.mapFact .shared fun e _ => extentConstant_provides word e) fun parts => ?_
  refine .bind (specComposite_provides type parts) fun id => ?_
  exact .last (annotate_provides rfl rfl)

theorem mem_lent_of_mem_interface {p : Program} {functions : List FunctionId}
    {x : Ident} (h : x ∈ interface p s functions) : x ∈ s.builder.lent := by
  refine mem_append_right _ ?_
  unfold interface at h
  split at h
  · exact (mem_filter.1 h).1
  · exact h

/-- What a module says about its source and its entry points may change. -/
theorem dressed {l : Ledger} {m : Module} (sound : World.Sound l s)
    (roots : l.strict → ∀ x ∈ m.rootIds, x ∈ s.builder.output.rootIds ∨ s.builder.Shared l x) :
    let t : State := { s with builder.output := { s.builder.output with
      source := m.source, sourceExtensions := m.sourceExtensions
      entryPoints := m.entryPoints, executionModes := m.executionModes } }
    ∃ l', World.Sound l' t ∧ s.builder.Grows l l' t.builder ∧ World.Same l s l' t ∧
    Fact.AllHold l' t.builder [] := by
  intro t
  have code : s.builder.SameCode t.builder := ⟨rfl, rfl, rfl⟩
  have grows : s.builder.Grows l l t.builder := code.grows (Nat.le_refl _) (fun _ => id) fun _ => id
  refine ⟨l, fun hs => ?_, grows, ⟨rfl, rfl, rfl, .same rfl rfl (Nat.le_refl _)⟩, Fact.allHold_nil⟩
  have old := (sound hs).builder
  exact (sound hs).replace hs (code.sound grows hs old
    { old with roots := fun x hx => (roots hs x hx).elim (old.roots x) id } old.distinct
    old.below (old.order.mono rfl (fun _ => id) (fun _ => Iff.rfl) fun _ _ => id)) grows (.refl l)

theorem recordSource_runs (p : Program) : Runs [] (recordSource p) fun _ => [] := by
  intro l s u t sound hold ends
  cases ends
  exact dressed (m := { s.builder.output with
    source := some (p.language, p.languageVersion), sourceExtensions := p.extensions })
      sound fun _ _ => .inl

theorem addRoots_runs (entryPoint : EntryPoint) (modes : List (ExecutionMode × List Nat)) :
    Runs ((entryPoint.function :: entryPoint.interface).map .anywhere)
      (modify fun s =>
        { s with
          builder.output.entryPoints := s.builder.output.entryPoints ++ [entryPoint]
          builder.output.executionModes :=
            s.builder.output.executionModes ++ modes.map (entryPoint.function, ·) } :
        Codegen PUnit) fun _ => [] := by
  intro l s u t sound hold ends
  cases ends
  refine dressed (m := { s.builder.output with
    entryPoints := s.builder.output.entryPoints ++ [entryPoint]
    executionModes := s.builder.output.executionModes ++ modes.map (entryPoint.function, ·) }) sound
    fun hs x hx => ?_
  have shared : ∀ x ∈ entryPoint.function :: entryPoint.interface, s.builder.Shared l x :=
    fun x hx => (hold (.anywhere x) (mem_map_of_mem hx) hs).1
  simp only [Module.rootIds, flatMap_append, map_append, mem_append, flatMap_singleton] at hx ⊢
  rcases hx with (hx | hx) | hx | hx
  · exact .inl (.inl hx)
  · exact .inr (shared x hx)
  · exact .inl (.inr hx)
  · obtain ⟨m, hm, rfl⟩ := mem_map.1 hx
    obtain ⟨mode, -, rfl⟩ := mem_map.1 hm
    exact .inr (shared _ mem_cons_self)

theorem addEntryPoint_runs (p : Program) (functions : List FunctionId) :
    Runs [] (addEntryPoint p functions) fun _ => [] := by
  refine .bind (signature_runs p.entry) fun signature => ?_
  refine .bind .getState fun s => ?_
  extract_lets entryPoint modes
  have roots : Runs [.tables s.builder, .anywhere signature.id] (modify fun s =>
      { s with
        builder.output.entryPoints := s.builder.output.entryPoints ++ [entryPoint]
        builder.output.executionModes := s.builder.output.executionModes ++ modes } :
      Codegen PUnit) fun _ => [] := by
    refine (addRoots_runs entryPoint _).last (p := ?_)
    rw [map_cons, entails_cons, entails_map]
    exact ⟨.of_mem (by simp [entryPoint]), fun x hx =>
      gives_lent (mem_lent_of_mem_interface hx)⟩
  exact .guard (fun _ => (workgroupConstant_provides p.layout).runs.up) (roots.last)

/-! ## The program -/

/-- What comes before anything of the program. -/
def preparation (p : Program) (o : Options) : Codegen Unit := do
  require p.stage.requirements
  if o.emitSource then recordSource p

/-- What is made of the program. -/
def generation (p : Program) (o : Options) : Codegen Unit := do
  (p.emitted o).forM (declareFunction p)
  p.globals.forM fun id => do
    let _ ← bindingOf p (typer p) id
  (p.emitted o).forM (defineFunction p)
  addEntryPoint p (p.emitted o)
  completeReferences p (typer p)

theorem whole_eq (p : Program) (o : Options) :
    whole p o = preparation p o >>= fun _ => generation p o := by
  unfold whole preparation
  rw [bind_assoc]
  cases o.emitSource <;> rfl

theorem preparation_runs (p : Program) (o : Options) : Runs [] (preparation p o) fun _ => [] := by
  refine .bind (require_provides _).runs.up fun _ => ?_
  split
  · exact recordSource_runs p
  · exact .pure

theorem ends_whole {o : Options} {t : State} {u : Unit} (ends : Ends (whole p o) s u t) :
    ∃ r s1, Ends (preparation p o) s r s1 ∧ Ends (generation p o) s1 u t :=
  Steps.ends_bind (whole_eq p o ▸ ends)

end Codegen

/-! ## The first steps -/

namespace Builder

/-- A builder before its first step. -/
def blank (target : Target) (o : Options) : Builder :=
  { toCursor := default
    output := { version := o.version.getD target.version, generator := o.generator }
    vulkanMemoryModel := target.vulkanMemoryModel
    debugNames := o.debugNames }

def setup (target : Target) : Emit Unit := do
  addCapability .shader
  if target.vulkanMemoryModel then
    addCapability .vulkanMemoryModel
    useExtension .vulkanMemoryModel

theorem ends_setup (target : Target) (o : Options) :
    Steps.Ends (setup target) (blank target o) () (start target o) := rfl

theorem setup_provides (target : Target) : Provides w [] (setup target) fun _ => [] := by
  refine .bind (addCapability_provides _) fun _ => ?_
  split
  · exact .bind (addCapability_provides _) fun _ => (useExtension_provides _).last
  · exact .pure

end Builder

end ShaderGen
