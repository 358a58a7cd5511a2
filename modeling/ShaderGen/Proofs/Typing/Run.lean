import ShaderGen.Proofs.Generation.Body
import ShaderGen.Proofs.Typing.Typer

/-!
# Whole runs keep to the course

All of code generation is a course of the steps that `State.Step` lists. A step of it `Proceeds` if
it leads on from a regular state along a trace. The elementary steps do so, and with them the code
of functions (`Generates.onward`). A run for a whole program is a trace that begins with nothing
(`Codegen.whole_trace`) and comes by every moment of the run (`Proceeds.passes`), so what holds
along every trace holds wherever a run has come to.
-/

namespace ShaderGen

open Builder
open Steps (Ends ends_bind ends_then)

variable {p : Program} {s t : State}

/-- A regular state leads on to the other one. -/
def State.Onward (p : Program) (s t : State) : Prop := s.Regular p → Trace p s t

instance (p : Program) : IsPreorder State (State.Onward p) where
  refl _ _ := .refl
  trans _ _ _ h g regular := (h regular).trans (g ((h regular).regular regular))

/-- The step leads on along a trace. -/
abbrev Proceeds (p : Program) {α : Type} (c : Codegen α) : Prop := Relates (State.Onward p) c

/-- Every moment of a run is on its trace: wherever one step has ended and the next one begins, the
trace of both comes by. -/
theorem Proceeds.passes {α β : Type} {x : Codegen α} {f : α → Codegen β} {r : β}
    (first : Proceeds p x) (next : ∀ a, Proceeds p (f a)) (regular : s.Regular p)
    (ends : Ends (x >>= f) s r t) :
    ∃ a u, Ends x s a u ∧ Ends (f a) u r t ∧ Trace p s u ∧ Trace p u t := by
  obtain ⟨a, u, begins, ends⟩ := ends_bind ends
  have before := first s a u begins regular
  exact ⟨a, u, begins, ends, before, next a u r t ends (before.regular regular)⟩

theorem State.Sparing.onward (h : s.Modest t) : s.Onward p t :=
  fun _ => .single (.modest h)

theorem State.Leads.onward {keys : StructId → Prop}
    (h : s.Leads p keys t) : s.Onward p t := fun regular => (h regular).1

theorem proceeds_of_calm {f : State → State} (h : ∀ s : State, s.builder.Calm (f s).builder)
    (same : ∀ s : State, (f s).bindings = s.bindings ∧ (f s).structTypes = s.structTypes ∧
      (f s).references = s.references ∧ (f s).memberTables = s.memberTables) :
    Proceeds p (modify f : Codegen PUnit) := .remember fun s => by
  obtain ⟨bindings, structTypes, references, memberTables⟩ := same s
  exact State.Sparing.onward ⟨(h s).progress, bindings, structTypes, references, memberTables⟩

namespace Codegen

variable {p : Program} {α : Type}

theorem build_proceeds {m : Type → Type} [Monad m] [MonadLiftT m Codegen] [Steps m Builder]
    [Embeds m Codegen State] {c : m α} (h : Relates Builder.Progress c) :
    Proceeds p (liftM c : Codegen α) := build_relates (fun _ _ modest => modest.onward) h

theorem typer_proceeds (r : TypeRequest) : Proceeds p (typer p r) :=
  fun s id u ends => ((isTyper_typeWithin p _).leads r s id u ends).onward

theorem valueType_proceeds (t : ShaderType) : Proceeds p (valueType p t) := typer_proceeds _

theorem bindingOf_proceeds (x : SymbolId) : Proceeds p (bindingOf p (typer p) x) :=
  fun _ _ _ ends => (bindingOf_leads (isTyper_typeWithin p _) ends).1.onward

theorem targetType_proceeds (id : StructId) : Proceeds p (targetType p (typer p) id) :=
  fun s type u ends => (targetType_leads (isTyper_typeWithin p _) id s type u ends).onward

theorem completeReference_trace {id : StructId} {type : Ident} {u : State} {a : Unit}
    (ends : Ends (completeReference p (typer p) id type) s a u) (regular : s.Regular p)
    (known : ∃ r, s.references.lookup id = some r ∧ r.type = type) : Trace p s u := by
  obtain ⟨referent, s1, first, _, s2, second, ends⟩ := ends_bind₂ ends
  cases ends
  have trace := targetType_proceeds id s referent s1 first regular
  have modest := sparing_lift (completePointer_progress _ _) s1 _ s2 second
  refine (trace.tail (.modest modest)).tail (.refer fun r found => ?_)
  obtain ⟨r0, found0, same0⟩ := known
  obtain ⟨r1, found1, same1⟩ := (trace.keeps regular).references id r0 found0
  rw [modest.references] at found
  cases found.symm.trans found1
  exact same1.trans same0

theorem pointee_proceeds (id : StructId) (type : Ident) : Proceeds p (do
    match (← builder).pointee? type with
    | some pointee => return pointee
    | none => fail (.noPointee id) : Codegen Ident) := by
  refine .bind .builder fun b => ?_
  split
  · exact .pure
  · exact .fail

theorem followReference_proceeds (id : StructId) : Proceeds p (followReference p (typer p) id) := by
  intro s pointee u ends regular
  obtain ⟨type, s1, first, ends⟩ := ends_bind ends
  obtain ⟨⟨trace, -⟩, typed⟩ := referenceType_yields (isTyper_typeWithin p _)
    (t := { basic := .reference id }) rfl rfl .none false s type s1 first regular
  have regular1 := trace.regular regular
  have known := typed.of_reference rfl rfl
  replace ends := ends_get ends
  split at ends
  · obtain ⟨_, s2, second, ends⟩ := ends_bind ends
    have trace' := completeReference_trace second regular1 known
    exact (trace.trans trace').trans
      (pointee_proceeds id type s2 pointee u ends (trace'.regular regular1))
  · exact trace.trans (pointee_proceeds id type _ pointee u ends regular1)

theorem completeReferences_proceeds : Proceeds p (completeReferences p (typer p)) := by
  intro s a u ends regular
  have loop := ends_get ends
  clear ends
  have known : ∀ q ∈ openReferences p s, ∃ r, s.references.lookup q.1 = some r ∧ r.type = q.2 := by
    rintro ⟨id, type⟩ mem
    obtain ⟨id', -, some⟩ := List.mem_filterMap.1 mem
    split at some
    · rename_i found
      obtain ⟨rfl, rfl⟩ := Prod.mk.inj (Option.some.inj some)
      exact ⟨_, found, rfl⟩
    · cases some
  generalize openReferences p s = list at loop known
  induction list generalizing s with
  | nil =>
    obtain ⟨-, rfl⟩ := Steps.ends_pure loop
    exact .refl
  | cons q rest ih =>
    obtain ⟨_, s1, first, others⟩ := ends_bind loop
    have trace := completeReference_trace first regular (known q List.mem_cons_self)
    refine trace.trans (ih s1 (trace.regular regular) others fun q' mem => ?_)
    obtain ⟨r, found, same⟩ := known q' (List.mem_cons_of_mem q mem)
    obtain ⟨r', found', same'⟩ := (trace.keeps regular).references _ r found
    exact ⟨r', found', same'.trans same⟩

theorem require_proceeds {r : Requirements} (general : r.General) :
    Proceeds p (liftM (require r) : Codegen Unit) := build_proceeds (require_progress general)

theorem admits_onward : Admits p (typer p) (fun _ => True) (State.Onward p) :=
  ⟨divides_all, fun _ _ modest => modest.onward, fun r _ => typer_proceeds r⟩

end Codegen

/-! ## Code -/

theorem Builder.Elementary.progress {b b' : Builder} (h : b.Elementary b') : b.Progress b' := by
  cases h with
  | fresh ends => exact fresh_progress b _ b' ends
  | addCapability ends => exact progress_of_calm (addCapability_adorned _) b _ b' ends
  | useExtension general ends => exact progress_of_calm (useExtension_adorned general) b _ b' ends
  | markNonUniform ends => exact decorate_progress _ rfl b _ b' ends
  | importSet ends => exact progress_of_calm (importSet_adorned _) b _ b' ends
  | typeBool ends => exact typeBool_makes.progress b _ b' ends
  | typeInt ends => exact (typeInt_makes _ _).progress b _ b' ends
  | typeFloat ends => exact (typeFloat_makes _).progress b _ b' ends
  | typeVector ends => exact (typeVector_makes _ _).progress b _ b' ends
  | typePointer ends => exact typePointer_progress _ _ b _ b' ends
  | typeStruct ends =>
    intro tidy
    obtain ⟨tidy', later, -, -⟩ :=
      typeStruct_makes ends (refl_of (Adorned (OwnNote _ fun _ topic => (topic, none))) _) tidy
    exact ⟨tidy', later⟩
  | constBits ends => exact (constBits_makes _ _).progress b _ b' ends
  | constFilled ends => exact constFilled_progress _ _ b _ b' ends
  | constComposite ends => exact (constComposite_makes _ _).progress b _ b' ends
  | constNull ends => exact constNull_progress _ b _ b' ends
  | append _ ends => exact append_progress _ b _ b' ends
  | localVariable ends => exact localVariable_progress _ _ b _ b' ends
  | endBlock _ ends => exact endBlock_progress _ b _ b' ends
  | endWith _ ends => exact endWith_progress _ _ b _ b' ends
  | beginBlock ends => exact beginBlock_progress _ b _ b' ends
  | markDead ends => exact markDead_progress b _ b' ends

section Code

variable {p : Program} {α : Type} {c : Codegen α} {calls : List FunctionId}

theorem State.Elementary.onward (h : s.Elementary p t) : s.Onward p t := by
  cases h with
  | build step => exact Sparing.onward ⟨step.progress, rfl, rfl, rfl, rfl⟩
  | type ends => exact Codegen.typer_proceeds _ s _ t ends
  | constant ends => exact Codegen.constant_relates Codegen.admits_onward _ trivial s _ t ends
  | bind ends => exact Codegen.bindingOf_proceeds _ s _ t ends
  | follow ends => exact Codegen.followReference_proceeds _ s _ t ends
  | report | remember =>
    refine Sparing.onward ?_
    exact Sparing.of_same rfl rfl rfl rfl rfl

theorem Generates.onward (h : Generates p calls s t) : s.Onward p t := by
  induction h with
  | refl s => exact refl_of (State.Onward p) s
  | step _ last ih => exact trans_of (State.Onward p) ih last.onward
  | @call _ s t b _ _ _ _ _ _ ends ih =>
    have modest : t.Modest { t with builder := b } :=
      ⟨emit_progress _ _ _ _ _ _ ends, rfl, rfl, rfl, rfl⟩
    exact trans_of (State.Onward p) ih modest.onward

theorem Acting.proceeds {x y : Stance} (h : Acting x y (Quiet p) c) : Proceeds p c :=
  fun s a t ends => Generates.onward (h.leads s a t ends)

theorem CallsFrom.proceeds {x y : Stance} {whole : Prop}
    (h : CallsFrom x y p calls whole c) : Proceeds p c := fun s a t ends => by
  obtain ⟨_, -, generates, -⟩ := h.leads s a t ends
  exact generates.onward

end Code

namespace Codegen

variable {p : Program}

/-! ## Functions -/

theorem declareFunction_proceeds (f : FunctionId) : Proceeds p (declareFunction p f) := by
  refine .bind (function_relates f) fun definition => .bind (valueType_proceeds _) fun _ => ?_
  refine .bind (.mapM fun x _ => ?_) fun _ => .bind (fresh_callFree (x := .outside)).proceeds
    fun _ =>
    proceeds_of_calm (fun _ => refl_of _ _) fun _ => ⟨rfl, rfl, rfl, rfl⟩
  exact .bind (symbol_relates _) fun _ => (parameterType_does (w := .outside) p _).acts.proceeds

theorem bindParameter_proceeds {x : SymbolId} (h : p.IsParameter x) (id : Ident)
    (passing : Passing) : Proceeds p (bindParameter p x id passing) := by
  have bound : ∀ (text : String) (binding : Binding), Proceeds p (do
      name id text
      bind x binding : Codegen Unit) := fun text binding =>
    .bind (build_proceeds (addName_progress _)) fun _ =>
      .remember fun s _ => .single (.bind fun once => absurd h once.notParameter)
  refine .bind (symbol_relates x) fun d => ?_
  split
  · exact .bind (addressedParameter_callFree (w := .inside) _).proceeds fun _ => bound _ _
  · exact .bind (valueType_proceeds _) fun _ => bound _ _
  · exact .bind (valueType_proceeds _) fun _ => bound _ _

theorem defineFunction_proceeds (f : FunctionId) : Proceeds p (defineFunction p f) := by
  intro s a u ends
  obtain ⟨definition, s1, ⟨found, rfl⟩, rest⟩ := ends_then ends_function ends
  have declared : definition ∈ p.functions := List.mem_of_getElem? found
  refine Relates.bind (signature_relates f) (fun signature => ?_) s1 a u rest
  refine .bind (build_proceeds (beginFunction_progress _ _ _ _)) fun ids => ?_
  refine .bind (.bind (.forM fun q mem => bindParameter_proceeds ?_ _ _) fun _ =>
    CallsFrom.proceeds (body_calls f definition)) fun _ => ?_
  · exact ⟨definition, declared, (List.of_mem_zip (List.of_mem_zip mem).1).1⟩
  · exact .bind (closeBody_callFree _ _).proceeds fun _ => build_proceeds endFunction_progress

/-! ## Programs -/

theorem workgroupConstant_progress (l : ExecutionLayout) :
    Relates Builder.Progress (workgroupConstant l) := by
  have settles : ∀ id {d : Decoration} {argument : Option Operand}, d ≠ .arrayStride →
      Relates (Adorned (OwnNote id fun _ _ => (d, argument)))
        (annotate { target := id, decoration := d, argument }) :=
    fun id _ _ other => annotate_adorned ⟨fun _ => rfl, other, fun _ _ => rfl⟩
  refine .bind (typeInt_makes 32 false).progress fun word => ?_
  refine .bind (typeVector_makes word 3).progress fun type => .bind (.mapM fun e _ => ?_)
    fun parts => ?_
  · unfold extentConstant
    split
    · exact (constInteger_makes 32 false _).progress
    · exact (specBits_brings _ _).noted fun id => .bind (settles id (by simp)) fun _ => .pure
  · exact (specComposite_brings type parts).noted fun id => settles id (by simp)

theorem addEntryPoint_proceeds (functions : List FunctionId) :
    Proceeds p (addEntryPoint p functions) := by
  refine .bind (signature_relates _) fun signature => .bind .getState fun s => ?_
  refine .guard (build_proceeds (workgroupConstant_progress _)) ?_
  exact proceeds_of_calm (fun s => .of_output _ (Nat.le_refl _) rfl)
    fun _ => ⟨rfl, rfl, rfl, rfl⟩

theorem whole_proceeds (o : Options) : Proceeds p (whole p o) := by
  refine .bind (require_proceeds p.stage.requirements_general) fun _ => .guard ?_ ?_
  · exact proceeds_of_calm (fun s => .of_output _ (Nat.le_refl _) rfl)
      fun _ => ⟨rfl, rfl, rfl, rfl⟩
  · exact .bind (.forM fun f _ => declareFunction_proceeds f) fun _ =>
      .bind (.forM fun x _ => .bind (bindingOf_proceeds x) fun _ => .pure) fun _ =>
      .bind (.forM fun f _ => defineFunction_proceeds f) fun _ =>
      .bind (addEntryPoint_proceeds _) fun _ => completeReferences_proceeds

end Codegen

/-! ## The beginning -/

theorem Builder.setup_adorned (target : Target) (kind : Annotation → Prop) :
    Relates (Adorned kind) (setup target) := by
  refine .bind (addCapability_adorned _) fun _ => ?_
  split
  · exact .bind (addCapability_adorned _) fun _ => useExtension_adorned (by decide)
  · exact .pure

theorem Builder.tidy_start (target : Target) (o : Options) : (start target o).Tidy := by
  refine (Calm.progress (setup_adorned target _ _ () _ (ends_setup target o)) ?_).1
  constructor <;> simp [blank, form?]
  constructor <;> simp

/-- What a run begins with. -/
def Program.initial (p : Program) (o : Options) : State := { builder := start p.target o }

theorem State.regular_initial (p : Program) (o : Options) : (p.initial o).Regular p :=
  ⟨tidy_start p.target o, (fun _ _ found => by cases found),
    (fun _ _ found => by cases found), fun _ _ mem => by cases mem⟩

theorem Codegen.whole_trace {o : Options} {u : State} (ends : Ends (whole p o) (p.initial o) () u) :
    Trace p (p.initial o) u := whole_proceeds o _ () u ends (State.regular_initial p o)

end ShaderGen
