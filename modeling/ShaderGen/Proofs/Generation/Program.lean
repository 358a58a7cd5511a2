import ShaderGen.Proofs.Calls.Reach
import ShaderGen.Proofs.Control.Program
import ShaderGen.Proofs.Generation.Body

/-!
# Whole programs

Code generation as a whole starts outside of any function and stops there. In between, the code of
each node starts in an open block and leaves one open (`Program.builder_never_misused`), so that
there is never a step that the builder cannot make where it stands.
-/

namespace ShaderGen

open Builder
open Steps (Ends Fails)

namespace Codegen

variable {p : Program} {x : Stance}

/-! ## Functions -/

theorem declareFunction_any (f : FunctionId) : Acting x x .any (declareFunction p f) := by
  refine .bind (function_does f).acts fun d => .bind (typer_acts (E := Quiet p) _).forget
    fun returnType => ?_
  refine .bind (.mapM fun parameter _ => ?_) fun _ => .bind (fresh_callFree (p := p)).forget
    fun _ => ?_
  · exact .bind (symbol_does parameter).acts fun _ => (parameterType_does p _).acts.forget
  · exact .remember (fun _ => trivial) fun _ _ => rfl

theorem function_wanting {α : Type} {y : Stance} {f : FunctionId} {calls : List FunctionId}
    {k : FunctionDecl → Codegen α} (h : ∀ d, p.function? f = some d →
      Acting x y (Wanting calls) (k d)) :
    Acting x y (Wanting calls) (p.function f >>= k) := by
  unfold Program.function
  split
  · exact h _ ‹_›
  · exact .fail rfl

theorem defineFunction_wanting (f : FunctionId) :
    Acting .outside .outside (Wanting (f :: p.orderOf f)) (defineFunction p f) := by
  refine function_wanting fun d found => ?_
  have order : p.orderOf f = callOrders (p.prelude f ++ d.body) := by simp [Program.orderOf, found]
  rw [order]
  refine .bind (Wanting.widen (signature_wanting f) (by simp)) fun signature => ?_
  refine .bind (Wanting.build (beginFunction_any _ _ _ _)) fun ids =>
    .bind (y := .inside) ?_ fun _ => ?_
  · have binds := Wanting.forM ((d.parameters.zip ids).zip signature.passing) fun q _ =>
      (Wanting.of_learns (bindParameter_learns p q.1.1 q.1.2 q.2) :
        Acting .inside .inside (Wanting []) _)
    exact .bind (Wanting.widen binds (by intro; simp)) fun _ =>
      Wanting.widen (Wanting.of_calls (body_calls f d)) (List.subset_cons_self _ _)
  · refine .bind (Wanting.of_quiet (closeBody_callFree (p := p) _ _)) fun _ => ?_
    exact Wanting.build endFunction_any

/-! ## The entry point -/

variable (functions : List FunctionId)

theorem addEntryPoint_wanting :
    Acting x x (Wanting [p.entry]) (addEntryPoint p functions) := by
  refine .bind (signature_wanting p.entry) fun signature => .lookState (fun _ => ?_) fun s => ?_
  · rfl
  refine .guard (fun _ => ?_) ?_
  · exact Wanting.of_learns (workgroupConstant_provides _).silent.up
  · exact .change (fun _ => rfl) (fun _ => ⟨rfl, rfl, rfl⟩) fun _ => rfl

theorem completeReferences_learns : Keeps x State.Learns (completeReferences p (typer p)) :=
  .lookState (fun _ => rfl) fun _ => .forM fun _ _ => completeReference_learns p _ _

/-! ## The program -/

theorem bindGlobals_callFree (p : Program) : Acting x x (Quiet p) (p.globals.forM fun id => do
    let _ ← bindingOf p (typer p) id : Codegen PUnit) :=
  .forM fun id _ => .bind (bindingOf_callFree id) fun _ => .pure

theorem definitions_wanting : Acting .outside .outside
    (Wanting (functions.flatMap (fun f => f :: p.orderOf f) ++ [p.entry])) (do
      functions.forM (defineFunction p)
      addEntryPoint p functions
      completeReferences p (typer p) : Codegen Unit) := by
  have defines := Wanting.forM functions fun f _ => defineFunction_wanting (p := p) f
  refine .bind (Wanting.widen defines (List.subset_append_left _ _)) fun _ => ?_
  refine .bind (Wanting.widen (addEntryPoint_wanting _) (List.subset_append_right _ _)) fun _ => ?_
  exact Wanting.of_learns completeReferences_learns

theorem preparation_any (p : Program) (o : Options) : Acting x x .any (preparation p o) := by
  refine .bind (.up (fun _ _ _ => trivial) (require_provides _).acts) fun _ => ?_
  split
  · exact .change (fun _ => trivial) (fun _ => ⟨rfl, rfl, rfl⟩) fun _ => rfl
  · exact .pure

/-- The program is made between functions, whichever function may be wanted for it. -/
theorem generation_free (p : Program) (o : Options) :
    Acting .outside .outside .free (generation p o) := by
  have declares : Acting .outside .outside .any ((p.emitted o).forM (declareFunction p)) :=
    .forM fun f _ => declareFunction_any f
  exact .bind declares.free fun _ => .bind (bindGlobals_callFree p).free fun _ =>
    (definitions_wanting _).free

theorem whole_free (p : Program) (o : Options) : Acting .outside .outside .free (whole p o) := by
  rw [whole_eq]
  exact .bind (preparation_any p o).free fun _ => generation_free p o

end Codegen

namespace Builder

theorem stands_start (target : Target) (o : Options) : (start target o).Stands .outside :=
  (setup_provides target).acts.steady _ () _ ⟨rfl, rfl, rfl⟩ (ends_setup target o)

/-- The builder is left as it has been, wherever it had stood. -/
theorem localVariable_place {text : String} {type id : Ident} {b b' : Builder}
    (ends : Ends (localVariable text type) b id b') : b'.place = b.place := by
  obtain ⟨pointer, b1, label, k, f, points, -, -, -, -, -, named⟩ := ends_localVariable ends
  have pointed := (typePointer_provides (w := .outside) .function type).acts.leads b
    pointer b1 points
  have same := (name_provides (w := .outside) _ _).acts.leads _ () b' named
  exact same.place.trans pointed.place

end Builder

/-- **The builder is never misused.** Code generation does not fail for that. The code of a node
that is started in an open block, the one that control stands in, does not either, and if it
succeeds, it leaves such a block open and the targets of jumps as they were. So does the code of a
function, which is started in such a block. A variable may be declared in between, which leaves the
place for code as it was. -/
theorem Program.builder_never_misused (p : Program) :
    (∀ o order misuse, p.generate o order ≠ .error (.building misuse)) ∧
    (∀ n (s : State), s.builder.Stands .inside →
      (∀ misuse, ¬ Fails (Codegen.code p n) s (.building misuse)) ∧
      ∀ outcome t, Ends (Codegen.code p n) s outcome t →
        t.builder.Stands .inside ∧ t.scopes = s.scopes) ∧
    (∀ id text type types b ids b', b.Stands .outside →
      Ends (beginFunction id text type types) b ids b' → b'.Stands .inside) ∧
    ∀ text type b id b', Ends (localVariable text type) b id b' → b'.place = b.place := by
  refine ⟨fun o order misuse failed => ?_, fun n s stands => ?_,
    fun id text type types b ids b' => ?_, fun _ _ _ _ _ => localVariable_place⟩
  · have fails : Fails (Codegen.whole (p.withOptions o) o)
        { builder := .start (p.withOptions o).target o } (.building misuse) := by
      unfold generate at failed
      dsimp only at failed
      split at failed
      · cases failed
      · cases failed
        exact ⟨_, ‹_›⟩
    cases ((Codegen.whole_free _ o).fails _ _ (stands_start _ o) fails).1
  · have does := Codegen.code_does p n.symbols n fun _ mem => mem
    refine ⟨fun misuse fails => ?_, fun outcome t ends =>
      ⟨does.acts.steady s outcome t stands ends, ?_⟩⟩
    · cases (does.acts.fails s _ stands fails).1
    · obtain ⟨block, here, -⟩ := stands
      obtain ⟨f, k, current, -, selected, -⟩ := exists_selected here
      exact (does.runs.same (by simp [selected]) (by simp [current]) ends).scopes
  · exact (beginFunction_any id text type types).steady b ids b'

theorem Program.builder_never_misused_begun : ∃ ids b', (start {} {}).Stands .outside ∧
    Ends (beginFunction 1 "main" 2 [3]) (start {} {}) ids b' ∧ b'.Stands .inside ∧
    ∀ misuse, ¬ Fails (Codegen.code {} (.jump { type := .void } .kill none)) { builder := b' }
      (.building misuse) := by
  have outside := stands_start {} {}
  have begun : Ends (beginFunction 1 "main" 2 [3]) (start {} {}) _ _ := rfl
  have inside := (builder_never_misused {}).2.2.1 1 "main" 2 [3] _ _ _ outside begun
  exact ⟨_, _, outside, begun, inside, ((builder_never_misused {}).2.1 _ { builder := _ } inside).1⟩

end ShaderGen
