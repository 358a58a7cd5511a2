import ShaderGen.Proofs.Calls.Program

/-!
# Declared functions

All functions of a module are declared before the code of the first one is generated, and no other
function is called. So the functions of a finished module are those that are emitted, and whatever
the code calls is one of them (`Program.functions_emitted_once`). A function can be missing only if
uncalled functions are to be emitted too and their code calls what the program does not define.
-/

namespace ShaderGen

open List
open Steps (Ends Fails)

/-! ## Whole programs -/

namespace Program

variable {p : Program} {o : Options} {f g : FunctionId}

theorem entry_mem_emitted (p : Program) (o : Options) : p.entry ∈ p.emitted o := by
  unfold emitted
  split
  · exact mem_cons_self
  · exact p.explored_reachable.1.keeps mem_cons_self

/-- What the code of the module calls is part of the module, unless uncalled functions are emitted
and there is no such function. -/
theorem undefined_of_not_mem_emitted (h : f ∈ p.emitted o) (called : g ∈ p.orderOf f)
    (missing : g ∉ p.emitted o) : o.emitUncalled ∧ p.function? g = none := by
  unfold emitted at h missing
  split at missing
  · simp only [mem_cons, mem_filter, mem_range, bne_iff_ne, not_or, not_and] at missing
    have outside : p.functions.length ≤ g := Nat.le_of_not_lt fun inside =>
      missing.2 inside missing.1
    exact ⟨‹_›, by simp [function?, outside]⟩
  · rw [if_neg ‹_›] at h
    exact absurd (orderOf_subset h called) missing

theorem emitted_withOptions (p : Program) (o o' : Options) :
    (p.withOptions o).emitted o' = p.emitted o' := by
  have search : ∀ fuel, (p.withOptions o).explore fuel = p.explore fuel := by
    intro fuel
    induction fuel with
    | zero => rfl
    | succ fuel ih =>
      funext found f
      rw [explore, explore, ih]
      rfl
  unfold emitted reachable
  rw [search]
  rfl

end Program

namespace Codegen

variable {p : Program} {f g : FunctionId} {s t : State} {e : Failure}

theorem declareFunctions_declare {functions : List FunctionId} {u : Unit}
    (ends : Ends (functions.forM (declareFunction p)) s u t) (f : FunctionId)
    (h : f ∈ functions ∨ (s.signatures.lookup f).isSome) : (t.signatures.lookup f).isSome := by
  induction functions generalizing s with
  | nil =>
    cases ends
    exact h.resolve_left (not_mem_nil)
  | cons g rest ih =>
    obtain ⟨_, s1, ⟨definition, signature, -, -, signatures, -⟩, others⟩ :=
      Steps.ends_then declareFunction_ends ends
    refine ih others ?_
    rw [signatures]
    by_cases same : f = g
    · exact .inr (by simp [same])
    · rw [lookup_cons_of_ne same]
      exact h.imp_left fun mem => (mem_cons.1 mem).resolve_left same

/-- A function can be wanted only if the code of a function of the module calls it, which it is not
part of. -/
theorem whole_wants {o : Options} (stands : s.builder.Stands .outside)
    (fails : Fails (whole p o) s e)
    (wanted : e.wanted? = some g) : ∃ f ∈ p.emitted o, g ∈ p.orderOf f ∧ g ∉ p.emitted o := by
  have none_wanted : ∀ {α : Type} {c : Codegen α} {s : State}, Acting .outside .outside .any c →
      s.builder.Stands .outside → ¬ Fails c s e :=
    fun h stands fails => (h.fails _ e stands fails).2 g wanted
  obtain ⟨s1, stands1, fails1⟩ : ∃ s1 : State, s1.builder.Stands .outside ∧
      Fails (generation p o) s1 e := by
    rw [whole_eq] at fails
    obtain fails1 | ⟨_, s1, prepares, fails1⟩ := Steps.fails_bind fails
    · exact absurd fails1 (none_wanted (preparation_any p o) stands)
    · exact ⟨s1, (preparation_any p o).steady s _ s1 stands prepares, fails1⟩
  have declare : Acting .outside .outside .any ((p.emitted o).forM (declareFunction p)) :=
    .forM fun f _ => declareFunction_any f
  obtain fails3 | ⟨_, s3, declares, fails3⟩ := Steps.fails_bind fails1
  · exact absurd fails3 (none_wanted declare stands1)
  have stands3 := declare.steady s1 _ s3 stands1 declares
  obtain fails4 | ⟨_, s4, binds, fails4⟩ := Steps.fails_bind fails3
  · exact absurd fails4 (none_wanted (bindGlobals_callFree p).forget stands3)
  have declared : ∀ f ∈ p.emitted o, (s4.signatures.lookup f).isSome := fun f mem => by
    rw [((bindGlobals_callFree (x := .outside) p).leads _ _ _ binds).frames.signatures]
    exact declareFunctions_declare declares f (.inl mem)
  have stands4 := (bindGlobals_callFree p).steady s3 _ s4 stands3 binds
  obtain ⟨-, wants⟩ := (definitions_wanting (p := p) (p.emitted o)).fails s4 e stands4 fails4
  obtain ⟨called, undeclared⟩ := wants g wanted
  have missing : g ∉ p.emitted o := fun mem => by simpa [undeclared] using declared g mem
  simp only [mem_append, mem_flatMap, mem_cons, not_mem_nil, or_false] at called
  rcases called with ⟨f, mem, rfl | called⟩ | rfl
  · exact absurd mem missing
  · exact ⟨f, mem, called, missing⟩
  · exact absurd (p.entry_mem_emitted o) missing

end Codegen

/-! ## Finished modules -/

/-- The code of a function calls nothing but functions of the module that its source calls. -/
def Program.CallsEmitted (p : Program) (emitted : List FunctionId) (ids : FunctionId → Ident)
    (f : FunctionId) (callees : List Ident) : Prop :=
  ∀ id ∈ callees, ∃ g ∈ emitted, g ∈ p.orderOf f ∧ id = ids g

theorem exists_of_forall₂ {α β : Type} {rel : α → β → Prop} {as : List α} {bs : List β}
    (h : List.Forall₂ rel as bs) {b : β} (mem : b ∈ bs) : ∃ a, rel a b := by
  induction h with
  | nil => cases mem
  | cons first _ ih =>
    rcases mem_cons.1 mem with rfl | mem
    · exact ⟨_, first⟩
    · exact ih mem

theorem Program.CallsInOrder.callsEmitted {p : Program} {o : Options} {emitted : List FunctionId}
    {ids : FunctionId → Ident} {whole : Prop} {f : FunctionId} {callees : List Ident}
    (h : (p.withOptions o).CallsInOrder emitted ids whole f callees) :
    (p.function? f).isSome ∧ p.CallsEmitted emitted ids f callees := by
  obtain ⟨d, found, calls, rfl, listed, sublist, -⟩ := h
  have found : p.function? f = some d := found
  refine ⟨Option.isSome_of_eq_some found, fun id mem => ?_⟩
  obtain ⟨g, called, rfl⟩ := mem_map.1 mem
  refine ⟨g, listed g called, ?_, rfl⟩
  rw [orderOf, found]
  exact sublist.subset called

/-- **Functions are emitted once each.** The functions of a finished module are those that are
emitted, in this order and under ids of their own, and their code calls no other functions. If there
is no module because a function has not been declared, then uncalled functions were to be emitted
too, and the function is called although the program does not define it. -/
theorem Program.functions_emitted_once (p : Program) (o : Options) (order : SetOrder) :
    (∀ out, p.generate o order = .ok out → (out.shader.functions.map Function.id).Nodup ∧
      (∀ f ∈ out.shader.functions, ∀ id ∈ f.callees, id ∈ out.shader.functions.map Function.id) ∧
      ∃ ids : FunctionId → Ident, List.Forall₂ (fun f (g : Function) => g.id = ids f ∧
        (p.function? f).isSome ∧ p.CallsEmitted (p.emitted o) ids f g.callees)
        (p.emitted o) out.shader.functions) ∧
    ∀ g span, p.generate o order = .error (.generating (.undeclaredFunction g) span) →
      o.emitUncalled ∧ p.function? g = none ∧ ∃ f ∈ p.emitted o, g ∈ p.orderOf f := by
  refine ⟨fun out h => ?_, fun g span h => ?_⟩
  · obtain ⟨s, ends, shader⟩ := exists_endsIn h
    obtain ⟨ids, outside, inOrder⟩ := Codegen.whole_calls (Codegen.announces_start _ o)
      (Builder.calls_start _ o) ends
    rw [Builder.calls, forall₂_map_right_iff, emitted_withOptions] at inOrder
    rw [shader, Builder.functions_finish]
    have each := inOrder.imp fun f g hg => And.intro hg.1 hg.2.callsEmitted
    have named : s.builder.output.functions.map Function.id = (p.emitted o).map ids := by
      refine forall₂_eq_eq_eq ▸ forall₂_map_left_iff.2 (forall₂_map_right_iff.2 ?_)
      exact each.flip.imp fun _ _ hg => hg.1
    refine ⟨ends.nodup_functions, fun g mem id called => ?_, ids, each⟩
    obtain ⟨f, -, -, calls⟩ := exists_of_forall₂ each mem
    obtain ⟨g', emits, -, rfl⟩ := calls id called
    rw [named]
    exact mem_map_of_mem emits
  · have fails : Fails (Codegen.whole (p.withOptions o) o)
        { builder := .start (p.withOptions o).target o }
        (.generating (.undeclaredFunction g) span) := by
      unfold generate at h
      dsimp only at h
      split at h
      · cases h
      · cases h
        exact ⟨_, ‹_›⟩
    obtain ⟨f, emits, called, missing⟩ := Codegen.whole_wants (Builder.stands_start _ o) fails rfl
    rw [emitted_withOptions] at emits missing
    have called : g ∈ p.orderOf f := called
    obtain ⟨uncalled, undefined⟩ := undefined_of_not_mem_emitted emits called missing
    exact ⟨uncalled, undefined, f, emits, called⟩

/-- The entry function calls a function that there is not. -/
def Program.straying : Program :=
  { functions := [
      { name := "main", returnType := .void, body := [.call { type := .void } 7 []] }] }

theorem Program.straying_undeclared :
    straying.generate { emitUncalled := true } = .error (.generating (.undeclaredFunction 7) none) ∧
      Cause.message (.undeclaredFunction 7) = "function 7 was never declared" := by
  have wanted : (match straying.generate { emitUncalled := true } with
      | .error e => some e
      | .ok _ => none) = some (.generating (.undeclaredFunction 7) none) := by decide +kernel
  refine ⟨?_, by decide +kernel⟩
  split at wanted
  · rename_i failed
    rw [failed, Option.some.inj wanted]
  · cases wanted

end ShaderGen
