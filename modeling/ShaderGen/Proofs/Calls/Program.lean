import ShaderGen.Proofs.Calls.Callees
import ShaderGen.Proofs.Generation.Program
import ShaderGen.Proofs.Scope.Program

/-!
# Calls in whole modules

Each function of a finished module calls what its body calls in the source, in the order of
evaluation, and nothing twice that is called once (`Program.calls_keep_order`). The initializers of
variables come first in the entry function. A call is lost only with a part of the source that has
no place in the code, or where a problem has been reported.
-/

namespace ShaderGen

open Builder List
open Steps (Ends ends_bind ends_then)

variable {s : State}

namespace State

variable {f : FunctionId} {o : Options} {u : Unit}

/-- The id that a function has been declared by. -/
def idOf (s : State) (f : FunctionId) : Ident := ((s.signatures.lookup f).map Signature.id).getD 0

theorem idOf_of_lookup {signature : Signature}
    (h : s.signatures.lookup f = some signature) : s.idOf f = signature.id := by
  simp [idOf, h]

/-- No calls are added, and what has been declared or reported stays. -/
structure Stays (s t : State) : Prop where
  adds : s.builder.Adds [] t.builder
  frames : s.Frames t

instance : IsPreorder State Stays where
  refl s := ⟨refl_of (Adds []) s.builder, refl_of Frames s⟩
  trans _ _ _ h g := ⟨h.adds.trans g.adds, trans_of Frames h.frames g.frames⟩

variable {p : Program} {s t : State}

theorem Learns.stays (h : s.Learns t) : s.Stays t := ⟨h.code.adds, h.frames⟩

theorem Elementary.stays (h : s.Elementary p t) : s.Stays t := by
  have built : ∀ (s : State) b, s.builder.Adds [] b → s.Stays (World.replace s b) :=
    fun _ _ adds => ⟨adds, rfl, prefix_refl _⟩
  refine ⟨?_, h.frames⟩
  cases h with
  | build step => exact step.adds
  | report | remember => exact refl_of (Adds []) s.builder
  | type ends => exact ((Codegen.typer_learns (w := .inside) p _).acts.leads s _ t ends).code.adds
  | constant ends =>
    exact ((Codegen.constant_learns (w := .inside) (Codegen.typer_learns p) _ _).acts.leads s _ t
      ends).code.adds
  | bind ends =>
    have globals : ∀ type storage text,
        Keeps .inside (Adds []) (globalVariable type storage text none) :=
      fun _ _ _ => (globalVariable_any _ _ _ _).retell (globalVariable_callFree _ _ _ _)
    have locals : ∀ text type, Keeps .inside (Adds []) (localVariable text type) :=
      fun _ _ => (localVariable_acts _ _).retell (localVariable_callFree _ _)
    exact ((Codegen.bindingOf_keeps Learns.stays (Codegen.typer_learns p)
      (fun _ _ _ => .up built (globals _ _ _))
      (fun _ _ => .up built (locals _ _)) _).leads s _ t ends).adds
  | follow ends =>
    exact ((Codegen.followReference_learns (w := .inside) p _).leads s _ t ends).code.adds

end State

namespace Generates

variable {p : Program} {calls : List FunctionId} {s t : State}

theorem adds (h : Generates p calls s t) : s.builder.Adds (calls.map s.idOf) t.builder := by
  induction h with
  | refl s => exact refl_of (Adds []) s.builder
  | step _ last ih => simpa using ih.trans last.stays.adds
  | call before declared ends ih =>
    have found := before.frames.signatures ▸ declared
    rw [map_append, map_singleton, State.idOf_of_lookup found]
    exact ih.trans (emit_adds ends)

theorem declared (h : Generates p calls s t) : ∀ f ∈ calls, (s.signatures.lookup f).isSome := by
  induction h with
  | refl => simp
  | step _ _ ih => exact ih
  | call before declared _ ih =>
    intro f mem
    rcases mem_append.1 mem with old | new
    · exact ih f old
    · obtain rfl := mem_singleton.1 new
      rw [← before.frames.signatures, declared]
      rfl

end Generates

theorem Acting.stays {p : Program} {α : Type} {c : Codegen α} {x y : Stance}
    (h : Acting x y (Quiet p) c) : Relates State.Stays c := fun s a t ends => by
  have generates := h.leads s a t ends
  exact ⟨generates.adds, generates.frames⟩

variable {functions : List FunctionId}

namespace Codegen

variable {p : Program} {s t : State}

/-! ## Steps between functions -/

theorem preparation_stays (p : Program) (o : Options) : Relates State.Stays (preparation p o) := by
  refine .bind (Acting.stays (p := p) (require_does p.stage.requirements_general).up.acts)
    fun _ => ?_
  split
  · exact .remember fun _ => ⟨adds_moved rfl rfl rfl, rfl, prefix_refl _⟩
  · exact .pure

theorem addEntryPoint_stays (functions : List FunctionId) :
    Relates State.Stays (addEntryPoint p functions) := by
  refine .bind (signature_relates _) fun signature => .bind .getState fun s => ?_
  refine .guard (fun s a t ends => ?_) ?_
  · exact ((workgroupConstant_provides (w := .outside) _).silent.up.leads s a t ends).stays
  exact .remember fun _ => ⟨adds_moved rfl rfl rfl, rfl, prefix_refl _⟩

theorem completeReferences_stays : Relates State.Stays (completeReferences p (typer p)) :=
  fun s _ t ends => ((completeReferences_learns (x := .outside)).leads s _ t ends).stays

/-! ## Declarations -/

theorem declareFunction_ends (ends : Ends (declareFunction p f) s u t) :
    ∃ definition signature, p.function? f = some definition ∧
      signature.passing.length = definition.parameters.length ∧
      t.signatures = (f, signature) :: s.signatures ∧ s.builder.Adds [] t.builder := by
  obtain ⟨definition, s1, finds, returnType, s2, types, ends2⟩ := ends_bind₂ ends
  obtain ⟨parameters, s3, passes, id, s4, gives, ends4⟩ := ends_bind₂ ends2
  obtain ⟨found, rfl⟩ := ends_function finds
  have stays : State.Stays s1 s4 := by
    refine trans_of State.Stays ((typer_acts (E := Quiet p) (w := .outside) _).stays _ _ _ types) ?_
    have each : Acting .outside .outside (Quiet p) (definition.parameters.mapM fun parameter => do
        let s ← p.symbol parameter
        parameterType p s.type) :=
      .mapM fun _ _ => .bind (symbol_does _).acts fun _ => (parameterType_does p _).acts
    refine trans_of State.Stays (each.stays _ _ _ passes) ?_
    exact (fresh_callFree (p := p) (x := .outside)).stays _ _ _ gives
  cases ends4
  refine ⟨definition, _, found, ?_, congrArg _ stays.frames.signatures, stays.adds⟩
  simpa using Steps.length_of_ends_mapM passes

/-- Between functions, those that have been declared are as the program defines them. -/
structure Announces (p : Program) (functions : List FunctionId) (s : State) : Prop where
  outside : s.builder.inFunction = false
  declares : s.Declares p
  listed : ∀ f, (s.signatures.lookup f).isSome → f ∈ functions

theorem Announces.stays (h : Announces p functions s)
    (stays : s.Stays t) : Announces p functions t ∧ t.builder.calls = s.builder.calls := by
  refine ⟨⟨stays.adds.inFunction.trans h.outside, ?_, ?_⟩, ?_⟩
  · exact fun f signature definition found =>
      h.declares f signature definition (stays.frames.signatures ▸ found)
  · exact fun f found => h.listed f (stays.frames.signatures ▸ found)
  · exact stays.adds.calls_eq (.of_outside h.outside)

theorem declareFunctions_announce {before : List FunctionId} (h : Announces p before s)
    (ends : Ends (functions.forM (declareFunction p)) s u t) :
    Announces p (before ++ functions) t ∧ t.builder.calls = s.builder.calls := by
  induction functions generalizing s before with
  | nil =>
    cases ends
    simpa using h
  | cons f rest ih =>
    obtain ⟨_, s1, ⟨definition, signature, found, passes, signatures, adds⟩, others⟩ :=
      ends_then declareFunction_ends ends
    have announces : Announces p (before ++ [f]) s1 := by
      refine ⟨adds.inFunction.trans h.outside, ?_, ?_⟩
      · intro g signature' definition' declared defined
        rw [signatures] at declared
        by_cases same : g = f
        · subst same
          obtain rfl : signature = signature' := by simpa using declared
          cases found.symm.trans defined
          exact passes
        · exact h.declares g signature' definition' (lookup_cons_of_ne same _ _ ▸ declared) defined
      · intro g declared
        rw [signatures] at declared
        by_cases same : g = f
        · simp [same]
        · rw [lookup_cons_of_ne same] at declared
          exact mem_append_left _ (h.listed g declared)
    obtain ⟨announces', calls⟩ := ih announces others
    exact ⟨by simpa using announces', calls.trans (adds.calls_eq (.of_outside h.outside))⟩

end Codegen

/-- The calls in the code of a function are calls of emitted functions in the source, in the order
of evaluation. If the code is that of the `whole` function, they are all of them. -/
def Program.CallsInOrder (p : Program) (emitted : List FunctionId) (ids : FunctionId → Ident)
    (whole : Prop) (f : FunctionId) (callees : List Ident) : Prop :=
  ∃ definition, p.function? f = some definition ∧ ∃ calls : List FunctionId,
    callees = calls.map ids ∧ (∀ g ∈ calls, g ∈ emitted) ∧
    calls.Sublist (callOrders (p.prelude f ++ definition.body)) ∧
    (whole → AllComplete p (p.prelude f ++ definition.body) →
      calls = callOrders (p.prelude f ++ definition.body))

theorem Program.CallsInOrder.mono {p : Program} {emitted : List FunctionId}
    {ids : FunctionId → Ident} {whole whole' : Prop} {callees : List Ident}
    (h : p.CallsInOrder emitted ids whole f callees) (imp : whole' → whole) :
    p.CallsInOrder emitted ids whole' f callees := by
  obtain ⟨definition, found, calls, same, listed, sublist, all⟩ := h
  exact ⟨definition, found, calls, same, listed, sublist, fun complete => all (imp complete)⟩

/-! ## Definitions -/

namespace Codegen

variable {p : Program} {s t : State} {emitted : List FunctionId}

theorem defineFunction_calls (h : Announces p emitted s) (ends : Ends (defineFunction p f) s u t) :
    Announces p emitted t ∧ s.Frames t ∧ ∃ callees,
      t.builder.calls = s.builder.calls ++ [(s.idOf f, callees)] ∧
      p.CallsInOrder emitted s.idOf (t.diagnostics = s.diagnostics) f callees := by
  obtain ⟨definition, s1, finds, signature, s2, looks, ends2⟩ := ends_bind₂ ends
  obtain ⟨found, rfl⟩ := ends_function finds
  obtain ⟨declared, rfl⟩ := ends_signature looks
  obtain ⟨ids, s3, ⟨b, inner, rfl⟩, ends3⟩ := ends_then (ends_lift Build) ends2
  obtain ⟨atEnd, begun⟩ := beginFunction_adds h.outside inner
  obtain ⟨_, s4, codes, ends4⟩ := ends_bind ends3
  obtain ⟨_, s5, binds, codes⟩ := ends_bind codes
  have bound : State.Stays { s2 with builder := b } s5 :=
    ((Acting.forM fun q _ => bindParameter_learns p _ _ _ : Keeps .inside _ _).leads _ _ _
    binds).stays
  obtain ⟨calls, sublist, generates, all⟩ := (body_calls f definition).leads s5 _ s4 codes
  obtain ⟨_, s6, closed, last⟩ := ends_then ((closeBody_callFree (p := p) _ _).stays _ _ _) ends4
  obtain ⟨b', inner', rfl⟩ := ends_lift Build last
  obtain ⟨outside, ended⟩ := endFunction_adds inner'
  have same : s5.idOf = s2.idOf := by
    funext g
    simp only [State.idOf, bound.frames.signatures]
  have signatures : s6.signatures = s2.signatures :=
    closed.frames.signatures.trans (generates.frames.signatures.trans bound.frames.signatures)
  have frames : s2.Frames s6 :=
    ⟨signatures, bound.frames.diagnostics.trans
      (generates.frames.diagnostics.trans closed.frames.diagnostics)⟩
  have adds : b.Adds (calls.map s2.idOf) s6.builder := by
    have all := (bound.adds.trans generates.adds).trans closed.adds
    simpa [same] using all
  refine ⟨⟨outside, ?_, ?_⟩, ⟨signatures, frames.diagnostics⟩, calls.map s2.idOf, ?_,
    definition, found, calls, rfl, ?_, sublist, ?_⟩
  · exact fun g signature' definition' found' =>
      h.declares g signature' definition' (signatures ▸ found')
  · exact fun g found' => h.listed g (signatures ▸ found')
  · rw [State.idOf_of_lookup declared]
    refine ended.trans ((adds.calls atEnd).trans ?_)
    rw [begun, modifyLast_append_singleton]
    rfl
  · intro g mem
    exact h.listed g (bound.frames.signatures ▸ generates.declared g mem)
  · intro silent complete
    have declares : s5.Declares p := fun g signature' definition' found' =>
      h.declares g signature' definition' (bound.frames.signatures ▸ found')
    have silent5 : s5.diagnostics = s2.diagnostics :=
      bound.frames.silent (trans_of State.Frames generates.frames closed.frames) silent
    have silent4 : s4.diagnostics = s2.diagnostics :=
      (trans_of State.Frames bound.frames generates.frames).silent closed.frames silent
    exact all complete declares (silent4.trans silent5.symm)

theorem defineFunctions_calls (h : Announces p emitted s)
    (ends : Ends (functions.forM (defineFunction p)) s u t) :
    Announces p emitted t ∧ s.Frames t ∧ ∃ new, t.builder.calls = s.builder.calls ++ new ∧
      List.Forall₂ (fun f q => q.1 = s.idOf f ∧
        p.CallsInOrder emitted s.idOf (t.diagnostics = s.diagnostics) f q.2) functions new := by
  induction functions generalizing s with
  | nil =>
    cases ends
    exact ⟨h, refl_of State.Frames _, [], by simp, .nil⟩
  | cons f rest ih =>
    obtain ⟨_, s1, ⟨announces, frames, callees, called, inOrder⟩, others⟩ :=
      ends_then (defineFunction_calls h) ends
    obtain ⟨announces', frames', new, called', inOrder'⟩ := ih announces others
    have same : s1.idOf = s.idOf := by
      funext g
      simp only [State.idOf, frames.signatures]
    refine ⟨announces', trans_of State.Frames frames frames', (s.idOf f, callees) :: new, ?_, ?_⟩
    · rw [called', called, append_assoc, singleton_append]
    · refine .cons ⟨rfl, inOrder.mono (frames.silent frames')⟩ (inOrder'.imp fun g q hq => ?_)
      rw [same] at hq
      exact ⟨hq.1, hq.2.mono fun silent => silent.trans (frames.silent frames' silent).symm⟩

theorem whole_calls (start : Announces p [] s) (none : s.builder.calls = [])
    (ends : Ends (whole p o) s u t) : ∃ ids : FunctionId → Ident, t.builder.inFunction = false ∧
      List.Forall₂ (fun f q => q.1 = ids f ∧
        p.CallsInOrder (p.emitted o) ids (t.diagnostics = []) f q.2) (p.emitted o)
        t.builder.calls := by
  obtain ⟨_, s2, prepares, ends2⟩ := ends_whole ends
  obtain ⟨start2, calls2⟩ := start.stays (preparation_stays p o _ _ _ prepares)
  obtain ⟨_, s3, ⟨announces3, calls3⟩, ends3⟩ := ends_then (declareFunctions_announce start2) ends2
  obtain ⟨_, s4, binds, ends4⟩ := ends_bind ends3
  obtain ⟨announces4, calls4⟩ :=
    announces3.stays ((bindGlobals_callFree (x := .outside) p).stays _ _ _ binds)
  obtain ⟨_, s5, ⟨announces5, frames5, new, calls5, inOrder⟩, ends5⟩ :=
    ends_then (defineFunctions_calls announces4) ends4
  obtain ⟨_, s6, entered, completes⟩ := ends_then (addEntryPoint_stays _ _ _ _) ends5
  obtain ⟨announces6, calls6⟩ := announces5.stays entered
  have completed := completeReferences_stays _ _ _ completes
  obtain ⟨announces, calls⟩ := announces6.stays completed
  have functions : t.builder.calls = new := by
    rw [calls, calls6, calls5, calls4, calls3, calls2, none, nil_append]
  refine ⟨s4.idOf, announces.outside, functions ▸ inOrder.imp fun f q hq => ⟨hq.1, hq.2.mono ?_⟩⟩
  intro silent
  have rest := trans_of State.Frames entered.frames completed.frames
  have before : s5.diagnostics = [] := prefix_nil.1 (silent ▸ rest.diagnostics)
  have earlier : s4.diagnostics = [] := prefix_nil.1 (before ▸ frames5.diagnostics)
  rw [before, earlier]

end Codegen

/-! ## Finished modules -/

theorem Builder.calls_start (target : Target) (o : Options) : (start target o).calls = [] := by
  have functions := (laid_start target o).functions
  rw [calls, map_eq_nil_iff.1 functions, map_nil]

theorem Codegen.announces_start (p : Program) (o : Options) :
    Announces p [] { builder := .start p.target o } where
  outside := (laid_start _ o).outside
  declares _ _ _ found := by cases found
  listed _ found := by cases found

theorem Program.EndsIn.nodup_functions {p : Program} (h : p.EndsIn o s) :
    (s.builder.output.functions.map Function.id).Nodup := by
  obtain ⟨l, sound, -⟩ := h.settled True (by simp)
  have ids : (s.builder.output.functions.flatMap Function.ids).Nodup :=
    (nodup_append.1 (nodup_append.1 sound.distinct).2.1).2.1
  refine ids.sublist ?_
  rw [← flatMap_singleton' (s.builder.output.functions.map Function.id), flatMap_map]
  exact List.Sublist.flatMap_right _ fun f _ => singleton_sublist.2 mem_cons_self

theorem Program.EndsIn.diagnostics {p : Program} {order : SetOrder} {out : Output}
    (ends : p.EndsIn o s) (h : p.generate o order = .ok out) : out.diagnostics = s.diagnostics := by
  have run : Codegen.whole (p.withOptions o) o { builder := .start (p.withOptions o).target o } =
    .ok () s := ends
  unfold generate at h
  simp only [run] at h
  cases h
  rfl

/-- **Calls keep their order.** The functions of a finished module are those that are emitted, under
ids of their own. The calls in the code of each are calls of emitted functions in its source, in the
order of evaluation. They are all of them if no problem has been reported and all parts of the
source have a place in the code. -/
theorem Program.calls_keep_order {p : Program} {o : Options} {order : SetOrder} {out : Output}
    (h : p.generate o order = .ok out) :
    ∃ ids : FunctionId → Ident,
      (∀ f ∈ (p.withOptions o).emitted o, ∀ g ∈ (p.withOptions o).emitted o, ids f = ids g →
        f = g) ∧
      List.Forall₂ (fun f (g : Function) => g.id = ids f ∧
        (p.withOptions o).CallsInOrder ((p.withOptions o).emitted o) ids (out.diagnostics = []) f
          g.callees) ((p.withOptions o).emitted o) out.shader.functions := by
  obtain ⟨s, ends, shader⟩ := exists_endsIn h
  obtain ⟨ids, outside, inOrder⟩ := Codegen.whole_calls (Codegen.announces_start _ o)
    (calls_start _ o) ends
  rw [calls, forall₂_map_right_iff] at inOrder
  refine ⟨ids, ?_, ?_⟩
  · have named : s.builder.output.functions.map Function.id = ((p.withOptions o).emitted o).map
      ids := by
      refine forall₂_eq_eq_eq ▸ forall₂_map_left_iff.2 (forall₂_map_right_iff.2 ?_)
      exact inOrder.flip.imp fun _ _ hg => hg.1
    exact fun f hf g hg same => inj_on_of_nodup_map (named ▸ ends.nodup_functions) hf hg same
  · rw [shader, functions_finish, ends.diagnostics h]
    exact inOrder

/-- A loop with its test at the end, whose parts call two functions in turn. -/
def Program.alternating : Program :=
  let void : Info := { type := .void }
  let int : Info := { type := .int 32 }
  let one : Node := .constant int (.int 1)
  let call (f : FunctionId) : Node := .call int f []
  let same (a b : Node) : Node := .binary { type := .bool } .equal a b
  let giveOne : List Node := [.jump void .ret (some one)]
  { functions := [
      { name := "main", returnType := .void, body := [
        .loop void (some (same (call 1) one))
          (some (.select void (same (call 1) (call 2)) (some (call 1)) none false {}))
          (some (call 2)) false {}] },
      { name := "first", returnType := .int 32, body := giveOne },
      { name := "second", returnType := .int 32, body := giveOne }] }

theorem Program.calls_keep_order_alternating : ∃ out ids g, alternating.generate {} = .ok out ∧
    (∀ a ∈ [0, 1, 2], ∀ b ∈ [0, 1, 2], ids a = ids b → a = b) ∧ g ∈ out.shader.functions ∧
    g.id = ids 0 ∧ g.callees = [1, 2, 1, 2, 1].map ids := by
  have made : (alternating.generate {}).toOption.any (fun out => out.diagnostics.isEmpty) := by
    decide +kernel
  obtain ⟨out, h, silent⟩ := exists_ok_of_any made
  obtain ⟨ids, injective, inOrder⟩ := calls_keep_order h
  have emitted : (alternating.withOptions {}).emitted {} = [0, 1, 2] := by decide
  rw [emitted] at injective inOrder
  obtain ⟨g, rest, ⟨named, definition, found, calls, callees, -, -, all⟩, -, functions⟩ :=
    forall₂_cons_left_iff.1 inOrder
  obtain rfl := Option.some.inj found
  have complete : AllComplete (alternating.withOptions {})
      ((alternating.withOptions {}).prelude 0 ++ alternating.functions[0].body) :=
    ⟨⟨⟨trivial, trivial⟩, ⟨⟨trivial, trivial⟩, trivial, trivial⟩, trivial⟩, trivial⟩
  have order := all (List.isEmpty_iff.1 silent) complete
  exact ⟨out, ids, g, h, injective, by simp [functions], named, callees.trans (congrArg _ order)⟩

end ShaderGen
