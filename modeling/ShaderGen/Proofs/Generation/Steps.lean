import ShaderGen.Proofs.Scope.Symbol

/-!
# The elementary steps of code generation

`State.Elementary` lists the steps that the code of functions is generated by, apart from calls, and
`Generates` says that several such steps, with calls of the given functions in between, lead from
one state to another. `Calls` is what is known of a step of code generation as a whole: it calls
some of the given functions in the given order, and all of them unless it reports a problem.
-/

namespace ShaderGen

open List Codegen
open Steps (Ends)

variable {p : Program} {whole : Prop} {s t : State} {calls : List FunctionId}

/-! ## Steps -/

namespace State

/-- One step of code generation, which calls nothing. -/
inductive Elementary (p : Program) : State → State → Prop
  | build {s : State} {b : Builder} (step : s.builder.Elementary b) :
      Elementary p s { s with builder := b }
  | type {s t : State} {r : TypeRequest} {id : Ident} (ends : Ends (typer p r) s id t) :
      Elementary p s t
  | constant {s t : State} {value : ConstantValue} {type : ShaderType} {id : Ident}
      (ends : Ends (Codegen.constant p (typer p) value type) s id t) : Elementary p s t
  | bind {s t : State} {x : SymbolId} {binding : Binding}
      (ends : Ends (bindingOf p (typer p) x) s binding t) : Elementary p s t
  | follow {s t : State} {id : StructId} {pointee : Ident}
      (ends : Ends (followReference p (typer p) id) s pointee t) : Elementary p s t
  | report {s : State} (d : Diagnostic) :
      Elementary p s { s with diagnostics := s.diagnostics ++ [d] }
  | remember {s : State} (pairTypes : List (Ident × Ident)) (scopes : List JumpScope)
      (returnType : Option ShaderType) : Elementary p s { s with pairTypes, scopes, returnType }

/-- The signatures are the same, and problems may have been reported. -/
structure Frames (s t : State) : Prop where
  signatures : t.signatures = s.signatures
  diagnostics : s.diagnostics <+: t.diagnostics

instance : IsPreorder State Frames where
  refl _ := ⟨rfl, prefix_refl _⟩
  trans _ _ _ h g := ⟨g.signatures.trans h.signatures, h.diagnostics.trans g.diagnostics⟩

/-- Whatever has been reported stays, so that no part of a silent run reports anything. -/
theorem Frames.silent {u : State} (h : s.Frames t) (g : t.Frames u)
    (same : u.diagnostics = s.diagnostics) : t.diagnostics = s.diagnostics :=
  (same ▸ g.diagnostics).eq_of_length_le h.diagnostics.length_le

theorem Learns.frames (h : s.Learns t) : s.Frames t :=
  ⟨h.signatures, h.diagnostics ▸ prefix_refl _⟩

theorem Elementary.frames (h : s.Elementary p t) : s.Frames t := by
  have built : ∀ s b, True → Frames s (World.replace s b) := fun _ _ _ => ⟨rfl, prefix_refl _⟩
  cases h with
  | build | remember => exact ⟨rfl, prefix_refl _⟩
  | report d => exact ⟨rfl, prefix_append _ _⟩
  | type ends => exact ((typer_learns (w := .inside) p _).acts.leads s _ t ends).frames
  | constant ends =>
    exact ((constant_learns (w := .inside) (typer_learns p) _ _).acts.leads s _ t ends).frames
  | bind ends =>
    exact (bindingOf_keeps (w := .inside) Learns.frames (typer_learns p)
      (fun _ _ _ => .up built (Builder.globalVariable_any _ _ _ _))
      (fun _ _ => .up built (Builder.localVariable_acts _ _).forget) _).leads s _ t ends
  | follow ends =>
    exact ((followReference_learns (w := .inside) p _).leads s _ t ends).frames

end State

/-- Elementary steps lead from one state to another, with calls of the given functions in between.
-/
inductive Generates (p : Program) : List FunctionId → State → State → Prop
  | refl (s : State) : Generates p [] s s
  | step {calls : List FunctionId} {s t u : State} (before : Generates p calls s t)
      (last : t.Elementary p u) : Generates p calls s u
  | call {calls : List FunctionId} {s t : State} {b : Builder} {f : FunctionId}
      {signature : Signature} {arguments : List Operand} {id : Ident}
      (before : Generates p calls s t) (declared : t.signatures.lookup f = some signature)
      (ends : Ends
        (Builder.emit .functionCall signature.returnType (.ref signature.id :: arguments))
        t.builder id b) : Generates p (calls ++ [f]) s { t with builder := b }

namespace Generates

variable {p : Program} {calls others : List FunctionId} {s t u : State}

theorem trans (h : Generates p calls s t) (g : Generates p others t u) :
    Generates p (calls ++ others) s u := by
  induction g with
  | refl => simpa using h
  | step _ last ih => exact .step (ih h) last
  | call _ declared ends ih =>
    rw [← append_assoc]
    exact .call (ih h) declared ends

theorem frames (h : Generates p calls s t) : s.Frames t := by
  induction h with
  | refl => exact refl_of State.Frames _
  | step _ last ih => exact trans_of State.Frames ih last.frames
  | call _ _ _ ih => exact ⟨ih.signatures, ih.diagnostics⟩

theorem of_builds {b : Builder} (h : s.builder.Builds b) :
    Generates p [] s { s with builder := b } := by
  induction h with
  | refl => exact .refl s
  | tail _ step ih => exact .step ih (.build step)

end Generates

/-- What steps do that call nothing. -/
def Quiet (p : Program) : Effect State := ⟨Generates p [], fun _ _ => False⟩

instance {p : Program} : Content (Quiet p) := ⟨.refl, .trans, id⟩

/-- The step calls nothing. -/
abbrev CallFree (p : Program) {α : Type} (c : Codegen α) : Prop := Acts (Quiet p) c

/-- Each function has been declared with the parameters that it is defined with. -/
def State.Declares (p : Program) (s : State) : Prop :=
  ∀ f signature definition, s.signatures.lookup f = some signature →
    p.function? f = some definition → signature.passing.length = definition.parameters.length

/-- What steps do that call some of the given functions in the given order: all of them if the step
is
`whole` and reports nothing. A function may be wanted if it is one of them and has not been
declared. -/
def Calling (p : Program) (whole : Prop) (calls : List FunctionId) : Effect State where
  leads s t := ∃ made, made.Sublist calls ∧ Generates p made s t ∧
    (whole → s.Declares p → t.diagnostics = s.diagnostics → made = calls)
  wants s f := f ∈ calls ∧ s.signatures.lookup f = none

/-- The step calls some of the given functions in the given order. It calls all of them if it is
`whole` and reports nothing. -/
abbrev CallsFrom (x y : Stance) (p : Program) (calls : List FunctionId) (whole : Prop) {α : Type}
    (c : Codegen α) : Prop := Acting x y (Calling p whole calls) c

abbrev Calls (p : Program) (calls : List FunctionId) (whole : Prop) {α : Type} (c : Codegen α) :
    Prop :=
  CallsFrom .inside .inside p calls whole c

theorem Calling.trans {others : List FunctionId} {u : State}
    (h : (Calling p whole calls).leads s t) (g : (Calling p whole others).leads t u) :
    (Calling p whole (calls ++ others)).leads s u := by
  obtain ⟨made, sublist, generates, all⟩ := h
  obtain ⟨made', sublist', generates', all'⟩ := g
  refine ⟨made ++ made', sublist.append sublist', generates.trans generates', ?_⟩
  intro complete declares same
  have middle := generates.frames.silent generates'.frames same
  have declares' : t.Declares p := fun f signature definition found =>
    declares f signature definition (generates.frames.signatures ▸ found)
  rw [all complete declares middle, all' complete declares' (same.trans middle.symm)]

theorem Calling.signatures
    (h : (Calling p whole calls).leads s t) : t.signatures = s.signatures := by
  obtain ⟨made, -, generates, -⟩ := h
  exact generates.frames.signatures

namespace CallsFrom

variable {p : Program} {calls others : List FunctionId} {whole : Prop} {α β : Type}
  {x y z : Stance}

/-- Calls may be left out where no whole step does so. -/
theorem widen {c : Codegen α} (h : CallsFrom x y p calls whole c) (sublist : calls.Sublist others)
    (same : whole → calls = others) : CallsFrom x y p others whole c :=
  { h with
    leads := fun s a t ends => by
      obtain ⟨made, part, generates, all⟩ := h.leads s a t ends
      exact ⟨made, part.trans sublist, generates, fun complete declares silent =>
        (all complete declares silent).trans (same complete)⟩
    fails := fun s e stands fails => (h.fails s e stands fails).imp_right fun wants f wanted =>
      (wants f wanted).imp_left fun called => sublist.subset called }

theorem mono {c : Codegen α} {whole' : Prop} (h : CallsFrom x y p calls whole c)
    (imp : whole' → whole) : CallsFrom x y p calls whole' c :=
  { h with
    leads := fun s a t ends => by
      obtain ⟨made, sublist, generates, all⟩ := h.leads s a t ends
      exact ⟨made, sublist, generates, fun complete => all (imp complete)⟩ }

/-- A step that calls nothing and leaves calls out: where no whole step does so, or where it reports
a problem. -/
theorem leave {c : Codegen α} (h : Acting x y (Quiet p) c)
    (all : whole → ∀ s a t, Ends c s a t → t.diagnostics = s.diagnostics → calls = []) :
    CallsFrom x y p calls whole c :=
  h.retell fun s a t ends => ⟨[], nil_sublist _, h.leads s a t ends, fun complete _ same =>
    (all complete s a t ends same).symm⟩

theorem quiet {c : Codegen α} (h : Acting x y (Quiet p) c) : CallsFrom x y p [] whole c :=
  .leave h fun _ _ _ _ _ _ => rfl

theorem joined :
    (Calling p whole calls).Joined (Calling p whole others) (Calling p whole (calls ++ others))
    where
  absorb := Calling.trans
  early wants := wants.imp_left (mem_append_left _)
  late first wants := ⟨mem_append_right _ wants.1, Calling.signatures first ▸ wants.2⟩

theorem bind {c : Codegen α} {f : α → Codegen β} (hc : CallsFrom x y p calls whole c)
    (hf : ∀ a, CallsFrom y z p others whole (f a)) : CallsFrom x z p (calls ++ others) whole
    (c >>= f) :=
  Acting.join joined hc fun _ a _ _ => hf a

theorem after {c : Codegen α} {f : α → Codegen β} (hc : Acting x y (Quiet p) c)
    (hf : ∀ a, CallsFrom y z p calls whole (f a)) : CallsFrom x z p calls whole (c >>= f) :=
  (quiet hc).bind hf

theorem before {c : Codegen α} {f : α → Codegen β} (hc : CallsFrom x y p calls whole c)
    (hf : ∀ a, Acting y z (Quiet p) (f a)) : CallsFrom x z p calls whole (c >>= f) :=
  by simpa using hc.bind fun a => quiet (hf a)

section Lists

variable {order : α → List FunctionId} {list : List α}

theorem forM {f : α → Codegen PUnit} (h : ∀ a ∈ list, CallsFrom x x p (order a) whole (f a)) :
    CallsFrom x x p (list.flatMap order) whole (list.forM f) := by
  induction list with
  | nil => exact quiet .pure
  | cons a rest ih =>
    rw [flatMap_cons]
    exact (h a mem_cons_self).bind fun _ => ih fun c hc => h c (mem_cons_of_mem a hc)

theorem mapM {f : α → Codegen β} (h : ∀ a ∈ list, CallsFrom x x p (order a) whole (f a)) :
    CallsFrom x x p (list.flatMap order) whole (list.mapM f) := by
  induction list with
  | nil => exact quiet .pure
  | cons a rest ih =>
    rw [mapM_cons, flatMap_cons]
    refine (h a mem_cons_self).bind fun _ => .before ?_ fun _ => .pure
    exact ih fun c hc => h c (mem_cons_of_mem a hc)

theorem foldlM {f : β → α → Codegen β} {init : β}
    (h : ∀ b, ∀ a ∈ list, CallsFrom x x p (order a) whole (f b a)) :
    CallsFrom x x p (list.flatMap order) whole (list.foldlM f init) := by
  induction list generalizing init with
  | nil => exact quiet .pure
  | cons a rest ih =>
    rw [foldlM_cons, flatMap_cons]
    exact (h init a mem_cons_self).bind fun _ =>
      ih fun b c hc => h b c (mem_cons_of_mem a hc)

end Lists

end CallsFrom

/-- What steps do that declare nothing, and want some of the given functions only if those have not
been declared. -/
def Wanting (calls : List FunctionId) : Effect State where
  leads s t := t.signatures = s.signatures
  wants s f := f ∈ calls ∧ s.signatures.lookup f = none

instance {calls : List FunctionId} : Absorbs (Wanting calls) (Wanting calls) where
  absorb h g := g.trans h
  early := id
  late same wants := ⟨wants.1, same ▸ wants.2⟩

namespace Wanting

variable {p : Program} {calls others : List FunctionId} {α : Type} {c : Codegen α} {x y : Stance}

theorem of_learns (h : Keeps x State.Learns c) : Acting x x (Wanting calls) c :=
  h.retell fun s a t ends => (h.leads s a t ends).signatures

theorem of_quiet (h : Acting x y (Quiet p) c) : Acting x y (Wanting calls) c :=
  h.retell fun s a t ends => (h.leads s a t ends).frames.signatures

theorem of_calls (h : CallsFrom x y p calls whole c) : Acting x y (Wanting calls) c :=
  { h with leads := fun s a t ends => Calling.signatures (h.leads s a t ends) }

theorem widen (h : Acting x y (Wanting calls) c) (sub : calls ⊆ others) :
    Acting x y (Wanting others) c :=
  { h with
    fails := fun s e stands fails => (h.fails s e stands fails).imp_right fun wants f wanted =>
      (wants f wanted).imp_left fun mem => sub mem }

theorem build {c : Build α} (h : Acting x y .any c) :
    Acting x y (Wanting calls) (liftM c : Codegen α) :=
  .up (fun _ _ _ => rfl) h

theorem forM {f : α → Codegen PUnit} {order : α → List FunctionId} (list : List α)
    (h : ∀ a ∈ list, Acting x x (Wanting (order a)) (f a)) :
    Acting x x (Wanting (list.flatMap order)) (list.forM f) := by
  induction list with
  | nil => exact of_quiet (p := default) .pure
  | cons a rest ih =>
    have first := widen (h a mem_cons_self) (subset_append_left _ (rest.flatMap order))
    exact .bind first fun _ => widen (ih fun c hc => h c (mem_cons_of_mem a hc))
      (subset_append_right _ _)

end Wanting

namespace Codegen

variable {α : Type} {p : Program}

variable {x y : Stance}

theorem build_callFree {m : Type → Type} [Monad m] [MonadLiftT m Codegen] [Steps m Builder]
    [Embeds m Codegen State] {c : m α} (h : Acting x y Builder.Building c) :
    Acting x y (Quiet p) (liftM c : Codegen α) := .up (fun _ _ => Generates.of_builds) h

theorem bindingOf_callFree (symbol : SymbolId) :
    Acting x x (Quiet p) (bindingOf p (typer p) symbol) := by
  have keeps : Keeps x (fun _ _ => True) (bindingOf p (typer p) symbol) :=
    bindingOf_keeps (fun _ => trivial) (typer_learns p)
      (fun _ _ _ => .up (fun _ _ _ => trivial) (Builder.globalVariable_any _ _ _ _))
      (fun _ _ => .up (fun _ _ _ => trivial) (Builder.localVariable_acts _ _)) symbol
  exact keeps.retell fun s a t ends => .step (.refl s) (.bind ends)

end Codegen

end ShaderGen
