import ShaderGen.Proofs.Scope.Relation

/-!
# What steps do

`Acting x y effect c` is what is known of a step wherever it is used. An `Effect` says how steps
lead from state to state if they succeed, and for want of which functions they may fail otherwise;
most steps call nothing, so that they do not fail for want of a function (`Content`). A `Stance`
says what place for code is open: a step that is started where `x` says stops where `y` says, and it
does not misuse the builder. And no step depends on what is there for debugging only (`Blind`):
started in two states that differ in nothing else, it fails alike, or it gives the same and leads to
two such states.
-/

namespace ShaderGen

open World
open Steps (Ends Fails ends_bind ends_pure)

variable {f : Builder → Builder} {cause : Cause} {c : Prop} {σ : Type}

/-! ## Places for code -/

/-- Whether a function is being built, and whether one of its blocks takes instructions. -/
inductive Stance
  | outside
  /-- No block takes instructions. -/
  | between
  /-- Some block takes instructions. -/
  | opened
  /-- The block that control stands in takes instructions. -/
  | inside

def Builder.Stands (b : Builder) : Stance → Prop
  | .outside => b.inFunction = false ∧ b.block = none ∧ b.variablesBlock = none
  | .between => b.current?.isSome ∧ b.block = none
  | .opened => b.here?.isSome
  | .inside => ∃ block, b.here? = some block ∧ b.currentBlock = some block.label

theorem Builder.SameCode.stands {b b' : Builder} {x : Stance} (h : b.SameCode b')
    (stands : b.Stands x) : b'.Stands x := by
  have front : b'.variablesBlock = b.variablesBlock := congrArg Place.variablesBlock h.place
  have label : b'.currentBlock = b.currentBlock := congrArg Place.currentBlock h.place
  cases x with
  | outside => rwa [Stands, h.inFunction, h.block, front]
  | between => rwa [Stands, h.current?, h.block]
  | opened => rwa [Stands, h.here?]
  | inside => rwa [Stands, h.here?, label]

/-- The builder has been used for what it cannot do where it stands. -/
def Failure.isMisuse : Failure → Bool
  | .building _ => true
  | .generating _ _ => false

/-! ## What is there for debugging -/

/-- The module without names, without its source, and without a mark of who made it. -/
def Module.stripped (m : Module) : Module :=
  { m with generator := 0, source := none, sourceExtensions := [], names := [] }

def Builder.stripped (b : Builder) : Builder :=
    { b with debugNames := false, output := b.output.stripped }

section Blind

variable {m : Type → Type} {σ : Type} [Monad m] [Steps m σ] [World σ] {α β : Type}

/-- The state without what is there for debugging only. -/
def World.strip (s : σ) : σ := replace s (builder s).stripped

open World (strip)

/-- The step does the same whatever is there for debugging. -/
structure Blind (c : m α) : Prop where
  ends : ∀ {s s' t : σ} {a : α}, strip s = strip s' → Ends c s a t →
    ∃ t', Ends c s' a t' ∧ strip t = strip t'
  fails : ∀ {s s' : σ} {e : Failure}, strip s = strip s' → Fails c s e → Fails c s' e

namespace Blind

theorem pure {a : α} : Blind (Pure.pure a : m α) where
  ends alike ends := by
    obtain ⟨rfl, rfl⟩ := ends_pure ends
    exact ⟨_, Steps.pure_ends, alike⟩
  fails _ fails := absurd fails Steps.fails_pure

/-- Two steps, the second of which may rely on what the first one gives. -/
theorem combine {x : m α} {f : α → m β} (hx : Blind x) (hf : ∀ s a t, Ends x s a t → Blind (f a)) :
    Blind (x >>= f) where
  ends alike ends := by
    obtain ⟨a, t, first, second⟩ := ends_bind ends
    obtain ⟨t', first', alike'⟩ := hx.ends alike first
    obtain ⟨u', second', alike''⟩ := (hf _ a t first).ends alike' second
    exact ⟨u', Steps.bind_ends first' second', alike''⟩
  fails alike fails := by
    refine Steps.bind_fails ?_
    obtain fails | ⟨a, t, first, fails⟩ := Steps.fails_bind fails
    · exact .inl (hx.fails alike fails)
    · obtain ⟨t', first', alike'⟩ := hx.ends alike first
      exact .inr ⟨a, t', first', (hf _ a t first).fails alike' fails⟩

theorem bind {x : m α} {f : α → m β} (hx : Blind x) (hf : ∀ a, Blind (f a)) : Blind (x >>= f) :=
  .combine hx fun _ a _ _ => hf a

/-- A look at the state, and what follows if it depends on nothing that is there for debugging. -/
theorem look {γ : Type} {g : m γ} {v : σ → γ} (ends : ∀ s, Ends g s (v s) s)
    (only : ∀ {s t : σ} {a : γ}, Ends g s a t → a = v s ∧ t = s) (sure : ∀ {s e}, ¬ Fails g s e)
    {f : γ → m β} (same : ∀ s, f (v (strip s)) = f (v s)) (hf : ∀ a, Blind (f a)) :
    Blind (g >>= f) where
  ends {s s' u r} alike run := by
    obtain ⟨a, t, first, second⟩ := ends_bind run
    obtain ⟨rfl, rfl⟩ := only first
    rw [← same, alike, same] at second
    obtain ⟨u', second', alike'⟩ := (hf _).ends alike second
    exact ⟨u', Steps.bind_ends (ends s') second', alike'⟩
  fails {s s' e} alike fails := by
    obtain fails | ⟨a, t, first, fails⟩ := Steps.fails_bind fails
    · exact absurd fails sure
    · obtain ⟨rfl, rfl⟩ := only first
      rw [← same, alike, same] at fails
      exact Steps.bind_fails (.inr ⟨_, s', ends s', (hf _).fails alike fails⟩)

theorem lookEmit {f : Builder → Emit α} (same : ∀ b : Builder, f b.stripped = f b)
    (hf : ∀ b, Blind (f b)) : Blind (get >>= f) :=
  .look (v := id) (fun _ => rfl) (fun ends => by cases ends; exact ⟨rfl, rfl⟩) id same hf

theorem lookFailing {f : σ → EStateM Failure σ α}
    (same : ∀ s : σ, f (strip s) = f s) (hf : ∀ s, Blind (f s)) : Blind (get >>= f) :=
  .look (v := id) (fun _ => rfl) (fun ends => by cases ends; exact ⟨rfl, rfl⟩)
    (fun fails => by obtain ⟨t, fails⟩ := fails; cases fails) same hf

theorem throw {e : Failure} : Blind (MonadExcept.throw e : EStateM Failure σ α) where
  ends _ ends := by cases ends
  fails {_ s' _} _ fails := by
    obtain ⟨t, fails⟩ := fails
    cases fails
    exact ⟨s', rfl⟩

/-- A check, and what follows if it is passed. -/
theorem ensure {_ : Decidable c} {e : Failure} {f : Unit → Build α} (hf : Blind (f ⟨⟩)) :
    Blind (if c then MonadExcept.throw e >>= f else f ⟨⟩) := by
  split
  · exact .bind .throw fun _ => hf
  · exact hf

theorem alter (same : ∀ b, (f b.stripped).stripped = (f b).stripped) :
    Blind (modify f : Emit PUnit) where
  ends {b b' _ _} alike ends := by
    cases ends
    have alike : b.stripped = b'.stripped := alike
    exact ⟨f b', rfl, by change (f b).stripped = (f b').stripped; rw [← same, alike, same]⟩
  fails _ fails := fails.elim

theorem remember {f : State → State} (same : ∀ s, strip (f (strip s)) = strip (f s)) :
    Blind (modify f : Codegen PUnit) where
  ends {s s' _ _} alike ends := by
    cases ends
    exact ⟨f s', rfl, by rw [← same, alike, same]⟩
  fails _ fails := by
    obtain ⟨t, fails⟩ := fails
    cases fails

theorem up {m n : Type → Type} [Monad m] [Monad n] [MonadLiftT m n] [Steps m Builder]
    [Steps n σ] [Embeds m n σ] {c : m α} (h : Blind c) : Blind (liftM c : n α) := by
  have inner : ∀ {s s' : σ}, strip s = strip s' →
      strip (builder s) = strip (builder s') := fun {s s'} alike => by
    have same := congrArg builder alike
    rw [strip, strip, builder_replace, builder_replace] at same
    exact same
  refine ⟨fun {s s' t a} alike ends => ?_, fun alike fails => ?_⟩
  · obtain ⟨b, endsC, rfl⟩ := ends_lift m ends
    obtain ⟨b', endsC', same⟩ := h.ends (inner alike) endsC
    refine ⟨_, Embeds.lift_ends endsC', ?_⟩
    have same : b.stripped = b'.stripped := same
    calc strip (replace s b)
      _ = replace (strip s) b.stripped := by
        rw [strip, strip, builder_replace, replace_replace, replace_replace]
      _ = replace (strip s') b'.stripped := by rw [alike, same]
      _ = strip (replace s' b') := by
        rw [strip, strip, builder_replace, replace_replace, replace_replace]
  · exact Embeds.lift_fails (h.fails (inner alike) (Embeds.fails_lift fails))

end Blind

end Blind

/-! ## Effects -/

/-- The function for want of which code generation has failed. -/
def Failure.wanted? : Failure → Option FunctionId
  | .generating (.undeclaredFunction f) _ => some f
  | _ => none

/-- How steps lead from state to state, and for want of which functions they may fail. -/
structure Effect (σ : Type) where
  leads : σ → σ → Prop
  wants : σ → FunctionId → Prop

/-- The failure is no misuse of the builder, and a function that it is for want of may be wanted. -/
def Effect.Excuses {σ : Type} (effect : Effect σ) (s : σ) (e : Failure) : Prop :=
  e.isMisuse = false ∧ ∀ f, e.wanted? = some f → effect.wants s f

/-- A step with the first effect and then one with the second have the third as a whole. -/
structure Effect.Joined {σ : Type} (first second whole : Effect σ) : Prop where
  absorb : ∀ {s t u : σ}, first.leads s t → second.leads t u → whole.leads s u
  early : ∀ {s : σ} {f : FunctionId}, first.wants s f → whole.wants s f
  late : ∀ {s t : σ} {f : FunctionId}, first.leads s t → second.wants t f → whole.wants s f

/-- What may be done after a step with the first effect may be done from before it. -/
class Absorbs {σ : Type} (effect : Effect σ) (first : outParam (Effect σ)) : Prop extends
  first.Joined effect effect

/-- Nothing need happen, several steps are as good as one, and no function is wanted. -/
class Content {σ : Type} (effect : Effect σ) : Prop where
  refl : ∀ s, effect.leads s s
  trans : ∀ {s t u : σ}, effect.leads s t → effect.leads t u → effect.leads s u
  wants : ∀ {s f}, ¬ effect.wants s f

instance (priority := low) absorbsContent {σ : Type} {effect : Effect σ} [Content effect] :
    Absorbs effect effect := ⟨Content.trans, id, fun _ wants => absurd wants Content.wants⟩

/-- States are related, and no function is wanted. -/
def Effect.only {σ : Type} (rel : σ → σ → Prop) : Effect σ := ⟨rel, fun _ _ => False⟩

instance {σ : Type} {rel : σ → σ → Prop} [IsPreorder σ rel] : Content (Effect.only rel) :=
  ⟨refl_of rel, fun {s t u} => trans_of (a := s) (b := t) (c := u) rel, id⟩

/-- Whatever a step does, it wants no function. -/
abbrev Effect.any {σ : Type} : Effect σ := .only fun _ _ => True

instance isPreorder_true {σ : Type} : IsPreorder σ fun _ _ => True where
  refl _ := trivial
  trans _ _ _ _ _ := trivial

/-- Whatever a step does, and whichever function it wants. -/
def Effect.free {σ : Type} : Effect σ := ⟨fun _ _ => True, fun _ _ => True⟩

instance {σ : Type} : Absorbs (Effect.free : Effect σ) .free :=
  ⟨fun _ _ => trivial, fun _ => trivial, fun _ _ => trivial⟩

section Rules

variable {m : Type → Type} {σ : Type} [Monad m] [Steps m σ] [World σ] {α β : Type}

/-- The step leads where the effect allows, or fails for what the effect allows to be wanted. It
leads from the one stance to the other, does not misuse the builder, and is blind to what is there
for debugging. -/
structure Acting (x y : Stance) (effect : Effect σ) (c : m α) : Prop where
  leads : Relates effect.leads c
  steady : ∀ s a t, (builder s).Stands x → Ends c s a t → (builder t).Stands y
  fails : ∀ s e, (builder s).Stands x → Fails c s e → effect.Excuses s e
  blind : Blind c

/-- A step that is made while a block takes instructions, and that leaves one open. -/
abbrev Acts (effect : Effect σ) (c : m α) : Prop := Acting .inside .inside effect c

namespace Acting

variable {effect first : Effect σ} {x y z : Stance}

/-- Two steps, the second of which may rely on what the first one gives. -/
theorem join {second : Effect σ} (joined : first.Joined second effect) {c : m α} {f : α → m β}
    (hc : Acting x y first c) (hf : ∀ s a t, Ends c s a t → Acting y z second (f a)) :
    Acting x z effect (c >>= f) where
  leads s r u ends := by
    obtain ⟨a, t, endsC, endsF⟩ := ends_bind ends
    exact joined.absorb (hc.leads s a t endsC) ((hf s a t endsC).leads t r u endsF)
  steady s r u stands ends := by
    obtain ⟨a, t, endsC, endsF⟩ := ends_bind ends
    exact (hf s a t endsC).steady t r u (hc.steady s a t stands endsC) endsF
  fails s e stands fails := by
    obtain fails | ⟨a, t, ends, fails⟩ := Steps.fails_bind fails
    · exact (hc.fails s e stands fails).imp_right fun wants f wanted =>
        joined.early (wants f wanted)
    · have excused := (hf s a t ends).fails t e (hc.steady s a t stands ends) fails
      exact excused.imp_right fun wants f wanted => joined.late (hc.leads s a t ends)
        (wants f wanted)
  blind := hc.blind.combine fun s a t ends => (hf s a t ends).blind

theorem bind [Absorbs effect first] {c : m α} {f : α → m β} (hc : Acting x y first c)
    (hf : ∀ a, Acting y z effect (f a)) : Acting x z effect (c >>= f) :=
  hc.join Absorbs.toJoined fun _ a _ _ => hf a

theorem guard [Absorbs effect first] {_ : Decidable c} {g : m PUnit} {f : PUnit → m β}
    (hg : c → Acting x x first g) (hf : Acting x y effect (f ⟨⟩)) :
    Acting x y effect (if c then g >>= f else f ⟨⟩) := by
  split
  · exact .bind (hg ‹c›) fun _ => hf
  · exact hf

theorem retell [Content first] {c : m α} (h : Acting x y first c) (leads : Relates effect.leads c) :
    Acting x y effect c :=
  { h with
    leads
    fails := fun s e stands fails => (h.fails s e stands fails).imp_right fun wants f wanted =>
      absurd (wants f wanted) Content.wants }

theorem forget [Content first] {c : m α} (h : Acting x y first c) : Acting x y .any c :=
  h.retell fun _ _ _ _ => trivial

theorem free {c : m α} (h : Acting x y effect c) : Acting x y .free c :=
  { h with
    leads := fun _ _ _ _ => trivial
    fails := fun s e stands fails => ⟨(h.fails s e stands fails).1, fun _ _ => trivial⟩ }

variable [Content effect]

theorem pure {a : α} : Acting x x effect (Pure.pure a : m α) where
  leads s r t ends := by
    obtain ⟨-, rfl⟩ := ends_pure ends
    exact Content.refl _
  steady s r t stands ends := by
    obtain ⟨-, rfl⟩ := ends_pure ends
    exact stands
  fails _ _ _ fails := absurd fails Steps.fails_pure
  blind := .pure

theorem forM {f : α → m PUnit} {list : List α} (h : ∀ a ∈ list, Acting x x effect (f a)) :
    Acting x x effect (list.forM f) := by
  induction list with
  | nil => exact .pure
  | cons a rest ih =>
    exact .bind (h a List.mem_cons_self) fun _ => ih fun c hc => h c (List.mem_cons_of_mem a hc)

theorem mapM [LawfulMonad m] {f : α → m β} {list : List α}
    (h : ∀ a ∈ list, Acting x x effect (f a)) : Acting x x effect (list.mapM f) := by
  induction list with
  | nil => exact .pure
  | cons a rest ih =>
    rw [List.mapM_cons]
    exact .bind (h a List.mem_cons_self) fun _ =>
      .bind (ih fun c hc => h c (List.mem_cons_of_mem a hc)) fun _ => .pure

theorem optionForM {f : α → m PUnit} {o : Option α} (h : ∀ a ∈ o, Acting x x effect (f a)) :
    Acting x x effect (o.forM f) := by
  cases o with
  | none => exact .pure
  | some a => exact h a rfl

end Acting

end Rules

namespace Acting

variable {α : Type} {x y : Stance}

section Builders

variable {effect : Effect Builder}

theorem emit {c : Emit α} (leads : Relates effect.leads c)
    (steady : ∀ b a b', b.Stands x → Ends c b a b' → b'.Stands y) (blind : Blind c) :
    Acting x y effect c := ⟨leads, steady, fun _ _ _ => False.elim, blind⟩

theorem alter (leads : ∀ b, effect.leads b (f b)) (steady : ∀ b, b.Stands x → (f b).Stands y)
    (same : ∀ b, (f b.stripped).stripped = (f b).stripped) :
    Acting x y effect (modify f : Emit PUnit) := by
  refine .emit (.alter leads) (fun b _ _ stands ends => ?_) (.alter same)
  cases ends
  exact steady b stands

theorem alterBuild (leads : ∀ b, effect.leads b (f b)) (steady : ∀ b, b.Stands x → (f b).Stands y)
    (same : ∀ b, (f b.stripped).stripped = (f b).stripped) :
    Acting x y effect (modify f : Build PUnit) where
  leads b _ _ ends := by
    cases ends
    exact leads b
  steady b _ _ stands ends := by
    cases ends
    exact steady b stands
  fails _ _ _ fails := by
    obtain ⟨t, fails⟩ := fails
    cases fails
  blind := (Blind.alter same).up (n := Build)

theorem lookEmit {f : Builder → Emit α} (same : ∀ b : Builder, f b.stripped = f b)
    (h : ∀ b, Acting x y effect (f b)) : Acting x y effect (get >>= f) where
  leads b := (h b).leads b
  steady b := (h b).steady b
  fails b := (h b).fails b
  blind := .lookEmit same fun b => (h b).blind

theorem lookBuild {f : Builder → Build α} (same : ∀ b : Builder, f b.stripped = f b)
    (h : ∀ b, Acting x y effect (f b)) : Acting x y effect (get >>= f) where
  leads b := (h b).leads b
  steady b := (h b).steady b
  fails b := (h b).fails b
  blind := .lookFailing same fun b => (h b).blind

theorem failBuild (h : (Failure.generating cause none).wanted? = none) :
    Acting x y effect (Build.fail cause : Build α) where
  leads := .of_not_ends fun _ _ _ ends => by cases ends
  steady _ _ _ _ ends := by cases ends
  fails s e _ fails := by
    obtain ⟨t, fails⟩ := fails
    cases fails
    exact ⟨rfl, fun f wanted => by cases h.symm.trans wanted⟩
  blind := .throw

end Builders

section States

variable {effect : Effect State}

theorem failAt {span : Option Span} (h : (Failure.generating cause span).wanted? = none) :
    Acting x y effect (throw (.generating cause span) : Codegen α) where
  leads := .of_not_ends fun _ _ _ ends => by cases ends
  steady _ _ _ _ ends := by cases ends
  fails s e _ fails := by
    obtain ⟨t, fails⟩ := fails
    cases fails
    exact ⟨rfl, fun f wanted => by cases h.symm.trans wanted⟩
  blind := .throw

theorem fail (h : (Failure.generating cause none).wanted? = none) :
    Acting x y effect (Codegen.fail cause : Codegen α) := failAt h

/-- A change of the state by which no code is written. -/
theorem change {f : State → State} (leads : ∀ s, effect.leads s (f s))
    (code : ∀ s : State, s.builder.SameCode (f s).builder)
    (same : ∀ s, strip (f (strip s)) = strip (f s)) :
    Acting x x effect (modify f : Codegen PUnit) where
  leads := .remember leads
  steady s _ _ stands ends := by
    cases ends
    exact (code s).stands stands
  fails s e _ fails := by
    obtain ⟨t, fails⟩ := fails
    cases fails
  blind := .remember same

theorem remember {f : State → State} (leads : ∀ s, effect.leads s (f s))
    (apart : ∀ s b, f (replace s b) = replace (f s) b) :
    Acting x x effect (modify f : Codegen PUnit) := by
  have same : ∀ s, f s = replace (f s) s.builder := fun s => apart s s.builder
  refine .change leads (fun s => ?_) fun s => ?_
  · rw [same]
    exact ⟨rfl, rfl, rfl⟩
  · have bare : f (strip s) = replace (f s) s.builder.stripped := apart s _
    rw [bare, same]
    rfl

theorem lookState {f : State → Codegen α} (same : ∀ s : State, f (strip s) = f s)
    (h : ∀ s, Acting x y effect (f s)) : Acting x y effect (get >>= f) where
  leads s := (h s).leads s
  steady s := (h s).steady s
  fails s := (h s).fails s
  blind := .lookFailing same fun s => (h s).blind

theorem lookBuilder {f : Builder → Codegen α} (same : ∀ b : Builder, f b.stripped = f b)
    (h : ∀ b, Acting x y effect (f b)) : Acting x y effect (Codegen.builder >>= f) :=
  .lookState (f := fun s => f s.builder) (fun s => same s.builder) fun s => h s.builder

end States

theorem up {m n : Type → Type} [Monad m] [Monad n] [MonadLiftT m n] [Steps m Builder]
    [Steps n σ] [World σ] [Embeds m n σ] {inner : Effect Builder} [Content inner]
    {effect : Effect σ}
    (lift : ∀ s b, inner.leads (builder s) b → effect.leads s (replace s b)) {c : m α}
    (h : Acting x y inner c) : Acting x y effect (liftM c : n α) where
  leads := .up lift h.leads
  steady s a t stands ends := by
    obtain ⟨b, endsC, rfl⟩ := ends_lift m ends
    rw [builder_replace]
    exact h.steady _ a b stands endsC
  fails s e stands fails := (h.fails _ e stands (Embeds.fails_lift fails)).imp_right
    fun wants f wanted => absurd (wants f wanted) Content.wants
  blind := h.blind.up

end Acting

end ShaderGen
