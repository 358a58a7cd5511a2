import ShaderGen.Codegen.Function
import ShaderGen.Proofs.Generation.Effect

/-!
# What steps do and keep

`Does effect before c after` is what is proved of the operations that code is generated by: `c`
keeps the ledger, as `Runs before c after` says, and it has no other effect than `effect`. The rules
are those for `Runs`, so that one proof that follows the steps of an operation gives both. Most code
is generated where a block takes instructions. But a type, a constant or a name is declared at
module scope, wherever code generation stands: the functions of the module and the place where their
code goes are as before.
`Provides` says so of a step.
-/

namespace ShaderGen

open Steps (Ends)

variable {cause : Cause} {c : Prop} {w : Stance}

/-! ## Steps that write no code -/

section Silent

variable {m : Type → Type} {σ : Type} [Monad m] [Steps m σ] [World σ] {α : Type}

theorem Builder.SameCode.refl (b : Builder) : b.SameCode b := ⟨rfl, rfl, rfl⟩

theorem Builder.SameCode.trans {b1 b2 b3 : Builder} (h : b1.SameCode b2) (g : b2.SameCode b3) :
    b1.SameCode b3 :=
  ⟨g.functions.trans h.functions, g.place.trans h.place, g.version.trans h.version⟩

/-- The functions of the module and the place where code goes are the same. -/
def World.SameCode (s t : σ) : Prop := (World.builder s).SameCode (World.builder t)

instance : IsPreorder σ World.SameCode where
  refl _ := .refl _
  trans _ _ _ := .trans

/-- Wherever the step is made, it keeps to the relation. -/
abbrev Keeps (w : Stance) (rel : σ → σ → Prop) (c : m α) : Prop := Acting w w (.only rel) c

/-- The step writes no code. -/
abbrev Silent (w : Stance) (c : m α) : Prop := Keeps w World.SameCode c

end Silent

theorem Silent.lift {α : Type} {c : Emit α} (h : Silent w c) :
    Silent w (liftM c : Build α) := .up (fun _ _ same => same) h

namespace Builder

theorem fresh_silent : Silent w fresh := by
  have same : Relates World.SameCode fresh := fun b _ _ ends => by
    cases ends
    exact ⟨rfl, rfl, rfl⟩
  refine .emit same (fun b a b' stands ends => (same b a b' ends).stands stands) ⟨?_, fun _ => id⟩
  intro b b' _ _ alike ends
  cases ends
  have alike : b.stripped = b'.stripped := alike
  have bound : b.output.bound = b'.output.bound := congrArg (·.output.bound) alike
  refine ⟨{ b' with output.bound := b'.output.bound + 1 }, by rw [bound]; rfl, ?_⟩
  exact congrArg (fun c : Builder => { c with output.bound := c.output.bound + 1 }) alike

theorem alter_silent {f : Builder → Builder} (code : ∀ b : Builder, b.SameCode (f b))
    (same : ∀ b, (f b.stripped).stripped = (f b).stripped) : Silent w (modify f : Emit PUnit) :=
  .alter code (fun b stands => (code b).stands stands) same

theorem appendGlobal_silent (i : Instruction) : Silent w (appendGlobal i) :=
  alter_silent (fun _ => ⟨rfl, rfl, rfl⟩) fun _ => rfl

end Builder

/-! ## Rules -/

section Rules

variable {m : Type → Type} {σ : Type} [Monad m] [Steps m σ] [World σ] {α β : Type}

/-- The step keeps the ledger, and it acts as the effect allows where it is made. -/
structure Does (effect : Effect σ) (before : List Fact) (c : m α) (after : α → List Fact)
    (w : Stance := .inside) : Prop where
  runs : Runs before c after
  acts : Acting w w effect c

/-- The step keeps the ledger and writes no code. -/
abbrev Provides (w : Stance) (before : List Fact) (c : m α) (after : α → List Fact) : Prop :=
  Does (.only World.SameCode) before c after w

variable {effect first : Effect σ} {before before' : List Fact} {after : α → List Fact}

theorem Provides.runs {x : m α} (h : Provides .outside before x after) : Runs before x after :=
    Does.runs h

theorem Provides.silent {x : m α} (h : Provides w before x after) : Silent w x := Does.acts h

namespace Does

/-- A step as the last one of several: fewer facts are needed before, and those from before still
hold after. -/
theorem last {x : m α} {out : α → List Fact} (hx : Does effect before' x out w)
    [p : Entails before before'] [q : ∀ a, Entails (out a ++ before) (after a)] :
    Does effect before x after w := ⟨hx.runs.last, hx.acts⟩

theorem learn {x : m α} (φ : Fact) (h : Gives before φ) (hx : Does effect (φ :: before) x after w) :
    Does effect before x after w := ⟨.learn φ h hx.runs, hx.acts⟩

theorem learnAll {x : m α} {facts : List Fact} (h : Entails before facts)
    (hx : Does effect (facts ++ before) x after w) : Does effect before x after w :=
  ⟨.learnAll h hx.runs, hx.acts⟩

/-- Two steps, the second of which may rely on what the first one gives. -/
theorem afterwards [Absorbs effect first] {x : m α} {f : α → m β} {out : β → List Fact}
    (hx : Does first before' x after w) [h : Entails before before']
    (hf : ∀ s a t, Ends x s a t → Does effect (after a ++ before) (f a) out w) :
    Does effect before (x >>= f) out w :=
  ⟨hx.runs.combine fun s a t ends => (hf s a t ends).runs,
    hx.acts.join Absorbs.toJoined fun s a t ends => (hf s a t ends).acts⟩

theorem bind [Absorbs effect first] {x : m α} {f : α → m β} {out : β → List Fact}
    (hx : Does first before' x after w) [h : Entails before before']
    (hf : ∀ a, Does effect (after a ++ before) (f a) out w) : Does effect before (x >>= f) out w :=
  .afterwards hx fun _ a _ _ => hf a

theorem next [Absorbs effect first] {x : m α} {f : α → m β} {out : β → List Fact}
    (hx : Does first before x after w) (hf : ∀ a, Does effect (after a ++ before) (f a) out w) :
    Does effect before (x >>= f) out w := .bind hx hf

/-- A step that is made only under a condition, and what follows in either case. -/
theorem guard [Absorbs effect first] {_ : Decidable c} {x : m PUnit} {f : PUnit → m β}
    {out : β → List Fact} (hx : c → Does first before' x (fun _ => []) w)
    (hf : Does effect before (f ⟨⟩) out w) [h : Entails before before'] :
    Does effect before (if c then x >>= f else f ⟨⟩) out w := by
  split
  · exact .bind (hx ‹c›) fun _ => hf.last
  · exact hf

/-- Several steps that are made only under a condition, before what follows in either case. -/
theorem fork {_ : Decidable c} {x y : m β} {out : β → List Fact} (hy : Does effect before y out w)
    (hx : c → Does effect before y out w → Does effect before x out w) :
    Does effect before (if c then x else y) out w := by
  split
  · exact hx ‹c› hy
  · exact hy

variable [Content effect]

theorem pure {a : α} [h : Entails before (after a)] :
    Does effect before (Pure.pure a : m α) after w :=
  ⟨.pure, .pure⟩

theorem mapM [LawfulMonad m] {f : α → m β} {list : List α} (out : β → List Fact)
    (h : ∀ a ∈ list, Does effect before (f a) out w) :
    Does effect before (list.mapM f) (fun rs => rs.flatMap out) w :=
  ⟨.mapM out fun a mem => (h a mem).runs, .mapM fun a mem => (h a mem).acts⟩

theorem mapFact [LawfulMonad m] {f : α → m β} {list : List α} (fact : β → Fact)
    (h : ∀ a ∈ list, Does effect before (f a) (fun r => [fact r]) w) :
    Does effect before (list.mapM f) (fun rs => rs.map fact) w :=
  ⟨.mapFact fact fun a mem => (h a mem).runs, .mapM fun a mem => (h a mem).acts⟩

theorem forM [LawfulMonad m] {f : α → m PUnit} {list : List α}
    (h : ∀ a ∈ list, Does effect before (f a) (fun _ => []) w) :
    Does effect before (list.forM f) (fun _ => []) w :=
  ⟨.forM fun a mem => (h a mem).runs, .forM fun a mem => (h a mem).acts⟩

theorem optionForM {f : α → m PUnit} {o : Option α}
    (h : ∀ a ∈ o, Does effect before (f a) (fun _ => []) w) :
    Does effect before (o.forM f) (fun _ => []) w :=
  ⟨.optionForM fun a mem => (h a mem).runs, .optionForM fun a mem => (h a mem).acts⟩

end Does

end Rules

namespace Does

variable {α β : Type} {before : List Fact} {after : α → List Fact}

section Builders

variable {effect : Effect Builder}

theorem failBuild (h : (Failure.generating cause none).wanted? = none) :
    Does effect before (Build.fail cause : Build α) after w := ⟨.failBuild, .failBuild h⟩

/-- The parts of a type are looked up, and what follows if it has some. -/
theorem partTypes {b : Builder} {type : Ident} {f : List Ident → Build α}
    (h : ∀ parts, b.partTypes type = .ok parts → Does effect before (f parts) after w) :
    Does effect before (Build.ofExcept (b.partTypes type) >>= f) after w := by
  cases found : b.partTypes type with
  | ok parts => exact h parts found
  | error cause =>
    refine .failBuild ?_
    unfold Builder.partTypes at found
    split at found
    · cases found
    · split at found
      · cases found
      · cases found
        rfl
    · cases found
      rfl

/-- A look at the builder, and what follows if it depends on nothing that is there for debugging. -/
theorem lookEmit {f : Builder → Emit α} (same : ∀ b : Builder, f b.stripped = f b)
    (h : ∀ b, Does effect (.tables b :: before) (f b) after w) :
    Does effect before (get >>= f) after w :=
  ⟨.bind .getEmit fun b => (h b).runs, .lookEmit same fun b => (h b).acts⟩

theorem lookBuild {f : Builder → Build α} (same : ∀ b : Builder, f b.stripped = f b)
    (h : ∀ b, Does effect (.tables b :: before) (f b) after w) :
    Does effect before (get >>= f) after w :=
  ⟨.bind .getBuild fun b => (h b).runs, .lookBuild same fun b => (h b).acts⟩

end Builders

section States

variable {effect : Effect State} {span : Span}

theorem fail (h : (Failure.generating cause none).wanted? = none) :
    Does effect before (Codegen.fail cause : Codegen α) after w := ⟨.fail, .fail h⟩

theorem failAt (h : (Failure.generating cause span).wanted? = none) :
    Does effect before (Codegen.failAt span cause : Codegen α) after w := ⟨.failAt, .failAt h⟩

/-- A check, and what follows if it is passed. -/
theorem ensure {_ : Decidable c} {f : PUnit → Codegen α}
    (h : (Failure.generating cause span).wanted? = none)
    (hf : ¬ c → Does effect before (f ⟨⟩) after w) :
    Does effect before (if c then Codegen.failAt span cause >>= f else f ⟨⟩) after w := by
  split
  · exact .failAt h
  · exact hf ‹_›

theorem lookState {f : State → Codegen α} (same : ∀ s : State, f (World.strip s) = f s)
    (h : ∀ s, Does effect (.records s :: .tables s.builder :: before) (f s) after w) :
    Does effect before (get >>= f) after w :=
  ⟨.bind .getState fun s => (h s).runs, .lookState same fun s => (h s).acts⟩

theorem lookBuilder {f : Builder → Codegen α} (same : ∀ b : Builder, f b.stripped = f b)
    (h : ∀ b, Does effect (.tables b :: before) (f b) after w) :
    Does effect before (Codegen.builder >>= f) after w :=
  ⟨.bind .builder fun b => (h b).runs, .lookBuilder same fun b => (h b).acts⟩

end States

end Does

end ShaderGen
