import Mathlib.Order.Defs.Unbundled
import ShaderGen.Proofs.Scope.Primitive

/-!
# Steps that keep to a relation

`Relates rel c` says that `c`, wherever it is started and if it succeeds, ends in a state that is
related to the first one. For a reflexive and transitive relation this is handed on by every way of
combining steps, so that a property of all code generation needs a proof only for the steps that
code generation is made of.
-/

namespace ShaderGen

open Steps (Ends)

section Logic

variable {m : Type → Type} {σ : Type} [Monad m] [Steps m σ] {α β : Type}

/-- The first and the last state of the step are related. -/
def Relates (rel : σ → σ → Prop) (c : m α) : Prop := ∀ s a t, Ends c s a t → rel s t

namespace Relates

variable {rel : σ → σ → Prop} {c : Prop}

theorem of_not_ends {x : m α} (h : ∀ s a t, ¬ Ends x s a t) : Relates rel x :=
  fun s a t ends => absurd ends (h s a t)

/-- Several steps that are made only under a condition, before what follows in either case. -/
theorem fork {_ : Decidable c} {x y : m β} (hy : Relates rel y)
    (hx : Relates rel y → Relates rel x) : Relates rel (if c then x else y) := by
  split
  · exact hx hy
  · exact hy

variable [IsPreorder σ rel]

theorem pure {a : α} : Relates rel (Pure.pure a : m α) := by
  intro s r t ends
  obtain ⟨-, rfl⟩ := Steps.ends_pure ends
  exact refl_of rel _

theorem bind {x : m α} {f : α → m β} (hx : Relates rel x) (hf : ∀ a, Relates rel (f a)) :
    Relates rel (x >>= f) := by
  intro s r u ends
  obtain ⟨a, t, first, second⟩ := Steps.ends_bind ends
  exact trans_of rel (hx s a t first) (hf a t r u second)

theorem forM {f : α → m PUnit} {list : List α} (h : ∀ a ∈ list, Relates rel (f a)) :
    Relates rel (list.forM f) := by
  induction list with
  | nil => exact .pure
  | cons a rest ih =>
    exact .bind (h a List.mem_cons_self) fun _ => ih fun c hc => h c (List.mem_cons_of_mem a hc)

theorem mapM [LawfulMonad m] {f : α → m β} {list : List α} (h : ∀ a ∈ list, Relates rel (f a)) :
    Relates rel (list.mapM f) := by
  induction list with
  | nil => exact .pure
  | cons a rest ih =>
    rw [List.mapM_cons]
    exact .bind (h a List.mem_cons_self) fun _ =>
      .bind (ih fun c hc => h c (List.mem_cons_of_mem a hc)) fun _ => .pure

theorem optionForM {f : α → m PUnit} {o : Option α} (h : ∀ a ∈ o, Relates rel (f a)) :
    Relates rel (o.forM f) := by
  cases o with
  | none => exact .pure
  | some a => exact h a rfl

theorem guard {_ : Decidable c} {x : m PUnit} {f : PUnit → m β} (hx : Relates rel x)
    (hf : Relates rel (f ⟨⟩)) : Relates rel (if c then x >>= f else f ⟨⟩) := by
  split
  · exact .bind hx fun _ => hf
  · exact hf

end Relates

end Logic

namespace Relates

variable {α : Type} {cause : Cause}

section Builders

variable {rel : Builder → Builder → Prop}

theorem alter {f : Builder → Builder} (h : ∀ b, rel b (f b)) :
    Relates rel (modify f : Emit PUnit) :=
  fun b _ _ ends => by
    cases ends
    exact h b

variable [IsPreorder Builder rel]

theorem getEmit : Relates rel (get : Emit Builder) := fun _ _ _ ends => by
  cases ends
  exact refl_of rel _

theorem getBuild : Relates rel (get : Build Builder) := fun _ _ _ ends => by
  cases ends
  exact refl_of rel _

end Builders

section States

variable {rel : State → State → Prop}

theorem fail : Relates rel (Codegen.fail cause : Codegen α) :=
  .of_not_ends fun _ _ _ ends => by cases ends

theorem remember {f : State → State} (h : ∀ s, rel s (f s)) :
    Relates rel (modify f : Codegen PUnit) := fun s _ _ ends => by
  cases ends
  exact h s

variable [IsPreorder State rel]

theorem getState : Relates rel (get : Codegen State) := fun _ _ _ ends => by
  cases ends
  exact refl_of rel _

theorem builder : Relates rel Codegen.builder := .bind .getState fun _ => .pure

end States

theorem up {m n : Type → Type} {σ : Type} [Monad m] [Monad n] [MonadLiftT m n] [Steps m Builder]
    [Steps n σ] [World σ] [Embeds m n σ] {inner : Builder → Builder → Prop} {rel : σ → σ → Prop}
    (lift : ∀ s b, inner (World.builder s) b → rel s (World.replace s b)) {c : m α}
    (h : Relates inner c) : Relates rel (liftM c : n α) := by
  intro s a t ends
  obtain ⟨b, endsC, rfl⟩ := ends_lift m ends
  exact lift s b (h _ a b endsC)

end Relates

end ShaderGen
