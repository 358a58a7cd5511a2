import ShaderGen.Codegen.Type

/-!
# Following types further

Types are followed to a depth, and a step that needs more fails with a cause of its own. Where a
step does not fail so, more depth makes no difference: it ends in the same way and leaves the same
state (`Codegen.typeWithin_refines`). All that typing does with further types is to ask for them, so
each of its functions hands the comparison of two typers on.
-/

namespace ShaderGen

/-- The failure of a step that has run out of depth. -/
def Failure.outOfDepth : Failure := .generating .endless none

section Refines

variable {α β : Type}

/-- The second step ends as the first one does, unless that one runs out of depth. -/
def Refines (x y : Codegen α) : Prop := ∀ s, (∃ t, x s = .error .outOfDepth t) ∨ y s = x s

namespace Refines

theorem refl {x : Codegen α} : Refines x x := fun _ => .inr rfl

theorem bind {x y : Codegen α} {f g : α → Codegen β} (h : Refines x y)
    (rest : ∀ a, Refines (f a) (g a)) : Refines (x >>= f) (y >>= g) := by
  intro s
  change (∃ t, EStateM.bind x f s = _) ∨ EStateM.bind y g s = EStateM.bind x f s
  unfold EStateM.bind
  rcases h s with ⟨t, out⟩ | same
  · exact .inl ⟨t, by rw [out]⟩
  · rw [same]
    cases x s with
    | ok a t => exact rest a t
    | error e t => exact .inr rfl

theorem mapM {f g : α → Codegen β} (list : List α) (h : ∀ a, Refines (f a) (g a)) :
    Refines (list.mapM f) (list.mapM g) := by
  induction list with
  | nil => exact .refl
  | cons a list ih =>
    rw [List.mapM_cons, List.mapM_cons]
    exact .bind (h a) fun _ => .bind ih fun _ => .refl

end Refines

end Refines

namespace Codegen

variable {p : Program} {first second : Typer}

/-! ## Constants and symbols -/

theorem filledConstant_refines (h : ∀ r, Refines (first r) (second r)) (value : ConstantValue)
    (depth : Nat) (t : ShaderType) :
    Refines (filledConstant first value depth t) (filledConstant second value depth t) := by
  induction depth generalizing t with
  | zero => exact .refl
  | succ depth ih =>
    refine .bind (h _) fun type => ?_
    split
    · exact .refl
    · exact .bind (ih _) fun _ => .refl

mutual

theorem constant_refines (h : ∀ r, Refines (first r) (second r)) :
    (value : ConstantValue) → (t : ShaderType) →
    Refines (constant p first value t) (constant p second value t)
  | .composite parts, t => by
    rw [constant, constant]
    refine .bind (h _) fun type => .bind .refl fun types => ?_
    exact .bind (constants_refines h parts types) fun _ => .refl
  | .bool _, t | .int _, t | .uint _, t | .float _, t => by
    rw [constant, constant]
    exact filledConstant_refines h _ 3 t

theorem constants_refines (h : ∀ r, Refines (first r) (second r)) :
    (parts : List ConstantValue) → (types : List ShaderType) →
    Refines (constants p first parts types) (constants p second parts types)
  | [], _ | _ :: _, [] => .refl
  | part :: parts, t :: types => by
    rw [constants, constants]
    refine .bind (constant_refines h part t) fun id => ?_
    exact .bind (constants_refines h parts types) fun _ => .refl

end

section

variable (h : ∀ r, Refines (first r) (second r))
include h

theorem specConstant_refines (d : Symbol) :
    Refines (specConstant p first d) (specConstant p second d) := by
  refine .bind (h _) fun type => ?_
  split
  · exact .bind .refl fun types => .bind (constants_refines h _ types) fun _ => .refl
  · exact .refl

theorem newBinding_refines (x : SymbolId) (d : Symbol) :
    Refines (newBinding p first x d) (newBinding p second x d) := by
  unfold newBinding
  split
  · exact specConstant_refines h d
  split
  · exact .bind (h _) fun type => .bind (constant_refines h _ _) fun _ => .refl
  split
  · exact .bind .refl fun _ => .bind (h _) fun _ => .refl
  · exact .bind (h _) fun _ => .refl

theorem bindingOf_refines (x : SymbolId) :
    Refines (bindingOf p first x) (bindingOf p second x) := by
  refine .bind .refl fun s => ?_
  split
  · exact .refl
  · exact .bind .refl fun d => .bind (newBinding_refines h x d) fun _ => .refl

/-! ## Structures and references -/

variable (id : StructId)

theorem newStructType_refines (d : StructDecl) (use : StructUse) :
    Refines (newStructType p first id d use) (newStructType p second id d use) :=
  .bind .refl fun _ => .bind (.mapM _ fun _ => h _) fun _ => .refl

theorem structType_refines (use : StructUse) :
    Refines (structType p first id use) (structType p second id use) := by
  refine .bind .refl fun d => .bind .refl fun s => ?_
  split
  · exact .refl
  · exact .bind (newStructType_refines h id d use) fun _ => .refl
  · exact newStructType_refines h id d use

theorem referenceType_refines :
    Refines (referenceType p first id) (referenceType p second id) := by
  refine .bind .refl fun _ => .bind .refl fun s => ?_
  split
  · exact .refl
  split
  · exact .refl
  · exact .bind (.bind .refl fun d => structType_refines h id d.referentUse) fun _ => .refl

/-! ## Types -/

theorem elementType_refines (r : TypeRequest) :
    Refines (elementType p first r) (elementType p second r) := by
  unfold elementType
  split
  case h_7 | h_8 => exact structType_refines h _ _
  case h_11 => exact referenceType_refines h _
  all_goals exact .refl

theorem arrayOf_refines (size : ArraySize) (element : Ident) (stride : Option Nat)
    (lastMember : Bool) : Refines (arrayOf p first size element stride lastMember)
      (arrayOf p second size element stride lastMember) := by
  refine .bind .refl fun _ => ?_
  split
  · exact .refl
  · exact .bind (bindingOf_refines h _) fun _ => .refl
  · exact .refl

theorem typeWithDimensions_refines (r : TypeRequest) (dimensions : List ArraySize)
    (lastMember : Bool) : Refines (typeWithDimensions p first r dimensions lastMember)
      (typeWithDimensions p second r dimensions lastMember) := by
  induction dimensions generalizing lastMember with
  | nil => exact elementType_refines h r
  | cons size inner ih =>
    unfold typeWithDimensions
    split
    · exact .bind (structType_refines h _ _) fun _ => arrayOf_refines h _ _ _ _
    · exact .bind (ih _) fun _ => arrayOf_refines h _ _ _ _

end

/-- More depth changes nothing but running out of it. -/
theorem typeWithin_refines {depth depth' : Nat} (le : depth ≤ depth') (r : TypeRequest) :
    Refines (typeWithin p depth r) (typeWithin p depth' r) := by
  induction depth generalizing depth' r with
  | zero => exact fun s => .inl ⟨s, rfl⟩
  | succ depth ih =>
    obtain ⟨k, rfl⟩ := Nat.exists_eq_add_one_of_ne_zero (Nat.ne_zero_of_lt le)
    exact typeWithDimensions_refines (fun r => ih (Nat.le_of_succ_le_succ le) r) r _ _

end Codegen

end ShaderGen
