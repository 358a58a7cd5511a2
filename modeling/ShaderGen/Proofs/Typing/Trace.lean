import Mathlib.Logic.Relation
import ShaderGen.Proofs.Typing.Termination
import ShaderGen.Proofs.Typing.Typed

/-!
# The course of code generation

`State.Step` lists all that a step of code generation can do to what is remembered about types: it
can build, bind a symbol, enter the pointer type for references to a structure, number the members
of a structure, or enter the type of one. A symbol that is a scalar and no parameter is bound once,
and the pointer type for references stays the one that was announced. A structure outside of any
layout gets its type once, if the lengths of the arrays among the members of structures are scalars.

A course of such steps is a `Trace`. It keeps the tables of types true (`Trace.regular`), and types
stay what they are (`Trace.keeps`).
-/

namespace ShaderGen

open Steps (Ends)

/-- A parameter of a function. -/
def Program.IsParameter (p : Program) (x : SymbolId) : Prop :=
  ∃ f ∈ p.functions, x ∈ f.parameters

/-- The symbol is a scalar, if it exists. -/
def Program.IsScalar (p : Program) (x : SymbolId) : Prop :=
  ∀ d, p.symbol? x = some d → d.type.isScalar

/-- The symbol is bound once. -/
structure Program.BoundOnce (p : Program) (x : SymbolId) : Prop where
  scalar : p.IsScalar x
  notParameter : ¬ p.IsParameter x

namespace State

/-- A step of the builder that binds nothing and enters no types. -/
structure Sparing (rel : Builder → Builder → Prop) (s t : State) : Prop where
  builder : rel s.builder t.builder
  bindings : t.bindings = s.bindings
  structTypes : t.structTypes = s.structTypes
  references : t.references = s.references
  memberTables : t.memberTables = s.memberTables

abbrev Modest : State → State → Prop := Sparing Builder.Progress

/-- A step of code generation. -/
inductive Step (p : Program) : State → State → Prop
  | modest {s t : State} (h : s.Modest t) : Step p s t
  | bind {s : State} {x : SymbolId} {binding : Binding}
      (once : p.BoundOnce x → s.bindings.lookup x = none) :
      Step p s { s with bindings := (x, binding) :: s.bindings }
  | refer {s : State} {id : StructId} {r : ReferencePointer}
      (same : ∀ r', s.references.lookup id = some r' → r'.type = r.type) :
      Step p s { s with references := (id, r) :: s.references }
  | number {s : State} {id : StructId} {decl : StructDecl} {underway : List StructId}
      (declared : p.struct? id = some decl) : Step p s
        { s with underway, memberTables := (id, p.numberMembers 0 decl.members) :: s.memberTables }
  | struct {s : State} {key : StructVariant} {type : Ident}
      (typed : Typed p s { basic := .struct key.id } key.packing key.rowMajor type)
      (listed : key.id ∈ s.typedStructs)
      (once : p.ScalarMemberLengths → key.packing.isExplicit = false →
        s.structTypes.lookup key = none) :
      Step p s { s with structTypes := (key, type) :: s.structTypes }

/-- What is remembered about types is true. -/
structure Regular (p : Program) (s : State) : Prop where
  tidy : s.builder.Tidy
  typed : ∀ key type, s.structTypes.lookup key = some type →
    Typed p s { basic := .struct key.id } key.packing key.rowMajor type
  listed : ∀ key type, s.structTypes.lookup key = some type → key.id ∈ s.typedStructs
  tables : ∀ id table, (id, table) ∈ s.memberTables →
    ∃ decl, p.struct? id = some decl ∧ table = p.numberMembers 0 decl.members

theorem Keeps.refl (s : State) : s.Keeps s :=
  ⟨.refl _, fun _ r found => ⟨r, found, rfl⟩, fun _ => id⟩

theorem Keeps.trans {s t u : State} (h : s.Keeps t) (g : t.Keeps u) : s.Keeps u where
  later := h.later.trans g.later
  references id r found := by
    obtain ⟨r', found', same⟩ := h.references id r found
    obtain ⟨r'', found'', same'⟩ := g.references id r' found'
    exact ⟨r'', found'', same'.trans same⟩
  typedStructs := List.Subset.trans h.typedStructs g.typedStructs

instance {rel : Builder → Builder → Prop} [IsPreorder Builder rel] :
    IsPreorder State (Sparing rel) where
  refl _ := ⟨refl_of rel _, rfl, rfl, rfl, rfl⟩
  trans _ _ _ h g := ⟨trans_of rel h.builder g.builder, g.bindings.trans h.bindings,
    g.structTypes.trans h.structTypes, g.references.trans h.references,
    g.memberTables.trans h.memberTables⟩

namespace Step

variable {p : Program} {s t : State}

theorem keeps (h : Step p s t) (regular : s.Regular p) : s.Keeps t := by
  cases h with
  | modest h =>
    refine ⟨(h.builder regular.tidy).2, fun id r found => ⟨r, h.references ▸ found, rfl⟩, ?_⟩
    rw [typedStructs, typedStructs, h.memberTables]
    exact fun _ => id
  | bind | struct => exact ⟨.refl _, fun _ r found => ⟨r, found, rfl⟩, fun _ => id⟩
  | number => exact ⟨.refl _, fun _ r found => ⟨r, found, rfl⟩, List.subset_cons_self _ _⟩
  | @refer id r same =>
    refine ⟨.refl _, fun id' r' found => ?_, fun _ mem => mem⟩
    by_cases other : id' = id
    · subst other
      exact ⟨r, by simp, (same r' found).symm⟩
    · exact ⟨r', (lookup_cons_of_ne other _ _).trans found, rfl⟩

theorem regular (h : Step p s t) (regular : s.Regular p) : t.Regular p := by
  have keeps := h.keeps regular
  have typed : ∀ key type, s.structTypes.lookup key = some type →
      Typed p t { basic := .struct key.id } key.packing key.rowMajor type :=
    fun key type found => (regular.typed key type found).kept regular.tidy keeps
  have listed : ∀ key type, s.structTypes.lookup key = some type → key.id ∈ t.typedStructs :=
    fun key type found => keeps.typedStructs (regular.listed key type found)
  cases h with
  | modest h =>
    exact ⟨(h.builder regular.tidy).1, fun key type found => typed key type (h.structTypes ▸ found),
      fun key type found => listed key type (h.structTypes ▸ found),
      h.memberTables ▸ regular.tables⟩
  | bind | refer => exact ⟨regular.tidy, typed, listed, regular.tables⟩
  | number declared =>
    refine ⟨regular.tidy, typed, listed, fun id table mem => ?_⟩
    rcases List.mem_cons.1 mem with same | old
    · cases same
      exact ⟨_, declared, rfl⟩
    · exact regular.tables id table old
  | struct new entered once =>
    refine ⟨regular.tidy, fun key type found => ?_, fun key type found => ?_, regular.tables⟩
    · rcases lookup_cons_cases found with ⟨rfl, rfl⟩ | old
      · exact new.kept regular.tidy keeps
      · exact typed key type old
    · rcases lookup_cons_cases found with ⟨rfl, rfl⟩ | old
      · exact entered
      · exact listed key type old

end Step

end State

/-- A course of steps of code generation. -/
abbrev Trace (p : Program) : State → State → Prop := Relation.ReflTransGen (State.Step p)

namespace Trace

variable {p : Program} {s t : State}

theorem regular (h : Trace p s t) (regular : s.Regular p) : t.Regular p := by
  induction h with
  | refl => exact regular
  | tail _ step ih => exact step.regular ih

theorem keeps (h : Trace p s t) (regular : s.Regular p) : s.Keeps t := by
  induction h with
  | refl => exact .refl s
  | tail before step ih => exact ih.trans (step.keeps (Trace.regular before regular))

/-- A symbol that is bound once stays bound to what it is. -/
theorem binding (h : Trace p s t) {x : SymbolId} (once : p.BoundOnce x) {binding : Binding}
    (found : s.bindings.lookup x = some binding) : t.bindings.lookup x = some binding := by
  induction h with
  | refl => exact found
  | @tail u v _ step ih =>
    cases step with
    | modest h => rw [h.bindings, ih]
    | @bind y other free =>
      have different : x ≠ y := by
        rintro rfl
        simp [free once] at ih
      exact (lookup_cons_of_ne different _ _).trans ih
    | refer | number | struct => exact ih

theorem structType (h : Trace p s t) (lengths : p.ScalarMemberLengths) {key : StructVariant}
    (plain : key.packing.isExplicit = false) {type : Ident}
    (found : s.structTypes.lookup key = some type) : t.structTypes.lookup key = some type := by
  induction h with
  | refl => exact found
  | @tail u v _ step ih =>
    cases step with
    | modest h => rw [h.structTypes, ih]
    | @struct key' type' _ _ once =>
      have different : key ≠ key' := by
        rintro rfl
        simp [once lengths plain] at ih
      exact (lookup_cons_of_ne different _ _).trans ih
    | refer | number | bind => exact ih

end Trace

/-! ## Steps that keep to the course -/

variable {rel : Builder → Builder → Prop}

namespace State

/-- Outside of any layout, types have been entered for some structures at most. -/
def SameKeys (keys : StructId → Prop) (s t : State) : Prop :=
  ∀ key : StructVariant, key.packing.isExplicit = false → ¬ keys key.id →
    t.structTypes.lookup key = s.structTypes.lookup key

/-- A regular state leads on to the other one. Outside of any layout, types are entered on the way
for some structures at most. -/
def Leads (p : Program) (keys : StructId → Prop) (s t : State) : Prop :=
  s.Regular p → Trace p s t ∧ (p.ScalarMemberLengths → s.SameKeys keys t)

variable {p : Program} {keys keys' : StructId → Prop} {s t u : State}

theorem SameKeys.trans (h : s.SameKeys keys t) (g : t.SameKeys keys u) : s.SameKeys keys u :=
  fun key plain other => (g key plain other).trans (h key plain other)

instance : IsPreorder State (Leads p keys) where
  refl _ _ := ⟨.refl, fun _ _ _ _ => rfl⟩
  trans _ _ _ h g regular := by
    obtain ⟨first, same⟩ := h regular
    obtain ⟨second, same'⟩ := g (first.regular regular)
    exact ⟨first.trans second, fun lengths => (same lengths).trans (same' lengths)⟩

theorem Sparing.leads (h : s.Modest t) : s.Leads p keys t :=
  fun _ => ⟨.single (.modest h), fun _ _ _ _ => by rw [h.structTypes]⟩

theorem Sparing.of_same [IsPreorder Builder rel] (builder : t.builder = s.builder)
    (bindings : t.bindings = s.bindings)
    (structTypes : t.structTypes = s.structTypes) (references : t.references = s.references)
    (memberTables : t.memberTables = s.memberTables) : s.Sparing rel t :=
  ⟨by rw [builder]; exact refl_of rel _, bindings, structTypes, references, memberTables⟩

end State

section Lift

variable {α : Type} {m : Type → Type} [Monad m] [MonadLiftT m Codegen] [Steps m Builder]
  [Embeds m Codegen State] {c : m α}

theorem sparing_lift (h : Relates rel c) : Relates (State.Sparing rel) (liftM c : Codegen α) := by
  intro s a t ends
  obtain ⟨b, endsC, rfl⟩ := ends_lift m ends
  exact ⟨h _ a b endsC, rfl, rfl, rfl, rfl⟩

theorem Builder.Makes.lift {post : α → Builder → Prop} (h : Builder.Makes c post) {p : Program}
    {s t : State} {a : α} (ends : Ends (liftM c : Codegen α) s a t) (regular : s.Regular p) :
    s.Modest t ∧ post a t.builder := by
  obtain ⟨b, endsC, rfl⟩ := ends_lift m ends
  obtain ⟨tidy, later, holds⟩ := h _ a b endsC regular.tidy
  exact ⟨⟨fun _ => ⟨tidy, later⟩, rfl, rfl, rfl, rfl⟩, holds⟩

/-- What has just been made is decorated. -/
theorem Builder.Brings.modest {c : Emit Ident} (h : Builder.Brings c) {f : Ident → Codegen α}
    {expected : Option Nat → Decoration → Decoration × Option Operand}
    (adorns : ∀ id, Relates (State.Sparing (Builder.Adorned (Builder.OwnNote id expected)))
      (f id)) :
    Relates State.Modest (liftM c >>= f : Codegen α) := by
  intro s a u ends
  obtain ⟨id, t, ⟨b, made, rfl⟩, second⟩ := Steps.ends_then (ends_lift Emit) ends
  have sparing := adorns id _ a u second
  exact { sparing with builder := h.adorned made sparing.builder }

end Lift

end ShaderGen
